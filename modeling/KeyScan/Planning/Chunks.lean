import KeyScan.Config.Basic

/-!
Chunks of a list of keys: as even as can be, no smaller than the configuration asks for unless that
would take too many.
-/

namespace KeyScan.Planning

/-- Consecutive pieces of `size` elements, the first `extra` of which hold one more. -/
def pieces {α : Type} (size : Nat) : Nat → Nat → List α → List (List α)
  | 0, _, _ => []
  | count + 1, extra, xs =>
      let taken := if 0 < extra then size + 1 else size
      xs.take taken :: pieces size count (extra - 1) (xs.drop taken)

/-- The size aimed at: the smallest allowed, or what spreads the keys over the most chunks. -/
def chunkSize (config : PlannerConfig) (total : Nat) : Nat :=
  let least := max config.minChunkSize 1
  let most := max config.maxBatches 1
  if most < total / least then total / most else least

/-- Enough chunks of that size, but no more than allowed. -/
def chunkCount (config : PlannerConfig) (total : Nat) : Nat :=
  let size := chunkSize config total
  min (max ((total + size - 1) / size) 1) (max config.maxBatches 1)

/-- The keys in chunks whose sizes differ by at most one, larger ones first. -/
def chunks {α : Type} (config : PlannerConfig) (keys : List α) : List (List α) :=
  if keys.isEmpty then []
  else
    let count := chunkCount config keys.length
    pieces (keys.length / count) count (keys.length % count) keys

end KeyScan.Planning
