import KeyScan.Config.Basic

/-!
Attempts of an operation until one succeeds or the retries run out, with a delay before each retry.
The operation acts on a state and is told the number of the attempt.
-/

namespace KeyScan.Retry

/-- No attempt succeeded. -/
structure Exhausted where
  attempts : UInt32
  lastError : Error
  deriving DecidableEq, Repr

def Exhausted.message (exhausted : Exhausted) : String :=
  "operation failed after " ++ Text.ofInteger exhausted.attempts.toNat ++ " attempts: " ++
    exhausted.lastError.message

/-- What the attempts came to: their numbers, the delays between them, the result of the last and
the state it left. -/
structure Run (σ α : Type) where
  attempts : List UInt32
  delays : List UInt64
  result : Except Exhausted α
  state : σ

/-- An operation that may fail and acts on a state. -/
abbrev Operation (σ α : Type) := UInt32 → σ → Except Error α × σ

/-- A number below another of the same width has a next one. -/
theorem toNat_add_one_of_lt {attempt limit : UInt32} (h : attempt < limit) :
    (attempt + 1).toNat = attempt.toNat + 1 := by
  have hlimit := limit.toNat_lt
  rw [UInt32.lt_iff_toNat_lt] at h
  rw [UInt32.toNat_add, UInt32.toNat_one, Nat.mod_eq_of_lt (by omega)]

/-- The attempt of the given number and, while one fails whose number is below the limit, the next. -/
def attemptFrom {σ α : Type} (maxAttempts : UInt32) (backoff : UInt32 → UInt64)
    (operation : Operation σ α) (attempt : UInt32) (state : σ) : Run σ α :=
  match operation attempt state with
  | (.ok value, state) => ⟨[attempt], [], .ok value, state⟩
  | (.error error, state) =>
      if attempt ≥ maxAttempts then ⟨[attempt], [], .error ⟨attempt, error⟩, state⟩
      else
        let rest := attemptFrom maxAttempts backoff operation (attempt + 1) state
        { rest with
          attempts := attempt :: rest.attempts
          delays := backoff (attempt - 1) :: rest.delays }
termination_by maxAttempts.toNat - attempt.toNat
decreasing_by
  -- The number grows only while it is below the limit, so it does not wrap around.
  have hleft : attempt < maxAttempts := UInt32.not_le.mp ‹¬attempt ≥ maxAttempts›
  have hnext := toNat_add_one_of_lt hleft
  rw [UInt32.lt_iff_toNat_lt] at hleft
  omega

/-- As many attempts as allowed, at least one. -/
def run {σ α : Type} (maxAttempts : UInt32) (backoff : UInt32 → UInt64)
    (operation : Operation σ α) (state : σ) : Run σ α :=
  attemptFrom maxAttempts backoff operation 1 state

/-- Attempts and delays as configured. -/
def runWith {σ α : Type} (config : RetryConfig) (operation : Operation σ α) (state : σ) :
    Run σ α :=
  run config.maxAttempts config.backoff operation state

end KeyScan.Retry
