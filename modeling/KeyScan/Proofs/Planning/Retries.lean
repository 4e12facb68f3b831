import KeyScan.Planning.Retry

/-! # Attempts until one succeeds

Attempts are numbered while they fail, up to the limit, so that the numbers stay within 32 bits. What a
run comes to is settled by the outcomes alone: it stops at the first success, or at the limit. -/

namespace KeyScan

theorem RetryConfig.toNat_maxAttempts (config : RetryConfig) :
    config.maxAttempts.toNat = min (config.maxRetries.toNat + 1) 4294967295 := by
  rw [maxAttempts]
  split
  · rename_i hretries
    rw [Retry.toNat_add_one_of_lt hretries]
    rw [UInt32.lt_iff_toNat_lt] at hretries
    simp only [UInt32.reduceToNat] at hretries
    omega
  · rename_i hretries
    rw [UInt32.lt_iff_toNat_lt] at hretries
    simp only [UInt32.reduceToNat] at hretries ⊢
    omega

theorem RetryConfig.maxAttempts_pos (config : RetryConfig) : 0 < config.maxAttempts.toNat := by
  rw [toNat_maxAttempts]
  omega

namespace Retry

/-! ### Numbers of attempts -/

/-- As many numbers as asked for, in ascending order. -/
def numbersFrom (first count : Nat) : List UInt32 :=
  (List.range' first count).map UInt32.ofNat

theorem numbersFrom_succ (first count : Nat) :
    numbersFrom first (count + 1) = UInt32.ofNat first :: numbersFrom (first + 1) count := by
  rw [numbersFrom, List.range'_succ, List.map_cons, numbersFrom]

theorem numbersFrom_one_append_singleton (count : Nat) :
    numbersFrom 1 count ++ [UInt32.ofNat (count + 1)] = numbersFrom 1 (count + 1) := by
  rw [numbersFrom, numbersFrom, List.range'_1_concat, List.map_append, List.map_singleton,
    Nat.add_comm 1 count]

/-- Below the width of 32 bits no number wraps around. -/
theorem map_toNat_numbersFrom {first count : Nat} (h : first + count ≤ UInt32.size) :
    (numbersFrom first count).map UInt32.toNat = List.range' first count := by
  rw [numbersFrom, List.map_map]
  refine (List.map_congr_left fun number hnumber => ?_).trans (List.map_id _)
  have hlt := (List.mem_range'_1.mp hnumber).2
  exact UInt32.toNat_ofNat_of_lt' (Nat.lt_of_lt_of_le hlt h)

/-! ### One attempt and those after it -/

variable {σ α : Type} {maxAttempts : UInt32} {backoff : UInt32 → UInt64}
  {operation : Operation σ α} {attempt : UInt32} {state next : σ}

theorem attemptFrom_of_ok {value : α} (h : operation attempt state = (.ok value, next)) :
    attemptFrom maxAttempts backoff operation attempt state =
      ⟨[attempt], [], .ok value, next⟩ := by
  rw [attemptFrom, h]

theorem attemptFrom_of_last_error {error : Error} (hlast : maxAttempts ≤ attempt)
    (h : operation attempt state = (.error error, next)) :
    attemptFrom maxAttempts backoff operation attempt state =
      ⟨[attempt], [], .error ⟨attempt, error⟩, next⟩ := by
  rw [attemptFrom, h]
  exact if_pos hlast

theorem attemptFrom_of_error {error : Error} (hleft : attempt < maxAttempts)
    (h : operation attempt state = (.error error, next)) :
    attemptFrom maxAttempts backoff operation attempt state =
      { attemptFrom maxAttempts backoff operation (attempt + 1) next with
        attempts := attempt ::
          (attemptFrom maxAttempts backoff operation (attempt + 1) next).attempts
        delays := backoff (attempt - 1) ::
          (attemptFrom maxAttempts backoff operation (attempt + 1) next).delays } := by
  rw [attemptFrom, h]
  exact if_neg (UInt32.not_le.mpr hleft)

/-- What failed attempts keep, the attempt that succeeds starts from. -/
theorem attemptFrom_succeeds {P : σ → Prop} {Q : σ → Prop}
    (hfailure : ∀ attempt state error next, P state →
      operation attempt state = (.error error, next) → P next)
    (hsuccess : ∀ attempt state value next, P state →
      operation attempt state = (.ok value, next) → Q next)
    {value : α} (hstate : P state)
    (h : (attemptFrom maxAttempts backoff operation attempt state).result = .ok value) :
    Q (attemptFrom maxAttempts backoff operation attempt state).state := by
  fun_induction attemptFrom maxAttempts backoff operation attempt state with
  | case1 attempt state first next hattempt =>
      exact hsuccess attempt state first next hstate hattempt
  | case2 => simp at h
  | case3 attempt state error next hattempt hleft rest ih =>
      exact ih (hfailure attempt state error next hstate hattempt) h

/-! ### Failures before an attempt -/

/-- The run with failed attempts before it, each followed by a delay. -/
def Run.afterFailures (backoff : UInt32 → UInt64) (made failures : Nat) (rest : Run σ α) :
    Run σ α :=
  { rest with
    attempts := numbersFrom (made + 1) failures ++ rest.attempts
    delays := (numbersFrom made failures).map backoff ++ rest.delays }

/-- While attempts fail they are numbered on; what comes of the run is up to those after them. -/
theorem attemptFrom_of_failures (made : Nat) (states : Nat → σ) {failures : Nat}
    (hallowed : made + failures < maxAttempts.toNat)
    (hfail : ∀ i < failures, ∃ error,
      operation (UInt32.ofNat (made + i + 1)) (states i) = (.error error, states (i + 1))) :
    attemptFrom maxAttempts backoff operation (UInt32.ofNat (made + 1)) (states 0) =
      (attemptFrom maxAttempts backoff operation (UInt32.ofNat (made + failures + 1))
        (states failures)).afterFailures backoff made failures := by
  -- On the failures still to come: after the first, the states and the numbers begin one later.
  induction failures generalizing made states with
  | zero => rfl
  | succ failures ih =>
      obtain ⟨error, hfirst⟩ := hfail 0 (Nat.succ_pos failures)
      have hleft : UInt32.ofNat (made + 1) < maxAttempts := by
        have hwidth := maxAttempts.toNat_lt
        rw [UInt32.lt_iff_toNat_lt, UInt32.toNat_ofNat_of_lt' (by rw [UInt32.size]; omega)]
        omega
      have hnext : UInt32.ofNat (made + 1) + 1 = UInt32.ofNat (made + 1 + 1) := by simp
      have hlast : UInt32.ofNat (made + 1) - 1 = UInt32.ofNat made := by simp
      have hlater : ∀ i < failures, ∃ error,
          operation (UInt32.ofNat (made + 1 + i + 1)) (states (i + 1)) =
            (.error error, states (i + 1 + 1)) := by
        intro i hi
        rw [Nat.add_right_comm made 1 i]
        exact hfail (i + 1) (Nat.succ_lt_succ hi)
      rw [attemptFrom_of_error hleft hfirst, hnext, hlast,
        ih (made + 1) (fun i => states (i + 1)) (by omega) hlater,
        Nat.add_right_comm made 1 failures, Run.afterFailures,
        Run.afterFailures, numbersFrom_succ (made + 1), numbersFrom_succ made]
      rfl

variable {failures : Nat} {last : σ}

/-- The attempt that succeeds after others have failed is the last, if so many are allowed. -/
theorem run_of_success (states : Nat → σ) (hallowed : failures < maxAttempts.toNat)
    (hfail : ∀ i < failures, ∃ error,
      operation (UInt32.ofNat (i + 1)) (states i) = (.error error, states (i + 1)))
    {value : α}
    (hsuccess : operation (UInt32.ofNat (failures + 1)) (states failures) = (.ok value, last)) :
    run maxAttempts backoff operation (states 0) =
      ⟨numbersFrom 1 (failures + 1), (numbersFrom 0 failures).map backoff, .ok value, last⟩ := by
  change attemptFrom maxAttempts backoff operation (UInt32.ofNat (0 + 1)) (states 0) = _
  rw [attemptFrom_of_failures 0 states (by rwa [Nat.zero_add])
      (by simpa only [Nat.zero_add] using hfail), Nat.zero_add, attemptFrom_of_ok hsuccess,
    Run.afterFailures, List.append_nil, numbersFrom_one_append_singleton]

/-- Where every attempt fails, as many are made as are allowed, and the last one's error is told. -/
theorem run_of_failures (states : Nat → σ) (hallowed : failures + 1 = maxAttempts.toNat)
    (hfail : ∀ i < failures, ∃ error,
      operation (UInt32.ofNat (i + 1)) (states i) = (.error error, states (i + 1)))
    {error : Error} (hlast : operation maxAttempts (states failures) = (.error error, last)) :
    run maxAttempts backoff operation (states 0) =
      ⟨numbersFrom 1 (failures + 1), (numbersFrom 0 failures).map backoff,
        .error ⟨maxAttempts, error⟩, last⟩ := by
  have hnumber : UInt32.ofNat (failures + 1) = maxAttempts := by
    rw [hallowed, UInt32.ofNat_toNat]
  have hbelow : 0 + failures < maxAttempts.toNat := by omega
  change attemptFrom maxAttempts backoff operation (UInt32.ofNat (0 + 1)) (states 0) = _
  rw [attemptFrom_of_failures 0 states hbelow (by simpa only [Nat.zero_add] using hfail),
    Nat.zero_add, hnumber,
    attemptFrom_of_last_error (UInt32.le_refl maxAttempts) hlast, Run.afterFailures,
    List.append_nil, ← numbersFrom_one_append_singleton, hnumber]

/-! ### Where a run stops -/

/-- The state after so many attempts in a row, whatever comes of them. -/
def stateAfter (operation : Operation σ α) (start : σ) : Nat → σ
  | 0 => start
  | made + 1 => (operation (UInt32.ofNat (made + 1)) (stateAfter operation start made)).2

/-- What comes of the attempt of the given number, after all those before it. -/
def outcome (operation : Operation σ α) (start : σ) (attempt : Nat) : Except Error α :=
  (operation (UInt32.ofNat attempt) (stateAfter operation start (attempt - 1))).1

/-- The number of the first attempt that succeeds, or the limit if none up to it does. -/
def lastAttempt (limit : Nat) (outcome : Nat → Except Error α) : Nat :=
  ((List.range' 1 limit).find? fun attempt => (outcome attempt).isOk).getD limit

/-- The run is so many attempts, numbered from one on, with the delays of the retries between them. It
ends as the last of them does, whose error is told together with the limit. -/
structure Run.StopsAfter (maxAttempts : UInt32) (backoff : UInt32 → UInt64)
    (operation : Operation σ α) (start : σ) (made : Nat) (run : Run σ α) : Prop where
  allowed : 0 < made ∧ made ≤ maxAttempts.toNat
  attempts : run.attempts.map UInt32.toNat = List.range' 1 made
  delays : run.delays = (List.range (made - 1)).map fun retry => backoff (UInt32.ofNat retry)
  result : run.result = (outcome operation start made).mapError (Exhausted.mk maxAttempts)
  state : run.state = stateAfter operation start made

/-- A limit that is reached is the last attempt, unless an attempt before it succeeds. -/
theorem lastAttempt_cases {limit : Nat} (hlimit : 0 < limit) (outcome : Nat → Except Error α) :
    ∃ failures < limit, lastAttempt limit outcome = failures + 1 ∧
      (∀ i < failures, (outcome (i + 1)).isOk = false) ∧
      ((outcome (failures + 1)).isOk = true ∨ failures + 1 = limit) := by
  rw [lastAttempt]
  cases hfirst : (List.range' 1 limit).find? fun attempt => (outcome attempt).isOk with
  | some first =>
      obtain ⟨hok, hmem, hbefore⟩ := List.find?_range'_eq_some.mp hfirst
      obtain ⟨hpositive, hbound⟩ := List.mem_range'_1.mp hmem
      obtain ⟨failures, rfl⟩ : ∃ failures, first = failures + 1 := ⟨first - 1, by omega⟩
      refine ⟨failures, by omega, rfl, fun i hi => ?_, Or.inl hok⟩
      simpa using hbefore (i + 1) (by omega) (by omega)
  | none =>
      rw [List.find?_range'_eq_none] at hfirst
      refine ⟨limit - 1, by omega, (Nat.sub_add_cancel hlimit).symm, fun i hi => ?_,
        Or.inr (Nat.sub_add_cancel hlimit)⟩
      simpa using hfirst (i + 1) (by omega) (by omega)

variable {start : σ}

/-- An attempt that does not succeed fails with an error. -/
theorem exists_error_of_isOk_eq_false {made : Nat}
    (h : (outcome operation start (made + 1)).isOk = false) :
    ∃ error, operation (UInt32.ofNat (made + 1)) (stateAfter operation start made) =
      (.error error, stateAfter operation start (made + 1)) := by
  cases houtcome : outcome operation start (made + 1) with
  | ok value => simp [houtcome, Except.isOk, Except.toBool] at h
  | error error => exact ⟨error, Prod.ext houtcome rfl⟩

theorem stopsAfter_of_eq (hallowed : failures < maxAttempts.toNat)
    (hrun : run maxAttempts backoff operation start =
      ⟨numbersFrom 1 (failures + 1), (numbersFrom 0 failures).map backoff,
        (outcome operation start (failures + 1)).mapError (Exhausted.mk maxAttempts),
        stateAfter operation start (failures + 1)⟩) :
    (run maxAttempts backoff operation start).StopsAfter maxAttempts backoff operation start
      (failures + 1) := by
  have hwidth : 1 + (failures + 1) ≤ UInt32.size := by
    have hlimit := maxAttempts.toNat_lt
    rw [UInt32.size]
    omega
  rw [hrun]
  refine ⟨⟨Nat.succ_pos failures, hallowed⟩, map_toNat_numbersFrom hwidth, ?_, rfl, rfl⟩
  rw [Nat.add_sub_cancel, List.range_eq_range']
  exact List.map_map

/-- A run makes the attempts up to the first that succeeds, or as many as are allowed if none of those
does. No number wraps around, however high the limit. -/
theorem run_stopsAfter_lastAttempt (config : RetryConfig) (backoff : UInt32 → UInt64)
    (operation : Operation σ α) (start : σ) :
    (run config.maxAttempts backoff operation start).StopsAfter config.maxAttempts backoff
      operation start (lastAttempt config.maxAttempts.toNat (outcome operation start)) := by
  obtain ⟨failures, hallowed, hlast, hfail, hends⟩ :=
    lastAttempt_cases config.maxAttempts_pos (outcome operation start)
  have hfailures : ∀ i < failures, ∃ error,
      operation (UInt32.ofNat (i + 1)) (stateAfter operation start i) =
        (.error error, stateAfter operation start (i + 1)) :=
    fun i hi => exists_error_of_isOk_eq_false (hfail i hi)
  rw [hlast]
  refine stopsAfter_of_eq hallowed ?_
  cases houtcome : outcome operation start (failures + 1) with
  | ok value =>
      exact run_of_success (stateAfter operation start) hallowed hfailures (Prod.ext houtcome rfl)
  | error error =>
      have hlimit : failures + 1 = config.maxAttempts.toNat :=
        hends.resolve_left (by simp [houtcome, Except.isOk, Except.toBool])
      have hnumber : UInt32.ofNat (failures + 1) = config.maxAttempts := by
        rw [hlimit, UInt32.ofNat_toNat]
      refine run_of_failures (stateAfter operation start) hlimit hfailures (Prod.ext ?_ ?_)
      · rw [← hnumber]
        exact houtcome
      · rw [← hnumber]
        rfl

end Retry

end KeyScan
