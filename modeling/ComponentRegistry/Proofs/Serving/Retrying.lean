import Mathlib.Data.ENat.Lattice
import ComponentRegistry.Proofs.Decimal.Doubling

/-! # Trying again

How many attempts are made, what becomes of the last of them, and how long the waits between them
are.
-/

namespace ComponentRegistry

namespace RetryPolicy

variable {α : Type} {call : ℕ → Except Failure α}

/-- The store could not be reached. -/
def Unreached (outcome : Except Failure α) : Prop :=
  ∃ reason, outcome = .error (.refused (.unavailable reason))

/-- How many attempts it takes to reach the store. -/
noncomputable def attemptsToReach (call : ℕ → Except Failure α) : ℕ∞ :=
  ⨅ (i : ℕ) (_ : ¬ Unreached (call i)), ((i + 1 : ℕ) : ℕ∞)

/-- There is always an attempt. -/
def mostAttempts (policy : RetryPolicy) : ℕ := (max 1 policy.attempts).toNat

/-- How many attempts there are to make: none after the store was reached, and no more than the
policy has. -/
noncomputable def attemptsToMake (policy : RetryPolicy) (call : ℕ → Except Failure α) : ℕ∞ :=
  min (attemptsToReach call) policy.mostAttempts

/-- Every two attempts have a wait between them, twice as long as the wait before it until the
longest is reached. -/
structure Run.Waits (policy : RetryPolicy) (run : Run α) : Prop where
  between : run.delays.length + 1 = run.calls
  doubled : ∀ i w, run.delays[i]? = some w → w.IsFinite ∧
    (w.value : WithTop ℚ) = min (policy.initialDelay.timesTwoTo i) policy.longestDelay.value

section Loop

variable {delay : ℕ → Except Failure Quantity} {w : ℕ → Quantity} {attempt m remaining : ℕ}

theorem runFrom_of_unreached (hcall : Unreached (call attempt))
    (hdelay : delay attempt = .ok (w attempt)) :
    runFrom delay call attempt (remaining + 1) =
      { runFrom delay call (attempt + 1) remaining with
        delays := w attempt :: (runFrom delay call (attempt + 1) remaining).delays } := by
  obtain ⟨reason, hcall⟩ := hcall
  rw [runFrom, hcall, hdelay]

theorem runFrom_of_reached (hcall : ¬ Unreached (call attempt)) (remaining : ℕ) :
    runFrom delay call attempt remaining = ⟨call attempt, attempt + 1, []⟩ := by
  cases remaining with
  | zero => rfl
  | succ remaining =>
    rw [runFrom]
    split
    · next reason hunavailable => exact absurd ⟨reason, hunavailable⟩ hcall
    · rfl

/-- Without a wait to follow it, an attempt is the last. -/
theorem runFrom_of_error {e : Failure} (hcall : Unreached (call attempt))
    (hdelay : delay attempt = .error e) :
    runFrom delay call attempt (remaining + 1) = ⟨.error e, attempt + 1, []⟩ := by
  obtain ⟨reason, hcall⟩ := hcall
  rw [runFrom, hcall, hdelay]

/-- Attempts in a row that do not reach the store only leave their waits. -/
theorem runFrom_add (hcalls : ∀ j < m, Unreached (call j))
    (hdelays : ∀ j < m, delay j = .ok (w j)) :
    runFrom delay call 0 (m + remaining) =
      { runFrom delay call m remaining with
        delays := (List.range m).map w ++ (runFrom delay call m remaining).delays } := by
  induction m generalizing remaining with
  | zero => simp
  | succ m ih =>
    rw [Nat.succ_add_eq_add_succ,
      ih (fun j hj => hcalls j (by omega)) fun j hj => hdelays j (by omega),
      runFrom_of_unreached (hcalls m (by omega)) (hdelays m (by omega)), List.range_succ]
    simp

end Loop

section Attempts

variable (policy : RetryPolicy)

theorem mostAttempts_eq : policy.mostAttempts = (policy.attempts - 1).toNat + 1 := by
  unfold mostAttempts
  omega

theorem attemptsToReach_eq {m : ℕ} (hreached : ¬ Unreached (call m))
    (hbefore : ∀ j < m, Unreached (call j)) : attemptsToReach call = ((m + 1 : ℕ) : ℕ∞) := by
  refine le_antisymm (iInf₂_le m hreached) (le_iInf₂ fun i hi => ?_)
  exact_mod_cast Nat.succ_le_succ (not_lt.1 fun hlt => hi (hbefore i hlt))

theorem le_attemptsToReach {n : ℕ} (hbefore : ∀ j < n, Unreached (call j)) :
    (n : ℕ∞) ≤ attemptsToReach call :=
  le_iInf₂ fun i hi => by
    exact_mod_cast (not_lt.1 fun hlt => hi (hbefore i hlt)).trans (Nat.le_succ i)

/-- The last attempt, counted from zero. -/
theorem exists_last (call : ℕ → Except Failure α) :
    ∃ m, ((m + 1 : ℕ) : ℕ∞) = policy.attemptsToMake call ∧ m + 1 ≤ policy.mostAttempts ∧
      (∀ j < m, Unreached (call j)) ∧
      (m + 1 = policy.mostAttempts ∨ ¬ Unreached (call m)) := by
  classical
  by_cases hreach : ∃ m, m + 1 ≤ policy.mostAttempts ∧ ¬ Unreached (call m)
  · have hbefore : ∀ j < Nat.find hreach, Unreached (call j) := fun j hj => by
      by_contra hj'
      have := (Nat.find_spec hreach).1
      exact Nat.find_min hreach hj ⟨by omega, hj'⟩
    obtain ⟨hle, hreached⟩ := Nat.find_spec hreach
    refine ⟨Nat.find hreach, ?_, hle, hbefore, .inr hreached⟩
    rw [attemptsToMake, attemptsToReach_eq hreached hbefore, min_eq_left (by exact_mod_cast hle)]
  · push Not at hreach
    have hmost := policy.mostAttempts_eq
    refine ⟨(policy.attempts - 1).toNat, ?_, hmost.ge, fun j hj => hreach j (by omega),
      .inl hmost.symm⟩
    rw [attemptsToMake, ← hmost]
    exact (min_eq_right (le_attemptsToReach fun j hj => hreach j hj)).symm

variable {policy}

theorem exists_delay (hinitial : policy.initialDelay.IsFinite)
    (hnonneg : 0 ≤ policy.initialDelay.value) (hlongest : policy.longestDelay.IsFinite) {i : ℕ}
    (hi : i < policy.initialDelay.doublings) :
    ∃ w, policy.delay i = .ok w ∧ w.IsFinite ∧ (w.value : WithTop ℚ) =
      min (policy.initialDelay.timesTwoTo i) policy.longestDelay.value := by
  obtain ⟨q, hdoubled, hvalue⟩ := Quantity.exists_doubled hinitial hnonneg hlongest hi
  refine ⟨q.least policy.longestDelay, ?_, hvalue⟩
  rw [delay, hdoubled]
  rfl

theorem delay_eq_overflow {i : ℕ} (hle : policy.initialDelay.doublings ≤ i) :
    policy.delay i = .error .overflow := by
  rw [delay, Quantity.doubled_eq_overflow hle]
  rfl

theorem waits_of_delays {w : ℕ → Quantity} {m : ℕ} (result : Except Failure α)
    (hw : ∀ i < m, (w i).IsFinite ∧ ((w i).value : WithTop ℚ) =
      min (policy.initialDelay.timesTwoTo i) policy.longestDelay.value) :
    Run.Waits policy ⟨result, m + 1, (List.range m).map w⟩ where
  between := by simp
  doubled i v hv := by
    obtain ⟨j, hj, rfl⟩ := Option.map_eq_some_iff.1 (List.getElem?_map .. ▸ hv)
    obtain ⟨hi, rfl⟩ := List.getElem?_eq_some_iff.1 hj
    rw [List.getElem_range]
    exact hw i (by simpa using hi)

end Attempts

section Run

variable {policy : RetryPolicy} {m : ℕ}

/-- A run that ends with an attempt. -/
theorem run_of_last (hinitial : policy.initialDelay.IsFinite)
    (hnonneg : 0 ≤ policy.initialDelay.value) (hlongest : policy.longestDelay.IsFinite)
    (hwithin : m ≤ policy.initialDelay.doublings) (hmost : m + 1 ≤ policy.mostAttempts)
    (hbefore : ∀ j < m, Unreached (call j))
    (hlast : m + 1 = policy.mostAttempts ∨ ¬ Unreached (call m)) :
    (policy.run call).Waits policy ∧ (policy.run call).calls = m + 1 ∧
      (policy.run call).result = call m := by
  have : Nonempty Quantity := ⟨policy.longestDelay⟩
  choose! w hw using fun i => exists_delay hinitial hnonneg hlongest (i := i)
  rw [mostAttempts_eq] at hmost hlast
  obtain ⟨r, hr⟩ : ∃ r, (policy.attempts - 1).toNat = m + r :=
    ⟨(policy.attempts - 1).toNat - m, by omega⟩
  have hend : runFrom (fun i : ℕ => policy.delay i) call m r = ⟨call m, m + 1, []⟩ := by
    obtain hnone | hreached := hlast
    · obtain rfl : r = 0 := by omega
      rfl
    · exact runFrom_of_reached hreached r
  have hrun : policy.run call = ⟨call m, m + 1, (List.range m).map w⟩ := by
    rw [run, hr, runFrom_add hbefore fun j hj => (hw j (hj.trans_le hwithin)).1, hend,
      List.append_nil]
  rw [hrun]
  exact ⟨waits_of_delays _ fun i hi => (hw i (hi.trans_le hwithin)).2, rfl, rfl⟩

/-- A run that ends with a delay that cannot be doubled again. -/
theorem run_of_overflow (hinitial : policy.initialDelay.IsFinite)
    (hnonneg : 0 ≤ policy.initialDelay.value) (hlongest : policy.longestDelay.IsFinite)
    (hmost : policy.initialDelay.doublings + 1 < policy.mostAttempts)
    (hcalls : ∀ j ≤ policy.initialDelay.doublings, Unreached (call j)) :
    (policy.run call).Waits policy ∧
      (policy.run call).calls = policy.initialDelay.doublings + 1 ∧
      (policy.run call).result = .error .overflow := by
  have : Nonempty Quantity := ⟨policy.longestDelay⟩
  choose! w hw using fun i => exists_delay hinitial hnonneg hlongest (i := i)
  rw [mostAttempts_eq] at hmost
  obtain ⟨r, hr⟩ : ∃ r, (policy.attempts - 1).toNat = policy.initialDelay.doublings + (r + 1) :=
    ⟨(policy.attempts - 1).toNat - policy.initialDelay.doublings - 1, by omega⟩
  have hend : runFrom (fun i : ℕ => policy.delay i) call policy.initialDelay.doublings (r + 1) =
      ⟨.error .overflow, policy.initialDelay.doublings + 1, []⟩ :=
    runFrom_of_error (hcalls _ le_rfl) (delay_eq_overflow le_rfl)
  have hrun : policy.run call = ⟨.error .overflow, policy.initialDelay.doublings + 1,
      (List.range policy.initialDelay.doublings).map w⟩ := by
    rw [run, hr, runFrom_add (fun j hj => hcalls j hj.le) fun j hj => (hw j hj).1, hend,
      List.append_nil]
  rw [hrun]
  exact ⟨waits_of_delays _ fun i hi => (hw i hi).2, rfl, rfl⟩

end Run

/-- Attempts are made until one of them reaches the store or none is left, and the last of them is
what comes out, as long as the first delay can be doubled that often. A run that has to double it
more often ends with an overflow instead of its next attempt. -/
theorem run_attempts (policy : RetryPolicy) (call : ℕ → Except Failure α)
    (hinitial : policy.initialDelay.IsFinite) (hnonneg : 0 ≤ policy.initialDelay.value)
    (hlongest : policy.longestDelay.IsFinite) :
    (policy.run call).Waits policy ∧
    (policy.attemptsToMake call ≤ policy.initialDelay.doublings + 1 →
      ((policy.run call).calls : ℕ∞) = policy.attemptsToMake call ∧
      (policy.run call).result = call ((policy.run call).calls - 1)) ∧
    (policy.initialDelay.doublings + 1 < policy.attemptsToMake call →
      (policy.run call).calls = policy.initialDelay.doublings + 1 ∧
      (policy.run call).result = .error .overflow) := by
  obtain ⟨m, hmake, hmost, hbefore, hlast⟩ := policy.exists_last call
  rw [← hmake]
  by_cases hwithin : m ≤ policy.initialDelay.doublings
  · obtain ⟨hwaits, hcalls, hresult⟩ :=
      run_of_last hinitial hnonneg hlongest hwithin hmost hbefore hlast
    refine ⟨hwaits, fun _ => ⟨by rw [hcalls], by rw [hcalls, hresult]; rfl⟩, fun hlt => ?_⟩
    exact absurd (by exact_mod_cast hlt) (Nat.not_lt.2 (Nat.succ_le_succ hwithin))
  · have hunreached : ∀ j ≤ policy.initialDelay.doublings, Unreached (call j) :=
      fun j hj => hbefore j (by omega)
    obtain ⟨hwaits, hend⟩ := run_of_overflow hinitial hnonneg hlongest (by omega) hunreached
    refine ⟨hwaits, fun hle => ?_, fun _ => hend⟩
    exact absurd (Nat.le_of_succ_le_succ (by exact_mod_cast hle)) hwithin

/-- A store that cannot be reached at first. -/
theorem run_attempts_locked :
    let policy : RetryPolicy := { attempts := 5 }
    let call : ℕ → Except Failure String := fun i =>
      if i < 2 then .error (.refused (.unavailable "database is locked")) else .ok "card"
    policy.initialDelay.IsFinite ∧ 0 ≤ policy.initialDelay.value ∧ policy.longestDelay.IsFinite ∧
      policy.attemptsToMake call = 3 ∧ (policy.run call).Waits policy ∧
      (policy.run call).calls = 3 ∧ (policy.run call).result = .ok "card" := by
  intro policy call
  have hinitial : policy.initialDelay.IsFinite := by decide +kernel
  have hnonneg : 0 ≤ policy.initialDelay.value := by decide +kernel
  have hlongest : policy.longestDelay.IsFinite := by decide +kernel
  have hmake : policy.attemptsToMake call = 3 := by
    rw [attemptsToMake, attemptsToReach_eq (m := 2) (by simp [Unreached])
      fun j hj => ⟨_, if_pos hj⟩]
    rfl
  obtain ⟨hwaits, hwithin, -⟩ := run_attempts policy call hinitial hnonneg hlongest
  obtain ⟨hcalls, hresult⟩ := hwithin (by rw [hmake]; exact_mod_cast Nat.le_add_left 3 1022)
  have hthree : (policy.run call).calls = 3 := by
    rw [hmake] at hcalls
    exact_mod_cast hcalls
  exact ⟨hinitial, hnonneg, hlongest, hmake, hwaits, hthree, by rw [hresult, hthree]; rfl⟩

/-- With enough attempts, a store that is never reached is not what comes out. -/
theorem run_attempts_overflows :
    let policy : RetryPolicy := { attempts := 1026 }
    let call : ℕ → Except Failure String := fun _ =>
      .error (.refused (.unavailable "database is locked"))
    policy.attemptsToMake call = 1026 ∧ (policy.run call).calls = 1025 ∧
      (policy.run call).result = .error .overflow ∧ ∀ i, (policy.run call).result ≠ call i := by
  intro policy call
  have hunreached : ∀ i, Unreached (call i) := fun i => ⟨_, rfl⟩
  have hearly : ∀ j ≤ policy.initialDelay.doublings, Unreached (call j) := fun j _ =>
    hunreached j
  obtain ⟨-, hcalls, hresult⟩ := run_of_overflow (by decide +kernel) (by decide +kernel)
    (by decide +kernel) (by decide +kernel) hearly
  refine ⟨?_, hcalls, hresult, fun i heq => ?_⟩
  · exact min_eq_right (le_attemptsToReach fun j _ => hunreached j)
  · rw [hresult] at heq
    cases heq

end RetryPolicy

end ComponentRegistry
