import LS8.Machine.Run
import LS8.Proofs.Step
import Mathlib.Logic.Function.Iterate
import Mathlib.Tactic.SplitIfs

/-!
# Runs as iterated steps

`m.after n` is the machine after `n` steps and `m.log n` what these steps logged. A run from `m` is
over after `k` steps when the machine has halted by then or the last of them faulted, and all the
steps before went on (`Machine.EndsAt`). A run of at most `n` steps is over within them or leaves
the machine running after `n` (`runFor_cases`); a run without a limit has a report exactly when it
is over after some number of steps (`runToHalt_eq_some_iff`).
-/

namespace LS8

namespace Machine

variable {σ : Type} [OutputSink σ]

def after (m : Machine σ) (n : ℕ) : Machine σ :=
  (fun m => m.step.machine)^[n] m

def log (m : Machine σ) : ℕ → List Event
  | 0 => []
  | n + 1 => m.log n ++ (m.after n).step.events

@[simp] theorem after_zero (m : Machine σ) : m.after 0 = m := rfl

theorem after_succ (m : Machine σ) (n : ℕ) : m.after (n + 1) = (m.after n).step.machine :=
  Function.iterate_succ_apply' _ n m

theorem after_step (m : Machine σ) (n : ℕ) : m.step.machine.after n = m.after (n + 1) := rfl

theorem log_step (m : Machine σ) (n : ℕ) :
    m.step.events ++ m.step.machine.log n = m.log (n + 1) := by
  induction n with
  | zero => simp [log]
  | succ n ih =>
    rw [log, ← List.append_assoc, ih, after_step]
    rfl

theorem after_add (m : Machine σ) (a b : ℕ) : m.after (a + b) = (m.after a).after b := by
  unfold after
  rw [Nat.add_comm, Function.iterate_add_apply]

theorem log_add (m : Machine σ) (a b : ℕ) : m.log (a + b) = m.log a ++ (m.after a).log b := by
  induction b with
  | zero => simp [log]
  | succ b ih => rw [← Nat.add_assoc, log, log, ih, after_add, List.append_assoc]

theorem after_of_halted {m : Machine σ} (h : m.halted = true) (n : ℕ) : m.after n = m := by
  induction n with
  | zero => rfl
  | succ n ih => rw [after_succ, ih, step_of_halted h]

theorem running_before {m : Machine σ} {n k : ℕ} (h : (m.after n).halted = false) (hk : k ≤ n) :
    (m.after k).halted = false := by
  rcases hh : (m.after k).halted with _ | _
  · rfl
  · obtain ⟨d, rfl⟩ := Nat.exists_eq_add_of_le hk
    rw [after_add, after_of_halted hh] at h
    exact absurd hh (by simp [h])

/-- The first `n` steps find the machine running and none of them faults. -/
def Advances (m : Machine σ) (n : ℕ) : Prop :=
  ∀ k < n, (m.after k).halted = false ∧ ∃ o, (m.after k).step.result = .ok o

theorem advances_zero (m : Machine σ) : m.Advances 0 := fun _ hk => absurd hk (Nat.not_lt_zero _)

theorem advances_succ_iff {m : Machine σ} {n : ℕ} :
    m.Advances (n + 1)
      ↔ (m.halted = false ∧ ∃ o, m.step.result = .ok o) ∧ m.step.machine.Advances n := by
  refine ⟨fun h => ⟨h 0 (by omega), fun k hk => h (k + 1) (by omega)⟩, ?_⟩
  rintro ⟨h, hn⟩ k hk
  cases k with
  | zero => exact h
  | succ k => exact hn k (by omega)

theorem Advances.mono {m : Machine σ} {a b : ℕ} (h : m.Advances b) (hab : a ≤ b) : m.Advances a :=
  fun k hk => h k (by omega)

theorem advances_add_iff {m : Machine σ} {a b : ℕ} :
    m.Advances (a + b) ↔ m.Advances a ∧ (m.after a).Advances b := by
  constructor
  · intro h
    refine ⟨h.mono (Nat.le_add_right a b), fun k hk => ?_⟩
    rw [← after_add]
    exact h (a + k) (by omega)
  · rintro ⟨ha, hb⟩ k hk
    by_cases hka : k < a
    · exact ha k hka
    · obtain ⟨d, rfl⟩ := Nat.exists_eq_add_of_le (Nat.le_of_not_lt hka)
      rw [after_add]
      exact hb d (by omega)

/-- A run from the machine is over after so many steps, with this result. -/
inductive EndsAt (m : Machine σ) : ℕ → Except Fault Unit → Prop
  | halted {k : ℕ} (advances : m.Advances k) (halted : (m.after k).halted = true) :
      m.EndsAt k (.ok ())
  | faulted {k : ℕ} {fault : Fault} (advances : m.Advances k)
      (failed : (m.after k).step.result = .error fault) : m.EndsAt (k + 1) (.error fault)

theorem EndsAt.of_step {m : Machine σ} {k : ℕ} {r : Except Fault Unit} {o : Outcome}
    (hrun : m.halted = false) (ho : m.step.result = .ok o) (h : m.step.machine.EndsAt k r) :
    m.EndsAt (k + 1) r := by
  cases h with
  | halted ha hh => exact .halted (advances_succ_iff.2 ⟨⟨hrun, o, ho⟩, ha⟩) hh
  | faulted ha hf => exact .faulted (advances_succ_iff.2 ⟨⟨hrun, o, ho⟩, ha⟩) hf

theorem EndsAt.of_advances {m : Machine σ} {a k : ℕ} {r : Except Fault Unit} (ha : m.Advances a)
    (h : (m.after a).EndsAt k r) : m.EndsAt (a + k) r := by
  cases h with
  | halted hk hh => exact .halted (advances_add_iff.2 ⟨ha, hk⟩) (by rwa [after_add])
  | @faulted k fault hk hf =>
    rw [← after_add] at hf
    exact .faulted (advances_add_iff.2 ⟨ha, hk⟩) hf

theorem EndsAt.running_before {m : Machine σ} {k n : ℕ} {r : Except Fault Unit}
    (h : m.EndsAt k r) (hn : n < k) : m.Advances n ∧ (m.after n).halted = false := by
  cases h with
  | halted ha _ => exact ⟨ha.mono (by omega), (ha n hn).1⟩
  | @faulted k fault ha hf =>
    refine ⟨ha.mono (by omega), ?_⟩
    by_cases hlt : n < k
    · exact (ha n hlt).1
    · obtain rfl : n = k := by omega
      exact running_of_step_error hf

theorem EndsAt.halted_of_advances {m : Machine σ} {k n : ℕ} {r : Except Fault Unit}
    (h : m.EndsAt k r) (hn : k ≤ n) (ha : m.Advances n) :
    r = .ok () ∧ (m.after n).halted = true := by
  cases h with
  | halted _ hh =>
    refine ⟨rfl, ?_⟩
    by_cases hlt : k < n
    · exact absurd hh (by simp [(ha k hlt).1])
    · obtain rfl : k = n := by omega
      exact hh
  | @faulted k fault _ hf =>
    obtain ⟨-, o, ho⟩ := ha k hn
    rw [hf] at ho
    cases ho

theorem EndsAt.le {m : Machine σ} {j k : ℕ} {r s : Except Fault Unit} (hj : m.EndsAt j r)
    (hk : m.EndsAt k s) : j ≤ k := by
  by_contra hlt
  obtain ⟨ha, hrun⟩ := hj.running_before (Nat.lt_of_not_le hlt)
  exact absurd (hk.halted_of_advances (Nat.le_refl k) ha).2 (by simp [hrun])

theorem EndsAt.unique {m : Machine σ} {j k : ℕ} {r s : Except Fault Unit} (hj : m.EndsAt j r)
    (hk : m.EndsAt k s) : j = k ∧ r = s := by
  obtain rfl : j = k := Nat.le_antisymm (hj.le hk) (hk.le hj)
  refine ⟨rfl, ?_⟩
  cases hj with
  | halted ha _ => exact (hk.halted_of_advances (Nat.le_refl j) ha).1.symm
  | @faulted j fault ha hf =>
    cases hk with
    | halted ha' _ =>
      exact ((EndsAt.faulted ha hf).halted_of_advances (Nat.le_refl _) ha').1
    | faulted _ hf' =>
      rw [hf] at hf'
      cases hf'
      rfl

theorem runWithin_cases (limit : ℕ) : ∀ (left : ℕ) (m : Machine σ), left ≤ limit →
    (∃ k ≤ left, ∃ r, m.EndsAt k r ∧
        runWithin limit left m #[] = ⟨r.map fun _ => limit - left + k, m.after k, m.log k⟩)
      ∨ (m.Advances left ∧ (m.after left).halted = false ∧ runWithin limit left m #[]
        = ⟨.error (.stepLimitExceeded limit), m.after left, m.log left⟩)
  | 0, m, _ => by
    rcases hh : m.halted with _ | _
    · exact .inr ⟨m.advances_zero, hh, by simp [runWithin, hh, log]⟩
    · refine .inl ⟨0, Nat.le_refl _, .ok (), .halted m.advances_zero hh, ?_⟩
      simp [runWithin, hh, log, Except.map]
  | left + 1, m, hle => by
    rcases hh : m.halted with _ | _
    · rcases hs : m.step with ⟨fault | o, next, events⟩
      · refine .inl ⟨1, by omega, .error fault, ?_, ?_⟩
        · exact .faulted m.advances_zero (by rw [after_zero, hs])
        · simp [runWithin, hh, hs, log, after_succ, Except.map]
      · have hnext : m.step.machine = next := by rw [hs]
        have hevents : m.step.events = events := by rw [hs]
        have hrun : runWithin limit (left + 1) m #[]
            = Report.after events (runWithin limit left next #[]) := by
          simp only [runWithin, hh, hs, Bool.false_eq_true, if_false]
          rw [runWithin_log]
          simp
        rcases runWithin_cases limit left next (by omega) with
          ⟨k, hk, r, hends, heq⟩ | ⟨ha, hrunning, heq⟩
        · refine .inl ⟨k + 1, by omega, r, ?_, ?_⟩
          · exact .of_step (o := o) hh (by rw [hs]) (hnext ▸ hends)
          · rw [hrun, heq, ← log_step, ← after_step, hnext, hevents,
              show limit - (left + 1) + (k + 1) = limit - left + k by omega]
            rfl
        · refine .inr ⟨advances_succ_iff.2 ⟨⟨hh, o, by rw [hs]⟩, hnext ▸ ha⟩, ?_, ?_⟩
          · rw [← after_step, hnext]
            exact hrunning
          · rw [hrun, heq, ← log_step, ← after_step, hnext, hevents]
            rfl
    · refine .inl ⟨0, by omega, .ok (), .halted m.advances_zero hh, ?_⟩
      simp [runWithin, hh, log, Except.map]

theorem runFor_cases (m : Machine σ) (n : ℕ) :
    (∃ k ≤ n, ∃ r, m.EndsAt k r ∧ m.runFor n = ⟨r.map fun _ => k, m.after k, m.log k⟩)
      ∨ (m.Advances n ∧ (m.after n).halted = false
        ∧ m.runFor n = ⟨.error (.stepLimitExceeded n), m.after n, m.log n⟩) := by
  simpa [runFor] using runWithin_cases n n m (Nat.le_refl n)

theorem EndsAt.step_cases {m : Machine σ} {k : ℕ} {r : Except Fault Unit} (h : m.EndsAt k r) :
    (m.halted = true ∧ k = 0 ∧ r = .ok ())
      ∨ m.halted = false ∧ ((∃ fault, m.step.result = .error fault ∧ k = 1 ∧ r = .error fault)
        ∨ ∃ o j, m.step.result = .ok o ∧ k = j + 1 ∧ m.step.machine.EndsAt j r) := by
  cases h with
  | halted ha hh =>
    cases k with
    | zero => exact .inl ⟨hh, rfl, rfl⟩
    | succ j =>
      obtain ⟨⟨hrun, o, ho⟩, ha⟩ := advances_succ_iff.1 ha
      exact .inr ⟨hrun, .inr ⟨o, j, ho, rfl, .halted ha hh⟩⟩
  | @faulted k fault ha hf =>
    cases k with
    | zero =>
      exact .inr ⟨running_of_step_error hf, .inl ⟨fault, hf, rfl, rfl⟩⟩
    | succ j =>
      obtain ⟨⟨hrun, o, ho⟩, ha⟩ := advances_succ_iff.1 ha
      exact .inr ⟨hrun, .inr ⟨o, j + 1, ho, rfl, .faulted ha hf⟩⟩

theorem runToHalt_of_endsAt : ∀ {k : ℕ} {m : Machine σ} {r : Except Fault Unit},
    m.EndsAt k r → ∀ log : Array Event,
      m.runToHalt log = some ⟨r, m.after k, log.toList ++ m.log k⟩ := by
  intro k
  induction k with
  | zero =>
    intro m r h log
    rcases h.step_cases with ⟨hh, -, rfl⟩ | ⟨-, ⟨_, -, hk, -⟩ | ⟨_, _, -, hk, -⟩⟩
    · rw [runToHalt, if_pos hh]
      simp [Machine.log]
    · omega
    · omega
  | succ k ih =>
    intro m r h log
    rcases h.step_cases with ⟨-, hk, -⟩ | ⟨hrun, ⟨fault, hf, hk, rfl⟩ | ⟨o, j, ho, hk, hends⟩⟩
    · omega
    · obtain rfl : k = 0 := by omega
      rw [runToHalt, if_neg (by simp [hrun])]
      rcases hs : m.step with ⟨_ | _, next, events⟩ <;> rw [hs] at hf <;> cases hf
      simp [Machine.log, after_succ, hs]
    · obtain rfl : j = k := by omega
      rw [runToHalt, if_neg (by simp [hrun]), ← log_step, ← after_step, ← List.append_assoc]
      rcases hs : m.step with ⟨_ | _, next, events⟩ <;> rw [hs] at ho hends <;> cases ho
      simpa using ih hends (log ++ events)

theorem endsAt_of_runToHalt {m : Machine σ} {log : Array Event} {report : Report σ Unit}
    (h : m.runToHalt log = some report) :
    ∃ k r, m.EndsAt k r ∧ report = ⟨r, m.after k, log.toList ++ m.log k⟩ := by
  refine runToHalt.partial_correctness
    (fun m log report => ∃ k r, m.EndsAt k r ∧ report = ⟨r, m.after k, log.toList ++ m.log k⟩)
    (fun rest ih m log report h => ?_) m log report h
  split_ifs at h with hh
  · cases h
    exact ⟨0, .ok (), .halted m.advances_zero hh, by simp [Machine.log]⟩
  · rcases hs : m.step with ⟨fault | o, next, events⟩ <;> rw [hs] at h
    · cases h
      refine ⟨1, .error fault, .faulted m.advances_zero ?_, ?_⟩
      · rw [after_zero, hs]
      · simp [Machine.log, after_succ, hs]
    · obtain ⟨k, r, hends, rfl⟩ := ih _ _ _ h
      have hrun : m.halted = false := by simpa using hh
      refine ⟨k + 1, r, .of_step (o := o) hrun (by rw [hs]) (by rw [hs]; exact hends), ?_⟩
      simp [← log_step, ← after_step, hs]

theorem runToHalt_eq_some_iff {m : Machine σ} {report : Report σ Unit} :
    m.runToHalt #[] = some report
      ↔ ∃ k r, m.EndsAt k r ∧ report = ⟨r, m.after k, m.log k⟩ := by
  refine ⟨fun h => by simpa using endsAt_of_runToHalt h, ?_⟩
  rintro ⟨k, r, hends, rfl⟩
  simpa using runToHalt_of_endsAt hends #[]

theorem run_cases {m : Machine σ} {report : Report σ Unit} (h : m.run = some report) :
    (∃ k r, m.EndsAt k r ∧ report = ⟨r, m.after k, m.log k⟩)
      ∨ ∃ n, m.Advances n ∧ (m.after n).halted = false
        ∧ report = ⟨.error (.stepLimitExceeded n), m.after n, m.log n⟩ := by
  unfold run at h
  split at h
  · rename_i limit _
    cases h
    rcases m.runFor_cases limit.toNat with ⟨k, -, r, hends, heq⟩ | ⟨ha, hrun, heq⟩
    · refine .inl ⟨k, r, hends, ?_⟩
      rw [heq]
      cases r <;> rfl
    · exact .inr ⟨limit.toNat, ha, hrun, by rw [heq]; rfl⟩
  · exact .inl (runToHalt_eq_some_iff.1 h)

end Machine

end LS8
