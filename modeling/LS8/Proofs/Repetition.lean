import LS8.Proofs.Bounded
import LS8.Proofs.Effect
import Mathlib.Data.Fintype.BigOperators
import Mathlib.Data.Fintype.Pigeonhole

/-!
# Repetition

What a machine goes on to do hangs on its core and on whether it has halted, and on nothing it has
counted or printed before (`SameCourse.step`). So from a core met before, the run goes round for
ever (`sameCourse_after`), and since the 265 bytes of a core take finitely many values, a run that
never ends meets a core again (`exists_same_core`). Whether a machine halts is thereby decided within
`256 ^ 265` steps (`repetition_decides`).
-/

namespace LS8

theorem exists_lt_map_eq {α : Type} [Fintype α] (f : ℕ → α) :
    ∃ i j, i < j ∧ j ≤ Fintype.card α ∧ f i = f j := by
  obtain ⟨x, y, hne, heq⟩ := Fintype.exists_ne_map_eq_of_card_lt
    (fun n : Fin (Fintype.card α + 1) => f n) (by rw [Fintype.card_fin]; exact Nat.lt_succ_self _)
  rcases Nat.lt_or_gt_of_ne (Fin.val_ne_of_ne hne) with hlt | hlt
  · exact ⟨x, y, hlt, Nat.le_of_lt_succ y.isLt, heq⟩
  · exact ⟨y, x, hlt, Nat.le_of_lt_succ x.isLt, heq.symm⟩

namespace Core

/-- The bytes of a core: those of the memory, of the registers and of the program counter. -/
abbrev Bytes : Type :=
  (Fin memorySize → Fin 256) × (Register → Fin 256) × Fin 256

def bytes (c : Core) : Bytes :=
  (fun a => (c.memory.read (UInt8.ofFin a)).toFin, fun r => (c.registers.get r).toFin, c.pc.toFin)

theorem bytes_injective : Function.Injective bytes := by
  intro c d h
  simp only [bytes, Prod.mk.injEq, UInt8.toFin_inj] at h
  obtain ⟨hmemory, hregs, hpc⟩ := h
  refine Core.ext (Registers.ext_get fun r => ?_) (Memory.ext_read fun a => ?_) hpc
  · exact UInt8.toFin_inj.1 (congrFun hregs r)
  · exact UInt8.toFin_inj.1 (congrFun hmemory a.toFin)

theorem card_bytes : Fintype.card Bytes = 256 ^ 265 := by
  rw [Fintype.card_prod, Fintype.card_prod, Fintype.card_fun, Fintype.card_fun, Fintype.card_fin,
    Fintype.card_fin, ← pow_succ, ← pow_add]
  exact congrArg (256 ^ ·) (show 256 + (registerCount + 1) = 265 from rfl)

end Core

namespace Machine

variable {m : Machine Collector}

/-- The machines go on in the same way, whatever they have counted and printed. -/
structure SameCourse (a b : Machine Collector) : Prop where
  config : a.config = b.config
  halted : a.halted = b.halted
  core : a.core = b.core

theorem SameCourse.alike {a b : Machine Collector} (h : a.SameCourse b) : a.Alike b where
  halted := h.halted
  policy := by rw [h.config]
  registers := congrArg Core.registers h.core
  pc := congrArg Core.pc h.core
  used x _ := congrArg (fun c : Core => c.memory.read x) h.core
  answers _ := rfl

theorem SameCourse.step {a b : Machine Collector} (h : a.SameCourse b) :
    a.step.machine.SameCourse b.step.machine := by
  obtain ⟨hresult, hregs, hpc⟩ := h.alike.step
  have hmemory : a.memory = b.memory := congrArg Core.memory h.core
  refine ⟨?_, ?_, Core.ext hregs ?_ hpc⟩
  · rw [config_step, config_step, h.config]
  · rw [halted_step, halted_step, hresult]
  · show a.step.machine.memory = b.step.machine.memory
    rw [memory_step, memory_step, h.alike.writes_eq, hmemory]

theorem sameCourse_after {i j : ℕ} (h : (m.after i).SameCourse (m.after j)) :
    ∀ d, (m.after (i + d)).SameCourse (m.after (j + d))
  | 0 => h
  | d + 1 => by
    rw [← Nat.add_assoc, ← Nat.add_assoc, after_succ, after_succ]
    exact (sameCourse_after h d).step

theorem exists_same_core (m : Machine Collector) :
    ∃ i j, i < j ∧ j ≤ 256 ^ 265 ∧ (m.after i).core = (m.after j).core := by
  obtain ⟨i, j, hij, hj, heq⟩ := exists_lt_map_eq fun n => (m.after n).core.bytes
  rw [Core.card_bytes] at hj
  exact ⟨i, j, hij, hj, Core.bytes_injective heq⟩

/-- A machine that meets a core again while it runs never halts. -/
theorem running_of_sameCourse {i j : ℕ} (hij : i < j) (hj : (m.after j).halted = false)
    (h : (m.after i).SameCourse (m.after j)) (n : ℕ) : (m.after n).halted = false := by
  induction n using Nat.strong_induction_on with
  | _ n ih =>
    by_cases hn : n ≤ j
    · exact running_before hj hn
    · -- Behind `j` the machine halts no more than it did one round earlier.
      obtain ⟨d, rfl⟩ := Nat.exists_eq_add_of_le (Nat.le_of_not_le hn)
      rw [← (sameCourse_after h d).halted]
      exact ih (i + d) (by omega)

/-- A machine runs for ever exactly if it meets a core again, and then it goes round: outcomes,
printed values and cores repeat, and every bounded run uses up its steps. -/
theorem repetition_decides (m : Machine Collector) :
    ((∀ n, (m.after n).halted = false)
        ↔ ∃ i j, i < j ∧ j ≤ 256 ^ 265 ∧ (m.after i).halted = false
          ∧ (m.after j).halted = false ∧ (m.after i).core = (m.after j).core)
      ∧ ∀ i j, i < j → (m.after i).halted = false → (m.after j).halted = false →
        (m.after i).core = (m.after j).core →
          (∀ k, i ≤ k →
            (m.after (k + (j - i))).step.result = (m.after k).step.result
              ∧ (∃ printed,
                (m.after (k + 1)).sink.values.toList = (m.after k).sink.values.toList ++ printed
                  ∧ (m.after (k + (j - i) + 1)).sink.values.toList
                    = (m.after (k + (j - i))).sink.values.toList ++ printed)
              ∧ (m.after (k + (j - i))).core = (m.after k).core)
          ∧ ∀ n, (m.runFor n).result = .error (.stepLimitExceeded n) := by
  have hcourse : ∀ {i j}, (m.after i).halted = false → (m.after j).halted = false →
      (m.after i).core = (m.after j).core → (m.after i).SameCourse (m.after j) :=
    fun hi hj hcore => ⟨by rw [config_after, config_after], hi.trans hj.symm, hcore⟩
  refine ⟨⟨fun h => ?_, ?_⟩, fun i j hij hi hj hcore => ⟨fun k hk => ?_, fun n => ?_⟩⟩
  · obtain ⟨i, j, hij, hj, hcore⟩ := m.exists_same_core
    exact ⟨i, j, hij, hj, h i, h j, hcore⟩
  · rintro ⟨i, j, hij, -, hi, hj, hcore⟩
    exact running_of_sameCourse hij hj (hcourse hi hj hcore)
  · obtain ⟨d, rfl⟩ := Nat.exists_eq_add_of_le hk
    have hsame := sameCourse_after (hcourse hi hj hcore) d
    rw [show i + d + (j - i) = j + d by omega]
    refine ⟨hsame.alike.step.1.symm, ⟨(m.after (i + d)).handsOut.toList, ?_, ?_⟩, hsame.core.symm⟩
    · rw [after_succ, collected_step]
    · rw [after_succ, collected_step, hsame.alike.handsOut_eq]
  · have hrun := running_of_sameCourse hij hj (hcourse hi hj hcore) n
    rw [runFor_of_running (advances_of_running hrun) hrun]

/-- Prints a zero, pushes it and returns to it. -/
def printsForever : Machine Collector :=
  let code := [(0, 0x47), (2, 0x45), (4, 0x11)]
  { initial ({} : Collector) {} with
    memory := code.foldl (fun memory cell => memory.write cell.1 cell.2) Memory.zero }

theorem repetition_decides_printsForever :
    (printsForever.after 0).core = (printsForever.after 3).core
      ∧ (∀ n, (printsForever.after n).halted = false)
      ∧ (printsForever.after 6).step.result = .ok (.executed .prn)
      ∧ (printsForever.runFor 256).result = .error (.stepLimitExceeded 256) := by
  -- The kernel compares lists of cells far faster than vectors.
  have hcells : (printsForever.after 0).memory.cells = (printsForever.after 3).memory.cells :=
    Vector.toList_inj.1 (by decide +kernel)
  have hcore : (printsForever.after 0).core = (printsForever.after 3).core :=
    Core.ext (by decide +kernel) (congrArg Memory.mk hcells) (by decide +kernel)
  have hrun : (printsForever.after 3).halted = false := by decide +kernel
  obtain ⟨hforever, hround⟩ := repetition_decides printsForever
  obtain ⟨hlater, hbounded⟩ := hround 0 3 (by omega) rfl hrun hcore
  have hshort (n : ℕ) (hn : 3 ≤ n) : 3 ≤ 256 ^ n := hn.trans (Nat.lt_pow_self (by decide)).le
  refine ⟨hcore, hforever.2 ⟨0, 3, by omega, hshort 265 (by decide), rfl, hrun, hcore⟩, ?_, hbounded 256⟩
  rw [(hlater 3 (by omega)).1, (hlater 0 le_rfl).1]
  decide +kernel

end Machine

end LS8
