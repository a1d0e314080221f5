import LS8.Proofs.Effect

/-!
# The footprint of a run

A run uses a cell of memory from outside when no step before has written it: these cells are the
footprint of the run (`Machine.footprint`). A program may write its own code, so the footprint is
taken step by step, and a step leaves the comparison of two machines intact as long as the cells it
uses hold the same bytes in both (`EqBesidesMemory.step`).

Two machines that are the same but for their memories, and whose memories agree on the footprint of
the first, run in step, and only cells that differed at the start and were not written differ later
(`footprint_decides`).
-/

namespace LS8

namespace Machine

variable {σ : Type}

/-- The machines differ in their memories at most. -/
structure EqBesidesMemory (a b : Machine σ) : Prop where
  config : a.config = b.config
  registers : a.registers = b.registers
  pc : a.pc = b.pc
  halted : a.halted = b.halted
  stats : a.stats = b.stats
  sink : a.sink = b.sink

variable [OutputSink σ]

/-- The cells that the first `n` steps write. -/
def written (m : Machine σ) : ℕ → List UInt8
  | 0 => []
  | n + 1 => m.written n ++ ((m.after n).writes.map Prod.fst).toList

/-- The cells that the first `n` steps use before one of them has written them. -/
def footprint (m : Machine σ) : ℕ → List UInt8
  | 0 => []
  | n + 1 => m.footprint n ++ (m.after n).uses.filter (· ∉ m.written n)

/-- After `k` steps the machines are the same but for cells that differed at the start and were not
written. -/
structure RunsInStep (a b : Machine σ) (k : ℕ) : Prop where
  same : (a.after k).EqBesidesMemory (b.after k)
  differ : ∀ x, (a.after k).memory.read x ≠ (b.after k).memory.read x →
    a.memory.read x ≠ b.memory.read x ∧ x ∉ a.written k

theorem EqBesidesMemory.alike {a b : Machine σ} (h : a.EqBesidesMemory b)
    (used : ∀ x ∈ a.uses, a.memory.read x = b.memory.read x) : a.Alike b where
  halted := h.halted
  policy := by rw [h.config]
  registers := h.registers
  pc := h.pc
  used := used
  answers := fun v => by rw [h.sink]

theorem EqBesidesMemory.step {a b : Machine σ} (h : a.EqBesidesMemory b)
    (used : ∀ x ∈ a.uses, a.memory.read x = b.memory.read x) :
    a.step.result = b.step.result ∧ a.step.machine.EqBesidesMemory b.step.machine := by
  have halike := h.alike used
  obtain ⟨hresult, hregs, hpc⟩ := halike.step
  refine ⟨hresult, ?_, hregs, hpc, ?_, ?_, ?_⟩
  · rw [config_step, config_step, h.config]
  · rw [halted_step, halted_step, hresult]
  · rw [stats_step, stats_step, hresult, h.stats]
  · rw [sink_step, sink_step, halike.handsOut_eq, h.sink]

theorem mem_written_succ {m : Machine σ} {n : ℕ} {a : UInt8} :
    a ∈ m.written (n + 1) ↔ a ∈ m.written n ∨ ∃ v, (m.after n).writes = some (a, v) := by
  rw [written, List.mem_append, Option.mem_toList, Option.map_eq_some_iff]
  refine or_congr_right ⟨?_, ?_⟩
  · rintro ⟨⟨x, v⟩, hw, rfl⟩
    exact ⟨v, hw⟩
  · rintro ⟨v, hw⟩
    exact ⟨_, hw, rfl⟩

theorem mem_footprint_succ {m : Machine σ} {n : ℕ} {a : UInt8} :
    a ∈ m.footprint (n + 1) ↔ a ∈ m.footprint n ∨ a ∈ (m.after n).uses ∧ a ∉ m.written n := by
  rw [footprint, List.mem_append, List.mem_filter, decide_eq_true_eq]

theorem footprint_mono (m : Machine σ) {j n : ℕ} (h : j ≤ n) {a : UInt8}
    (ha : a ∈ m.footprint j) : a ∈ m.footprint n := by
  induction h with
  | refl => exact ha
  | step _ ih => exact mem_footprint_succ.2 (.inl ih)

theorem read_store_of_ne {w : Option (UInt8 × UInt8)} {s t : Memory} {a : UInt8}
    (h : (s.store w).read a ≠ (t.store w).read a) :
    s.read a ≠ t.read a ∧ ∀ v, w ≠ some (a, v) := by
  rcases w with _ | ⟨x, value⟩
  · exact ⟨h, nofun⟩
  · simp only [Memory.store, Memory.read_write] at h
    split at h
    · exact absurd rfl h
    · rename_i hx
      exact ⟨h, fun v hv => hx (congrArg Prod.fst (Option.some_inj.1 hv))⟩

/-- A cell that a step uses holds the same byte in both memories: it was written by a step before,
or it belongs to the footprint. -/
theorem RunsInStep.agree_used {a b : Machine σ} {k n : ℕ} (h : RunsInStep a b k) (hk : k < n)
    (agree : ∀ x ∈ a.footprint n, a.memory.read x = b.memory.read x) :
    ∀ x ∈ (a.after k).uses, (a.after k).memory.read x = (b.after k).memory.read x := by
  intro x hx
  by_contra hne
  obtain ⟨hstart, hfresh⟩ := h.differ x hne
  exact hstart (agree x (a.footprint_mono hk (mem_footprint_succ.2 (.inr ⟨hx, hfresh⟩))))

theorem RunsInStep.step {a b : Machine σ} {k : ℕ} (h : RunsInStep a b k)
    (used : ∀ x ∈ (a.after k).uses, (a.after k).memory.read x = (b.after k).memory.read x) :
    RunsInStep a b (k + 1) := by
  have hwrites := (h.same.alike used).writes_eq
  refine ⟨?_, fun x hx => ?_⟩
  · rw [after_succ, after_succ]
    exact (h.same.step used).2
  · rw [after_succ, after_succ, memory_step, memory_step, ← hwrites] at hx
    obtain ⟨hne, hother⟩ := read_store_of_ne hx
    obtain ⟨hstart, hfresh⟩ := h.differ x hne
    refine ⟨hstart, fun hmem => ?_⟩
    rcases mem_written_succ.1 hmem with hmem | ⟨v, hv⟩
    · exact hfresh hmem
    · exact hother v hv

theorem runsInStep {a b : Machine σ} {n : ℕ} (same : a.EqBesidesMemory b)
    (agree : ∀ x ∈ a.footprint n, a.memory.read x = b.memory.read x) :
    ∀ k ≤ n, RunsInStep a b k
  | 0, _ => ⟨same, fun _ hx => ⟨hx, nofun⟩⟩
  | k + 1, hk => by
    have ih := runsInStep same agree k (by omega)
    exact ih.step (ih.agree_used hk agree)

/-! ## What a footprint leaves out -/

theorem uses_of_halt {m : Machine σ} (h : m.step.result = .ok (.executed .hlt)) :
    m.uses = [m.pc] ∧ m.step.machine.halted = true := by
  obtain ⟨op, hop, hdone⟩ := exists_completes h
  obtain rfl := Operation.instruction_eq_hlt_iff.1 hop
  refine ⟨?_, by rw [hdone.halted]; rfl⟩
  obtain ⟨i, hdec, hres⟩ := operation?_eq_some_iff.1 hdone.operation
  obtain rfl := Operation.instruction_of_resolve hres
  have hcells : m.instructionCells = [m.pc + UInt8.ofNat 0] := by
    unfold instructionCells
    rw [hdec]
    rfl
  have hzero : m.pc + UInt8.ofNat 0 = m.pc := by simp
  rw [uses, hcells, hzero, hdone.running, hdone.operation]
  rfl

theorem footprint_of_halt {m : Machine σ} {j : ℕ}
    (h : (m.after j).step.result = .ok (.executed .hlt)) :
    ∀ {n : ℕ} {a : UInt8}, a ∈ m.footprint n → a ∈ m.footprint j ∨ a = (m.after j).pc
  | 0, a, ha => absurd ha (List.not_mem_nil)
  | n + 1, a, ha => by
    rcases mem_footprint_succ.1 ha with ha | ⟨ha, hfresh⟩
    · exact footprint_of_halt h ha
    · obtain ⟨hcell, hhalted⟩ := uses_of_halt h
      rcases Nat.lt_trichotomy n j with hn | rfl | hn
      · exact .inl (m.footprint_mono hn (mem_footprint_succ.2 (.inr ⟨ha, hfresh⟩)))
      · rw [hcell] at ha
        exact .inr (List.mem_singleton.1 ha)
      · -- Behind the halt no step uses anything.
        obtain ⟨d, rfl⟩ := Nat.exists_eq_add_of_le (show j + 1 ≤ n from hn)
        have hlater : (m.after (j + 1 + d)).halted = true := by
          rw [after_add, after_succ, after_of_halted hhalted]
          exact hhalted
        rw [uses, if_pos hlater] at ha
        exact absurd ha List.not_mem_nil

/-- Machines that agree on the footprint of the first, and on all but memory, run in step: of what
lies outside, bytes that no opcode announces, cells that are not popped and all that follows a halt
among it, nothing shows. -/
theorem footprint_decides {a b : Machine σ} {n : ℕ} (same : a.EqBesidesMemory b)
    (agree : ∀ x ∈ a.footprint n, a.memory.read x = b.memory.read x) :
    (∀ k < n, (a.after k).step.result = (b.after k).step.result
        ∧ (a.after (k + 1)).memory = (a.after k).memory.store (a.after k).writes
        ∧ (b.after (k + 1)).memory = (b.after k).memory.store (a.after k).writes)
      ∧ (∀ k ≤ n, (a.after k).EqBesidesMemory (b.after k))
      ∧ (∀ k ≤ n, ∀ x, (a.after k).memory.read x ≠ (b.after k).memory.read x →
          a.memory.read x ≠ b.memory.read x ∧ x ∉ a.written k)
      ∧ (∀ k x, x ∈ (a.after k).uses ↔ (a.after k).halted = false
          ∧ ((∃ d ≤ (operandCount ((a.after k).fetch 0)).toNat,
              (Instruction.decode ((a.after k).fetch 0) = none → d = 0)
                ∧ x = (a.after k).pc + UInt8.ofNat d)
            ∨ x = (a.after k).registers.sp ∧ ((a.after k).step.result = .ok (.executed .pop)
              ∨ (a.after k).step.result = .ok (.executed .ret))))
      ∧ ∀ j, (a.after j).step.result = .ok (.executed .hlt) →
          ∀ x ∈ a.footprint n, x ∈ a.footprint j ∨ x = (a.after j).pc := by
  have hruns := runsInStep same agree
  refine ⟨fun k hk => ?_, fun k hk => (hruns k hk).same, fun k hk => (hruns k hk).differ,
    fun k x => mem_uses, fun j hj x hx => footprint_of_halt hj hx⟩
  have hused := (hruns k (Nat.le_of_lt hk)).agree_used hk agree
  have hk := (hruns k (Nat.le_of_lt hk)).same
  refine ⟨(hk.step hused).1, ?_, ?_⟩
  · rw [after_succ, memory_step]
  · rw [after_succ, memory_step, (hk.alike hused).writes_eq]

/-- A load, a push and a print, before three cells with `rest` in them. The push writes the opcode
of a halt to the first of these. -/
def pushesHalt (rest : UInt8) : Machine Collector :=
  let code := [(0, 0x82), (2, 0x01), (3, 0x45), (5, 0x47), (7, rest), (8, rest), (9, rest)]
  { initial ({} : Collector) { initialSp := 8 } with
    memory := code.foldl (fun memory cell => memory.write cell.1 cell.2) Memory.zero }

theorem footprint_decides_pushesHalt :
    (pushesHalt 0).EqBesidesMemory (pushesHalt 0x11)
      ∧ (pushesHalt 0).footprint 6 = [0, 1, 2, 3, 4, 5, 6]
      ∧ (∀ x ∈ (pushesHalt 0).footprint 6,
          (pushesHalt 0).memory.read x = (pushesHalt 0x11).memory.read x)
      ∧ ((pushesHalt 0x11).after 3).step.result = .ok (.executed .hlt)
      ∧ ((pushesHalt 0x11).after 6).sink = ((pushesHalt 0).after 6).sink
      ∧ ((pushesHalt 0).after 6).memory.read 7 = ((pushesHalt 0x11).after 6).memory.read 7 := by
  have hsame : (pushesHalt 0).EqBesidesMemory (pushesHalt 0x11) := ⟨rfl, rfl, rfl, rfl, rfl, rfl⟩
  have hcells : (pushesHalt 0).footprint 6 = [0, 1, 2, 3, 4, 5, 6] := by decide +kernel
  have hagree : ∀ x ∈ (pushesHalt 0).footprint 6,
      (pushesHalt 0).memory.read x = (pushesHalt 0x11).memory.read x := by
    rw [hcells]
    decide +kernel
  obtain ⟨hsteps, hmachines, hdiffer, -, -⟩ := footprint_decides hsame hagree
  refine ⟨hsame, hcells, hagree, ?_, (hmachines 6 (by omega)).sink.symm, ?_⟩
  · rw [← (hsteps 3 (by omega)).1]
    rfl
  · by_contra hne
    exact (hdiffer 6 (by omega) 7 hne).2 (by decide +kernel)

end Machine

end LS8
