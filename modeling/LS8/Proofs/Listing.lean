import LS8.Proofs.Code
import LS8.Proofs.Footprint
import LS8.Proofs.StackBase
import LS8.Proofs.Tiling

/-!
# Listings and runs

A listing of memory and a machine decode the same bytes by the same table, so at every address with
a defined opcode the listing names the instruction that a step from there takes up, and its length.
Operands are another matter at the last two addresses: the machine fetches them round address zero
and the listing reads zero past the end. Therefore the text shows what the step fetches exactly when
no operand other than zero lies past the last address (`listing_shows_step_iff`).

Where a run goes straight on through an image that it has not overwritten, every step stands on the
next line of the image's listing, whatever the program has pushed elsewhere
(`listing_predicts_run`). The addresses on the lines do not wrap round, so this ends with the lines.
-/

namespace LS8

theorem Memory.getD_toList (memory : Memory) (n : ℕ) :
    memory.toList.getD n 0 = if n < memorySize then memory.read (UInt8.ofNat n) else 0 := by
  rw [List.getD_eq_getElem?_getD]
  split_ifs with h
  · obtain ⟨a, rfl⟩ : ∃ a : UInt8, a.toNat = n := ⟨UInt8.ofNat n, UInt8.toNat_ofNat_of_lt' h⟩
    rw [memory.getElem?_toList, UInt8.ofNat_toNat, Option.getD_some]
  · rw [List.getElem?_eq_none (by rw [memory.length_toList]; omega), Option.getD_none]

theorem Memory.stores_load (memory : Memory) (image : Image) :
    (memory.load image).Stores 0 image.bytes.toList := by
  intro n hn
  rw [Array.length_toList] at hn
  have hsize : n < memorySize := Nat.lt_of_lt_of_le hn image.size_le
  rw [UInt8.zero_add, Memory.read_load, UInt8.toNat_ofNat_of_lt' hsize]
  simp [hn]

namespace Listing

theorem statementAt_of_decode {bytes : List UInt8} {address : ℕ} {i : Instruction}
    (h : Instruction.decode (bytes.getD address 0) = some i) :
    statementAt bytes address
      = .instruction i (bytes.getD (address + 1) 0) (bytes.getD (address + 2) 0) := by
  simp only [List.getD_eq_getElem?_getD] at h ⊢
  simp [statementAt, Statement.ofBytes, List.getElem?_drop, h]

end Listing

theorem Core.pc_perform {c : Core} {op : Operation} (h : op.instruction.isJump = false) :
    (c.perform op).pc = c.pc + op.instruction.size := by
  cases op
  case halt | call | ret => cases h
  all_goals rfl

namespace Machine

variable {σ : Type} {m : Machine σ} {i : Instruction}

theorem fetch_eq_read (m : Machine σ) (d : ℕ) :
    m.fetch (UInt8.ofNat d) = m.memory.read (UInt8.ofNat (m.pc.toNat + d)) := by
  rw [fetch, UInt8.ofNat_add, UInt8.ofNat_toNat]

/-- Bytes that hold the opcode at the program counter show the fetched operands exactly when they
hold those too, as many as the opcode announces. -/
theorem text_statementAt_eq_iff {bytes : List UInt8}
    (defined : Instruction.decode (m.fetch 0) = some i)
    (opcode : bytes.getD m.pc.toNat 0 = m.fetch 0) :
    (Listing.statementAt bytes m.pc.toNat).text
        = (Statement.instruction i (m.fetch 1) (m.fetch 2)).text
      ↔ ∀ d, 1 ≤ d → d ≤ (operandCount i.opcode).toNat →
        bytes.getD (m.pc.toNat + d) 0 = m.fetch (UInt8.ofNat d) := by
  have hcount := i.operandCount_le
  rw [Listing.statementAt_of_decode (opcode ▸ defined), Statement.text_instruction_eq_iff]
  constructor
  · rintro ⟨hone, htwo⟩ d hd hle
    obtain rfl | rfl : d = 1 ∨ d = 2 := by omega
    · exact hone hle
    · exact htwo hle
  · exact fun h => ⟨h 1 (by omega), h 2 (by omega)⟩

variable [OutputSink σ]

theorem step_of_defined (running : m.halted = false)
    (defined : Instruction.decode (m.fetch 0) = some i) :
    (∃ op, op.instruction = i ∧ m.Completes op)
      ∨ ∃ fault, m.step.result = .error fault ∧ Event.faulted m.pc i fault ∈ m.step.events := by
  cases m.stepCase with
  | idle hh _ => simp [running] at hh
  | undefinedHalt _ hundef _ _ | undefinedSkip _ _ hundef _ _ _ => simp [defined] at hundef
  | badRegister j index _ hdec _ heq =>
    obtain rfl : i = j := by simpa [defined] using hdec
    exact .inr ⟨.invalidRegister index m.pc, by simp [heq], by simp [heq]⟩
  | refused r cause sink _ hdec _ _ heq =>
    obtain rfl : i = .prn := by simpa [defined] using hdec
    exact .inr ⟨.output cause, by simp [heq], by simp [heq]⟩
  | executed j op done hrun hdec hres hperf heq =>
    obtain rfl : i = j := by simpa [defined] using hdec
    exact .inl ⟨op, Operation.instruction_of_resolve hres,
      completes_of_perform hrun hdec hres hperf heq⟩

/-- A listing of memory names, at the program counter, the instruction that the step takes up and
its length. It shows the operand bytes that the step fetches exactly when those past the last
address are zero. -/
theorem listing_shows_step_iff (running : m.halted = false)
    (defined : Instruction.decode (m.fetch 0) = some i) :
    (∃ a b, Listing.statementAt m.memory.toList m.pc.toNat = .instruction i a b)
      ∧ (m.step.result = .ok (.executed i)
          ∧ (i.isJump = false → m.step.machine.pc = m.pc
            + UInt8.ofNat (Listing.statementAt m.memory.toList m.pc.toNat).size)
        ∨ ∃ fault, m.step.result = .error fault ∧ Event.faulted m.pc i fault ∈ m.step.events)
      ∧ ((Listing.statementAt m.memory.toList m.pc.toNat).text
          = (Statement.instruction i (m.fetch 1) (m.fetch 2)).text
        ↔ ∀ d, 1 ≤ d → d ≤ (operandCount i.opcode).toNat →
          memorySize ≤ m.pc.toNat + d → m.fetch (UInt8.ofNat d) = 0) := by
  have hopcode : m.memory.toList.getD m.pc.toNat 0 = m.fetch 0 := by
    rw [Memory.getD_toList, if_pos m.pc.toNat_lt, UInt8.ofNat_toNat, fetch_zero]
  have hstatement := Listing.statementAt_of_decode (hopcode ▸ defined)
  refine ⟨⟨_, _, hstatement⟩, ?_, ?_⟩
  · rcases step_of_defined running defined with ⟨op, rfl, hdone⟩ | hfault
    · refine .inl ⟨hdone.result, fun hstraight => ?_⟩
      have hpc : m.step.machine.pc = (m.core.perform op).pc := congrArg Core.pc hdone.core
      rw [hpc, Core.pc_perform hstraight, hstatement, Statement.size, UInt8.ofNat_toNat]
      rfl
    · exact .inr hfault
  · rw [text_statementAt_eq_iff defined hopcode]
    refine forall_congr' fun d => imp_congr_right fun _ => imp_congr_right fun _ => ?_
    rw [Memory.getD_toList, ← fetch_eq_read]
    split_ifs with hd
    · simp [hd]
    · simp [Nat.le_of_not_lt hd, eq_comm]

/-- A load of register one whose last operand lies at address zero. -/
def loadsAcross (value : UInt8) : Machine Collector :=
  { initial {} {} with
    pc := 0xFE
    memory := ((Memory.zero.write 0xFE 0x82).write 0xFF 1).write 0 value }

theorem listing_shows_step_iff_loadsAcross :
    (loadsAcross 0).halted = false
      ∧ Instruction.decode ((loadsAcross 0).fetch 0) = some .ldi
      ∧ (Listing.statementAt (loadsAcross 0).memory.toList 0xFE).text = "LDI R1, 0x00"
      ∧ (loadsAcross 0).step.machine.pc = 1 := by
  have hdefined : Instruction.decode ((loadsAcross 0).fetch 0) = some .ldi := by decide +kernel
  have hzero : ∀ d, 1 ≤ d → d ≤ (operandCount Instruction.ldi.opcode).toNat →
      memorySize ≤ (loadsAcross 0).pc.toNat + d → (loadsAcross 0).fetch (UInt8.ofNat d) = 0 := by
    intro d _ hle hpast
    obtain rfl : d = 2 := by
      have hcount : (operandCount Instruction.ldi.opcode).toNat = 2 := rfl
      have hpc : (loadsAcross 0).pc.toNat = 254 := rfl
      have hsize : memorySize = 256 := rfl
      omega
    decide +kernel
  obtain ⟨-, hstep, hshown⟩ := listing_shows_step_iff rfl hdefined
  refine ⟨rfl, hdefined, (hshown.2 hzero).trans (by decide +kernel), ?_⟩
  rcases hstep with ⟨-, hpc⟩ | ⟨fault, hfault, -⟩
  · exact (hpc rfl).trans (by decide +kernel)
  · cases hfault

/-- The listing shows a zero where the step loads an eight. -/
theorem listing_misreads_loadsAcross :
    (loadsAcross 8).step.result = .ok (.executed .ldi)
      ∧ (loadsAcross 8).step.machine.registers.get ⟨1, by decide⟩ = 8
      ∧ (Statement.instruction .ldi ((loadsAcross 8).fetch 1) ((loadsAcross 8).fetch 2)).text
        = "LDI R1, 0x08"
      ∧ (Listing.statementAt (loadsAcross 8).memory.toList (loadsAcross 8).pc.toNat).text
        = "LDI R1, 0x00" :=
  ⟨rfl, by decide +kernel, by decide +kernel, by decide +kernel⟩

/-! ## Straight runs -/

theorem read_after_of_not_mem_written {a : UInt8} : ∀ {n : ℕ}, a ∉ m.written n →
    (m.after n).memory.read a = m.memory.read a
  | 0, _ => rfl
  | n + 1, h => by
    rw [mem_written_succ, not_or, not_exists] at h
    obtain ⟨hbefore, hlast⟩ := h
    rw [after_succ, memory_step, ← read_after_of_not_mem_written hbefore]
    rcases hw : (m.after n).writes with _ | ⟨x, value⟩
    · rfl
    · have hne : x ≠ a := fun hx => hlast value (hx ▸ hw)
      exact Memory.read_write_of_ne _ _ hne

/-- The step after `k` others executes the instruction out of cells that hold the image and that no
step before has written. -/
structure ExecutesStored (m : Machine σ) (image : Image) (k : ℕ) (i : Instruction) : Prop where
  executed : (m.after k).step.result = .ok (.executed i)
  inside : (m.after k).pc.toNat + i.size.toNat ≤ image.bytes.size
  unwritten : ∀ d < i.size.toNat, (m.after k).pc + UInt8.ofNat d ∉ m.written k

/-- The first `n` steps execute instructions of the image as it was loaded, and all but the last one
go on behind themselves, so that only pushes can have written anything. -/
structure GoesStraight (m : Machine σ) (image : Image) (n : ℕ) : Prop where
  executes : ∀ k < n, ∃ i, m.ExecutesStored image k i
  straight : ∀ k i, k + 1 < n → (m.after k).step.result = .ok (.executed i) → i.isJump = false

variable {image : Image} {k n : ℕ}

namespace ExecutesStored

theorem defined (h : m.ExecutesStored image k i) :
    Instruction.decode ((m.after k).fetch 0) = some i := by
  obtain ⟨op, rfl, hdone⟩ := exists_completes h.executed
  obtain ⟨j, hdec, hres⟩ := operation?_eq_some_iff.1 hdone.operation
  rwa [Operation.instruction_of_resolve hres]

/-- The step finds the bytes of the image, as many as its instruction is long. -/
theorem getD_eq (h : m.ExecutesStored image k i) (stored : m.memory.Stores 0 image.bytes.toList)
    {d : ℕ} (hd : d < i.size.toNat) :
    image.bytes.toList.getD ((m.after k).pc.toNat + d) 0 = (m.after k).fetch (UInt8.ofNat d) := by
  have hlt : (m.after k).pc.toNat + d < image.bytes.toList.length := by
    rw [Array.length_toList]
    exact Nat.lt_of_lt_of_le (Nat.add_lt_add_left hd _) h.inside
  have hbyte := stored _ hlt
  rw [UInt8.zero_add, UInt8.ofNat_add, UInt8.ofNat_toNat] at hbyte
  rw [List.getD_eq_getElem?_getD, List.getElem?_eq_getElem hlt, Option.getD_some, ← hbyte]
  exact (read_after_of_not_mem_written (h.unwritten d hd)).symm

/-- From the program counter on, the listing of the image starts with the instruction as the step
fetches it, and goes on behind it. -/
theorem linesFrom_eq (h : m.ExecutesStored image k i)
    (stored : m.memory.Stores 0 image.bytes.toList) :
    Listing.linesFrom (m.after k).pc.toNat (image.bytes.toList.drop (m.after k).pc.toNat)
      = Listing.line (m.after k).pc.toNat
          (.instruction i ((m.after k).fetch 1) ((m.after k).fetch 2))
        :: Listing.linesFrom ((m.after k).pc.toNat + i.size.toNat)
          (image.bytes.toList.drop ((m.after k).pc.toNat + i.size.toNat)) := by
  have hsize := Instruction.toNat_size i
  have hopcode : image.bytes.toList.getD (m.after k).pc.toNat 0 = (m.after k).fetch 0 :=
    h.getD_eq stored i.size_pos
  have hstatement := Listing.statementAt_of_decode (hopcode ▸ h.defined)
  have htext := (text_statementAt_eq_iff h.defined hopcode).2 fun d _ hd =>
    h.getD_eq stored (by omega)
  have hlt : (m.after k).pc.toNat < image.bytes.toList.length := by
    have hpos := i.size_pos
    have hinside := h.inside
    rw [Array.length_toList]
    omega
  have hdrop := Listing.linesFrom_drop 0 hlt
  rw [Nat.zero_add, Nat.zero_add, Listing.line, htext, Listing.next, hstatement] at hdrop
  exact hdrop

end ExecutesStored

theorem GoesStraight.drop_lines (h : m.GoesStraight image n) (start : m.pc = 0)
    (stored : m.memory.Stores 0 image.bytes.toList) : ∀ {k : ℕ}, k < n →
      k < (Listing.lines image.bytes.toList).length →
        (Listing.lines image.bytes.toList).drop k
          = Listing.linesFrom (m.after k).pc.toNat
            (image.bytes.toList.drop (m.after k).pc.toNat)
  | 0, _, _ => by
    rw [after_zero, start]
    rfl
  | k + 1, hk, hline => by
    obtain ⟨i, hi⟩ := h.executes k (by omega)
    have ih := h.drop_lines start stored (k := k) (by omega) (by omega)
    rw [hi.linesFrom_eq stored] at ih
    have hnext := congrArg List.tail ih
    rw [List.tail_drop, List.tail_cons] at hnext
    -- There is a next line, so the instruction ends before the last address.
    have hlt : (m.after k).pc.toNat + i.size.toNat < memorySize := by
      by_contra hge
      have hpast : image.bytes.toList.length ≤ (m.after k).pc.toNat + i.size.toNat := by
        rw [Array.length_toList]
        exact Nat.le_trans image.size_le (Nat.le_of_not_lt hge)
      rw [List.drop_eq_nil_of_le hpast, Listing.linesFrom_nil, List.drop_eq_nil_iff] at hnext
      omega
    obtain ⟨op, rfl, hdone⟩ := exists_completes hi.executed
    have hpc : (m.after k).step.machine.pc = ((m.after k).core.perform op).pc :=
      congrArg Core.pc hdone.core
    have hsum : ((m.after k).pc + op.instruction.size).toNat
        = (m.after k).pc.toNat + op.instruction.size.toNat := by
      rw [UInt8.toNat_add]
      exact Nat.mod_eq_of_lt hlt
    rw [hnext, after_succ, hpc, Core.pc_perform (h.straight k _ hk hi.executed), ← hsum]
    rfl

/-- A run that goes straight on through an image keeps to its listing: as long as there are lines,
each step stands on the next one, which shows its address, its mnemonic and the operand bytes that
it uses. -/
theorem listing_predicts_run {sink : σ} {config : Config} {base : UInt8}
    (fresh : m = programmed sink config image base) (straight : m.GoesStraight image n) (hk : k < n)
    (hline : k < (Listing.lines image.bytes.toList).length) :
    ∃ op, (m.after k).Completes op
      ∧ op.HasOperands ((m.after k).fetch 1) ((m.after k).fetch 2)
      ∧ (Listing.lines image.bytes.toList)[k] = Listing.line (m.after k).pc.toNat
        (.instruction op.instruction ((m.after k).fetch 1) ((m.after k).fetch 2)) := by
  have start : m.pc = 0 := fresh ▸ rfl
  have stored : m.memory.Stores 0 image.bytes.toList := fresh ▸ Memory.zero.stores_load image
  obtain ⟨i, hi⟩ := straight.executes k hk
  obtain ⟨op, rfl, hdone⟩ := exists_completes hi.executed
  obtain ⟨j, -, hres⟩ := operation?_eq_some_iff.1 hdone.operation
  have hdrop := straight.drop_lines start stored hk hline
  rw [hi.linesFrom_eq stored, List.drop_eq_getElem_cons hline] at hdrop
  exact ⟨op, hdone, Operation.hasOperands_of_resolve hres, (List.cons.inj hdrop).1⟩

/-- A load, a push, a print and a halt, with a byte behind them that the push overwrites if the
stack starts at address nine. -/
def pushesBehind : Image :=
  ⟨#[0x82, 0, 8, 0x45, 0, 0x47, 0, 0x01, 0xFF], by decide⟩

theorem goesStraight_pushesBehind :
    (programmed ({} : Collector) {} pushesBehind 9).GoesStraight pushesBehind 4 := by
  have hsteps : ∀ k < 4,
      let m := (programmed ({} : Collector) {} pushesBehind 9).after k
      m.step.result = .ok (.executed ([.ldi, .push, .prn, .hlt].getD k .hlt))
        ∧ m.pc = [0, 3, 5, 7].getD k 0 := by decide +kernel
  have hwritten : ∀ k < 4, ∀ a ∈ (programmed ({} : Collector) {} pushesBehind 9).written k,
      a = 8 := by decide +kernel
  refine ⟨fun k hk => ⟨_, (hsteps k hk).1, ?_, fun d hd hmem => ?_⟩, fun k i hk hi => ?_⟩
  · rw [(hsteps k hk).2]
    revert k
    decide
  · have hcell := hwritten k hk _ hmem
    rw [(hsteps k hk).2] at hcell
    clear hmem
    revert d k
    decide
  · obtain rfl := Outcome.executed.inj (Except.ok.inj (hi.symm.trans (hsteps k (by omega)).1))
    clear hi
    replace hk : k < 3 := by omega
    revert k
    decide

theorem listing_predicts_run_pushesBehind :
    (programmed ({} : Collector) {} pushesBehind 9).GoesStraight pushesBehind 4
      ∧ ((programmed ({} : Collector) {} pushesBehind 9).after 2).memory.read 8 = 8
      ∧ ((programmed ({} : Collector) {} pushesBehind 9).after 2).pc = 5
      ∧ (Listing.lines pushesBehind.bytes.toList)[2]? = some "0x05: PRN R0" := by
  have hline : 2 < (Listing.lines pushesBehind.bytes.toList).length := by decide +kernel
  obtain ⟨op, hdone, -, hshown⟩ :=
    listing_predicts_run rfl goesStraight_pushesBehind (by decide : 2 < 4) hline
  obtain ⟨hop, hmemory, hpc, htext⟩ :
      let m := (programmed ({} : Collector) {} pushesBehind 9).after 2
      m.operation? = some (.print ⟨0, by decide⟩) ∧ m.memory.read 8 = 8 ∧ m.pc = 5
        ∧ Listing.line m.pc.toNat (.instruction .prn (m.fetch 1) (m.fetch 2)) = "0x05: PRN R0" := by
    decide +kernel
  obtain rfl := Option.some_inj.1 (hdone.operation.symm.trans hop)
  refine ⟨goesStraight_pushesBehind, hmemory, hpc, ?_⟩
  rw [List.getElem?_eq_getElem hline, hshown]
  exact congrArg some htext

end Machine

end LS8
