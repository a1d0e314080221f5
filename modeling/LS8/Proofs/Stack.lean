import LS8.Proofs.Core
import LS8.Proofs.Run
import Mathlib.Tactic.IntervalCases

/-!
# The stack in memory

Only a stack pointer and a ring of 256 cells stand for the stack, and nothing keeps a program from
writing over either. While a run changes the pointer by stack instructions alone, pops nothing it
has not pushed and never has more than 256 values pushed, `m.stack n` lists what its first `n` steps
have pushed and not popped, top first. The ring then holds exactly this list below where the pointer
started, the cell that a push writes is none that holds a value, and so pops and returns deliver the
list's head and no other cell changes (`stack_refines`).
-/

namespace LS8

namespace Core

/-- What the operation makes of the values on the stack, top first. -/
def stackAfter (c : Core) (stack : List UInt8) : Operation → List UInt8
  | .push r => (if r = .stackPointer then c.registers.sp - 1 else c.registers.get r) :: stack
  | .call _ => (c.pc + 2) :: stack
  | .pop _ | .ret => stack.tail
  | _ => stack

/-- The stack pointer lies as many cells below `base` as there are values, and the cells from it on
hold them. -/
structure Holds (c : Core) (base : UInt8) (stack : List UInt8) : Prop where
  sp : c.registers.sp = base - UInt8.ofNat stack.length
  cells : ∀ i (h : i < stack.length),
    c.memory.read (c.registers.sp + UInt8.ofNat i) = stack[i]

end Core

/-- The operation leaves the stack pointer to the stack instructions and takes nothing from an empty
stack. -/
def Operation.Disciplined (op : Operation) (stack : List UInt8) : Prop :=
  match op with
  | .load r _ | .compute _ r _ => r ≠ .stackPointer
  | .pop r => r ≠ .stackPointer ∧ stack ≠ []
  | .ret => stack ≠ []
  | .print _ | .halt | .push _ | .call _ => True

namespace Core

variable {c : Core} {base : UInt8} {stack : List UInt8}

/-- Up to a full ring, the cell below the stack pointer is none of those that hold a value. -/
theorem cell_below_ne {sp : UInt8} {i : ℕ} (h : i < 255) : sp - 1 ≠ sp + UInt8.ofNat i := by
  intro heq
  have hbyte : UInt8.ofNat i = 255 := by grind
  have hnat := congrArg UInt8.toNat hbyte
  simp at hnat
  omega

theorem Holds.pushed (h : c.Holds base stack) (hlen : stack.length < 256) {c' : Core} {v : UInt8}
    (hsp : c'.registers.sp = c.registers.sp - 1)
    (hmem : c'.memory = c.memory.write (c.registers.sp - 1) v) : c'.Holds base (v :: stack) := by
  refine ⟨?_, fun i hi => ?_⟩
  · rw [hsp, h.sp, List.length_cons, UInt8.ofNat_add]
    grind
  · rw [hsp, hmem]
    cases i with
    | zero => simp
    | succ i =>
      rw [List.length_cons] at hi
      have haddr : c.registers.sp - 1 + UInt8.ofNat (i + 1) = c.registers.sp + UInt8.ofNat i := by
        rw [UInt8.ofNat_add]
        grind
      rw [haddr, Memory.read_write_of_ne _ _ (cell_below_ne (by omega)), h.cells i (by omega)]
      rfl

theorem Holds.popped (h : c.Holds base stack) (hne : stack ≠ []) {c' : Core}
    (hsp : c'.registers.sp = c.registers.sp + 1) (hmem : c'.memory = c.memory) :
    c'.Holds base stack.tail := by
  obtain ⟨v, rest, rfl⟩ := List.exists_cons_of_ne_nil hne
  refine ⟨?_, fun i hi => ?_⟩
  · rw [hsp, h.sp, List.length_cons, UInt8.ofNat_add, List.tail_cons]
    grind
  · have haddr : c.registers.sp + 1 + UInt8.ofNat i = c.registers.sp + UInt8.ofNat (i + 1) := by
      rw [UInt8.ofNat_add]
      grind
    rw [List.tail_cons] at hi
    rw [hsp, hmem, haddr, h.cells (i + 1) (by simpa using hi)]
    rfl

theorem Holds.kept (h : c.Holds base stack) {c' : Core} (hsp : c'.registers.sp = c.registers.sp)
    (hmem : c'.memory = c.memory) : c'.Holds base stack :=
  ⟨hsp.trans h.sp, by rw [hsp, hmem]; exact h.cells⟩

theorem Holds.perform {op : Operation} (h : c.Holds base stack) (hop : op.Disciplined stack)
    (hlen : (c.stackAfter stack op).length ≤ 256) :
    (c.perform op).Holds base (c.stackAfter stack op) := by
  cases op with
  | load r value => exact h.kept (Registers.sp_set_of_ne _ _ hop) rfl
  | compute o r s => exact h.kept (Registers.sp_set_of_ne _ _ hop) rfl
  | print r => exact h.kept rfl rfl
  | halt => exact h.kept rfl rfl
  | push r =>
    refine h.pushed (Nat.lt_of_succ_le hlen) (Registers.sp_lowerSp _) ?_
    simp only [Core.perform, Registers.sp_lowerSp, Registers.get_lowerSp]
  | call r =>
    refine h.pushed (Nat.lt_of_succ_le hlen) (Registers.sp_lowerSp _) ?_
    simp only [Core.perform, Registers.sp_lowerSp, Operation.instruction, Instruction.size_eq]
  | pop r =>
    refine h.popped hop.2 ?_ rfl
    simp only [Core.perform, Registers.sp_raiseSp, Registers.sp_set_of_ne _ _ hop.1]
  | ret => exact h.popped hop (Registers.sp_raiseSp _) rfl

/-- Only the cell below the stack pointer is ever written, and only when the stack grows. -/
theorem read_perform (stack : List UInt8) {op : Operation} {a : UInt8}
    (h : (c.stackAfter stack op).length = stack.length + 1 → a ≠ c.registers.sp - 1) :
    (c.perform op).memory.read a = c.memory.read a := by
  cases op
  case push r | call r =>
    refine Memory.read_write_of_ne _ _ fun heq => h rfl ?_
    rw [← heq, Registers.sp_lowerSp]
  all_goals rfl

theorem Holds.head (h : c.Holds base stack) (hne : stack ≠ []) :
    stack.head? = some (c.memory.read c.registers.sp) := by
  obtain ⟨v, rest, rfl⟩ := List.exists_cons_of_ne_nil hne
  have hv := h.cells 0 (by simp)
  rw [List.head?_cons, Option.some_inj]
  simpa using hv.symm

/-- What lies at the bottom stays there while the stack is not lower. -/
theorem suffix_stackAfter {op : Operation} {bottom : List UInt8} (h : bottom <:+ stack)
    (hlen : bottom.length ≤ (c.stackAfter stack op).length) :
    bottom <:+ c.stackAfter stack op := by
  have htail : bottom.length ≤ stack.tail.length → bottom <:+ stack.tail := by
    intro hle
    rcases stack with _ | ⟨v, rest⟩
    · exact h
    · rcases List.suffix_cons_iff.1 h with rfl | hrest
      · exact absurd hle (Nat.not_succ_le_self _)
      · exact hrest
  cases op with
  | push r | call r => exact h.trans (List.suffix_cons _ _)
  | pop r | ret => exact htail hlen
  | _ => exact h

end Core

namespace Machine

variable {σ : Type} [OutputSink σ]

def stack (m : Machine σ) : ℕ → List UInt8
  | 0 => []
  | n + 1 =>
    match (m.after n).operation? with
    | some op => (m.after n).core.stackAfter (m.stack n) op
    | none => m.stack n

/-- The greatest number of values on the stack within the first `n` steps. -/
def deepest (m : Machine σ) : ℕ → ℕ
  | 0 => 0
  | n + 1 => max (m.deepest n) (m.stack (n + 1)).length

/-- The first `n` steps execute instructions that keep to the discipline of the stack and never fill
more than the ring. -/
structure KeepsStack (m : Machine σ) (n : ℕ) : Prop where
  executed : ∀ k < n, ∃ i, (m.after k).step.result = .ok (.executed i)
  disciplined : ∀ k < n, ∀ op, (m.after k).operation? = some op → op.Disciplined (m.stack k)
  bounded : ∀ k ≤ n, (m.stack k).length ≤ 256

/-- Step `k` finds the stack as low again as step `j` left it, and in between it was never lower. -/
def Encloses (m : Machine σ) (j k : ℕ) : Prop :=
  j < k ∧ (m.stack k).length = (m.stack (j + 1)).length
    ∧ ∀ i, j < i → i ≤ k → (m.stack (j + 1)).length ≤ (m.stack i).length

variable {m : Machine σ} {n : ℕ}

theorem stack_succ {k : ℕ} {op : Operation} (h : (m.after k).operation? = some op) :
    m.stack (k + 1) = (m.after k).core.stackAfter (m.stack k) op := by
  simp only [stack, h]

theorem stack_suffix {j : ℕ} : ∀ d : ℕ,
    (∀ i ≤ d, (m.stack j).length ≤ (m.stack (j + i)).length) → m.stack j <:+ m.stack (j + d)
  | 0, _ => List.suffix_refl _
  | d + 1, h => by
    have ih := stack_suffix d fun i hi => h i (by omega)
    have hlen := h (d + 1) (Nat.le_refl _)
    rw [← Nat.add_assoc, stack] at hlen ⊢
    split at hlen
    · exact Core.suffix_stackAfter ih hlen
    · exact ih

theorem Encloses.stack_eq {j k : ℕ} (h : m.Encloses j k) : m.stack k = m.stack (j + 1) := by
  obtain ⟨hjk, hlen, hle⟩ := h
  obtain ⟨d, rfl⟩ := Nat.exists_eq_add_of_le (show j + 1 ≤ k by omega)
  have hsuffix := stack_suffix (m := m) (j := j + 1) d fun i hi => hle _ (by omega) (by omega)
  exact (hsuffix.eq_of_length hlen.symm).symm

theorem KeepsStack.completes (h : m.KeepsStack n) {k : ℕ} (hk : k < n) :
    ∃ op, (m.after k).Completes op ∧ op.Disciplined (m.stack k) := by
  obtain ⟨i, hi⟩ := h.executed k hk
  obtain ⟨op, -, hop⟩ := exists_completes hi
  exact ⟨op, hop, h.disciplined k hk op hop.operation⟩

theorem core_after_succ {k : ℕ} {op : Operation} (h : (m.after k).Completes op) :
    (m.after (k + 1)).core = (m.after k).core.perform op := by
  rw [after_succ, h.core]

theorem holds_stack (h : m.KeepsStack n) : ∀ k ≤ n,
    (m.after k).core.Holds m.registers.sp (m.stack k)
  | 0, _ => ⟨by simp [stack, core], fun i hi => absurd hi (by simp [stack])⟩
  | k + 1, hk => by
    obtain ⟨op, hop, hdisc⟩ := h.completes (k := k) (by omega)
    have hstack := stack_succ hop.operation
    have hlen := h.bounded (k + 1) hk
    rw [hstack] at hlen ⊢
    rw [core_after_succ hop]
    exact (holds_stack h k (by omega)).perform hdisc hlen

theorem length_stack_le_deepest : ∀ k : ℕ, (m.stack k).length ≤ m.deepest k
  | 0 => by simp [stack]
  | _ + 1 => Nat.le_max_right _ _

theorem read_after (h : m.KeepsStack n) {a : UInt8} : ∀ k ≤ n,
    (∀ d, 1 ≤ d → d ≤ m.deepest k → a ≠ m.registers.sp - UInt8.ofNat d) →
      (m.after k).memory.read a = m.memory.read a
  | 0, _, _ => rfl
  | k + 1, hk, ha => by
    obtain ⟨op, hop, hdisc⟩ := h.completes (k := k) (by omega)
    have hholds := holds_stack h k (by omega)
    have ih := read_after h k (by omega) fun d h1 hd => ha d h1 (Nat.le_trans hd (Nat.le_max_left _ _))
    have hstack := stack_succ hop.operation
    have hread : ((m.after (k + 1)).core).memory.read a = (m.after k).core.memory.read a := by
      rw [core_after_succ hop]
      refine Core.read_perform (m.stack k) fun hgrows => ?_
      have hreach : (m.stack k).length + 1 ≤ m.deepest (k + 1) := by
        rw [← hgrows, ← hstack]
        exact length_stack_le_deepest (k + 1)
      have hne := ha _ (by omega) hreach
      rw [hholds.sp]
      rw [UInt8.ofNat_add] at hne
      grind
    exact hread.trans ih

/-- The ring holds what was pushed and not popped: pops deliver the head of the list, a return goes
behind the call that encloses it, and no cell changes that the stack has not reached. -/
theorem stack_refines (h : m.KeepsStack n) :
    (∀ k ≤ n, (m.after k).registers.sp = m.registers.sp - UInt8.ofNat (m.stack k).length
        ∧ ∀ i (hi : i < (m.stack k).length),
          (m.after k).memory.read ((m.after k).registers.sp + UInt8.ofNat i) = (m.stack k)[i])
      ∧ (∀ k < n, ∀ r, (m.after k).operation? = some (.pop r) →
          (m.stack k).head? = some ((m.after (k + 1)).registers.get r))
      ∧ (∀ k < n, (m.after k).operation? = some .ret →
          (m.stack k).head? = some (m.after (k + 1)).pc)
      ∧ (∀ j k r, k < n → (m.after j).operation? = some (.call r) →
          (m.after k).operation? = some .ret → m.Encloses j k →
          (m.after (k + 1)).pc = (m.after j).pc + 2)
      ∧ ∀ k ≤ n, ∀ a, (∀ d, 1 ≤ d → d ≤ m.deepest k → a ≠ m.registers.sp - UInt8.ofNat d) →
          (m.after k).memory.read a = m.memory.read a := by
  have hret : ∀ k < n, (m.after k).operation? = some .ret →
      (m.stack k).head? = some (m.after (k + 1)).pc := by
    intro k hk hop
    obtain ⟨op, hdone, hdisc⟩ := h.completes hk
    obtain rfl : op = .ret := Option.some_inj.1 (hdone.operation.symm.trans hop)
    rw [(holds_stack h k (by omega)).head hdisc]
    exact congrArg (fun c : Core => some c.pc) (core_after_succ hdone).symm
  refine ⟨fun k hk => ?_, fun k hk r hop => ?_, hret, ?_, fun k hk a ha => read_after h k hk ha⟩
  · obtain ⟨hsp, hcells⟩ := holds_stack h k hk
    exact ⟨hsp, hcells⟩
  · obtain ⟨op, hdone, hdisc⟩ := h.completes hk
    obtain rfl : op = .pop r := Option.some_inj.1 (hdone.operation.symm.trans hop)
    have hregs : (m.after (k + 1)).registers = ((m.after k).core.perform (.pop r)).registers :=
      congrArg Core.registers (core_after_succ hdone)
    rw [(holds_stack h k (by omega)).head hdisc.2, hregs]
    simp [Core.perform, Registers.get_raiseSp, hdisc.1]
  · intro j k r hk hcall hop hencl
    have hstack := hencl.stack_eq.trans (stack_succ hcall)
    have hhead := hret k hk hop
    rw [hstack] at hhead
    exact (Option.some_inj.1 hhead).symm

/-- A call of code that pushes the stack pointer, pops it into another register and returns, on a
stack that goes round address zero. -/
def wrappingCall : Machine Collector :=
  let code := [(0x10, 0x82), (0x12, 0x20), (0x13, 0x50), (0x20, 0x45), (0x21, 0x07), (0x22, 0x46),
    (0x23, 0x01), (0x24, 0x11)]
  { initial ({} : Collector) {} with
    registers := Registers.initial 1
    pc := 0x10
    memory := code.foldl (fun memory cell => memory.write cell.1 cell.2) Memory.zero }

theorem keepsStack_wrappingCall : wrappingCall.KeepsStack 5 := by
  have hops : ∀ k < 5, (wrappingCall.after k).operation?
      = [Operation.load 0 0x20, .call 0, .push 7, .pop 1, .ret][k]? := by decide +kernel
  refine ⟨fun k hk => ?_, fun k hk op hop => ?_, by decide +kernel⟩
  · interval_cases k
    · exact ⟨.ldi, rfl⟩
    · exact ⟨.call, rfl⟩
    · exact ⟨.push, rfl⟩
    · exact ⟨.pop, rfl⟩
    · exact ⟨.ret, rfl⟩
  · rw [hops k hk] at hop
    interval_cases k <;> cases hop
    · exact (by decide : (0 : Register) ≠ .stackPointer)
    · trivial
    · trivial
    · exact ⟨by decide, by decide +kernel⟩
    · exact (by decide +kernel : wrappingCall.stack 4 ≠ [])

theorem stack_refines_wrappingCall :
    wrappingCall.KeepsStack 5
      ∧ wrappingCall.stack 3 = [0xFF, 0x15]
      ∧ (wrappingCall.after 3).memory.read ((wrappingCall.after 3).registers.sp + 1) = 0x15
      ∧ (wrappingCall.after 5).pc = (wrappingCall.after 1).pc + 2
      ∧ (wrappingCall.after 5).memory.read 0x12 = wrappingCall.memory.read 0x12 := by
  have h := stack_refines keepsStack_wrappingCall
  have hstack : wrappingCall.stack 3 = [0xFF, 0x15] := by decide +kernel
  refine ⟨keepsStack_wrappingCall, hstack, ?_, ?_, ?_⟩
  · have hcell := (h.1 3 (by omega)).2 1 (by rw [hstack]; decide)
    simpa [hstack] using hcell
  · exact h.2.2.2.1 1 4 0 (by omega) (by decide +kernel) (by decide +kernel)
      ⟨by omega, by decide +kernel, fun i _ _ => by interval_cases i <;> decide +kernel⟩
  · exact h.2.2.2.2 5 (by omega) 0x12 (by decide +kernel)

end Machine

end LS8
