import LS8.Arithmetic
import LS8.Registers

/-!
# Operations

An instruction together with operands that make sense: every register operand names a register.
Resolving operand bytes is where a bad register index shows, before anything has changed.
-/

namespace LS8

inductive Operation where
  | load (target : Register) (value : UInt8)
  | print (source : Register)
  | halt
  | compute (op : Arithmetic) (target source : Register)
  | push (source : Register)
  | pop (target : Register)
  | call (source : Register)
  | ret
deriving DecidableEq, Repr

namespace Operation

/-- The register an operand byte names; a byte that names none is given back. -/
def register (operand : UInt8) : Except UInt8 Register :=
  match Register.ofByte? operand with
  | some r => .ok r
  | none => .error operand

/-- The operation of an instruction with its operand bytes, or the first byte that should name a
register and does not. -/
def resolve (i : Instruction) (a b : UInt8) : Except UInt8 Operation :=
  match i with
  | .ldi => (register a).map (load · b)
  | .prn => (register a).map print
  | .hlt => .ok halt
  | .add => resolvePair .add
  | .mul => resolvePair .mul
  | .push => (register a).map push
  | .pop => (register a).map pop
  | .call => (register a).map call
  | .ret => .ok ret
where
  resolvePair (op : Arithmetic) : Except UInt8 Operation :=
    match register a, register b with
    | .error index, _ => .error index
    | .ok _, .error index => .error index
    | .ok r, .ok s => .ok (compute op r s)

end Operation

end LS8
