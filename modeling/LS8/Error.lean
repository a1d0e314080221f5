import LS8.Numeral

/-!
# Errors

What can go wrong, by cause: bytes that the outside world refuses to deliver or to take, a program
that cannot be loaded, a step that cannot be completed, and a configuration that cannot be used.
Each kind has one wording.
-/

namespace LS8

/-- Why bytes could not be delivered or taken. -/
inductive IoError where
  | notFound
  | isDirectory
  | notDirectory
  /-- A path, or a part of one, is longer than names may be. -/
  | nameTooLong
  | notUtf8
  | full
  | device (text : String)
deriving DecidableEq, Repr

def IoError.message : IoError → String
  | .notFound => "No such file or directory (os error 2)"
  | .isDirectory => "Is a directory (os error 21)"
  | .notDirectory => "Not a directory (os error 20)"
  | .nameTooLong => "File name too long (os error 36)"
  | .notUtf8 => "stream did not contain valid UTF-8"
  | .full => "failed to write whole buffer"
  | .device text => text

/-- Why a program was not loaded. -/
inductive LoadError where
  | sourceUnavailable (cause : IoError)
  /-- A binary literal does not fit in a byte; lines count from one. -/
  | valueOutOfRange (line : Nat) (text : String)
  | programTooLarge (length capacity : Nat)
deriving DecidableEq, Repr

def LoadError.message : LoadError → String
  | .sourceUnavailable cause => "program source unavailable: " ++ cause.message
  | .valueOutOfRange line text =>
    "line " ++ Numeral.decimal line ++ ": binary literal `" ++ text ++ "` does not fit in 8 bits"
  | .programTooLarge length capacity =>
    "program is " ++ Numeral.decimal length ++ " bytes but memory holds "
      ++ Numeral.decimal capacity

/-- Why a step or a run could not be completed. -/
inductive Fault where
  /-- The byte at the program counter is no opcode. -/
  | unknownInstruction (opcode pc : UInt8)
  /-- The opcode is not one that computes. -/
  | unsupportedOperation (opcode : UInt8)
  | invalidRegister (index pc : UInt8)
  /-- A bounded run used up its steps. -/
  | stepLimitExceeded (limit : Nat)
  | output (cause : IoError)
deriving DecidableEq, Repr

def Fault.message : Fault → String
  | .unknownInstruction opcode pc =>
    "unknown instruction 0b" ++ Numeral.binaryLiteral opcode ++ " ("
      ++ Numeral.lowerHex opcode.toNat ++ ") at pc " ++ Numeral.lowerHex pc.toNat
  | .unsupportedOperation opcode =>
    "unsupported ALU operation " ++ Numeral.lowerHex opcode.toNat
  | .invalidRegister index pc =>
    "register index " ++ Numeral.decimal index.toNat ++ " out of range at pc "
      ++ Numeral.lowerHex pc.toNat
  | .stepLimitExceeded limit =>
    "step limit of " ++ Numeral.decimal limit ++ " reached before HLT"
  | .output cause => "output sink failed: " ++ cause.message

/-- Why a configuration cannot be used. -/
inductive ConfigError where
  | unreadable (cause : IoError)
  | invalid
deriving DecidableEq, Repr

/-- The wording, with what a parser says is wrong with an invalid text, if it is asked. -/
def ConfigError.message (e : ConfigError) (complaint : Option String := none) : String :=
  match e, complaint with
  | .unreadable cause, _ => "could not read configuration: " ++ cause.message
  | .invalid, none => "invalid configuration"
  | .invalid, some complaint => "invalid configuration: " ++ complaint

end LS8
