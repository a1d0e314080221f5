import LS8.Config

/-!
# Commands

What the command line can ask for: to run a program, with options that override the configuration
file, to list it, or to explain the command line.
-/

namespace LS8

structure RunOptions where
  file : String
  /-- The path of a configuration file. -/
  config : Option String := none
  trace : Bool := false
  maxSteps : Option UInt64 := none
  onUnknown : Option Policy := none
  /-- Report the statistics after the run. -/
  stats : Bool := false
deriving DecidableEq

/-- What help can be had on. -/
inductive Topic where
  | program
  /-- The program, at length. -/
  | programAtLength
  | run
  | disasm
  | help
deriving DecidableEq, Repr

inductive Command where
  | run (options : RunOptions)
  | disasm (file : String)
  | help (topic : Topic)
  | version
deriving DecidableEq

/-- A configuration with the options of a run put over it. -/
def RunOptions.override (o : RunOptions) (c : Config) : Config where
  traceInstructions := o.trace || c.traceInstructions
  maxSteps := o.maxSteps.or c.maxSteps
  unknownInstruction := o.onUnknown.getD c.unknownInstruction
  initialSp := c.initialSp

end LS8
