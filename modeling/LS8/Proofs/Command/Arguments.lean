import LS8.Command.Arguments
import LS8.Proofs.Config.Members
import Mathlib.Data.List.TakeWhile

/-!
# Arguments that ask for a run

Every run that names a file can be asked for: its options as long arguments with their values
attached, each only if it is set, and the file behind a double hyphen. These arguments are read as
the run they are made from (`ofArguments?_arguments`).
-/

namespace LS8

/-! ## Single arguments -/

/-- A long option with its value attached. -/
def longOption (name value : String) : String :=
  "--" ++ name ++ "=" ++ value

theorem ofString_longOption {name value : String} (h : '=' ∉ name.toList) :
    Argument.ofString (longOption name value) = .long name (some value) := by
  have htext : (longOption name value).toList
      = '-' :: '-' :: (name.toList ++ '=' :: value.toList) := by
    simp [longOption, String.toList_append]
  have hplain : ∀ c ∈ name.toList, decide (c ≠ '=') = true := by
    intro c hc
    exact decide_eq_true fun heq => h (heq ▸ hc)
  have htake : (name.toList ++ '=' :: value.toList).takeWhile (· ≠ '=') = name.toList := by
    rw [List.takeWhile_append_of_pos hplain]
    simp
  have hdrop : (name.toList ++ '=' :: value.toList).dropWhile (· ≠ '=') = '=' :: value.toList := by
    rw [List.dropWhile_append_of_pos hplain]
    simp
  obtain ⟨c, more, hrest⟩ : ∃ c more, name.toList ++ '=' :: value.toList = c :: more := by
    cases name.toList <;> exact ⟨_, _, rfl⟩
  rw [hrest] at htake hdrop
  simp only [Argument.ofString, htext, hrest, htake, hdrop, String.ofList_toList]

theorem stepCount?_decimal (n : UInt64) : stepCount? (Numeral.decimal n.toNat) = some n := by
  unfold stepCount? Numeral.decimal
  have hplus : ∀ more, Nat.toDigits 10 n.toNat ≠ '+' :: more := by
    intro more heq
    have hmem : '+' ∈ Nat.toDigits 10 n.toNat := by
      rw [heq]
      exact List.mem_cons_self
    cases (Numeral.isDecimal_toDigits n.toNat).digit '+' hmem
  have hvalue := Numeral.ofDecimal?_toDigits n.toNat
  rw [String.toList_ofList]
  split
  · rename_i heq
    exact absurd heq (hplus _)
  · simp [hvalue, n.toNat_lt]

/-! ## All arguments -/

/-- The arguments that ask for a run. -/
def RunOptions.arguments (o : RunOptions) : List String :=
  "run" :: (o.config.toList.map (longOption "config")
    ++ ((if o.trace then ["--trace"] else [])
    ++ (o.maxSteps.toList.map (fun n => longOption "max-steps" (Numeral.decimal n.toNat))
    ++ (o.onUnknown.toList.map (fun p => longOption "on-unknown" p.name)
    ++ ((if o.stats then ["--stats"] else []) ++ ["--", o.file])))))

namespace RunReader

variable {r : RunReader} (hescaped : r.escaped = false) (hawaiting : r.awaiting = none)
include hescaped hawaiting

theorem step_longOption {name value : String} (hname : '=' ∉ name.toList) :
    r.step (longOption name value) = r.long name (some value) := by
  unfold step
  rw [ofString_longOption hname]
  simp [hescaped, hawaiting]

theorem step_config {path : String} (hunset : r.config = none) (hpath : path ≠ "") :
    r.step (longOption "config" path) = .ok { r with config := some path } := by
  rw [step_longOption hescaped hawaiting (by decide)]
  simp [RunReader.long, valued, setValue, setOnce, nonempty?, hunset, hpath, hawaiting, Except.map]

theorem step_maxSteps {n : UInt64} (hunset : r.maxSteps = none) :
    r.step (longOption "max-steps" (Numeral.decimal n.toNat))
      = .ok { r with maxSteps := some n } := by
  rw [step_longOption hescaped hawaiting (by decide)]
  simp [RunReader.long, valued, setValue, setOnce, stepCount?_decimal, hunset, hawaiting,
    Except.map]

theorem step_onUnknown {p : Policy} (hunset : r.onUnknown = none) :
    r.step (longOption "on-unknown" p.name) = .ok { r with onUnknown := some p } := by
  rw [step_longOption hescaped hawaiting (by decide)]
  simp [RunReader.long, valued, setValue, setOnce, Config.ofName?_name, hunset, hawaiting,
    Except.map]

omit hescaped hawaiting

theorem foldlM_step_append {s : RunReader} {l₁ l₂ : List String}
    (h : l₁.foldlM step r = .ok s) : (l₁ ++ l₂).foldlM step r = l₂.foldlM step s := by
  rw [List.foldlM_append, h]
  rfl

theorem foldlM_step_singleton {s : RunReader} {text : String} (h : r.step text = .ok s) :
    [text].foldlM step r = .ok s := by
  rw [List.foldlM_cons, h]
  rfl

theorem read_arguments {o : RunOptions} (hfile : o.file ≠ "") (hconfig : o.config ≠ some "") :
    read o.arguments.tail = .ok o := by
  obtain ⟨file, config, trace, maxSteps, onUnknown, stats⟩ := o
  have hconfig : (config.toList.map (longOption "config")).foldlM step {} = .ok { config } := by
    cases config with
    | none => rfl
    | some path => exact foldlM_step_singleton (step_config rfl rfl rfl fun h => hconfig (h ▸ rfl))
  have htrace : (if trace then ["--trace"] else []).foldlM step { config }
      = .ok { config, trace } := by
    cases trace <;> rfl
  have hmaxSteps : (maxSteps.toList.map
      (fun n => longOption "max-steps" (Numeral.decimal n.toNat))).foldlM step { config, trace }
      = .ok { config, trace, maxSteps } := by
    cases maxSteps with
    | none => rfl
    | some n => exact foldlM_step_singleton (step_maxSteps rfl rfl rfl)
  have honUnknown : (onUnknown.toList.map (fun p => longOption "on-unknown" p.name)).foldlM step
      { config, trace, maxSteps } = .ok { config, trace, maxSteps, onUnknown } := by
    cases onUnknown with
    | none => rfl
    | some p => exact foldlM_step_singleton (step_onUnknown rfl rfl rfl)
  have hstats : (if stats then ["--stats"] else []).foldlM step
      { config, trace, maxSteps, onUnknown }
      = .ok { config, trace, maxSteps, onUnknown, stats } := by
    cases stats <;> rfl
  have hfile : setFile { config, trace, maxSteps, onUnknown, stats, escaped := true } file
      = .ok { config, trace, maxSteps, onUnknown, stats, file := some file, escaped := true } := by
    simp [setFile, setOnce, nonempty?, hfile, Except.map]
  unfold read RunOptions.arguments
  rw [List.tail_cons, foldlM_step_append hconfig, foldlM_step_append htrace,
    foldlM_step_append hmaxSteps, foldlM_step_append honUnknown, foldlM_step_append hstats]
  have hoperand : ["--", file].foldlM step { config, trace, maxSteps, onUnknown, stats }
      = .ok { config, trace, maxSteps, onUnknown, stats, file := some file, escaped := true } :=
    foldlM_step_singleton hfile
  rw [hoperand]
  rfl

end RunReader

/-- Every run of a file can be asked for. -/
theorem Command.ofArguments?_arguments {o : RunOptions} (hfile : o.file ≠ "")
    (hconfig : o.config ≠ some "") : Command.ofArguments? o.arguments = some (.run o) := by
  have hread := RunReader.read_arguments hfile hconfig
  unfold RunOptions.arguments at hread ⊢
  rw [List.tail_cons] at hread
  have hrun : Argument.ofString "run" = .plain "run" := rfl
  simp only [Command.ofArguments?, hrun, hread]
  rfl

end LS8
