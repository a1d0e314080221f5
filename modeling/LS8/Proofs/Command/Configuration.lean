import LS8.Command.Response
import LS8.Proofs.Config.Written

/-!
# The configuration of a run

The options of a run are put over a configuration: the one that the text of a file describes if a
file is named, and the default if none is (`StartsFrom`). A file that is named may fail to be such a
text in four ways, each with a reason of its own (`Misconfigured`), and one of the two is always the
case (`startsFrom_or_misconfigured`). An option counts where it is given, and the configuration
where it is not (`Merges`). Every configuration can be put in a file (`startsFrom_toJson`).
-/

namespace LS8

namespace RunOptions

/-- The configuration that the options are put over. -/
inductive StartsFrom (o : RunOptions) (files : Files) : Config → Prop
  | default (unnamed : o.config = none) : StartsFrom o files {}
  | file {path : String} {text : List Char} {c : Config} (named : o.config = some path)
      (opened : files path = .ok ⟨Text.encode text, none⟩)
      (described : Config.ofJson text = .ok c) : StartsFrom o files c

/-- There is a configuration file that cannot be used, at this path and for this reason. -/
inductive Misconfigured (o : RunOptions) (files : Files) (complaint : List Char → String)
    (path : String) : String → Prop
  | unopened {cause : IoError} (named : o.config = some path)
      (refused : files path = .error cause) :
      Misconfigured o files complaint path ("could not read configuration: " ++ cause.message)
  | brokenOff {bytes : List UInt8} {cause : IoError} (named : o.config = some path)
      (opened : files path = .ok ⟨bytes, some cause⟩) :
      Misconfigured o files complaint path ("could not read configuration: " ++ cause.message)
  | notUtf8 {bytes : List UInt8} (named : o.config = some path)
      (opened : files path = .ok ⟨bytes, none⟩) (unencoded : ∀ text, Text.encode text ≠ bytes) :
      Misconfigured o files complaint path
        "could not read configuration: stream did not contain valid UTF-8"
  | invalid {text : List Char} (named : o.config = some path)
      (opened : files path = .ok ⟨Text.encode text, none⟩)
      (undescribed : Config.ofJson text = .error .invalid) :
      Misconfigured o files complaint path ("invalid configuration: " ++ complaint text)

/-- An option that is given counts, and what no option is given for stays as it was. -/
structure Merges (o : RunOptions) (base c : Config) : Prop where
  traced : o.trace = true → c.traceInstructions = true
  untraced : o.trace = false → c.traceInstructions = base.traceInstructions
  limited : ∀ n, o.maxSteps = some n → c.maxSteps = some n
  unlimited : o.maxSteps = none → c.maxSteps = base.maxSteps
  chosen : ∀ p, o.onUnknown = some p → c.unknownInstruction = p
  unchosen : o.onUnknown = none → c.unknownInstruction = base.unknownInstruction
  initialSp : c.initialSp = base.initialSp

variable {o : RunOptions} {files : Files} {complaint : List Char → String} {path reason : String}
  {base c : Config}

/-! ## Options -/

theorem merges_override (o : RunOptions) (base : Config) : o.Merges base (o.override base) where
  traced h := by simp [override, h]
  untraced h := by simp [override, h]
  limited n h := by simp [override, h]
  unlimited h := by simp [override, h]
  chosen p h := by simp [override, h]
  unchosen h := by simp [override, h]
  initialSp := rfl

theorem Merges.eq_override (h : o.Merges base c) : c = o.override base := by
  have htraces : c.traceInstructions = (o.trace || base.traceInstructions) := by
    rcases ho : o.trace with _ | _
    · exact h.untraced ho
    · exact h.traced ho
  have hlimit : c.maxSteps = o.maxSteps.or base.maxSteps := by
    rcases ho : o.maxSteps with _ | n
    · exact h.unlimited ho
    · exact h.limited n ho
  have hpolicy : c.unknownInstruction = o.onUnknown.getD base.unknownInstruction := by
    rcases ho : o.onUnknown with _ | p
    · exact h.unchosen ho
    · exact h.chosen p ho
  unfold override
  rw [← htraces, ← hlimit, ← hpolicy, ← h.initialSp]

/-! ## Files -/

theorem startsFrom_toJson (hnamed : o.config = some path)
    (hopened : files path = .ok ⟨Text.encode c.toJson.toList, none⟩) : o.StartsFrom files c :=
  .file hnamed hopened (Config.ofJson_of_spaced c c.spaced_toJson)

theorem StartsFrom.configuration (h : o.StartsFrom files base) :
    o.configuration files = .ok (o.override base) := by
  cases h with
  | default hunnamed => simp only [RunOptions.configuration, hunnamed]
  | file hnamed hopened hdescribed =>
    simp only [RunOptions.configuration, hnamed, hopened, Config.ofFile_encode, hdescribed]

/-- What is wrong with the file comes out of reading it. -/
theorem Misconfigured.configuration (h : o.Misconfigured files complaint path reason) :
    ∃ e, o.configuration files = .error (path, e)
      ∧ e.message ((files path).text.toOption.map complaint) = reason := by
  have herror : ∀ {e : ConfigError}, o.config = some path → Config.ofFile (files path) = .error e →
      o.configuration files = .error (path, e) := by
    intro e hnamed hread
    simp only [RunOptions.configuration, hnamed, hread]
  cases h with
  | unopened hnamed hrefused =>
    exact ⟨_, herror hnamed (hrefused ▸ Config.ofFile_unopened _), rfl⟩
  | brokenOff hnamed hopened =>
    exact ⟨_, herror hnamed (hopened ▸ Config.ofFile_brokenOff _ _), rfl⟩
  | notUtf8 hnamed hopened hunencoded =>
    exact ⟨_, herror hnamed (hopened ▸ Config.ofFile_notUtf8 hunencoded), rfl⟩
  | @invalid text hnamed hopened hundescribed =>
    have hread : Config.ofFile (files path) = .error .invalid := by
      rw [hopened, Config.ofFile_encode, hundescribed]
    refine ⟨_, herror hnamed hread, ?_⟩
    rw [hopened, OpenedFile.text_encode]
    rfl

/-- A configuration file that is named holds the text of a configuration, or there is a reason why
it does not. -/
theorem startsFrom_or_misconfigured (o : RunOptions) (files : Files)
    (complaint : List Char → String) : (∃ base, o.StartsFrom files base)
      ∨ ∃ path reason, o.Misconfigured files complaint path reason := by
  cases hnamed : o.config with
  | none => exact .inl ⟨_, .default hnamed⟩
  | some path =>
    rcases hopened : files path with cause | ⟨bytes, _ | cause⟩
    · exact .inr ⟨_, _, .unopened hnamed hopened⟩
    · by_cases htext : ∃ text, Text.encode text = bytes
      · obtain ⟨text, rfl⟩ := htext
        rcases hread : Config.ofJson text with e | c
        · rw [Config.ofJson_eq_error hread] at hread
          exact .inr ⟨_, _, .invalid hnamed hopened hread⟩
        · exact .inl ⟨c, .file hnamed hopened hread⟩
      · exact .inr ⟨_, _, .notUtf8 hnamed hopened (not_exists.1 htext)⟩
    · exact .inr ⟨_, _, .brokenOff hnamed hopened⟩

end RunOptions

end LS8
