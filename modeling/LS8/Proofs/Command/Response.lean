import LS8.Proofs.Command.Arguments
import LS8.Proofs.Command.Configuration
import LS8.Proofs.Folder
import LS8.Proofs.Observation

/-!
# What a run answers

A command that runs a program answers what the machine does by itself, under its configuration with
the options put over it. If there is such a configuration and a program, the output consists of the
lines of the values that the machine prints until its run ends, and the exit code tells whether the
run ended well (`Answers`). What is logged, or reported after the run, has no part in either of
them, and neither have the libraries that read the log setting and describe what is wrong with a
configuration (`invoke_run`).
-/

namespace LS8

/-- What a caller sees of a response without looking at standard error. -/
def Response.shown (r : Response) : UInt8 × String :=
  (r.exitCode, r.output)

/-- No line of the log is a report of the counters. -/
theorem Event.text_ne_toJson (e : Event) (s : Stats) : e.text ≠ s.toJson := by
  have hlevel : ∀ l : Level, ∃ c more, l.name.toList = c :: more ∧ c ≠ '\x7b' := by
    intro l
    cases l <;> exact ⟨_, _, rfl, by decide⟩
  obtain ⟨c, more, hname, hc⟩ := hlevel e.level
  intro h
  have hhead := congrArg (fun text => text.toList.head?) h
  unfold Event.text Stats.toJson at hhead
  simp only [String.toList_append, hname, List.cons_append, List.head?_cons] at hhead
  exact hc (Option.some_inj.1 hhead)

theorem LogFilter.count_texts (filter : LogFilter) (log : List Event) (s : Stats) :
    (filter.texts log).count s.toJson = 0 := by
  rw [List.count_eq_zero]
  intro hmem
  obtain ⟨e, -, he⟩ := List.mem_map.1 hmem
  exact e.text_ne_toJson s he

/-- A fresh machine that collects what it prints, with a program in its memory. -/
def Machine.prepared (c : Config) (image : Image) : Machine Collector :=
  { Machine.initial ({} : Collector) c with memory := Memory.zero.load image }

namespace RunOptions

/-- The response to a run that ended like this. -/
structure Reflects (o : RunOptions) (report : Report Collector Unit) (r : Response) : Prop where
  output : r.output.toList = Console.lines report.machine.sink.values.toList
  success : report.result = .ok () → r.exitCode = 0
  failure : ∀ fault, report.result = .error fault → r.exitCode = 1
  stats : r.errors.count report.machine.stats.toJson = if o.stats then 1 else 0

/-- The answers to a run. There is none if the run does not end. -/
inductive Answers (o : RunOptions) (files : Files) (filter : LogFilter)
    (complaint : List Char → String) : Option Response → Prop
  | unconfigured {path reason : String} (bad : o.Misconfigured files complaint path reason) :
      Answers o files filter complaint
        (some ⟨1, "", filter.texts [.failure (path ++ ": " ++ reason)]⟩)
  | unopened {base : Config} {cause : IoError} (starts : o.StartsFrom files base)
      (refused : files o.file = .error cause) :
      Answers o files filter complaint (some ⟨1, "", filter.texts
        [.failure (o.file ++ ": " ++ ("program source unavailable: " ++ cause.message))]⟩)
  | unloaded {base : Config} {source : Source} {e : LoadError} (starts : o.StartsFrom files base)
      (opened : files o.file = .ok source) (bad : source.parse = .error e) :
      Answers o files filter complaint (some ⟨1, "", filter.texts
        [.loading o.file, .failure (o.file ++ ": " ++ e.message)]⟩)
  | endless {base c : Config} {source : Source} {image : Image} (starts : o.StartsFrom files base)
      (merges : o.Merges base c) (opened : files o.file = .ok source)
      (parsed : source.parse = .ok image) (runs : (Machine.prepared c image).run = none) :
      Answers o files filter complaint none
  | ended {base c : Config} {source : Source} {image : Image} {report : Report Collector Unit}
      {r : Response} (starts : o.StartsFrom files base) (merges : o.Merges base c)
      (opened : files o.file = .ok source) (parsed : source.parse = .ok image)
      (runs : (Machine.prepared c image).run = some report) (reflects : o.Reflects report r) :
      Answers o files filter complaint (some r)

/-- The runs are of the same program under the same configuration, tracing apart. -/
structure SameRun (o o' : RunOptions) : Prop where
  file : o.file = o'.file
  config : o.config = o'.config
  maxSteps : o.maxSteps = o'.maxSteps
  onUnknown : o.onUnknown = o'.onUnknown

/-! ## The machine that is run -/

variable (o : RunOptions) (files : Files) (filter : LogFilter) (complaint : List Char → String)

/-- The console shows what the collector collects. -/
theorem mirrors_prepared (c : Config) (image : Image) : (Machine.prepared c image).Mirrors
    Console.Shows { Machine.initial ({} : Console) c with memory := Memory.zero.load image } :=
  ⟨rfl, rfl, rfl, rfl⟩

theorem reflects_conclude {x : Report Collector Unit} {y : Report Console Unit}
    (h : x.Mirrors Console.Shows y) (log : List Event) :
    o.Reflects x (o.conclude filter log y) := by
  obtain ⟨hresult, -, hmachine, hsinks⟩ := h
  have hstats : x.machine.stats = y.machine.stats := congrArg Machine.stats hmachine
  have hcount : (if o.stats then [y.machine.stats.toJson] else []).count y.machine.stats.toJson
      = if o.stats then 1 else 0 := by
    cases o.stats <;> simp
  have htext := hsinks.text
  unfold conclude
  rcases hy : y.result with fault | _ <;> rw [hy] at hresult
  · refine ⟨htext, fun h => ?_, fun _ _ => rfl, ?_⟩
    · rw [hresult] at h
      cases h
    · rw [hstats]
      simp only [List.count_append, LogFilter.count_texts, hcount, Nat.zero_add, Nat.add_zero]
  · refine ⟨htext, fun _ => rfl, fun fault h => ?_, ?_⟩
    · rw [hresult] at h
      cases h
    · rw [hstats]
      simp only [List.count_append, LogFilter.count_texts, hcount, Nat.zero_add]

/-- The machine that runs is a console's, but what it answers is said of a collector's. -/
theorem answers_of_startsFrom {base : Config} (hstarts : o.StartsFrom files base) :
    o.Answers files filter complaint (o.respond files filter complaint) := by
  have hmerges := o.merges_override base
  have hmirrors := mirrors_prepared (o.override base)
  unfold respond
  rw [hstarts.configuration]
  dsimp only
  rcases hopened : files o.file with cause | source
  · exact .unopened hstarts hopened
  rcases hparse : source.parse with e | image
  · rw [Machine.loadFile_of_parse_error hparse]
    exact .unloaded hstarts hopened hparse
  rw [Machine.loadFile_of_parse hparse]
  dsimp only
  rcases hrun : (Machine.prepared (o.override base) image).run with _ | report
  · have hconsole := (hmirrors image).run_eq_none Console.answerAlike_shows hrun
    exact hconsole ▸ .endless hstarts hmerges hopened hparse hrun
  · obtain ⟨other, hother, hreport⟩ := (hmirrors image).run Console.answerAlike_shows hrun
    have hreflects := o.reflects_conclude filter hreport [.loading o.file, .loaded image.bytes.size]
    exact hother ▸ .ended hstarts hmerges hopened hparse hrun hreflects

variable {o files complaint} in
theorem Misconfigured.respond {path reason : String}
    (h : o.Misconfigured files complaint path reason) : o.respond files filter complaint
      = some ⟨1, "", filter.texts [.failure (path ++ ": " ++ reason)]⟩ := by
  obtain ⟨e, hconfig, rfl⟩ := h.configuration
  unfold RunOptions.respond
  rw [hconfig]
  rfl

theorem answers_respond :
    o.Answers files filter complaint (o.respond files filter complaint) := by
  obtain ⟨base, hstarts⟩ | ⟨path, reason, hbad⟩ := o.startsFrom_or_misconfigured files complaint
  · exact o.answers_of_startsFrom files filter complaint hstarts
  · rw [hbad.respond]
    exact .unconfigured hbad

/-! ## What has no part in the answer -/

/-- What a run that ended like this shows. -/
def told (report : Report Collector Unit) : UInt8 × String :=
  (if report.result = .ok () then 0 else 1,
    String.ofList (Console.lines report.machine.sink.values.toList))

/-- The image of the program, if there is one. -/
def image? : Option Image :=
  (files o.file).toOption.bind fun source => source.parse.toOption

/-- The exit code and the output, as the collector's run tells them. -/
def verdict : Option (UInt8 × String) :=
  match o.configuration files, o.image? files with
  | .ok c, some image => (Machine.prepared c image).run.map told
  | _, _ => some (1, "")

variable {o files filter complaint}

theorem image?_of_parse {source : Source} (hopened : files o.file = .ok source) :
    o.image? files = source.parse.toOption := by
  rw [image?, hopened]
  rfl

theorem Reflects.shown_eq {report : Report Collector Unit} {r : Response}
    (h : o.Reflects report r) : r.shown = told report := by
  have houtput : r.output = String.ofList (Console.lines report.machine.sink.values.toList) := by
    rw [← h.output, String.ofList_toList]
  unfold told
  rcases hresult : report.result with fault | _
  · exact Prod.ext (h.failure fault hresult) houtput
  · exact Prod.ext (h.success hresult) houtput

theorem verdict_eq {base c : Config} {source : Source} {image : Image}
    (hstarts : o.StartsFrom files base) (hmerges : o.Merges base c)
    (hopened : files o.file = .ok source) (hparsed : source.parse = .ok image) :
    o.verdict files = (Machine.prepared c image).run.map told := by
  unfold verdict
  rw [hstarts.configuration, ← hmerges.eq_override, image?_of_parse hopened, hparsed]
  rfl

theorem Answers.shown_eq {r : Option Response} (h : o.Answers files filter complaint r) :
    r.map Response.shown = o.verdict files := by
  cases h with
  | unconfigured hbad =>
    obtain ⟨e, hconfig, -⟩ := hbad.configuration
    rw [verdict, hconfig]
    rfl
  | unopened hstarts hrefused =>
    rw [verdict, hstarts.configuration, image?, hrefused]
    rfl
  | unloaded hstarts hopened hbad =>
    rw [verdict, hstarts.configuration, image?_of_parse hopened, hbad]
    rfl
  | endless hstarts hmerges hopened hparsed hruns =>
    rw [verdict_eq hstarts hmerges hopened hparsed, hruns]
    rfl
  | ended hstarts hmerges hopened hparsed hruns hreflects =>
    rw [verdict_eq hstarts hmerges hopened hparsed, hruns]
    exact congrArg some hreflects.shown_eq

theorem SameRun.configuration {o' : RunOptions} (h : o.SameRun o') (files : Files) :
    (∃ e, o.configuration files = .error e ∧ o'.configuration files = .error e)
      ∨ ∃ base, o.configuration files = .ok (o.override base)
        ∧ o'.configuration files = .ok (o'.override base) := by
  unfold RunOptions.configuration
  rw [h.config]
  rcases o'.config with _ | path
  · exact .inr ⟨{}, rfl, rfl⟩
  · dsimp only
    rcases Config.ofFile (files path) with e | base
    · exact .inl ⟨_, rfl, rfl⟩
    · exact .inr ⟨base, rfl, rfl⟩

/-- The machines of the two runs differ in tracing at most. -/
theorem SameRun.run_prepared {o' : RunOptions} (h : o.SameRun o') (base : Config) (image : Image) :
    (Machine.prepared (o.override base) image).run.map told
      = (Machine.prepared (o'.override base) image).run.map told := by
  have htwin : (Machine.prepared (o.override base) image).Twin
      (Machine.prepared (o'.override base) image) :=
    ⟨congrArg (Option.getD · _) h.onUnknown, rfl, rfl⟩
  have hlimit : (o.override base).maxSteps = (o'.override base).maxSteps :=
    congrArg (Option.or · _) h.maxSteps
  have hrun := congrArg (Option.map fun shown : Except Fault Unit × List UInt8 =>
    ((if shown.1 = .ok () then 0 else 1 : UInt8), String.ofList (Console.lines shown.2)))
    (htwin.run_shown hlimit rfl)
  rw [Option.map_map, Option.map_map] at hrun
  exact hrun

/-- Tracing and statistics are for the reader of standard error only. -/
theorem SameRun.verdict_eq {o' : RunOptions} (h : o.SameRun o') :
    o.verdict files = o'.verdict files := by
  have himage : o.image? files = o'.image? files := by rw [image?, image?, h.file]
  unfold verdict
  rw [himage]
  obtain ⟨e, ho, ho'⟩ | ⟨base, ho, ho'⟩ := h.configuration files
  · rw [ho, ho']
  · rw [ho, ho']
    rcases o'.image? files with _ | image
    · rfl
    · exact h.run_prepared base image

end RunOptions

namespace Command

theorem invoke_eq_respond {arguments : List String} {o : RunOptions}
    (h : ofArguments? arguments = some (.run o)) (files : Files) (setting : Option String)
    (libraries : Libraries) : invoke arguments files setting libraries
      = o.respond files ((Command.run o).logFilter setting libraries) libraries.complaint := by
  unfold invoke
  rw [h]
  rfl

/-- Every run of a file can be asked for, under every configuration. It answers what a machine does
by itself, and whether it is traced, whether the counters are reported and which events are logged
changes neither the exit code nor the output. -/
theorem invoke_run :
    (∀ o : RunOptions, o.file ≠ "" → o.config ≠ some "" →
        ofArguments? o.arguments = some (.run o))
      ∧ (∀ (o : RunOptions) (files : Files) (path : String) (c : Config), o.config = some path →
          files path = .ok ⟨Text.encode c.toJson.toList, none⟩ → o.StartsFrom files c)
      ∧ ∀ {arguments : List String} {o : RunOptions}, ofArguments? arguments = some (.run o) →
          ∀ (files : Files) (setting : Option String) (libraries : Libraries),
            o.Answers files ((Command.run o).logFilter setting libraries) libraries.complaint
                (invoke arguments files setting libraries)
              ∧ ∀ (arguments' : List String) (o' : RunOptions) (setting' : Option String)
                  (libraries' : Libraries),
                  ofArguments? arguments' = some (.run o') → o.SameRun o' →
                    (invoke arguments' files setting' libraries').map Response.shown
                      = (invoke arguments files setting libraries).map Response.shown := by
  have hanswers : ∀ {arguments : List String} {o : RunOptions} (files : Files)
      (setting : Option String) (libraries : Libraries), ofArguments? arguments = some (.run o) →
        o.Answers files ((Command.run o).logFilter setting libraries) libraries.complaint
          (invoke arguments files setting libraries) := by
    intro arguments o files setting libraries h
    rw [invoke_eq_respond h]
    exact o.answers_respond files _ _
  refine ⟨fun _ => ofArguments?_arguments, fun o files path c => RunOptions.startsFrom_toJson,
    fun h files setting libraries => ⟨hanswers files setting libraries h, ?_⟩⟩
  intro arguments' o' setting' libraries' h' hsame
  rw [(hanswers files setting' libraries' h').shown_eq,
    (hanswers files setting libraries h).shown_eq, hsame.verdict_eq]

/-- A program that prints a five, meets an undefined opcode and the three operands it announces,
prints where the stack starts and halts; a configuration that allows it two steps and halts it at
undefined opcodes; and a configuration that is not complete. -/
def samples : Folder where
  entries := [
    ("print.ls8", .file (Text.encode
      "10000010\n0\n101\n1000111 # PRN R0\n0\n11111111\n0\n0\n0\n1000111 # PRN R7\n111\n1".toList)),
    ("run.json", .file (Text.encode (Config.toJson ⟨true, some 2, .halt, 16⟩).toList)),
    ("broken.json", .file (Text.encode ['\x7b']))]

/-- The options count over the file where they are given, and the file where they are not. A file
that cannot be used is reported although the program is missing too. -/
theorem invoke_run_overridden :
    (invoke ["run", "-c", "run.json", "print.ls8"] samples.openFile none).map Response.shown
        = some (1, "5\n")
      ∧ (invoke ["run", "-c", "run.json", "--max-steps", "9", "--on-unknown=skip", "print.ls8"]
          samples.openFile none).map Response.shown = some (0, "5\n16\n")
      ∧ (invoke ["run", "print.ls8", "--stats", "--on-unknown", "skip", "--trace",
          "--max-steps=+9", "--config=run.json"] samples.openFile (some "off")).map Response.shown
        = some (0, "5\n16\n")
      ∧ invoke ["run", "--config=broken.json", "none.ls8"] samples.openFile none
          { complaint := fun _ => "EOF while parsing an object at line 1 column 1" }
        = some ⟨1, "", ["ERROR broken.json: invalid configuration: "
          ++ "EOF while parsing an object at line 1 column 1"]⟩ := by
  obtain ⟨-, hstarts, hinvoke⟩ := invoke_run
  have hconfigured : samples.openFile "run.json"
      = .ok ⟨Text.encode (Config.toJson ⟨true, some 2, .halt, 16⟩).toList, none⟩ := by
    rw [Folder.openFile_name (by decide)]
    rfl
  have hbroken : samples.openFile "broken.json" = .ok ⟨Text.encode ['\x7b'], none⟩ := by
    rw [Folder.openFile_name (by decide)]
    rfl
  have hplain : ofArguments? ["run", "-c", "run.json", "print.ls8"]
      = some (.run { file := "print.ls8", config := some "run.json" }) := rfl
  have hoverridden : ofArguments?
      ["run", "-c", "run.json", "--max-steps", "9", "--on-unknown=skip", "print.ls8"]
      = some (.run { file := "print.ls8", config := some "run.json", maxSteps := some 9,
                     onUnknown := some .skip }) := rfl
  have htraced : ofArguments? ["run", "print.ls8", "--stats", "--on-unknown", "skip", "--trace",
      "--max-steps=+9", "--config=run.json"]
      = some (.run { file := "print.ls8", config := some "run.json", maxSteps := some 9,
                     onUnknown := some .skip, trace := true, stats := true }) := rfl
  have hfaulty : ofArguments? ["run", "--config=broken.json", "none.ls8"]
      = some (.run { file := "none.ls8", config := some "broken.json" }) := rfl
  -- What the file says is known without reading it, so only the two runs are computed.
  have hlimit : RunOptions.verdict { file := "print.ls8", config := some "run.json" }
      samples.openFile = some (1, "5\n") := by
    rw [RunOptions.verdict, (hstarts _ _ _ _ rfl hconfigured).configuration]
    decide +kernel
  have hends : RunOptions.verdict { file := "print.ls8", config := some "run.json",
                                    maxSteps := some 9, onUnknown := some .skip }
      samples.openFile = some (0, "5\n16\n") := by
    rw [RunOptions.verdict, (hstarts _ _ _ _ rfl hconfigured).configuration]
    decide +kernel
  have hfirst := (hinvoke hplain samples.openFile none {}).1.shown_eq.trans hlimit
  have hsecond := (hinvoke hoverridden samples.openFile none {}).1.shown_eq.trans hends
  have hthird := (hinvoke hoverridden samples.openFile none {}).2 _ _ (some "off") {} htraced
    ⟨rfl, rfl, rfl, rfl⟩
  have hbad : RunOptions.Misconfigured { file := "none.ls8", config := some "broken.json" }
      samples.openFile (fun _ => "EOF while parsing an object at line 1 column 1") "broken.json"
      ("invalid configuration: " ++ "EOF while parsing an object at line 1 column 1") :=
    .invalid rfl hbroken rfl
  have hfourth := (invoke_eq_respond hfaulty samples.openFile none
    { complaint := fun _ => "EOF while parsing an object at line 1 column 1" }).trans
    (hbad.respond (.upTo .warn))
  exact ⟨hfirst, hsecond, hthird.trans hsecond, hfourth⟩

end Command

end LS8
