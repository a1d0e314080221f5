import LS8.Proofs.Console
import LS8.Proofs.Fault
import LS8.Proofs.Halting
import LS8.Text.Utf8

/-!
# A console accounts for a run

The console of a machine writes to a writer that takes so many bytes and completes so many flushes.
As long as every value handed over was printed, the text is the lines of these values
(`Console.delivered`). With the first value that is not, the text ends in what was written of its
line, because the writer was full or did not flush (`CutOff`), and the machine halts.

Which values are handed over is seen by a spy, a sink that passes every value on and keeps it
(`Spy`). It answers like the sink behind it, so the machine it is put into does what the machine
without it does, and whatever is asked of the machine, the text it has written is that of the values
counted as printed, with the cut off line behind it after a fault of the output
(`console_accounts_for_run`).
-/

namespace LS8

/-- A text in ASCII has as many bytes as characters. -/
theorem Text.length_encode_of_ascii {text : List Char} (h : ∀ c ∈ text, c.val ≤ 127) :
    (encode text).length = text.length := by
  induction text with
  | nil => rfl
  | cons c text ih =>
    have hone : c.utf8Size = 1 := Char.utf8Size_eq_one_iff.2 (h c List.mem_cons_self)
    have hrest := ih fun d hd => h d (List.mem_cons_of_mem c hd)
    unfold encode at hrest ⊢
    rw [List.flatMap_cons, List.length_append, hrest, String.length_utf8EncodeChar, hone,
      List.length_cons, Nat.add_comm]

namespace Console

theorem ascii_of_mem_line {v : UInt8} {c : Char} (h : c ∈ line v) : c.val ≤ 127 := by
  rcases List.mem_append.1 h with hdigit | hfeed
  · have hrange := (Numeral.isDecimal_toDigits v.toNat).digit c hdigit
    simp only [Char.isDigit, Bool.and_eq_true, decide_eq_true_eq] at hrange
    exact UInt32.le_trans hrange.2 (by decide)
  · rw [List.mem_singleton.1 hfeed]
    decide

/-- A console with nothing written so far, before a writer that takes `cap` characters in all and
completes `flushes` flushes. -/
def limited (cap flushes : ℕ) : Console where
  room := some cap
  flushes := some flushes

/-- The console when it was limited so at first, and the lines of the values are out. -/
def delivered (cap flushes : ℕ) (values : List UInt8) : Console where
  text := String.ofList (lines values)
  room := some (cap - (lines values).length)
  flushes := some (flushes - values.length)

/-- The line of a value was cut off behind the lines of those printed, and `tail` is what was
written of it: the writer was full before the end of the line, or did not flush it. -/
inductive CutOff (cap flushes : ℕ) (printed : List UInt8) (v : UInt8) : IoError → List Char → Prop
  | full {tail : List Char} (part : tail <+: line v) (short : tail ≠ line v)
      (bytes : (Text.encode (lines printed ++ tail)).length = cap) :
      CutOff cap flushes printed v .full tail
  | unflushed (spent : printed.length = flushes) :
      CutOff cap flushes printed v (.device "flush refused") (line v)

variable {cap flushes : ℕ} {values : List UInt8}

/-- One more value is out, or its line is cut off. -/
theorem emit_delivered (hroom : (lines values).length ≤ cap) (hflushes : values.length ≤ flushes)
    (v : UInt8) :
    (emit v (delivered cap flushes values) = (.ok (), delivered cap flushes (values ++ [v]))
        ∧ (lines (values ++ [v])).length ≤ cap ∧ (values ++ [v]).length ≤ flushes)
      ∨ ∃ cause c tail, emit v (delivered cap flushes values) = (.error cause, c)
        ∧ c.text.toList = lines values ++ tail ∧ CutOff cap flushes values v cause tail := by
  have htext : ∀ tail, (String.ofList (lines values) ++ String.ofList tail).toList
      = lines values ++ tail := fun tail => by simp
  cases emitCase v (String.ofList (lines values)) (cap - (lines values).length)
      (flushes - values.length) with
  | out fits flushed eq =>
    refine .inl ⟨?_, ?_, ?_⟩
    · refine eq.trans ?_
      simp [delivered, lines_concat, Nat.sub_sub]
    · rw [lines_concat, List.length_append]
      omega
    · rw [List.length_append, List.length_singleton]
      omega
  | unflushed fits spent eq =>
    exact .inr ⟨_, _, _, eq, htext _, .unflushed (by omega)⟩
  | full short eq =>
    refine .inr ⟨_, _, _, eq, htext _, .full (List.take_prefix _ _) ?_ ?_⟩
    · intro hall
      have hlength := congrArg List.length hall
      rw [List.length_take] at hlength
      omega
    · rw [Text.length_encode_of_ascii, List.length_append, List.length_take]
      · omega
      · intro c hc
        rcases List.mem_append.1 hc with hc | hc
        · obtain ⟨w, -, hw⟩ := List.mem_flatMap.1 hc
          exact ascii_of_mem_line hw
        · exact ascii_of_mem_line (List.mem_of_mem_take hc)

end Console

/-- A sink that hands every value on and keeps it, whether it is taken or not. -/
structure Spy (σ : Type) where
  sink : σ
  handed : List UInt8 := []

instance {σ : Type} [OutputSink σ] : OutputSink (Spy σ) where
  emit v spy :=
    ((OutputSink.emit v spy.sink).1, ⟨(OutputSink.emit v spy.sink).2, spy.handed ++ [v]⟩)

namespace Spy

section Watched

variable {σ : Type} [OutputSink σ]

/-- The spy is put before this sink. -/
def Watches (sink : σ) (spy : Spy σ) : Prop :=
  spy.sink = sink

theorem answerAlike_watches : AnswerAlike (Watches : σ → Spy σ → Prop) := by
  rintro _ spy rfl v
  exact ⟨rfl, rfl⟩

theorem emit_of_eq {spy : Spy σ} {v : UInt8} {answer : Except IoError Unit} {sink : σ}
    (h : OutputSink.emit v spy.sink = (answer, sink)) :
    OutputSink.emit v spy = (answer, ⟨sink, spy.handed ++ [v]⟩) := by
  change (_, (⟨_, _⟩ : Spy σ)) = _
  rw [h]

end Watched

/-- All values handed over are out. -/
structure Whole (cap flushes : ℕ) (spy : Spy Console) : Prop where
  console : spy.sink = .delivered cap flushes spy.handed
  room : (Console.lines spy.handed).length ≤ cap
  flushed : spy.handed.length ≤ flushes

/-- All values handed over are out but the last, whose line was cut off behind the `tail`. -/
structure Cut (cap flushes : ℕ) (printed : List UInt8) (v : UInt8) (cause : IoError)
    (tail : List Char) (spy : Spy Console) : Prop where
  handed : spy.handed = printed ++ [v]
  text : spy.sink.text.toList = Console.lines printed ++ tail
  line : Console.CutOff cap flushes printed v cause tail

theorem Whole.emit {cap flushes : ℕ} {spy : Spy Console} (h : spy.Whole cap flushes) (v : UInt8) :
    (∃ next : Spy Console, OutputSink.emit v spy = (.ok (), next) ∧ next.Whole cap flushes
        ∧ next.handed = spy.handed ++ [v])
      ∨ ∃ cause tail, ∃ next : Spy Console, OutputSink.emit v spy = (.error cause, next)
        ∧ next.Cut cap flushes spy.handed v cause tail := by
  obtain ⟨hemit, hroom, hflushed⟩ | ⟨cause, c, tail, hemit, htext, hline⟩ :=
    Console.emit_delivered h.room h.flushed v <;> rw [← h.console] at hemit
  · exact .inl ⟨_, emit_of_eq hemit, ⟨rfl, hroom, hflushed⟩, rfl⟩
  · exact .inr ⟨cause, tail, _, emit_of_eq hemit, rfl, htext, hline⟩

end Spy

namespace Machine

section Sinks

variable {σ : Type} [OutputSink σ] {m : Machine σ}

/-- A step whose value is taken counts it and has no fault of the output. -/
theorem step_prints_of_takes {sink : σ} (h : takeAll? m.sink m.handsOut.toList = some sink) :
    m.step.machine.sink = sink
      ∧ m.step.machine.stats.emitted = m.stats.emitted + m.handsOut.toList.length
      ∧ ∀ cause, .output cause ∉ stepFaults m.step.result := by
  obtain ⟨hresult, hmachine⟩ := step_of_takes h
  rw [hresult, hmachine]
  refine ⟨rfl, m.unplugged.emitted_step, fun cause hcause => ?_⟩
  rcases hstep : m.unplugged.step.result with fault | o <;> rw [hstep] at hcause
  · rw [stepFaults_of_ne (ne_stepLimit_of_step hstep), List.mem_singleton] at hcause
    obtain ⟨v, hrefused⟩ := (failsInto_of_step hstep).refused cause hcause.symm
    cases hrefused
  · cases hcause

/-- A halted machine hands out no more values. -/
theorem sink_of_halted (h : m.halted = true) {requests : List Request} {s : Session σ}
    (hs : m.session requests = some s) : s.machine.sink = m.sink := by
  have hkept : s.machine.halted = true ∧ s.machine.sink = m.sink := by
    refine session_invariant (P := fun a _ => a.halted = true ∧ a.sink = m.sink) ?_ ?_ ⟨h, rfl⟩ hs
    · rintro a _ ⟨hhalted, hsink⟩
      rw [step_of_halted hhalted]
      exact ⟨hhalted, hsink⟩
    · rintro a _ c hkept
      exact hkept
  exact hkept.2

end Sinks

/-- What became of the values that a machine handed over, when its steps failed with these faults:
all are out and counted, or the machine halted over the last one. -/
inductive Delivered (cap flushes : ℕ) (m : Machine (Spy Console)) (faults : List Fault) : Prop
  | whole (sink : m.sink.Whole cap flushes) (emitted : m.stats.emitted = m.sink.handed.length)
      (quiet : ∀ cause, .output cause ∉ faults)
  | cutOff (printed : List UInt8) (v : UInt8) (cause : IoError) (tail : List Char)
      (sink : m.sink.Cut cap flushes printed v cause tail)
      (emitted : m.stats.emitted = printed.length) (halted : m.halted = true)
      (reported : ∀ other, .output other ∈ faults ↔ other = cause)

variable {cap flushes : ℕ} {m : Machine (Spy Console)} {faults : List Fault}

theorem Delivered.of_takes (emitted : m.stats.emitted = m.sink.handed.length)
    (quiet : ∀ cause, .output cause ∉ faults) {next : Spy Console}
    (htakes : takeAll? m.sink m.handsOut.toList = some next) (hnext : next.Whole cap flushes)
    (hhanded : next.handed = m.sink.handed ++ m.handsOut.toList) :
    m.step.machine.Delivered cap flushes (faults ++ stepFaults m.step.result) := by
  obtain ⟨hsink, hcount, hstep⟩ := step_prints_of_takes htakes
  refine .whole (hsink ▸ hnext) ?_ fun cause => ?_
  · rw [hsink, hhanded, hcount, emitted, List.length_append]
  · simp [quiet, hstep]

theorem Delivered.step (h : m.Delivered cap flushes faults) :
    m.step.machine.Delivered cap flushes (faults ++ stepFaults m.step.result) := by
  cases h with
  | cutOff printed v cause tail sink emitted halted reported =>
    rw [step_of_halted halted]
    exact .cutOff printed v cause tail sink emitted halted (by simpa [stepFaults])
  | whole sink emitted quiet =>
    rcases hv : m.handsOut with _ | v
    · refine .of_takes emitted quiet ?_ sink ?_ <;> rw [hv]
      · rfl
      · exact (List.append_nil _).symm
    · obtain ⟨next, hemit, hnext, hhanded⟩ | ⟨cause, tail, next, hemit, hcut⟩ := sink.emit v
      · refine .of_takes emitted quiet ?_ hnext ?_ <;> rw [hv]
        · exact takeAll?_of_accepts hemit
        · exact hhanded
      · obtain ⟨hresult, hmachine⟩ := step_of_refuses hv hemit
        rw [hresult, hmachine]
        refine .cutOff m.sink.handed v cause tail hcut emitted rfl fun other => ?_
        simp [stepFaults, quiet]

theorem delivered_of_session {config : Config} {requests : List Request}
    {t : Session (Spy Console)}
    (h : (initial { sink := Console.limited cap flushes : Spy Console } config).session requests
      = some t) : t.machine.Delivered cap flushes t.faults := by
  refine session_invariant (P := Delivered cap flushes) (fun _ _ => Delivered.step) ?_ ?_ h
  · intro m faults c hm
    cases hm with
    | whole sink emitted quiet => exact .whole sink emitted quiet
    | cutOff printed v cause tail sink emitted halted reported =>
      exact .cutOff printed v cause tail sink emitted halted reported
  · exact .whole ⟨rfl, Nat.zero_le _, Nat.zero_le _⟩ rfl nofun

/-- Whatever a machine is asked for, the text that its console has written is the lines of as many
of the values handed over as were counted, and more only after a fault of the output: a part of the
line of the next value, if the writer was full, or the whole line, if it was not flushed. Nothing is
written after such a fault. -/
theorem console_accounts_for_run {config : Config} {requests : List Request} {s : Session Console}
    (h : (initial (Console.limited cap flushes) config).session requests = some s) :
    ∃ t, (initial { sink := Console.limited cap flushes : Spy Console } config).session requests
          = some t
      ∧ s.Mirrors Spy.Watches t
      ∧ ∃ tail, s.machine.sink.text.toList
          = Console.lines (t.machine.sink.handed.take s.machine.stats.emitted) ++ tail
        ∧ ((∀ cause, .output cause ∉ s.faults) →
          tail = [] ∧ t.machine.sink.handed.length = s.machine.stats.emitted)
        ∧ ∀ cause, .output cause ∈ s.faults →
          s.machine.halted = true
            ∧ (∃ printed v, t.machine.sink.handed = printed ++ [v]
              ∧ printed.length = s.machine.stats.emitted
              ∧ Console.CutOff cap flushes printed v cause tail)
            ∧ ∀ more, ∃ s', s.machine.session more = some s'
              ∧ s'.machine.sink = s.machine.sink := by
  have hfresh : (initial (Console.limited cap flushes) config).Mirrors Spy.Watches
      (initial { sink := Console.limited cap flushes : Spy Console } config) := ⟨rfl, rfl⟩
  obtain ⟨t, ht, hst⟩ := hfresh.session Spy.answerAlike_watches h
  have hsink : t.machine.sink.sink = s.machine.sink := hst.machine.sinks
  have hstats : t.machine.stats = s.machine.stats :=
    (congrArg Machine.stats hst.machine.machine).symm
  have hfaults : t.faults = s.faults := by
    unfold Session.faults
    rw [hst.answers]
  rw [← hsink, ← hstats, ← hfaults, hst.machine.halted]
  refine ⟨t, ht, hst, ?_⟩
  cases delivered_of_session ht with
  | whole sink emitted quiet =>
    refine ⟨[], ?_, fun _ => ⟨rfl, emitted.symm⟩, fun cause hcause => absurd hcause (quiet cause)⟩
    rw [sink.console, emitted, List.take_length, List.append_nil]
    exact String.toList_ofList
  | cutOff printed v cause tail sink emitted halted reported =>
    refine ⟨tail, ?_, fun hquiet => absurd ((reported cause).2 rfl) (hquiet cause), ?_⟩
    · rw [sink.text, sink.handed, emitted, List.take_left]
    · intro other hother
      obtain rfl := (reported other).1 hother
      refine ⟨halted, ⟨printed, v, sink.handed, emitted.symm, sink.line⟩, fun more => ?_⟩
      have hhalted : s.machine.halted = true := hst.machine.halted.trans halted
      obtain ⟨s', hs', -⟩ := session_of_halted more hhalted
      exact ⟨s', hs', (sink_of_halted hhalted hs').trans hsink.symm⟩

/-- A value is printed, doubled and printed twice more. -/
def writesThreePrints : List Request :=
  [.setMemory 0 0x82, .setMemory 2 0x05, .setMemory 3 0x47, .setMemory 5 0xA0, .setMemory 8 0x47,
    .setMemory 10 0x47, .setMemory 12 0x01, .step, .runFor 9, .setPc 3, .step]

theorem console_accounts_for_run_writesThreePrints :
    (∃ s, (initial (Console.limited 6 9) {}).session writesThreePrints = some s
        ∧ s.faults = [.output .full] ∧ s.machine.stats.emitted = 2
        ∧ s.machine.sink.text.toList = Console.lines [5, 10] ++ ['1']
        ∧ ∃ s', s.machine.session writesThreePrints = some s'
          ∧ s'.machine.sink = s.machine.sink)
      ∧ ∃ s, (initial (Console.limited 9 1) {}).session writesThreePrints = some s
        ∧ s.faults = [.output (.device "flush refused")] ∧ s.machine.stats.emitted = 1
        ∧ s.machine.sink.text.toList = Console.lines [5] ++ Console.line 10
        ∧ ∃ printed v tail, printed.length = s.machine.stats.emitted
          ∧ Console.CutOff 9 1 printed v (.device "flush refused") tail := by
  have hfull : ∃ s, (initial (Console.limited 6 9) {}).session writesThreePrints = some s
      ∧ s.faults = [.output .full] ∧ s.machine.stats.emitted = 2
      ∧ s.machine.sink.text.toList = Console.lines [5, 10] ++ ['1'] := ⟨_, rfl, rfl, rfl, rfl⟩
  have hrefused : ∃ s, (initial (Console.limited 9 1) {}).session writesThreePrints = some s
      ∧ s.faults = [.output (.device "flush refused")] ∧ s.machine.stats.emitted = 1
      ∧ s.machine.sink.text.toList = Console.lines [5] ++ Console.line 10 :=
    ⟨_, rfl, rfl, rfl, rfl⟩
  refine ⟨?_, ?_⟩
  · obtain ⟨s, hs, hfaults, hcount, htext⟩ := hfull
    obtain ⟨t, -, -, tail, -, -, hfault⟩ := console_accounts_for_run hs
    obtain ⟨-, -, hrest⟩ := hfault .full (by rw [hfaults]; exact List.mem_singleton_self _)
    exact ⟨s, hs, hfaults, hcount, htext, hrest writesThreePrints⟩
  · obtain ⟨s, hs, hfaults, hcount, htext⟩ := hrefused
    obtain ⟨t, -, -, tail, -, -, hfault⟩ := console_accounts_for_run hs
    obtain ⟨-, ⟨printed, v, -, hprinted, hline⟩, -⟩ :=
      hfault (.device "flush refused") (by rw [hfaults]; exact List.mem_singleton_self _)
    exact ⟨s, hs, hfaults, hcount, htext, printed, v, tail, hprinted, hline⟩

end Machine

end LS8
