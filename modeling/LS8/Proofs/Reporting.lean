import LS8.Proofs.Accounting
import LS8.Proofs.Bounded
import LS8.Proofs.Effect
import LS8.Proofs.Logging
import Mathlib.Data.List.Forall2

/-!
# The log accounts for every step

A step of a halted machine logs nothing. Every other step shows the machine as it found it, if it is
to be traced, and then has at most one thing to report: an undefined opcode, with the place where
the machine goes on if it passes over it, a halt, or the fault of a defined instruction (`Logs`). So
the log can be read against the counters. The warnings are the opcodes that were passed over and the
one that the machine stopped at, if there was one; the halts are the halts that were executed; and
with tracing there are as many traces as steps (`Reconciles`). This holds of any number of steps and
of every run (`log_accounts_for_steps`).
-/

namespace LS8

/-- An event as a reader of the log sees it. -/
structure LogEntry where
  level : Level
  message : String
  fields : List (String × String)
deriving DecidableEq

namespace Event

def entry (e : Event) : LogEntry :=
  ⟨e.level, e.message, e.fields⟩

def isWarning (e : Event) : Bool :=
  e.level = .warn

def isTrace (e : Event) : Bool :=
  e.level = .trace

def isHalt (e : Event) : Bool :=
  e.level = .debug && e.message = "HLT"

end Event

/-- An undefined opcode has stopped the machine. -/
def stopsUndefined {α : Type} : Except Fault α → Bool
  | .error (.unknownInstruction _ _) => true
  | _ => false

theorem stopsUndefined_map {α β : Type} (f : α → β) (r : Except Fault α) :
    stopsUndefined (r.map f) = stopsUndefined r := by
  rcases r with fault | a
  · cases fault <;> rfl
  · rfl

namespace Machine

variable {σ : Type}

/-- The log says what the counters say of the way from one machine to another, on which undefined
opcodes have stopped the machine so many times. -/
structure Reconciles (before after : Machine σ) (log : List Event) (stops : ℕ) : Prop where
  warnings : log.countP Event.isWarning + before.stats.skipped = after.stats.skipped + stops
  halts : log.countP Event.isHalt + before.stats.count .hlt = after.stats.count .hlt
  traces : before.config.traceInstructions = true →
    log.countP Event.isTrace + before.stats.steps = after.stats.steps
  quiet : before.config.traceInstructions = false → log.countP Event.isTrace = 0
  config : after.config = before.config

theorem Reconciles.refl (m : Machine σ) : m.Reconciles m [] 0 where
  warnings := Nat.add_comm ..
  halts := Nat.zero_add _
  traces _ := Nat.zero_add _
  quiet _ := rfl
  config := rfl

theorem Reconciles.trans {a b c : Machine σ} {l₁ l₂ : List Event} {s t : ℕ}
    (h₁ : a.Reconciles b l₁ s) (h₂ : b.Reconciles c l₂ t) : a.Reconciles c (l₁ ++ l₂) (s + t) := by
  have hwarnings := h₁.warnings
  have hwarnings' := h₂.warnings
  have hhalts := h₁.halts
  have hhalts' := h₂.halts
  have htraces' := h₂.traces
  have hquiet' := h₂.quiet
  rw [h₁.config] at htraces' hquiet'
  refine ⟨?_, ?_, fun h => ?_, fun h => ?_, h₂.config.trans h₁.config⟩ <;> rw [List.countP_append]
  · omega
  · omega
  · have htraces := h₁.traces h
    have := htraces' h
    omega
  · rw [h₁.quiet h, hquiet' h]

variable [OutputSink σ]

/-- What a step that finds the machine running has to report. -/
inductive Reports (m : Machine σ) : List LogEntry → Prop
  | stopsAt (undefined : Instruction.decode (m.fetch 0) = none)
      (result : m.step.result = .error (.unknownInstruction (m.fetch 0) m.pc)) :
      m.Reports [⟨.warn, "unknown instruction; halting",
        [("opcode", Numeral.decimal (m.fetch 0).toNat), ("pc", Numeral.decimal m.pc.toNat)]⟩]
  | passesOver (undefined : Instruction.decode (m.fetch 0) = none)
      (result : m.step.result = .ok (.skipped (m.fetch 0) m.pc)) :
      m.Reports [⟨.warn, "unknown instruction; skipping",
        [("opcode", Numeral.decimal (m.fetch 0).toNat), ("pc", Numeral.decimal m.pc.toNat),
          ("next_pc", Numeral.decimal m.step.machine.pc.toNat)]⟩]
  | halts (decoded : Instruction.decode (m.fetch 0) = some .hlt)
      (result : m.step.result = .ok (.executed .hlt)) :
      m.Reports [⟨.debug, "HLT", [("pc", Numeral.decimal m.pc.toNat)]⟩]
  | executes {i : Instruction} (decoded : Instruction.decode (m.fetch 0) = some i)
      (other : i ≠ .hlt) (result : m.step.result = .ok (.executed i)) : m.Reports []
  | fails {i : Instruction} {fault : Fault} (decoded : Instruction.decode (m.fetch 0) = some i)
      (result : m.step.result = .error fault) :
      m.Reports [⟨.debug, "instruction faulted; halting",
        [("pc", Numeral.decimal m.pc.toNat), ("inst", i.mnemonic), ("fault", fault.message)]⟩]

/-- What a step logs. -/
inductive Logs (m : Machine σ) : List LogEntry → Prop
  | idle (halted : m.halted = true) (result : m.step.result = .ok .halted) : m.Logs []
  | traced {entries : List LogEntry} (running : m.halted = false)
      (traces : m.config.traceInstructions = true) (reports : m.Reports entries) :
      m.Logs (⟨.trace, m.traceLine, []⟩ :: entries)
  | untraced {entries : List LogEntry} (running : m.halted = false)
      (quiet : m.config.traceInstructions = false) (reports : m.Reports entries) : m.Logs entries

/-- Some of the first `n` steps stop at an undefined opcode. -/
def stopsWithin (m : Machine σ) (n : ℕ) : Bool :=
  (List.range n).any fun k => stopsUndefined (m.after k).step.result

/-! ## One step -/

theorem Logs.of_running {m : Machine σ} {notices : List Event} (hrun : m.halted = false)
    (hevents : m.step.events = m.traceEvents ++ notices)
    (hreports : m.Reports (notices.map Event.entry)) : m.Logs (m.step.events.map Event.entry) := by
  rw [hevents, List.map_append]
  unfold traceEvents
  rcases htrace : m.config.traceInstructions with _ | _
  · exact .untraced hrun htrace hreports
  · exact .traced hrun htrace hreports

theorem logs_step (m : Machine σ) : m.Logs (m.step.events.map Event.entry) := by
  cases m.stepCase with
  | idle hh heq =>
    rw [heq]
    exact .idle hh (by rw [heq])
  | undefinedHalt hrun hundef _ heq =>
    refine .of_running hrun (by rw [heq]) ?_
    exact .stopsAt hundef (by rw [heq])
  | undefinedSkip next hrun hundef _ _ heq =>
    refine .of_running hrun (by rw [heq]) ?_
    obtain rfl : m.step.machine.pc = next := by
      rw [heq]
      rfl
    exact .passesOver hundef (by rw [heq])
  | badRegister _ _ hrun hdec _ heq | refused _ _ _ hrun hdec _ _ heq =>
    refine .of_running hrun (by rw [heq]) ?_
    exact .fails hdec (by rw [heq])
  | executed i _ _ hrun hdec _ _ heq =>
    refine .of_running hrun (by rw [heq]) ?_
    by_cases hi : i = .hlt
    · subst hi
      exact .halts hdec (by rw [heq])
    · rw [if_neg hi]
      exact .executes hdec hi (by rw [heq])

/-- A step of a running machine counts itself, and traces itself if it is to. -/
theorem Reconciles.of_running {m : Machine σ} {notices : List Event} {stops : ℕ}
    (hrun : m.halted = false) (hevents : m.step.events = m.traceEvents ++ notices)
    (htraces : notices.countP Event.isTrace = 0)
    (hwarnings : notices.countP Event.isWarning + m.stats.skipped
      = m.step.machine.stats.skipped + stops)
    (hhalts : notices.countP Event.isHalt + m.stats.count .hlt = m.step.machine.stats.count .hlt) :
    m.Reconciles m.step.machine m.step.events stops := by
  have hkinds : m.traceEvents.countP Event.isWarning = 0
      ∧ m.traceEvents.countP Event.isHalt = 0 := by
    unfold traceEvents
    split <;> exact ⟨rfl, rfl⟩
  have hsteps := steps_step hrun
  rw [hevents]
  refine ⟨?_, ?_, fun h => ?_, fun h => ?_, config_step m⟩ <;> rw [List.countP_append]
  · rw [hkinds.1, Nat.zero_add, hwarnings]
  · rw [hkinds.2, Nat.zero_add, hhalts]
  · have hone : m.traceEvents.countP Event.isTrace = 1 := by
      unfold traceEvents
      rw [if_pos h]
      rfl
    omega
  · have hnone : m.traceEvents = [] := by
      unfold traceEvents
      rw [h]
      rfl
    rw [hnone, htraces]
    rfl

theorem reconciles_step (m : Machine σ) :
    m.Reconciles m.step.machine m.step.events (stopsUndefined m.step.result).toNat := by
  cases m.stepCase with
  | idle hh heq =>
    rw [heq]
    exact .refl m
  | undefinedHalt hrun _ _ heq | undefinedSkip _ hrun _ _ _ heq | badRegister _ _ hrun _ _ heq
  | refused _ _ _ hrun _ _ _ heq =>
    refine .of_running hrun (by rw [heq]) rfl ?_ ?_ <;> rw [heq]
    · exact Nat.add_comm ..
    · exact Nat.zero_add _
  | executed i op done hrun hdec hres hperf heq =>
    have hstats : m.step.machine.stats = m.stats.completed i := by
      rw [stats_step, heq]
      rfl
    have hresult : m.step.result = .ok (.executed i) := by rw [heq]
    refine .of_running hrun (by rw [heq]) ?_ ?_ ?_
    · split <;> rfl
    · rw [hstats, hresult]
      split <;> exact Nat.zero_add _
    · rw [hstats, Stats.count_completed]
      split
      · exact Nat.add_comm ..
      · exact Nat.zero_add _

/-! ## Any number of steps -/

theorem stopsWithin_succ (m : Machine σ) (n : ℕ) :
    m.stopsWithin (n + 1) = (m.stopsWithin n || stopsUndefined (m.after n).step.result) := by
  unfold stopsWithin
  rw [List.range_succ, List.any_append, List.any_cons, List.any_nil, Bool.or_false]

theorem stopsWithin_of_advances {m : Machine σ} : ∀ {n : ℕ}, m.Advances n → m.stopsWithin n = false
  | 0, _ => rfl
  | n + 1, h => by
    obtain ⟨-, o, ho⟩ := h n (Nat.lt_succ_self n)
    rw [stopsWithin_succ, stopsWithin_of_advances (h.mono (Nat.le_succ n)), ho]
    rfl

theorem halted_of_stopsWithin {m : Machine σ} {n : ℕ} (h : m.stopsWithin n = true) :
    (m.after n).halted = true := by
  by_contra hrun
  rw [Bool.not_eq_true] at hrun
  rw [stopsWithin_of_advances (advances_of_running hrun)] at h
  cases h

theorem reconciles_after (m : Machine σ) : ∀ n : ℕ,
    m.Reconciles (m.after n) (m.log n) (m.stopsWithin n).toNat
  | 0 => .refl m
  | n + 1 => by
    have hn := (m.reconciles_after n).trans (reconciles_step (m.after n))
    rw [after_succ, log, stopsWithin_succ]
    rcases hstops : m.stopsWithin n with _ | _ <;> rw [hstops] at hn
    · rwa [Bool.toNat_false, Nat.zero_add] at hn
    · have hidle := step_of_halted (halted_of_stopsWithin hstops)
      rw [hidle] at hn ⊢
      exact hn

theorem logs_after (m : Machine σ) : ∀ n : ℕ, ∃ parts,
    List.Forall₂ (fun k entries => (m.after k).Logs entries) (List.range n) parts
      ∧ (m.log n).map Event.entry = parts.flatten
  | 0 => ⟨[], .nil, rfl⟩
  | n + 1 => by
    obtain ⟨parts, hparts, hlog⟩ := m.logs_after n
    refine ⟨parts ++ [(m.after n).step.events.map Event.entry], ?_, ?_⟩
    · rw [List.range_succ]
      exact List.rel_append hparts (.cons (m.after n).logs_step .nil)
    · rw [log, List.map_append, hlog, List.flatten_append, List.flatten_singleton]

/-! ## Runs -/

/-- The report is that of `k` steps from the machine, which was running before each of them. -/
structure Takes {α : Type} (m : Machine σ) (k : ℕ) (r : Report σ α) : Prop where
  running : ∀ j < k, (m.after j).halted = false
  machine : r.machine = m.after k
  events : r.events = m.log k
  stops : stopsUndefined r.result = m.stopsWithin k

theorem EndsAt.takes {α : Type} {m : Machine σ} {k : ℕ} {r : Except Fault Unit}
    (h : m.EndsAt k r) {result : Except Fault α}
    (hresult : stopsUndefined result = stopsUndefined r) :
    m.Takes k ⟨result, m.after k, m.log k⟩ := by
  refine ⟨fun j hj => (h.running_before hj).2, rfl, rfl, hresult.trans ?_⟩
  cases h with
  | halted ha _ =>
    rw [stopsWithin_of_advances ha]
    rfl
  | @faulted k fault ha hf =>
    rw [stopsWithin_succ, stopsWithin_of_advances ha, hf, Bool.false_or]
    cases fault <;> rfl

theorem takes_of_limit {α : Type} {m : Machine σ} {n limit : ℕ} (ha : m.Advances n) :
    m.Takes n ⟨(.error (.stepLimitExceeded limit) : Except Fault α), m.after n, m.log n⟩ :=
  ⟨fun j hj => (ha j hj).1, rfl, rfl, (stopsWithin_of_advances ha).symm⟩

theorem exists_takes_runFor (m : Machine σ) (n : ℕ) : ∃ k ≤ n, m.Takes k (m.runFor n) := by
  rcases m.runFor_cases n with ⟨k, hk, r, hends, heq⟩ | ⟨ha, -, heq⟩ <;> rw [heq]
  · exact ⟨k, hk, hends.takes (stopsUndefined_map _ r)⟩
  · exact ⟨n, Nat.le_refl n, takes_of_limit ha⟩

theorem exists_takes_run {m : Machine σ} {report : Report σ Unit} (h : m.run = some report) :
    ∃ k, m.Takes k report := by
  rcases run_cases h with ⟨k, r, hends, rfl⟩ | ⟨n, ha, -, rfl⟩
  · exact ⟨k, hends.takes rfl⟩
  · exact ⟨n, takes_of_limit ha⟩

theorem Takes.reconciles {α : Type} {m : Machine σ} {k : ℕ} {r : Report σ α} (h : m.Takes k r) :
    m.Reconciles r.machine r.events (stopsUndefined r.result).toNat := by
  rw [h.machine, h.events, h.stops]
  exact m.reconciles_after k

/-- The log of any number of steps is what they log one after the other, a run logs what its steps
do, and in both the warnings, halts and traces are as many as the counters say. -/
theorem log_accounts_for_steps (m : Machine σ) :
    (∀ n, (∃ parts,
          List.Forall₂ (fun k entries => (m.after k).Logs entries) (List.range n) parts
            ∧ (m.log n).map Event.entry = parts.flatten)
        ∧ m.Reconciles (m.after n) (m.log n) (m.stopsWithin n).toNat)
      ∧ (∀ n, (∃ k ≤ n, m.Takes k (m.runFor n)) ∧ m.Reconciles (m.runFor n).machine
        (m.runFor n).events (stopsUndefined (m.runFor n).result).toNat)
      ∧ ∀ report, m.run = some report → (∃ k, m.Takes k report)
        ∧ m.Reconciles report.machine report.events (stopsUndefined report.result).toNat := by
  refine ⟨fun n => ⟨m.logs_after n, m.reconciles_after n⟩, fun n => ?_, fun report hreport => ?_⟩
  · obtain ⟨k, hk, htakes⟩ := m.exists_takes_runFor n
    exact ⟨⟨k, hk, htakes⟩, htakes.reconciles⟩
  · obtain ⟨k, htakes⟩ := exists_takes_run hreport
    exact ⟨⟨k, htakes⟩, htakes.reconciles⟩

/-- A machine that shows every step meets an undefined opcode in front of a halt. -/
def meetsUndefined (policy : Policy) : Machine Collector :=
  { initial ({} : Collector)
      { traceInstructions := true, maxSteps := some 9, unknownInstruction := policy } with
    memory := Memory.zero.write 1 0x01 }

theorem log_accounts_for_steps_meetsUndefined :
    ∃ skips stops, (meetsUndefined .skip).run = some skips ∧ (meetsUndefined .halt).run = some stops
      ∧ skips.events = [.trace (meetsUndefined .skip).traceLine, .undefinedSkip 0 0 1,
        .trace ((meetsUndefined .skip).after 1).traceLine, .halted 1]
      ∧ stops.events = [.trace (meetsUndefined .halt).traceLine, .undefinedHalt 0 0]
      ∧ (meetsUndefined .skip).Reconciles skips.machine skips.events 0
      ∧ (meetsUndefined .halt).Reconciles stops.machine stops.events 1 := by
  refine ⟨_, _, rfl, rfl, rfl, rfl, ?_, ?_⟩
  · exact ((log_accounts_for_steps (meetsUndefined .skip)).2.2 _ rfl).2
  · exact ((log_accounts_for_steps (meetsUndefined .halt)).2.2 _ rfl).2

end Machine

end LS8
