import LS8.Proofs.Bounded
import LS8.Proofs.Halting

/-!
# Watching a machine does not disturb it

What a machine has printed and counted so far, whether it shows itself before every step, and how
many steps a run may take are no part of what a step depends on. So two machines that differ in
these alone (`Machine.Twin`) go on side by side whatever they are asked for, except for a run as
configured, which is limited: they give the same answers, come to the same core and the same flag,
print the same values and count the same, and their logs differ in traces only
(`observation_transparent`). Under the same limit a run as configured is no exception (`Twin.run`).
-/

namespace LS8

/-! ## Sums of counters -/

instance : Add Mix where
  add m n :=
    { ldi := m.ldi + n.ldi, prn := m.prn + n.prn, hlt := m.hlt + n.hlt, add := m.add + n.add,
      mul := m.mul + n.mul, push := m.push + n.push, pop := m.pop + n.pop, call := m.call + n.call,
      ret := m.ret + n.ret }

instance : Add Stats where
  add s t :=
    { steps := s.steps + t.steps, retired := s.retired + t.retired, mix := s.mix + t.mix,
      emitted := s.emitted + t.emitted, skipped := s.skipped + t.skipped }

theorem Mix.add_assoc (k m n : Mix) : k + m + n = k + (m + n) := by
  change Mix.mk .. = Mix.mk ..
  simp only [Mix.mk.injEq]
  refine ⟨?_, ?_, ?_, ?_, ?_, ?_, ?_, ?_, ?_⟩ <;> exact Nat.add_assoc ..

namespace Stats

theorem add_assoc (s t u : Stats) : s + t + u = s + (t + u) := by
  change Stats.mk .. = Stats.mk ..
  simp only [Stats.mk.injEq]
  exact ⟨Nat.add_assoc .., Nat.add_assoc .., Mix.add_assoc .., Nat.add_assoc .., Nat.add_assoc ..⟩

/-- What a step counts does not depend on what has been counted before. -/
theorem stepped_eq_add (s : Stats) (result : Except Fault Outcome) :
    s.stepped result = s + Stats.stepped {} result := by
  rcases result with fault | o
  · rfl
  · cases o with
    | executed i => cases i <;> rfl
    | halted | skipped _ _ => rfl

end Stats

namespace Machine

/-- The machines differ at most in what they have printed and counted, and in those settings that no
step depends on. -/
structure Twin (a b : Machine Collector) : Prop where
  policy : a.config.unknownInstruction = b.config.unknownInstruction
  core : a.core = b.core
  halted : a.halted = b.halted

/-- The first machine has become the second one, and has printed and counted this meanwhile. -/
structure Shows (before after : Machine Collector) (printed : List UInt8) (counted : Stats) :
    Prop where
  config : after.config = before.config
  values : after.sink.values.toList = before.sink.values.toList ++ printed
  stats : after.stats = before.stats + counted

/-- Two machines have become two others and cannot be told apart by what happened meanwhile, but by
the traces in their logs. -/
structure SideBySide (a b a' b' : Machine Collector) (la lb : List Event) : Prop where
  twin : a'.Twin b'
  shown : ∃ printed counted, a.Shows a' printed counted ∧ b.Shows b' printed counted
  alike : a.config.traceInstructions = b.config.traceInstructions → la = lb
  quiet : b.config.traceInstructions = false → lb = untraced la

variable {a b a₁ b₁ a₂ b₂ : Machine Collector}

namespace Shows

theorem refl (m : Machine Collector) : m.Shows m [] {} :=
  ⟨rfl, (List.append_nil _).symm, rfl⟩

theorem trans {p q : List UInt8} {s t : Stats} (h₁ : a.Shows a₁ p s) (h₂ : a₁.Shows a₂ q t) :
    a.Shows a₂ (p ++ q) (s + t) := by
  refine ⟨h₂.config.trans h₁.config, ?_, ?_⟩
  · rw [h₂.values, h₁.values, List.append_assoc]
  · rw [h₂.stats, h₁.stats, Stats.add_assoc]

theorem step (m : Machine Collector) :
    m.Shows m.step.machine m.handsOut.toList (Stats.stepped {} m.step.result) :=
  ⟨m.config_step, m.collected_step, by rw [stats_step, Stats.stepped_eq_add]⟩

end Shows

namespace SideBySide

variable {l₁ m₁ l₂ m₂ : List Event}

theorem refl (h : a.Twin b) : a.SideBySide b a b [] [] where
  twin := h
  shown := ⟨[], {}, .refl a, .refl b⟩
  alike := fun _ => rfl
  quiet := fun _ => rfl

theorem trans (h₁ : a.SideBySide b a₁ b₁ l₁ m₁) (h₂ : a₁.SideBySide b₁ a₂ b₂ l₂ m₂) :
    a.SideBySide b a₂ b₂ (l₁ ++ l₂) (m₁ ++ m₂) := by
  obtain ⟨p, s, ha₁, hb₁⟩ := h₁.shown
  obtain ⟨q, t, ha₂, hb₂⟩ := h₂.shown
  refine ⟨h₂.twin, ⟨p ++ q, s + t, ha₁.trans ha₂, hb₁.trans hb₂⟩, fun h => ?_, fun h => ?_⟩
  · rw [h₁.alike h, h₂.alike (by rw [ha₁.config, hb₁.config, h])]
  · rw [untraced_append, h₁.quiet h, h₂.quiet (by rw [hb₁.config, h])]

/-- Writes to the core from outside are not shown. -/
theorem write (h : a.Twin b) (c : Core) {log : List Event} (hlog : untraced log = log) :
    a.SideBySide b { a with registers := c.registers, memory := c.memory, pc := c.pc }
      { b with registers := c.registers, memory := c.memory, pc := c.pc } log log where
  twin := ⟨h.policy, rfl, h.halted⟩
  shown := ⟨[], {}, ⟨rfl, (List.append_nil _).symm, rfl⟩, ⟨rfl, (List.append_nil _).symm, rfl⟩⟩
  alike := fun _ => rfl
  quiet := fun _ => hlog.symm

end SideBySide

namespace Twin

theorem symm (h : a.Twin b) : b.Twin a :=
  ⟨h.policy.symm, h.core.symm, h.halted.symm⟩

theorem registers (h : a.Twin b) : a.registers = b.registers :=
  congrArg Core.registers h.core

theorem memory (h : a.Twin b) : a.memory = b.memory :=
  congrArg Core.memory h.core

theorem pc (h : a.Twin b) : a.pc = b.pc :=
  congrArg Core.pc h.core

theorem isAlike (h : a.Twin b) : a.Alike b where
  halted := h.halted
  policy := h.policy
  registers := h.registers
  pc := h.pc
  used := fun x _ => by rw [h.memory]
  answers := fun _ => rfl

theorem fetch (h : a.Twin b) : a.fetch = b.fetch := by
  funext offset
  unfold Machine.fetch
  rw [h.memory, h.pc]

theorem traces (h : a.Twin b) (htrace : a.config.traceInstructions = b.config.traceInstructions) :
    a.traces = b.traces := by
  unfold Machine.traces traceEvents traceLine
  rw [h.halted, htrace, h.pc, h.fetch, h.registers]

/-! ## Steps and runs -/

theorem result (h : a.Twin b) : a.step.result = b.step.result :=
  h.isAlike.step.1

theorem step (h : a.Twin b) :
    a.SideBySide b a.step.machine b.step.machine a.step.events b.step.events := by
  obtain ⟨hresult, hregs, hpc⟩ := h.isAlike.step
  have hnotices : a.notices a.step.result = b.notices b.step.result := by
    rw [hresult, notices_congr h.pc (congrFun h.fetch 0)]
  refine ⟨⟨?_, ?_, ?_⟩, ⟨_, _, .step a, ?_⟩, fun htrace => ?_, fun hquiet => ?_⟩
  · rw [config_step, config_step, h.policy]
  · refine Core.ext hregs ?_ hpc
    have hmemory : a.step.machine.memory = b.step.machine.memory := by
      rw [memory_step, memory_step, h.isAlike.writes_eq, h.memory]
    exact hmemory
  · rw [halted_step, halted_step, hresult]
  · rw [h.isAlike.handsOut_eq, hresult]
    exact .step b
  · rw [events_step, events_step, h.traces htrace, hnotices]
  · rw [untraced_events_step, events_step, traces_of_quiet hquiet, hnotices, List.nil_append]

theorem after (h : a.Twin b) : ∀ k : ℕ,
    a.SideBySide b (a.after k) (b.after k) (a.log k) (b.log k)
  | 0 => .refl h
  | k + 1 => by
    have hk := h.after k
    rw [after_succ, after_succ]
    exact hk.trans hk.twin.step

theorem advances (h : a.Twin b) {n : ℕ} (ha : a.Advances n) : b.Advances n := by
  intro k hk
  have hk' := (h.after k).twin
  rw [← hk'.halted, ← hk'.result]
  exact ha k hk

theorem endsAt (h : a.Twin b) {k : ℕ} {r : Except Fault Unit} (hends : a.EndsAt k r) :
    b.EndsAt k r := by
  cases hends with
  | halted ha hh => exact .halted (h.advances ha) ((h.after k).twin.halted ▸ hh)
  | @faulted k fault ha hf => exact .faulted (h.advances ha) ((h.after k).twin.result ▸ hf)

theorem runFor (h : a.Twin b) (n : ℕ) :
    (a.runFor n).result = (b.runFor n).result
      ∧ a.SideBySide b (a.runFor n).machine (b.runFor n).machine (a.runFor n).events
        (b.runFor n).events := by
  rcases a.runFor_cases n with ⟨k, hk, r, hends, heq⟩ | ⟨ha, hrun, heq⟩
  · rw [heq, runFor_of_endsAt (h.endsAt hends) hk]
    exact ⟨rfl, h.after k⟩
  · rw [heq, runFor_of_running (h.advances ha) ((h.after n).twin.halted ▸ hrun)]
    exact ⟨rfl, h.after n⟩

/-- So does a run as configured, if the limit is the same. -/
theorem run (h : a.Twin b) (hlimit : a.config.maxSteps = b.config.maxSteps)
    {x : Report Collector Unit} (hx : a.run = some x) : ∃ y, b.run = some y
      ∧ x.result = y.result ∧ a.SideBySide b x.machine y.machine x.events y.events := by
  rcases run_eq_some_cases hx with ⟨hmax, k, r, hends, rfl⟩ | ⟨limit, hmax, rfl⟩
  · exact ⟨_, run_of_endsAt (hlimit ▸ hmax) (h.endsAt hends), rfl, h.after k⟩
  · obtain ⟨hresult, hside⟩ := h.runFor limit.toNat
    refine ⟨_, run_of_maxSteps (hlimit ▸ hmax), ?_, hside⟩
    exact congrArg (Except.map fun _ => ()) hresult

/-- Twins that have printed the same end up with the same values, or neither of them ends. -/
theorem run_shown (h : a.Twin b) (hlimit : a.config.maxSteps = b.config.maxSteps)
    (hsink : a.sink = b.sink) :
    a.run.map (fun report => (report.result, report.machine.sink.values.toList))
      = b.run.map fun report => (report.result, report.machine.sink.values.toList) := by
  rcases ha : a.run with _ | x
  · rcases hb : b.run with _ | y
    · rfl
    · obtain ⟨x, hx, -⟩ := h.symm.run hlimit.symm hb
      rw [ha] at hx
      cases hx
  · obtain ⟨y, hb, hresult, hside⟩ := h.run hlimit ha
    obtain ⟨printed, _, hx, hy⟩ := hside.shown
    rw [hb, Option.map_some, Option.map_some, hresult, hx.values, hy.values, hsink]

/-! ## Requests -/

theorem serve (h : a.Twin b) {request : Request} (hrequest : request ≠ .run) :
    ∃ x y, a.serve request = some x ∧ b.serve request = some y ∧ x.answer = y.answer
      ∧ a.SideBySide b x.machine y.machine x.events y.events := by
  rcases hanswer : request.idleAnswer with _ | answer
  · obtain ⟨answer, c, log, hlog, hserve⟩ := serve_of_no_steps (σ := Collector) hanswer a.core
    exact ⟨_, _, hserve a rfl, hserve b h.core.symm, rfl, .write h c hlog⟩
  · cases request with
    | run => exact absurd rfl hrequest
    | step => exact ⟨_, _, rfl, rfl, congrArg Answer.stepped h.result, h.step⟩
    | runFor limit =>
      obtain ⟨hresult, hrun⟩ := h.runFor limit
      exact ⟨_, _, rfl, rfl, congrArg Answer.ranFor hresult, hrun⟩
    | _ => cases hanswer

end Twin

/-- Machines that differ in what they have printed and counted, in whether they trace and in the
limit of a run cannot be told apart by what they do, after any requests but for a run as configured;
and the one that traces logs what the other one does, with its traces in between. -/
theorem observation_transparent : ∀ {requests : List Request} {a b : Machine Collector},
    a.Twin b → Request.run ∉ requests → ∃ s t, a.session requests = some s
      ∧ b.session requests = some t ∧ s.answers = t.answers
      ∧ a.SideBySide b s.machine t.machine s.events t.events
  | [], a, b, h, _ => ⟨_, _, rfl, rfl, rfl, .refl h⟩
  | request :: rest, a, b, h, hrun => by
    rw [List.mem_cons, not_or] at hrun
    obtain ⟨x, y, hx, hy, hanswer, hserved⟩ := h.serve (Ne.symm hrun.1)
    obtain ⟨s, t, hs, ht, hanswers, hside⟩ := observation_transparent hserved.twin hrun.2
    refine ⟨_, _, session_cons_eq_some_iff.2 ⟨x, s, hx, hs, rfl⟩,
      session_cons_eq_some_iff.2 ⟨y, t, hy, ht, rfl⟩, ?_, hserved.trans hside⟩
    rw [hanswer, hanswers]

/-- A machine that shows every step and may take one in a run, and that has printed and counted
before. -/
def watched : Machine Collector :=
  { printsFive none with
    config := { traceInstructions := true, maxSteps := some 1 }
    stats := { steps := 7, skipped := 2 }
    sink := ⟨#[9]⟩ }

/-- The value that is printed was computed from outside. -/
def addsSeven : List Request :=
  [.step, .setRegister .stackPointer 7, .compute 0xA0 0 7, .runFor 9, .step]

theorem observation_transparent_watched :
    watched.Twin (printsFive none) ∧ Request.run ∉ addsSeven
      ∧ ∃ s t, watched.session addsSeven = some s ∧ (printsFive none).session addsSeven = some t
        ∧ s.answers = t.answers ∧ s.machine.Twin t.machine
        ∧ s.machine.sink.values = #[9, 12] ∧ t.machine.sink.values = #[12]
        ∧ s.events.length = 4 ∧ t.events = [.halted 5] ∧ t.events = untraced s.events := by
  have htwin : watched.Twin (printsFive none) := ⟨rfl, rfl, rfl⟩
  have hrun : Request.run ∉ addsSeven := by simp [addsSeven]
  obtain ⟨s, t, hs, ht, hanswers, hside⟩ := observation_transparent htwin hrun
  have hwatched : (watched.session addsSeven).map
      (fun s => (s.machine.sink.values, s.events.length)) = some (#[9, 12], 4) := rfl
  have hplain : ((printsFive none).session addsSeven).map
      (fun t => (t.machine.sink.values, t.events)) = some (#[12], [.halted 5]) := rfl
  rw [hs] at hwatched
  rw [ht] at hplain
  obtain ⟨hs₁, hs₂⟩ := Prod.mk.inj (Option.some_inj.1 hwatched)
  obtain ⟨ht₁, ht₂⟩ := Prod.mk.inj (Option.some_inj.1 hplain)
  exact ⟨htwin, hrun, s, t, hs, ht, hanswers, hside.twin, hs₁, ht₁, hs₂, ht₂, hside.quiet rfl⟩

end Machine

end LS8
