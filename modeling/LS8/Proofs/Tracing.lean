import LS8.Proofs.Numeral
import LS8.Proofs.Reporting

/-!
# A trace tells what was executed

Each byte of a trace has two digits, so a trace can be read back: it shows the program counter, the
three bytes that the step fetches and all the registers (`traceLine_eq_iff`). With tracing on, every
step that finds the machine running shows it as it was before the step, and nothing else is logged
as a trace (`traces_log`). So two runs with the same traces took equally many steps, and each step
attempted the same in both (`traces_determine_steps`). The rest of memory may differ, as may the
output, the stop at an undefined opcode and what the last step came to.
-/

namespace LS8

/-! ## One line -/

theorem Numeral.intercalate_upperHex_inj : ∀ {l l' : List UInt8}, l.length = l'.length →
    String.intercalate " " (l.map upperHex) = String.intercalate " " (l'.map upperHex) → l = l'
  | [], [], _, _ => rfl
  | [a], [b], _, h => by
    simp only [List.map_cons, List.map_nil, String.intercalate_singleton] at h
    rw [upperHex_injective h]
  | a :: b :: l, c :: d :: l', hlen, h => by
    simp only [List.map_cons, String.intercalate_cons_cons, String.append_assoc] at h
    obtain ⟨rfl, hrest⟩ := upperHex_append_inj h
    rw [String.append_right_inj] at hrest
    rw [intercalate_upperHex_inj (Nat.succ.inj hlen) hrest]

theorem Registers.dump_injective : Function.Injective dump := by
  intro r s h
  have hlist : r.toList = s.toList :=
    Numeral.intercalate_upperHex_inj (by simp [toList]) h
  refine ext_get fun i => Option.some_inj.1 ?_
  rw [← getElem?_toList, ← getElem?_toList, hlist]

namespace Machine

variable {σ τ : Type}

/-- The machines stand at the same address with the same three bytes there, the first address
following the last one, and have the same registers. -/
structure LooksLike (m : Machine σ) (m' : Machine τ) : Prop where
  pc : m.pc = m'.pc
  bytes : ∀ d < 3, m.memory.read (m.pc + UInt8.ofNat d) = m'.memory.read (m'.pc + UInt8.ofNat d)
  registers : ∀ r : Register, m.registers.get r = m'.registers.get r

/-- The instruction that a step attempts, with its operands, or with the byte that should name a
register and does not. -/
def attempt? (m : Machine σ) : Option (Instruction × Except UInt8 Operation) :=
  (Instruction.decode (m.fetch 0)).map fun i => (i, Operation.resolve i (m.fetch 1) (m.fetch 2))

section

variable {m : Machine σ} {m' : Machine τ}

theorem LooksLike.fetch_eq (h : m.LooksLike m') :
    m.fetch 0 = m'.fetch 0 ∧ m.fetch 1 = m'.fetch 1 ∧ m.fetch 2 = m'.fetch 2 :=
  ⟨h.bytes 0 (by omega), h.bytes 1 (by omega), h.bytes 2 (by omega)⟩

theorem LooksLike.attempt?_eq (h : m.LooksLike m') : m.attempt? = m'.attempt? := by
  obtain ⟨h0, h1, h2⟩ := h.fetch_eq
  rw [attempt?, attempt?, h0, h1, h2]

theorem traceLine_eq_iff : m.traceLine = m'.traceLine ↔ m.LooksLike m' := by
  constructor
  · intro h
    unfold traceLine at h
    simp only [String.append_assoc] at h
    obtain ⟨hpc, h⟩ := Numeral.upperHex_append_inj ((String.append_right_inj _).1 h)
    obtain ⟨h0, h⟩ := Numeral.upperHex_append_inj ((String.append_right_inj _).1 h)
    obtain ⟨h1, h⟩ := Numeral.upperHex_append_inj ((String.append_right_inj _).1 h)
    obtain ⟨h2, h⟩ := Numeral.upperHex_append_inj ((String.append_right_inj _).1 h)
    have hregs := Registers.dump_injective ((String.append_right_inj _).1 h)
    refine ⟨hpc, fun d hd => ?_, fun r => by rw [hregs]⟩
    obtain rfl | rfl | rfl : d = 0 ∨ d = 1 ∨ d = 2 := by omega
    · exact h0
    · exact h1
    · exact h2
  · intro h
    obtain ⟨h0, h1, h2⟩ := h.fetch_eq
    have hregs : m.registers = m'.registers := Registers.ext_get h.registers
    unfold traceLine
    rw [h.pc, h0, h1, h2, hregs]

end

/-! ## Runs -/

variable [OutputSink σ] [OutputSink τ]

/-- A way from one machine to another, with what is logged on it: single steps, which a halted
machine may be given too, a run for at most so many steps, a run as configured, or one of these
taken up where another one ended. -/
inductive Course : Machine σ → Machine σ → List Event → Prop
  | steps (m : Machine σ) (n : ℕ) : Course m (m.after n) (m.log n)
  | limited (m : Machine σ) (limit : ℕ) : Course m (m.runFor limit).machine (m.runFor limit).events
  | configured {m : Machine σ} {report : Report σ Unit} (h : m.run = some report) :
    Course m report.machine report.events
  | resumed {m middle last : Machine σ} {log log' : List Event} (h : Course m middle log)
    (h' : Course middle last log') : Course m last (log ++ log')

/-- The way from the one machine to the other took `k` steps, not counting those that find the
machine halted. -/
structure Took (m last : Machine σ) (k : ℕ) : Prop where
  running : ∀ j < k, (m.after j).halted = false
  arrives : last = m.after k
  steps : last.stats.steps = m.stats.steps + k

variable {m last : Machine σ} {log : List Event} {k : ℕ}

theorem took_after (h : ∀ j < k, (m.after j).halted = false) : m.Took (m.after k) k :=
  ⟨h, rfl, steps_after k h⟩

theorem Takes.took {α : Type} {report : Report σ α} (h : m.Takes k report) :
    m.Took report.machine k := by
  rw [h.machine]
  exact took_after h.running

theorem Took.trans {middle : Machine σ} {a b : ℕ} (h : m.Took middle a) (h' : middle.Took last b) :
    m.Took last (a + b) := by
  obtain ⟨hrun, rfl, hsteps⟩ := h
  obtain ⟨hrun', rfl, hsteps'⟩ := h'
  refine ⟨fun j hj => ?_, (m.after_add a b).symm, by omega⟩
  by_cases hja : j < a
  · exact hrun j hja
  · obtain ⟨d, rfl⟩ := Nat.exists_eq_add_of_le (Nat.le_of_not_lt hja)
    rw [after_add]
    exact hrun' d (by omega)

/-- Once the machine has halted, further steps change nothing. -/
theorem exists_took_after (m : Machine σ) : ∀ n : ℕ, ∃ k, m.Took (m.after n) k ∧ m.log n = m.log k
  | 0 => ⟨0, took_after fun _ hj => absurd hj (Nat.not_lt_zero _), rfl⟩
  | n + 1 => by
    rcases hrun : (m.after n).halted with _ | _
    · exact ⟨n + 1, took_after fun j hj => running_before hrun (Nat.le_of_lt_succ hj), rfl⟩
    · obtain ⟨k, htook, hlog⟩ := m.exists_took_after n
      refine ⟨k, ?_, ?_⟩
      · rwa [after_succ, step_of_halted hrun]
      · rw [Machine.log, step_of_halted hrun, List.append_nil, hlog]

theorem Course.exists_took (h : m.Course last log) : ∃ k, m.Took last k ∧ log = m.log k := by
  induction h with
  | steps m n => exact m.exists_took_after n
  | limited m limit =>
    obtain ⟨k, -, htakes⟩ := m.exists_takes_runFor limit
    exact ⟨k, htakes.took, htakes.events⟩
  | configured hrun =>
    obtain ⟨k, htakes⟩ := exists_takes_run hrun
    exact ⟨k, htakes.took, htakes.events⟩
  | resumed _ _ ih ih' =>
    obtain ⟨a, htook, rfl⟩ := ih
    obtain ⟨b, htook', rfl⟩ := ih'
    refine ⟨a + b, htook.trans htook', ?_⟩
    rw [log_add, htook.arrives]

omit [OutputSink σ] in
theorem filter_isTrace_notices (m : Machine σ) (result : Except Fault Outcome) :
    (m.notices result).filter Event.isTrace = [] := by
  have hall := m.untraced_notices result
  rw [untraced, List.filter_eq_self] at hall
  refine List.filter_eq_nil_iff.2 fun e he => ?_
  simpa [Event.isTrace] using hall e he

/-- With tracing on, the traces of a log show the machine before each step, in order. -/
theorem traces_log (traced : m.config.traceInstructions = true) : ∀ {k : ℕ},
    (∀ j < k, (m.after j).halted = false) →
      (m.log k).filter Event.isTrace
        = (List.range k).map fun j => .trace (m.after j).traceLine
  | 0, _ => rfl
  | k + 1, h => by
    have ih := traces_log traced fun j hj => h j (Nat.lt_succ_of_lt hj)
    have htraces : (m.after k).traces = [.trace (m.after k).traceLine] := by
      simp [traces, traceEvents, h k (Nat.lt_succ_self k), config_after, traced]
    rw [Machine.log, List.filter_append, ih, events_step, htraces, List.filter_append,
      filter_isTrace_notices, List.range_succ, List.map_append]
    rfl

variable {m' last' : Machine τ} {log' : List Event}

/-- Lines of traces are the same for machines that look alike and for no others. Two runs with
tracing on have the same traces exactly if they took equally many steps and the machines looked
alike before each of these, and then each step attempted the same instruction with the same
operands. -/
theorem traces_determine_steps :
    (m.traceLine = m'.traceLine ↔ m.LooksLike m')
      ∧ (m.config.traceInstructions = true → m'.config.traceInstructions = true →
        m.Course last log → m'.Course last' log' →
          (log.filter Event.isTrace = log'.filter Event.isTrace
            ↔ ∃ k, m.Took last k ∧ m'.Took last' k ∧ ∀ j < k,
              (m.after j).LooksLike (m'.after j)
                ∧ (m.after j).attempt? = (m'.after j).attempt?)) := by
  refine ⟨traceLine_eq_iff, fun traced traced' h h' => ?_⟩
  obtain ⟨k, htook, rfl⟩ := h.exists_took
  obtain ⟨k', htook', rfl⟩ := h'.exists_took
  rw [traces_log traced htook.running, traces_log traced' htook'.running]
  constructor
  · intro heq
    obtain rfl : k = k' := by simpa using congrArg List.length heq
    refine ⟨k, htook, htook', fun j hj => ?_⟩
    have hline := List.map_inj_left.1 heq j (List.mem_range.2 hj)
    have halike := traceLine_eq_iff.1 (Event.trace.inj hline)
    exact ⟨halike, halike.attempt?_eq⟩
  · rintro ⟨j, hj, hj', halike⟩
    obtain rfl : j = k := Nat.add_left_cancel (hj.steps.symm.trans htook.steps)
    obtain rfl : j = k' := Nat.add_left_cancel (hj'.steps.symm.trans htook'.steps)
    refine List.map_inj_left.2 fun i hi => ?_
    rw [traceLine_eq_iff.2 (halike i (List.mem_range.1 hi)).1]

/-- A print and a halt, in front of a byte that no step looks at. -/
def printsInFront (byte : UInt8) : Machine Collector :=
  { initial ({} : Collector) { traceInstructions := true } with
    memory := ((Memory.zero.write 0 0x47).write 2 0x01).write 5 byte }

/-- Five steps of the one machine show the same as a run of the other, so that only two of them
count. -/
theorem traces_determine_steps_printsInFront :
    (printsInFront 0).Took ((printsInFront 0).after 5) 2
      ∧ (printsInFront 1).Took ((printsInFront 1).runFor 9).machine 2
      ∧ ((printsInFront 0).after 1).LooksLike ((printsInFront 1).after 1)
      ∧ ((printsInFront 0).after 1).attempt? = some (.hlt, .ok .halt)
      ∧ ((printsInFront 1).after 1).attempt? = some (.hlt, .ok .halt) := by
  have hlogs : ((printsInFront 0).log 5).filter Event.isTrace
      = ((printsInFront 1).runFor 9).events.filter Event.isTrace := by decide +kernel
  obtain ⟨k, htook, htook', halike⟩ :=
    (traces_determine_steps.2 rfl rfl (.steps _ 5) (.limited _ 9)).1 hlogs
  obtain rfl : 2 = k := by
    have hsteps := htook.steps
    have hcounted : ((printsInFront 0).after 5).stats.steps = 2 := by decide +kernel
    rw [hcounted] at hsteps
    exact hsteps.trans (Nat.zero_add k)
  obtain ⟨hlooks, hattempt⟩ := halike 1 (by omega)
  have hhalt : ((printsInFront 0).after 1).attempt? = some (.hlt, .ok .halt) := by
    decide +kernel
  exact ⟨htook, htook', hlooks, hhalt, hattempt.symm.trans hhalt⟩

end Machine

end LS8
