import LS8.Proofs.Unplugged

/-!
# When the output closes

A machine before an output that takes `k` more values and then refuses, beside the same machine
before an output that never refuses. Both go through the same states while no more than `k` values
are printed. The print of one value more fails: it leaves the state that it found, halted and with
the step counted, and nothing happens afterwards, so all that a closing output does to a run is to
cut it off (`refusal_truncates`).
-/

namespace LS8

/-- The values that a sink has accepted can be told from it. -/
class RecordingSink (σ : Type) [OutputSink σ] where
  values : σ → List UInt8
  values_of_accepts : ∀ {v : UInt8} {s t : σ}, OutputSink.emit v s = (.ok (), t) →
    values t = values s ++ [v]
  values_of_refuses : ∀ {v : UInt8} {s t : σ} {cause : IoError},
    OutputSink.emit v s = (.error cause, t) → values t = values s

open RecordingSink

instance : RecordingSink Collector where
  values sink := sink.values.toList
  values_of_accepts h := by
    cases h
    simp
  values_of_refuses h := by cases h

instance : RecordingSink BoundedCollector where
  values sink := sink.values.toList
  values_of_accepts {v s t} h := by
    obtain ⟨values, _ | room⟩ := s <;> cases h
    simp
  values_of_refuses {v s t cause} h := by
    obtain ⟨values, _ | room⟩ := s <;> cases h
    rfl

/-- The sink takes so many more values, whatever they are, and refuses the next. -/
def ClosesAfter {σ : Type} [OutputSink σ] : ℕ → σ → Prop
  | 0, sink => ∀ v, ∃ cause next, OutputSink.emit v sink = (.error cause, next)
  | k + 1, sink => ∀ v, ∃ next, OutputSink.emit v sink = (.ok (), next) ∧ ClosesAfter k next

section Sinks

variable {σ : Type} [OutputSink σ]

theorem closesAfter_boundedCollector : ∀ (k : ℕ) (values : Array UInt8),
    ClosesAfter k ({ values, room := k } : BoundedCollector)
  | 0, _ => fun _ => ⟨_, _, rfl⟩
  | k + 1, values => fun v => ⟨_, rfl, closesAfter_boundedCollector k (values.push v)⟩

theorem takeAll?_cons {sink next : σ} {v : UInt8} (l : List UInt8)
    (h : OutputSink.emit v sink = (.ok (), next)) : takeAll? sink (v :: l) = takeAll? next l := by
  rw [← List.singleton_append, takeAll?_append, takeAll?_of_accepts h, Option.bind_some]

theorem ClosesAfter.takes : ∀ {l : List UInt8} {k : ℕ} {sink : σ}, ClosesAfter k sink →
    l.length ≤ k → ∃ next, takeAll? sink l = some next ∧ ClosesAfter (k - l.length) next
  | [], _, sink, h, _ => ⟨sink, rfl, h⟩
  | v :: l, 0, _, _, hlen => by simp at hlen
  | v :: l, k + 1, sink, h, hlen => by
    rw [List.length_cons] at hlen
    obtain ⟨s, hs, hrest⟩ := h v
    obtain ⟨next, hnext, hcloses⟩ := hrest.takes (l := l) (by omega)
    refine ⟨next, (takeAll?_cons l hs).trans hnext, ?_⟩
    rwa [List.length_cons, Nat.add_sub_add_right]

theorem takes_of_accepts (h : ∀ v (sink : σ), (OutputSink.emit v sink).1 = .ok ()) :
    ∀ (l : List UInt8) (sink : σ), ∃ next, takeAll? sink l = some next
  | [], sink => ⟨sink, rfl⟩
  | v :: l, sink => by
    obtain ⟨next, hnext⟩ := takes_of_accepts h l (OutputSink.emit v sink).2
    refine ⟨next, (takeAll?_cons l ?_).trans hnext⟩
    rw [← h v sink]

theorem values_of_takeAll? [RecordingSink σ] : ∀ {l : List UInt8} {sink next : σ},
    takeAll? sink l = some next → values next = values sink ++ l
  | [], _, _, h => by
    cases h
    simp
  | v :: l, sink, next, h => by
    rw [← List.singleton_append, takeAll?_append] at h
    obtain ⟨s, hs, hnext⟩ := Option.bind_eq_some_iff.1 h
    rw [values_of_takeAll? hnext, values_of_accepts (accepts_of_takeAll? hs), List.append_assoc]
    rfl

end Sinks

namespace Machine

variable {σ τ : Type} [OutputSink σ] [OutputSink τ]

/-- The machines differ in their sinks alone, and these have accepted the same values. -/
structure Matches [RecordingSink σ] [RecordingSink τ] (a : Machine σ) (b : Machine τ) : Prop where
  machine : a.unplugged = b.unplugged
  accepted : values a.sink = values b.sink

/-- A step prints one value at most, so a run that prints more than `k` values has a step that
prints the one behind the first `k`. -/
theorem exists_print (m : Machine Discard) {k : ℕ} : ∀ {n : ℕ}, k < (m.prints n).length →
    ∃ j < n, (m.prints j).length = k ∧ ∃ v, (m.after j).handsOut = some v
  | 0, h => by simp [prints] at h
  | n + 1, h => by
    by_cases hn : k < (m.prints n).length
    · obtain ⟨j, hj, hlen, hv⟩ := m.exists_print hn
      exact ⟨j, by omega, hlen, hv⟩
    · rcases hv : (m.after n).handsOut with _ | v
      · rw [prints, hv, Option.toList_none, List.append_nil] at h
        exact absurd h hn
      · rw [prints, hv, List.length_append] at h
        have hone : (some v).toList.length = 1 := rfl
        exact ⟨n, by omega, by omega, v, hv⟩

theorem after_of_refused {m : Machine σ} {j : ℕ} {s : σ}
    (h : (m.after j).step.machine = (m.after j).failed s) {i : ℕ} (hi : j < i) :
    m.after i = (m.after j).failed s := by
  obtain ⟨d, rfl⟩ := Nat.exists_eq_add_of_le (show j + 1 ≤ i from hi)
  rw [after_add, after_succ, h]
  exact after_of_halted rfl d

variable [RecordingSink σ] [RecordingSink τ] {m : Machine σ} {full : Machine τ} {k : ℕ}

theorem Matches.prints_full (hm : m.Matches full)
    (hfull : ∀ v (sink : τ), (OutputSink.emit v sink).1 = .ok ()) (n : ℕ) :
    (full.after n).unplugged = m.unplugged.after n
      ∧ values (full.after n).sink = values m.sink ++ m.unplugged.prints n
      ∧ (full.after n).step.result = (m.unplugged.after n).step.result := by
  rw [hm.machine, hm.accepted]
  obtain ⟨s, hs⟩ := takes_of_accepts hfull (full.unplugged.prints n) full.sink
  obtain ⟨t, ht⟩ := takes_of_accepts hfull (full.unplugged.prints (n + 1)) full.sink
  refine ⟨?_, ?_, result_eq_of_takes ht⟩
  · rw [after_eq_withSink hs]
    rfl
  · rw [after_eq_withSink hs]
    exact values_of_takeAll? hs

theorem prints_closing (hk : ClosesAfter k m.sink) {n : ℕ}
    (hn : (m.unplugged.prints n).length ≤ k) :
    (m.after n).unplugged = m.unplugged.after n
      ∧ values (m.after n).sink = values m.sink ++ m.unplugged.prints n
      ∧ ClosesAfter (k - (m.unplugged.prints n).length) (m.after n).sink
      ∧ ∀ j < n, (m.after j).step.result = (m.unplugged.after j).step.result := by
  obtain ⟨s, hs, hcloses⟩ := hk.takes hn
  rw [after_eq_withSink hs]
  refine ⟨rfl, values_of_takeAll? hs, hcloses, fun j hj => ?_⟩
  have hle := (m.unplugged.prints_prefix hj).length_le
  obtain ⟨t, ht, -⟩ := hk.takes (Nat.le_trans hle hn)
  exact result_eq_of_takes ht

theorem Matches.follows (hm : m.Matches full) (hk : ClosesAfter k m.sink)
    (hfull : ∀ v (sink : τ), (OutputSink.emit v sink).1 = .ok ()) {n : ℕ}
    (hn : (m.unplugged.prints n).length ≤ k) :
    (∀ j ≤ n, (m.after j).Matches (full.after j))
      ∧ ∀ j < n, (m.after j).step.result = (full.after j).step.result := by
  refine ⟨fun j hj => ?_, fun j hj => ?_⟩
  · have hle := (m.unplugged.prints_prefix hj).length_le
    obtain ⟨hunplugged, hvalues, -⟩ := prints_closing hk (Nat.le_trans hle hn)
    obtain ⟨hunplugged', hvalues', -⟩ := hm.prints_full hfull j
    exact ⟨hunplugged.trans hunplugged'.symm, hvalues.trans hvalues'.symm⟩
  · exact ((prints_closing hk hn).2.2.2 j hj).trans (hm.prints_full hfull j).2.2.symm

/-- Of a run whose output closes after `k` values nothing is lost but what comes from the print of
one value more on: that print fails, and the machine halts in the state before it. -/
theorem refusal_truncates (hm : m.Matches full) (hk : ClosesAfter k m.sink)
    (hfull : ∀ v (sink : τ), (OutputSink.emit v sink).1 = .ok ()) (n : ℕ) :
    ((values (full.after n).sink).length ≤ (values m.sink).length + k →
        (∀ j ≤ n, (m.after j).Matches (full.after j))
          ∧ ∀ j < n, (m.after j).step.result = (full.after j).step.result)
      ∧ ((values m.sink).length + k < (values (full.after n).sink).length →
        ∃ j < n, ∃ v cause,
          (∀ i ≤ j, (m.after i).Matches (full.after i))
            ∧ (∀ i < j, (m.after i).step.result = (full.after i).step.result)
            ∧ (full.after j).step.result = .ok (.executed .prn)
            ∧ (values (full.after j).sink).length = (values m.sink).length + k
            ∧ values (full.after (j + 1)).sink = values (full.after j).sink ++ [v]
            ∧ (m.after j).step.result = .error (.output cause)
            ∧ ∀ i, j < i →
              (m.after i).step.result = .ok .halted
                ∧ (m.after i).unplugged = (m.after j).unplugged.failed {}
                ∧ values (m.after i).sink
                  = (values (full.after n).sink).take ((values m.sink).length + k)
                ∧ (m.after i).stats.emitted = m.stats.emitted + k) := by
  have hlength : (values (full.after n).sink).length
      = (values m.sink).length + (m.unplugged.prints n).length := by
    rw [(hm.prints_full hfull n).2.1, List.length_append]
  refine ⟨fun h => hm.follows hk hfull (by omega), fun h => ?_⟩
  obtain ⟨j, hj, hlen, v, hv⟩ := m.unplugged.exists_print (k := k) (n := n) (by omega)
  obtain ⟨hmatches, hresults⟩ := hm.follows hk hfull (Nat.le_of_eq hlen)
  obtain ⟨hunplugged, hvalues, hcloses, -⟩ := prints_closing hk (Nat.le_of_eq hlen)
  obtain ⟨hfullj, hvaluesj, hresultj⟩ := hm.prints_full hfull j
  -- At step `j` the closed sink is handed the value `v`.
  have hv' : (m.after j).handsOut = some v := by
    rw [← handsOut_unplugged, hunplugged, hv]
  rw [hlen, Nat.sub_self] at hcloses
  obtain ⟨cause, s, hemit⟩ := hcloses v
  obtain ⟨hrefused, hmachine⟩ := step_of_refuses hv' hemit
  obtain ⟨hrun, r, hop, -⟩ := exists_print_of_handsOut hv
  refine ⟨j, hj, v, cause, hmatches, hresults, ?_, ?_, ?_, hrefused, fun i hi => ?_⟩
  · rw [hresultj]
    exact (completes_unplugged hrun hop).result
  · rw [hvaluesj, List.length_append, hlen]
  · rw [hvaluesj, (hm.prints_full hfull (j + 1)).2.1, prints, hv, List.append_assoc]
    rfl
  · rw [after_of_refused hmachine hi]
    refine ⟨by rw [step_of_halted rfl], rfl, ?_, ?_⟩
    · have hprefix := List.prefix_iff_eq_take.1 (m.unplugged.prints_prefix (Nat.le_of_lt hj))
      rw [hlen] at hprefix
      rw [(hm.prints_full hfull n).2.1, List.take_length_add_append, ← hprefix, ← hvalues]
      exact values_of_refuses hemit
    · have hemitted := m.unplugged.emitted_after j
      rw [hlen, ← hunplugged] at hemitted
      exact hemitted

/-- A value is printed, doubled and printed twice more. -/
def threePrints (sink : σ) : Machine σ :=
  let code := [(0, 0x82), (1, 0x00), (2, 0x05), (3, 0x47), (4, 0x00), (5, 0xA0), (8, 0x47), (10, 0x47),
    (12, 0x01)]
  { initial sink {} with
    memory := code.foldl (fun memory cell => memory.write cell.1 cell.2) Memory.zero }

theorem refusal_truncates_threePrints :
    (∀ j ≤ 4, ((threePrints ({ room := 2 } : BoundedCollector)).after j).Matches
        ((threePrints ({} : Collector)).after j))
      ∧ values ((threePrints ({ room := 2 } : BoundedCollector)).after 6).sink = [5, 10]
      ∧ ((threePrints ({ room := 2 } : BoundedCollector)).after 6).step.result = .ok .halted := by
  have hmatches : (threePrints ({ room := 2 } : BoundedCollector)).Matches
      (threePrints ({} : Collector)) := ⟨rfl, rfl⟩
  have hcloses : ClosesAfter 2 (threePrints ({ room := 2 } : BoundedCollector)).sink :=
    closesAfter_boundedCollector 2 #[]
  have hfour : values ((threePrints ({} : Collector)).after 4).sink = [5, 10] := rfl
  have hsix : values ((threePrints ({} : Collector)).after 6).sink = [5, 10, 10] := rfl
  refine ⟨((refusal_truncates hmatches hcloses (fun _ _ => rfl) 4).1 (by rw [hfour]; decide)).1, ?_⟩
  obtain ⟨j, hj, v, cause, -, -, -, -, -, -, hlater⟩ :=
    (refusal_truncates hmatches hcloses (fun _ _ => rfl) 6).2 (by rw [hsix]; decide)
  obtain ⟨hresult, -, hvalues, -⟩ := hlater 6 hj
  rw [hsix] at hvalues
  exact ⟨hvalues, hresult⟩

end Machine

end LS8
