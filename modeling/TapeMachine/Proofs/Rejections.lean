import TapeMachine.Proofs.Histories

/-! # Refused loads

Loading hands over a queue and then a program, and either can be refused. A
refusal leaves the session as it was, with one exception: a queue that has been
taken stays when the program behind it is refused. The session is then what
taking the queue alone makes of it, and its run reads that queue
(`refused_load`). -/
namespace TapeMachine

namespace Session

section Refused

variable {s t : Session} {program : List Item} {queue : Option (List ℤ)} {values : List ℤ}
  {e : Failure}

/-- Execution goes no further than loading that is refused. -/
theorem execute_of_refused_load (h : s.load program queue = ⟨t, some e⟩) (budget : ℕ) :
    s.execute budget program queue = some ⟨t, some e⟩ := by
  unfold execute
  rw [h]

theorem fault_of_run {budget : ℕ} {r : Reply} {fault : Fault} (h : s.run budget = some r)
    (hr : r.failure = some (.fault fault)) :
    (∃ m, fault = .misuse m) ∨ r.session.fault = some fault := by
  unfold run at h
  split at h
  · cases h
    cases hr
  · rename_i hfault
    cases h
    cases hr
    exact Or.inr hfault
  · cases h
    cases hr
    exact Or.inl ⟨_, rfl⟩
  · split at h
    · cases h
      cases hr
    · rename_i program houtput hnone hprogram _ _ _
      obtain ⟨f, -, rfl⟩ := Option.map_eq_some_iff.mp h
      have hstage : s.stage = .loaded := by simp [stage, houtput, hnone, hprogram]
      rcases s.settle_cases hstage (f := f) with ⟨-, heq⟩ | ⟨_, -, heq⟩ | ⟨_, -, heq⟩
      · rw [heq] at hr
        cases hr
      · rw [heq] at hr ⊢
        cases hr
        exact Or.inr rfl
      · rw [heq] at hr
        cases hr

/-- A call that fails for a fault misuses the session, or the fault is the one of the session. -/
theorem fault_of_perform {budget : ℕ} {c : Call} {fault : Fault}
    (h : s.perform budget c = some (t, .error (.fault fault))) :
    (∃ m, fault = .misuse m) ∨ t.fault = some fault := by
  rcases failure_of_perform h with ⟨m, hmisuse⟩ | hqueue | ⟨u, -, hrun⟩
  · exact Or.inl ⟨m, Failure.fault.inj hmisuse⟩
  · cases hqueue
  · exact fault_of_run hrun rfl

end Refused

/-- **What a refused load leaves.** A session that refuses to load is as it was, unless it took the
queue and refused the program behind it. Then it is as if it had taken the queue alone: it has the
queue where it had none, and everything else as before. So its run is that of a new session with the
queue, and not the one without that it would have been, if no run of it was cut short before. -/
theorem refused_load (calls : List Made) (s t : Session) (program : List Item)
    (queue : Option (List ℤ)) (e : Failure) (h : Trace new calls s)
    (hload : s.load program queue = ⟨t, some e⟩) :
    (∀ budget, s.execute budget program queue = some ⟨t, some e⟩) ∧
    (e = .fault (.misuse .secondProgram) ∨ e = .fault (.misuse .secondInput) ∨
      e = .refusal .queueRange) ∧
    (queue = none ∨ e ≠ .fault (.misuse .secondProgram) → t = s) ∧
    ∀ values, queue = some values → e = .fault (.misuse .secondProgram) →
      s.loadInput values = .ok t ∧ s.feed = .absent ∧ t = { s with feed := t.feed } ∧
        t.feed.exhausted = false ∧ t.feed.unread.map queueOf = some values ∧ t.stage = s.stage ∧
        ∃ loaded, s.program = some loaded ∧ ((∀ m ∈ calls, ¬ m.IsCut) →
          (∀ budget, t.run budget = new.execute budget loaded (some values)) ∧
          ∀ budget, s.run budget = new.execute budget loaded none) := by
  refine ⟨execute_of_refused_load hload, ?_⟩
  rcases refused_cases hload with ⟨rfl, values, rfl, hinput⟩ | ⟨hqueue, hprogram⟩
  · have hcases := failure_of_loadInput hinput
    refine ⟨Or.inr hcases, fun _ => rfl, ?_⟩
    rintro _ _ rfl
    rcases hcases with hother | hother <;> cases hother
  · obtain ⟨rfl, hsome⟩ := failure_of_loadProgram hprogram
    refine ⟨Or.inl rfl, ?_, ?_⟩
    · rintro (rfl | hne)
      · cases hqueue
        rfl
      · exact absurd rfl hne
    · rintro values rfl -
      have hinput : s.loadInput values = .ok t := hqueue
      obtain ⟨hunread, hopen, feed, heq, hfeed⟩ := feed_of_loadInput hinput
      obtain ⟨hexhausted, hvalues⟩ := queue_of_feed hfeed
      obtain ⟨loaded, hloaded⟩ := Option.isSome_iff_exists.mp hsome
      have hbefore : s.program = some loaded := by rw [← hloaded, heq]
      refine ⟨hinput, (h.moves.sound new_sound).absent hunread, by rw [heq], by rwa [heq],
        by rwa [heq], by rw [heq]; rfl, loaded, hbefore, fun hwhole => ?_⟩
      have hrests := (h.follows_new hwhole).rests hopen
      obtain ⟨hnone, hfed⟩ := hrests.loadInput hinput
      rw [hnone] at hrests
      exact ⟨hfed.run_eq hloaded, hrests.run_eq hbefore⟩

/-- A session whose program asks for input and that was given none. -/
def hungry : Session := { new with program := some [.instr ⟨.input, 1⟩] }

/-- The same session with the queue `[7]`. -/
def fed : Session := { hungry with feed := ⟨some [7], false⟩ }

theorem hungry_trace : Trace new [⟨new, .loadProgram [.instr ⟨.input, 1⟩]⟩] hungry := by
  have hcall : new.perform 0 (.loadProgram [.instr ⟨.input, 1⟩]) = some (hungry, .ok .done) := rfl
  exact .cons hcall .nil

theorem hungry_load : hungry.load [] (some [7]) = ⟨fed, some (.fault (.misuse .secondProgram))⟩ :=
  rfl

theorem refused_load_hungry :
    Trace new [⟨new, .loadProgram [.instr ⟨.input, 1⟩]⟩] hungry ∧
      hungry.load [] (some [7]) = ⟨fed, some (.fault (.misuse .secondProgram))⟩ ∧
      hungry.execute 9 [] (some [7]) = some ⟨fed, some (.fault (.misuse .secondProgram))⟩ ∧
      fed.feed.unread.map queueOf = some [7] ∧
      ∃ loaded, hungry.program = some loaded ∧
        (∀ budget, fed.run budget = new.execute budget loaded (some [7])) ∧
        ∀ budget, hungry.run budget = new.execute budget loaded none := by
  obtain ⟨hexecute, -, -, hkept⟩ :=
    refused_load _ hungry fed [] (some [7]) _ hungry_trace hungry_load
  obtain ⟨-, -, -, -, hqueue, -, loaded, hloaded, hrun⟩ := hkept [7] rfl rfl
  refine ⟨hungry_trace, hungry_load, hexecute 9, hqueue, loaded, hloaded, hrun ?_⟩
  intro m hm hcut
  obtain ⟨program, hprogram, i, hi, hlong⟩ := hungry_trace.long_of_cut new_sound hm hcut
  cases hprogram
  cases List.mem_singleton.mp hi
  cases hlong

/-- A refused load is not always undone: here it leaves its queue, and the run that would have
failed for want of input completes. -/
theorem refused_load_not_undone :
    Trace new [⟨new, .loadProgram [.instr ⟨.input, 1⟩]⟩] hungry ∧
      hungry.load [] (some [7]) = ⟨fed, some (.fault (.misuse .secondProgram))⟩ ∧ fed ≠ hungry ∧
      (hungry.run 2).map (·.failure) = some (some (.fault (.missingInput 1))) ∧
      (fed.run 2).map (·.failure) = some none := by
  refine ⟨hungry_trace, hungry_load, ?_, rfl, rfl⟩
  intro hsame
  have hfeed := congrArg (fun s => s.feed.unread) hsame
  cases hfeed

end Session

end TapeMachine
