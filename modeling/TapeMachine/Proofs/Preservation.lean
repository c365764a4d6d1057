import TapeMachine.Proofs.Execution
import TapeMachine.Proofs.Writing

/-! # Condensing preserves behaviour

The program of a stream and the program of the condensed stream are executed in
fresh sessions and compared by what is left in the sessions. Both are programs
of blocks with the same outcomes, so only one thing can set them apart: an idiom
that took the place of a loop reports that the loop would never end, where the
loop goes on. -/
namespace TapeMachine

/-- A fault of an endless loop is reported as it is wherever its position can be written. -/
theorem Fault.IsEndless.raised {fault : Fault} {position : ℤ}
    (h : fault.IsEndless tapeSize position) (hposition : Text.isWritable position = true) :
    fault.raised = .fault fault := by
  apply raised_of_writable
  rcases h with ⟨value, pointer, hpointer, rfl⟩ | rfl
  · have hvalue : Text.isWritable value.toNat = true :=
      Text.isWritable_of_word (by have := value.toNat_lt; omega)
    have hpointer' : Text.isWritable pointer = true :=
      Text.isWritable_of_word (by rw [tapeSize_eq] at hpointer; omega)
    simp [isWritable, numbers, hposition, hvalue, hpointer']
  · simpa using hposition

/-- Whether a session fails at an idiom that condensing put into the program: its run stands at the
index of an instruction that took the place of a loop, and the fault names that loop as endless. -/
def FailsAtIdiom (stream : List Instruction) (program : List Item) (queue : Option (List ℤ))
    (budget : ℕ) (r : Session.Reply) : Prop :=
  ∃ index i fault, Stands (foldSteps (stream.map .instr)) index i ∧
    (Session.new.load program queue).session.endsAt? budget = some index ∧
    r.failure = some fault.raised ∧ fault.IsEndless tapeSize i.position ∧
    (Text.isWritable i.position = true → r.failure = some (.fault fault))

section Condensed

variable {b : Block Instruction} {level : Level} {c c' : Block Piece} {queue : Option (List ℤ)}
  {feed : Feed} {budget index : ℕ} {r : Session.Reply} {x : Piece} {o : Outcome (Store tapeSize)}

/-- An outcome of one block shows in the session that executes a block like it. -/
theorem Condenses.execute_alike (hc : Condenses b level c) (hfeed : Session.feed? queue = .ok feed)
    (h : c'.Alike c) (ho : Eval Piece.act Store.Enters c' (.start feed) o)
    (hr : r.Shows (c'.linked 0) o) :
    ∃ budget' r', Session.new.execute budget' (c.linked 0) queue = some r' ∧ r.Alike r' := by
  obtain ⟨budget', r', hr', hshows⟩ := execute_of_eval hc.shaped hc.fits hfeed ((h _ _).mp ho)
  exact ⟨budget', r', hr', hr.alike hshows⟩

/-- No session gets stuck in a program without idioms of its own. -/
theorem Condenses.eval_of_execute_plain (hc : Condenses b .plain c)
    (hfeed : Session.feed? queue = .ok feed)
    (h : Session.new.execute budget (c.linked 0) queue = some r) :
    ∃ o, Eval Piece.act Store.Enters c (.start feed) o ∧ r.Shows (c.linked 0) o := by
  rcases eval_of_execute hc.shaped hc.fits hfeed h with hshows | ⟨⟨index, x, hstuck⟩, -⟩
  · exact hshows
  · cases (hc.origin index x hstuck.piece hstuck.collapsed).1

theorem Condenses.failsAtIdiom (hc : Condenses b level c)
    (h : r.StuckAt c queue budget index x) :
    level = .idiomatic ∧ FailsAtIdiom b.flatten (c.linked 0) queue budget r := by
  obtain ⟨hlevel, hstands⟩ := hc.origin index x h.piece h.collapsed
  obtain ⟨fault, hfailure, hendless⟩ := h.fault
  refine ⟨hlevel, index, x.instr, fault, hstands, h.ends, hfailure, hendless, ?_⟩
  intro hposition
  rw [hfailure, hendless.raised hposition]

end Condensed

/-- **Condensing preserves behaviour.** -/
theorem condense_preserves (source : String) (stream : List Instruction)
    (hb : Balanced Instruction.side? stream) (hfits : ∀ i ∈ stream, i.op.FitsWords) (level : Level)
    (queue : Option (List ℤ)) :
    ∃ plain condensed,
      link source (condense .plain (stream.map .instr)) = .ok plain ∧
      link source (condense level (stream.map .instr)) = .ok condensed ∧
      (∀ budget r, Session.new.execute budget plain queue = some r →
        ∃ budget' r', Session.new.execute budget' condensed queue = some r' ∧ r.Alike r') ∧
      (∀ budget r, Session.new.execute budget condensed queue = some r →
        (∃ budget' r', Session.new.execute budget' plain queue = some r' ∧ r'.Alike r) ∨
          level = .idiomatic ∧ FailsAtIdiom stream condensed queue budget r ∧
            ∀ budget', Session.new.execute budget' plain queue = none) := by
  obtain ⟨b, hshaped, rfl⟩ := hb.exists_block
  obtain ⟨p, hp⟩ := condense_block hshaped hfits .plain
  obtain ⟨c, hc⟩ := condense_block hshaped hfits level
  have hsame : p.Alike c := hp.alike.symm.trans hc.alike
  refine ⟨p.linked 0, c.linked 0, ?_, ?_, ?_, ?_⟩
  · rw [hp.stream]
    exact link_flatten source hp.shaped
  · rw [hc.stream]
    exact link_flatten source hc.shaped
  · intro budget r hr
    cases hfeed : Session.feed? queue with
    | error refusal =>
      rw [Session.execute_of_refused budget hfeed] at hr
      exact ⟨budget, r, (Session.execute_of_refused budget hfeed).trans hr, .refl r⟩
    | ok feed =>
      obtain ⟨o, ho, hshows⟩ := hp.eval_of_execute_plain hfeed hr
      exact hc.execute_alike hfeed hsame ho hshows
  · intro budget r hr
    cases hfeed : Session.feed? queue with
    | error refusal =>
      rw [Session.execute_of_refused budget hfeed] at hr
      exact Or.inl ⟨budget, r, (Session.execute_of_refused budget hfeed).trans hr, .refl r⟩
    | ok feed =>
      rcases eval_of_execute hc.shaped hc.fits hfeed hr with
        ⟨o, ho, hshows⟩ | ⟨⟨index, x, hstuck⟩, hnone⟩
      · obtain ⟨budget', r', hr', halike⟩ := hp.execute_alike hfeed hsame.symm ho hshows
        exact Or.inl ⟨budget', r', hr', halike.symm⟩
      · obtain ⟨hlevel, hfails⟩ := hc.failsAtIdiom hstuck
        refine Or.inr ⟨hlevel, hfails, ?_⟩
        intro budget'
        rw [Option.eq_none_iff_forall_ne_some]
        intro r' hr'
        obtain ⟨o, ho, -⟩ := hp.eval_of_execute_plain hfeed hr'
        exact hnone o ((hsame _ _).mp ho)

/-- The block of `+[--]`, whose loop goes on for ever and folds to an idiom. -/
def oddDrain : Block Instruction :=
  .act ⟨.add 1, 1⟩ (.loop ⟨.opening none, 2⟩ (.act ⟨.add 255, 3⟩ (.act ⟨.add 255, 4⟩ .done))
    ⟨.closing none, 5⟩ .done)

theorem oddDrain_balanced : Balanced Instruction.side? oddDrain.flatten :=
  Block.Shaped.balanced ⟨rfl, rfl, ⟨rfl, rfl, trivial⟩, rfl, trivial⟩

theorem oddDrain_fits : ∀ i ∈ oddDrain.flatten, i.op.FitsWords := by
  simp [oddDrain, Block.flatten, Op.FitsWords, Op.fields]

theorem condense_preserves_oddDrain :
    (Balanced Instruction.side? oddDrain.flatten ∧ ∀ i ∈ oddDrain.flatten, i.op.FitsWords) ∧
    ∃ plain condensed,
      link "+[--]" (condense .plain (oddDrain.flatten.map .instr)) = .ok plain ∧
      link "+[--]" (condense .idiomatic (oddDrain.flatten.map .instr)) = .ok condensed ∧
      (∀ budget r, Session.new.execute budget plain none = some r →
        ∃ budget' r', Session.new.execute budget' condensed none = some r' ∧ r.Alike r') ∧
      (∀ budget r, Session.new.execute budget condensed none = some r →
        (∃ budget' r', Session.new.execute budget' plain none = some r' ∧ r'.Alike r) ∨
          Level.idiomatic = .idiomatic ∧ FailsAtIdiom oddDrain.flatten condensed none budget r ∧
            ∀ budget', Session.new.execute budget' plain none = none) :=
  ⟨⟨oddDrain_balanced, oddDrain_fits⟩,
    condense_preserves "+[--]" _ oddDrain_balanced oddDrain_fits .idiomatic none⟩

end TapeMachine
