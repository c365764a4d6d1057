import TapeMachine.Proofs.Condensing
import TapeMachine.Session

/-! # Running a block in a session

A fresh session that executes the program of a block answers if and only if the
block has an outcome, and then with that outcome: its output or its fault, and
the tape, the pointer and the feed it left. Whatever is known of blocks is known
of sessions then. -/
namespace TapeMachine

namespace Session

/-- A session that has been handed a program and a feed. -/
def ready (program : List Item) (feed : Feed) : Session :=
  { new with program := some program, feed }

/-- The index in its program at which the run of a session ends. -/
def endsAt? (budget : ℕ) (s : Session) : Option ℕ := do
  let program ← s.program
  let code ← (encode program).toOption
  let f ← Run.finish program.toArray code budget (Run.start s.tape s.feed)
  return f.run.state.pc

/-- The feed that a queue becomes, if its values are bytes. -/
def feed? : Option (List ℤ) → Except Refusal Feed
  | none => .ok .absent
  | some queue => (queue.mapM (byte .queueRange)).map fun bytes => ⟨some bytes.reverse, false⟩

section Load

variable {queue : Option (List ℤ)} {feed : Feed} {program : List Item} {refusal : Refusal}

theorem load_of_feed (h : feed? queue = .ok feed) :
    new.load program queue = ⟨ready program feed, none⟩ := by
  cases queue with
  | none =>
    cases h
    rfl
  | some queue =>
    rw [feed?] at h
    have hbytes : ∃ bytes, queue.mapM (byte .queueRange) = .ok bytes ∧
        (⟨some bytes.reverse, false⟩ : Feed) = feed := by
      cases hmap : queue.mapM (byte .queueRange) with
      | error r => rw [hmap] at h; cases h
      | ok bytes => rw [hmap] at h; exact ⟨bytes, rfl, Except.ok.inj h⟩
    obtain ⟨bytes, hmap, rfl⟩ := hbytes
    simp [load, loadQueue, loadInput, new, hmap, isOver, stage, Feed.absent]
    rfl

theorem load_of_refused (h : feed? queue = .error refusal) :
    new.load program queue = ⟨new, some (.refusal refusal)⟩ := by
  cases queue with
  | none => cases h
  | some queue =>
    rw [feed?] at h
    cases hmap : queue.mapM (byte .queueRange) with
    | ok bytes => rw [hmap] at h; cases h
    | error r =>
      rw [hmap] at h
      cases h
      simp [load, loadQueue, loadInput, new, hmap, isOver, stage, Feed.absent]

theorem execute_of_feed (budget : ℕ) (h : feed? queue = .ok feed) :
    new.execute budget program queue = (ready program feed).run budget := by
  rw [execute, load_of_feed h]

theorem execute_of_refused (budget : ℕ) (h : feed? queue = .error refusal) :
    new.execute budget program queue = some ⟨new, some (.refusal refusal)⟩ := by
  rw [execute, load_of_refused h]

theorem run_ready (budget : ℕ) {code : Array Word} (h : encode program = .ok code) :
    (ready program feed).run budget = (Run.finish program.toArray code budget
      (Run.start .blank feed)).map (ready program feed).settle := by
  simp only [run, ready, new, h]

/-- A new session refuses its queue, or keeps what the run of its program comes to. -/
theorem execute_cases {budget : ℕ} {r : Reply} {code : Array Word} (h : encode program = .ok code)
    (hrun : new.execute budget program queue = some r) :
    (∃ refusal, feed? queue = .error refusal ∧ r = ⟨new, some (.refusal refusal)⟩) ∨
      ∃ feed f, feed? queue = .ok feed ∧
        Run.finish program.toArray code budget (Run.start .blank feed) = some f ∧
        r = (ready program feed).settle f := by
  cases hfeed : feed? queue with
  | error refusal =>
    rw [execute_of_refused budget hfeed] at hrun
    exact Or.inl ⟨refusal, rfl, (Option.some.inj hrun).symm⟩
  | ok feed =>
    rw [execute_of_feed budget hfeed, run_ready budget h] at hrun
    obtain ⟨f, hfinish, rfl⟩ := Option.map_eq_some_iff.mp hrun
    exact Or.inr ⟨feed, f, rfl, hfinish, rfl⟩

theorem endsAt?_ready (budget : ℕ) {code : Array Word} {f : Finish} (h : encode program = .ok code)
    (hf : Run.finish program.toArray code budget (Run.start .blank feed) = some f) :
    (ready program feed).endsAt? budget = some f.run.state.pc := by
  simp [endsAt?, ready, new, h, hf, Except.toOption]

end Load

/-! ## Replies and outcomes -/

/-- Whether a session holds a program and a store. -/
structure Holds (s : Session) (program : List Item) (e : Store tapeSize) : Prop where
  program : s.program = some program
  feed : s.feed = e.feed
  fits : State.Fits tapeSize ⟨0, s.pointer, s.tape⟩
  memory : State.memory tapeSize ⟨0, s.pointer, s.tape⟩ = e.memory

/-- Whether a reply tells an outcome: the output if the run ended, and else what came of the
fault. -/
def Reply.Shows (r : Reply) (program : List Item) : Outcome (Store tapeSize) → Prop
  | .ended e => r.failure = none ∧ r.session.output = some e.output ∧ r.session.fault = none ∧
      r.session.Holds program e
  | .failed fault e => r.failure = some fault.raised ∧ r.session.output = none ∧
      r.session.fault = fault.raised.fault? ∧ r.session.Holds program e

/-- Whether two replies tell the same of two sessions that may hold different programs. -/
structure Reply.Alike (r r' : Reply) : Prop where
  failure : r.failure = r'.failure
  stage : r.session.stage = r'.session.stage
  output : r.session.output = r'.session.output
  fault : r.session.fault = r'.session.fault
  pointer : r.session.pointer = r'.session.pointer
  tape : r.session.tape = r'.session.tape
  feed : r.session.feed = r'.session.feed

theorem Reply.Alike.refl (r : Reply) : r.Alike r := ⟨rfl, rfl, rfl, rfl, rfl, rfl, rfl⟩

theorem Reply.Alike.symm {r r' : Reply} (h : r.Alike r') : r'.Alike r :=
  ⟨h.failure.symm, h.stage.symm, h.output.symm, h.fault.symm, h.pointer.symm, h.tape.symm,
    h.feed.symm⟩

section Replies

variable {s s' : Session} {program program' : List Item} {e : Store tapeSize} {r r' : Reply}
  {o : Outcome (Store tapeSize)} {f : Finish} {feed : Feed}

theorem Holds.tape_eq (h : s.Holds program e) (h' : s'.Holds program' e) :
    s.tape = s'.tape ∧ s.pointer = s'.pointer :=
  h.fits.eq_of_memory h'.fits (h.memory.trans h'.memory.symm)

/-- Replies with the same outcome are alike. -/
theorem Reply.Shows.alike (h : r.Shows program o) (h' : r'.Shows program' o) : r.Alike r' := by
  cases o with
  | ended e =>
    obtain ⟨hfailure, houtput, hfault, hs⟩ := h
    obtain ⟨hfailure', houtput', hfault', hs'⟩ := h'
    obtain ⟨htape, hpointer⟩ := hs.tape_eq hs'
    refine ⟨hfailure.trans hfailure'.symm, ?_, houtput.trans houtput'.symm,
      hfault.trans hfault'.symm, hpointer, htape, hs.feed.trans hs'.feed.symm⟩
    simp [stage, hfault, hfault', houtput, houtput']
  | failed fault e =>
    obtain ⟨hfailure, houtput, hfault, hs⟩ := h
    obtain ⟨hfailure', houtput', hfault', hs'⟩ := h'
    obtain ⟨htape, hpointer⟩ := hs.tape_eq hs'
    refine ⟨hfailure.trans hfailure'.symm, ?_, houtput.trans houtput'.symm,
      hfault.trans hfault'.symm, hpointer, htape, hs.feed.trans hs'.feed.symm⟩
    simp [stage, hfault, hfault', houtput, houtput', hs.program, hs'.program]

/-- What a run leaves in its session tells the outcome that the run shows. -/
theorem settle_shows (h : f.Shows o) : ((ready program feed).settle f).Shows program o := by
  cases o with
  | ended e =>
    obtain ⟨hfailure, hfits, rfl⟩ := h
    simp only [settle, hfailure]
    exact ⟨rfl, rfl, rfl, rfl, rfl, ⟨hfits.size, hfits.inside⟩, rfl⟩
  | failed fault e =>
    obtain ⟨hfailure, hfits, rfl⟩ := h
    simp only [settle, hfailure]
    exact ⟨rfl, rfl, rfl, rfl, rfl, ⟨hfits.size, hfits.inside⟩, rfl⟩

end Replies

end Session

/-! ## Blocks -/

theorem tapeSize_eq : tapeSize = 2 ^ 16 := rfl

/-- The store at the start of a run. -/
def Store.start (feed : Feed) : Store tapeSize := ⟨⟨fun _ => 0, 0⟩, feed, #[]⟩

theorem start_fits (feed : Feed) : (Run.start .blank feed).state.Fits tapeSize :=
  ⟨Array.size_replicate, (by decide : 0 < tapeSize)⟩

theorem start_store (feed : Feed) : (Run.start .blank feed).store tapeSize = .start feed := by
  ext i
  · exact congrArg residue (State.cell_blank i.val)
  · exact Nat.cast_zero
  all_goals rfl

/-- A reply of a session whose run got stuck at a collapsed loop of its block. -/
structure Session.Reply.StuckAt (r : Session.Reply) (b : Block Piece) (queue : Option (List ℤ))
    (budget index : ℕ) (x : Piece) : Prop where
  piece : b.flatten[index]? = some x
  collapsed : x.collapsed = true
  ends : (Session.new.load (b.linked 0) queue).session.endsAt? budget = some index
  fault : ∃ fault : Fault, r.failure = some fault.raised ∧ fault.IsEndless tapeSize x.instr.position

section Blocks

variable {b : Block Piece} {queue : Option (List ℤ)} {feed : Feed} {o : Outcome (Store tapeSize)}
  {budget : ℕ} {r : Session.Reply} (hb : b.Shaped Piece.side?)
  (hfits : ∀ x ∈ b.flatten, x.instr.op.FitsWords) (hfeed : Session.feed? queue = .ok feed)

include hb hfits hfeed

/-- **A session that executes a block shows every outcome of the block.** -/
theorem execute_of_eval (h : Eval Piece.act Store.Enters b (.start feed) o) :
    ∃ budget r, Session.new.execute budget (b.linked 0) queue = some r ∧
      r.Shows (b.linked 0) o := by
  obtain ⟨code, hcode, hwhole⟩ := encode_linked hb hfits
  obtain ⟨budget, f, hfinish, hshows⟩ := hwhole.finish_of_eval tapeSize_eq rfl
    (start_fits feed) (by rwa [start_store])
  refine ⟨budget, (Session.ready (b.linked 0) feed).settle f, ?_, Session.settle_shows hshows⟩
  rw [Session.execute_of_feed budget hfeed, Session.run_ready budget hcode]
  exact congrArg (Option.map _) hfinish

/-- **Its reply shows an outcome of the block, or it got stuck and the block has none.** -/
theorem eval_of_execute (h : Session.new.execute budget (b.linked 0) queue = some r) :
    (∃ o, Eval Piece.act Store.Enters b (.start feed) o ∧ r.Shows (b.linked 0) o) ∨
      (∃ index x, r.StuckAt b queue budget index x) ∧
        ∀ o, ¬ Eval Piece.act Store.Enters b (.start feed) o := by
  obtain ⟨code, hcode, hwhole⟩ := encode_linked hb hfits
  rw [Session.execute_of_feed budget hfeed, Session.run_ready budget hcode] at h
  obtain ⟨f, hfinish, rfl⟩ := Option.map_eq_some_iff.mp h
  rcases hwhole.eval_of_finish tapeSize_eq rfl (start_fits feed) hfinish with
    ⟨o, heval, hshows⟩ | ⟨x, hstuck⟩
  · rw [start_store] at heval
    exact Or.inl ⟨o, heval, Session.settle_shows hshows⟩
  · refine Or.inr ⟨⟨f.run.state.pc, x, hstuck.holds.piece, hstuck.collapsed, ?_, ?_⟩, ?_⟩
    · rw [Session.load_of_feed hfeed]
      exact Session.endsAt?_ready budget hcode hfinish
    · obtain ⟨fault, hfault, hendless⟩ := hstuck.fault
      exact ⟨fault, by simp [Session.settle, hfault], hendless⟩
    · intro o heval
      rw [← start_store] at heval
      exact hwhole.not_eval_of_stuck tapeSize_eq rfl (start_fits feed) hfinish hstuck
        heval

end Blocks

end TapeMachine
