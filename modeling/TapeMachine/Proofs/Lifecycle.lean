import Mathlib.Logic.Relation
import TapeMachine.Proofs.Turns
import TapeMachine.Session

/-! # The life of a session

A session comes from stage to stage and never goes back. Every call takes it
through moves of three kinds (`Move`): it takes a queue, it takes a program, or
it runs. A run takes it to an end, or leaves it at its stage if it is cut short.
An end leaves no move at all, so what holds of moves gives what holds of all
calls that are ever made (`lifecycle`). -/
namespace TapeMachine

/-- How a session gets from one stage to another. -/
inductive Stage.Next : Stage → Stage → Prop
  | load : Next .uninitialized .loaded
  | complete : Next .loaded .completed
  | fail : Next .loaded .failed

/-- The queue that a call hands over. -/
def Call.queue? : Call → Option (List ℤ)
  | .loadInput queue => some queue
  | .load _ queue => queue
  | .execute _ queue => queue
  | _ => none

namespace Session

/-- Whether a session takes the queue of a call. -/
def accepts (s : Session) (c : Call) : Bool :=
  match c.queue? with
  | some queue => (s.loadInput queue).isOk
  | none => false

/-- The session once it has been offered the queue of a call. -/
def afterQueue (s : Session) (c : Call) : Session :=
  match s.loadQueue c.queue? with
  | .ok t => t
  | .error _ => s

/-- What a session that has run to an end answers. -/
def finalAnswer (s : Session) : Call → Except Failure Answer
  | .loadProgram _ | .load _ none | .execute _ none => misused .secondProgram
  | .loadInput _ | .load _ (some _) | .execute _ (some _) => misused .secondInput
  | .run =>
    match s.fault with
    | some fault => .error (.fault fault)
    | none => .ok .done
  | .output => s.readOutput.map .bytes
  | .text => s.readText.map .text
  | .pointer => .ok (.pointer s.pointer)
  | .memory => .ok (.memory s.tape)

/-- A call that was made, and the session it was made on. -/
structure Made where
  before : Session
  call : Call

/-- Whether the queue of the call was taken. -/
def Made.accepted (m : Made) : Bool := m.before.accepts m.call

/-- The calls that took one session to another, each of which returned. -/
inductive Trace : Session → List Made → Session → Prop
  | nil {s : Session} : Trace s [] s
  | cons {s t u : Session} {budget : ℕ} {call : Call} {answer : Except Failure Answer}
      {calls : List Made} : s.perform budget call = some (t, answer) → Trace t calls u →
      Trace s (⟨s, call⟩ :: calls) u

/-! ## Moves -/

/-- What can happen to a session: it takes a queue, it takes a program, or it runs. -/
inductive Move : Session → Session → Prop
  | queue {s : Session} {bytes : List UInt8} : s.feed.unread = none → s.isOver = false →
      Move s { s with feed := ⟨some bytes, false⟩ }
  | program {s : Session} {program : List Item} : s.program = none →
      Move s { s with program := some program }
  | run {s : Session} {program : List Item} {code : Array Word} {budget : ℕ} {f : Finish} :
      s.stage = .loaded → s.program = some program → encode program = .ok code →
      Run.finish program.toArray code budget (Run.start s.tape s.feed) = some f →
      Move s (s.settle f).session

section Stages

variable {s : Session}

theorem isOver_iff : s.isOver ↔ s.fault.isSome ∨ s.output.isSome := by
  unfold isOver stage
  cases s.fault <;> cases s.output <;> cases s.program <;> simp

theorem stage_eq_loaded : s.stage = .loaded ↔
    s.fault = none ∧ s.output = none ∧ s.program.isSome := by
  unfold stage
  cases s.fault <;> cases s.output <;> cases s.program <;> simp

theorem stage_eq_completed : s.stage = .completed ↔ s.fault = none ∧ s.output.isSome := by
  unfold stage
  cases s.fault <;> cases s.output <;> cases s.program <;> simp

theorem stage_eq_failed : s.stage = .failed ↔ s.fault.isSome := by
  unfold stage
  cases s.fault <;> cases s.output <;> cases s.program <;> simp

/-- A run leaves its output, its fault, or a session at the stage at which it was. -/
theorem settle_cases {f : Finish} (h : s.stage = .loaded) :
    (f.failure = none ∧
        s.settle f = ⟨{ s.after f.run with output := some f.run.output }, none⟩) ∨
      (∃ fault, f.failure = some (.fault fault) ∧
        s.settle f = ⟨{ s.after f.run with fault := some fault }, some (.fault fault)⟩) ∨
      ∃ refusal, f.failure = some (.refusal refusal) ∧
        s.settle f = ⟨s.after f.run, some (.refusal refusal)⟩ := by
  obtain ⟨hfault, houtput, -⟩ := stage_eq_loaded.mp h
  rw [settle]
  cases hfailure : f.failure with
  | none => exact Or.inl ⟨rfl, by simp [setOutput, after, houtput, Reply.of]⟩
  | some e =>
    cases e with
    | fault fault => exact Or.inr (Or.inl ⟨fault, rfl, rfl⟩)
    | refusal refusal =>
      refine Or.inr (Or.inr ⟨refusal, rfl, ?_⟩)
      simp [Failure.fault?, after, hfault]

end Stages

/-- A number of moves. -/
abbrev Moves : Session → Session → Prop := Relation.ReflTransGen Move

section Moves

variable {s t u : Session} {c : Call} {budget : ℕ} {r : Reply} {answer : Except Failure Answer}

theorem session_of_answer (h : r.answer = (t, answer)) : r.session = t := by
  unfold Reply.answer at h
  split at h <;> exact congrArg Prod.fst h

theorem of_loadInput {queue : List ℤ} (h : s.loadInput queue = .ok t) :
    s.feed.unread = none ∧ s.isOver = false ∧
      ∃ bytes, t = { s with feed := ⟨some bytes, false⟩ } := by
  unfold loadInput at h
  split at h
  · cases h
  · rename_i hopen
    simp only [Bool.or_eq_true, not_or, Bool.not_eq_true, Option.isSome_eq_false_iff,
      Option.isNone_iff_eq_none] at hopen
    split at h
    · cases h
    · cases h
      exact ⟨hopen.1, hopen.2, _, rfl⟩

theorem move_of_loadInput {queue : List ℤ} (h : s.loadInput queue = .ok t) : s.Move t := by
  obtain ⟨hunread, hover, bytes, rfl⟩ := of_loadInput h
  exact .queue hunread hover

theorem move_of_loadProgram {program : List Item} (h : s.loadProgram program = .ok t) :
    s.Move t := by
  unfold loadProgram at h
  split at h
  · cases h
  · rename_i hnone
    cases h
    exact .program (by simpa using hnone)

theorem run_moves (h : s.run budget = some r) : s.Moves r.session := by
  unfold run at h
  split at h
  · cases h
    exact .refl
  · cases h
    exact .refl
  · cases h
    exact .refl
  · rename_i program houtput hfault hprogram
    split at h
    · cases h
      exact .refl
    · rename_i code hcode
      obtain ⟨f, hfinish, rfl⟩ := Option.map_eq_some_iff.mp h
      exact .single (.run (by simp [stage, houtput, hfault, hprogram]) hprogram hcode hfinish)

theorem loadProgram_moves (s : Session) (program : List Item) :
    s.Moves (Reply.of s (s.loadProgram program)).session := by
  cases h : s.loadProgram program with
  | ok t => exact .single (move_of_loadProgram h)
  | error e => exact .refl

theorem afterQueue_of_loadInput (s : Session) (queue : List ℤ) :
    (Reply.of s (s.loadInput queue)).session = s.afterQueue (.loadInput queue) := by
  show _ = (match s.loadInput queue with | .ok t => t | .error _ => s)
  cases s.loadInput queue <;> rfl

theorem load_moves (s : Session) (program : List Item) (queue : Option (List ℤ)) :
    (s.afterQueue (.load program queue)).Moves (s.load program queue).session := by
  unfold afterQueue load
  simp only [Call.queue?]
  cases s.loadQueue queue with
  | ok t => exact loadProgram_moves t program
  | error e => exact .refl

theorem execute_moves {program : List Item} {queue : Option (List ℤ)}
    (h : s.execute budget program queue = some r) :
    (s.afterQueue (.load program queue)).Moves r.session := by
  have hload := s.load_moves program queue
  unfold execute at h
  simp only at h
  split at h
  · cases h
    exact hload
  · exact hload.trans (run_moves h)

/-- **A call offers its queue and makes its other moves after that.** -/
theorem perform_moves (h : s.perform budget c = some (t, answer)) : (s.afterQueue c).Moves t := by
  cases c with
  | loadProgram program =>
    obtain rfl := session_of_answer (Option.some.inj h)
    exact s.loadProgram_moves program
  | loadInput queue =>
    obtain rfl := session_of_answer (Option.some.inj h)
    rw [afterQueue_of_loadInput]
  | load program queue =>
    obtain rfl := session_of_answer (Option.some.inj h)
    exact s.load_moves program queue
  | execute program queue =>
    obtain ⟨r, hr, hanswer⟩ := Option.map_eq_some_iff.mp h
    obtain rfl := session_of_answer hanswer
    exact execute_moves hr
  | run =>
    obtain ⟨r, hr, hanswer⟩ := Option.map_eq_some_iff.mp h
    obtain rfl := session_of_answer hanswer
    exact run_moves hr
  | output | text | pointer | memory =>
    obtain ⟨rfl, -⟩ := Prod.mk.inj (Option.some.inj h)
    exact .refl

/-- A call whose queue is taken is one that hands over a queue to a session without one. -/
theorem afterQueue_cases (s : Session) (c : Call) :
    (s.accepts c = true ∧ ∃ queue, c.queue? = some queue ∧
        s.loadInput queue = .ok (s.afterQueue c)) ∨
      (s.accepts c = false ∧ s.afterQueue c = s) := by
  unfold accepts afterQueue
  cases c.queue? with
  | none => exact Or.inr ⟨rfl, rfl⟩
  | some queue =>
    cases h : s.loadInput queue with
    | ok t =>
      exact Or.inl ⟨by simp [h, Except.isOk, Except.toBool], queue, rfl, by simp [h, loadQueue]⟩
    | error e => exact Or.inr ⟨by simp [h, Except.isOk, Except.toBool], by simp [h, loadQueue]⟩

theorem Trace.moves {calls : List Made} (h : Trace s calls t) : s.Moves t := by
  induction h with
  | nil => exact .refl
  | @cons s t u budget call answer calls hcall _ ih =>
    refine Relation.ReflTransGen.trans ?_ ((perform_moves hcall).trans ih)
    rcases s.afterQueue_cases call with ⟨-, queue, -, hqueue⟩ | ⟨-, hsame⟩
    · exact .single (move_of_loadInput hqueue)
    · rw [hsame]

end Moves

/-! ## Budgets -/

section Budgets

variable {s : Session} {c : Call} {budget budget' : ℕ} {r : Reply}
  {x y : Session × Except Failure Answer}

/-- A run that has returned returns the same with a larger budget. -/
theorem run_mono (h : s.run budget = some r) (hle : budget ≤ budget') :
    s.run budget' = some r := by
  unfold run at h ⊢
  split at h
  · exact h
  · exact h
  · exact h
  · split at h
    · exact h
    · obtain ⟨f, hfinish, rfl⟩ := Option.map_eq_some_iff.mp h
      rw [finish_mono hfinish hle, Option.map_some]

theorem execute_mono {program : List Item} {queue : Option (List ℤ)}
    (h : s.execute budget program queue = some r) (hle : budget ≤ budget') :
    s.execute budget' program queue = some r := by
  unfold execute at h ⊢
  simp only at h ⊢
  split at h
  · exact h
  · exact run_mono h hle

theorem perform_mono (h : s.perform budget c = some x) (hle : budget ≤ budget') :
    s.perform budget' c = some x := by
  cases c with
  | execute program queue =>
    obtain ⟨r, hr, hx⟩ := Option.map_eq_some_iff.mp h
    exact Option.map_eq_some_iff.mpr ⟨r, execute_mono hr hle, hx⟩
  | run =>
    obtain ⟨r, hr, hx⟩ := Option.map_eq_some_iff.mp h
    exact Option.map_eq_some_iff.mpr ⟨r, run_mono hr hle, hx⟩
  | loadProgram | loadInput | load | output | text | pointer | memory => exact h

/-- A call has one answer, whatever it takes to get it. -/
theorem perform_unique (h : s.perform budget c = some x) (h' : s.perform budget' c = some y) :
    x = y :=
  Option.some.inj ((perform_mono h (le_max_left budget budget')).symm.trans
    (perform_mono h' (le_max_right budget budget')))

end Budgets

/-! ## What moves keep -/

/-- What holds of every session: no end without a program, no output beside a fault, a tape of full
size, and the absent feed where no queue was taken. -/
structure Sound (s : Session) : Prop where
  program : s.isOver → s.program.isSome
  single : s.fault.isSome → s.output = none
  size : s.tape.size = tapeSize
  absent : s.feed.unread = none → s.feed = .absent

/-- Whether a session takes no queue any more. -/
def Closed (s : Session) : Prop := s.feed.unread.isSome ∨ s.isOver

section Kept

variable {s t : Session}

theorem new_sound : new.Sound where
  program h := by cases h
  single h := by cases h
  size := Array.size_replicate
  absent _ := rfl

/-- A session without a program is at the start. -/
theorem Sound.stage_of_none (hs : s.Sound) (h : s.program = none) :
    s.stage = .uninitialized ∧ s.fault = none ∧ s.output = none := by
  have hopen : ¬ s.isOver := fun hover => by
    have := hs.program hover
    simp [h] at this
  rw [isOver_iff, not_or] at hopen
  have hfault : s.fault = none := by simpa using hopen.1
  have houtput : s.output = none := by simpa using hopen.2
  exact ⟨by simp [stage, h, hfault, houtput], hfault, houtput⟩

theorem Sound.start (hs : s.Sound) (len : ℕ) :
    (Run.start s.tape s.feed).state.Within len tapeSize :=
  ⟨⟨hs.size, (by decide : 0 < tapeSize)⟩, Nat.zero_le len⟩

theorem Sound.after {program : List Item} {code : Array Word} {budget : ℕ} {f : Finish}
    (hs : s.Sound) (hcode : encode program = .ok code)
    (h : Run.finish program.toArray code budget (Run.start s.tape s.feed) = some f) :
    (s.after f.run).Sound where
  program := hs.program
  single := hs.single
  size := (finish_within (lands_of_encode hcode) (hs.start code.size) h).size
  absent hnone := by
    have hunread : f.run.feed.unread = none := hnone
    rcases finish_feed h with hsame | ⟨-, hsome⟩
    · exact hsame.trans (hs.absent ((congrArg Feed.unread hsame).symm.trans hunread))
    · rw [hunread] at hsome
      cases hsome

theorem Move.sound (h : s.Move t) (hs : s.Sound) : t.Sound := by
  cases h with
  | queue => exact { hs with absent := fun h => by cases h }
  | program => exact { hs with program := fun _ => rfl }
  | @run program code budget f hstage _ hcode hfinish =>
    obtain ⟨hfault, houtput, hsome⟩ := stage_eq_loaded.mp hstage
    have hafter := hs.after hcode hfinish
    rcases s.settle_cases hstage (f := f) with ⟨-, heq⟩ | ⟨fault, -, heq⟩ | ⟨refusal, -, heq⟩
    · rw [heq]
      exact { hafter with
        program := fun _ => hsome
        single := fun h => by simp [Session.after, hfault] at h }
    · rw [heq]
      exact { hafter with program := fun _ => hsome, single := fun _ => houtput }
    · rw [heq]
      exact hafter

theorem Move.stage_next (h : s.Move t) (hs : s.Sound) :
    Relation.ReflTransGen Stage.Next s.stage t.stage := by
  cases h with
  | queue => exact .refl
  | program hnone =>
    obtain ⟨hstage, hfault, houtput⟩ := hs.stage_of_none hnone
    rw [hstage]
    refine .single ?_
    simp only [stage, hfault, houtput]
    exact .load
  | @run program code budget f hstage =>
    obtain ⟨hfault, -, -⟩ := stage_eq_loaded.mp hstage
    rcases s.settle_cases hstage (f := f) with ⟨-, heq⟩ | ⟨fault, -, heq⟩ | ⟨refusal, -, heq⟩
    · rw [hstage, heq]
      refine .single ?_
      simp only [stage, after, hfault]
      exact .complete
    · rw [hstage, heq]
      exact .single .fail
    · rw [heq]
      exact .refl

theorem settle_program (s : Session) (f : Finish) : (s.settle f).session.program = s.program := by
  unfold settle
  cases f.failure with
  | some e => rfl
  | none =>
    simp only [setOutput]
    split <;> rfl

theorem Move.keeps_program (h : s.Move t) {program : List Item} (hp : s.program = some program) :
    t.program = some program := by
  cases h with
  | queue => exact hp
  | program hnone => cases hp.symm.trans hnone
  | run => rw [settle_program, hp]

theorem Move.closed (h : s.Move t) (hs : s.Closed) : t.Closed := by
  cases h with
  | queue => exact Or.inl rfl
  | program =>
    rw [Closed, isOver_iff] at hs ⊢
    exact hs
  | @run program code budget f hstage _ _ hfinish =>
    rcases s.settle_cases hstage (f := f) with ⟨-, heq⟩ | ⟨fault, -, heq⟩ | ⟨refusal, -, heq⟩
    · rw [heq]
      exact Or.inr (isOver_iff.mpr (Or.inr rfl))
    · rw [heq]
      exact Or.inr (isOver_iff.mpr (Or.inl rfl))
    · rw [heq]
      rw [Closed, isOver_iff] at hs ⊢
      refine hs.imp_left fun hsome => ?_
      rcases finish_feed hfinish with hsame | ⟨-, hsome'⟩
      · exact (congrArg (·.unread.isSome) hsame).trans hsome
      · exact hsome'

/-- What every move keeps is kept for ever. -/
theorem Moves.keeps {P : Session → Prop} (hP : ∀ s t, s.Move t → P s → P t) (h : s.Moves t)
    (hs : P s) : P t := by
  induction h with
  | refl => exact hs
  | tail _ hmove ih => exact hP _ _ hmove ih

theorem Moves.stage_next (h : s.Moves t) (hs : s.Sound) :
    Relation.ReflTransGen Stage.Next s.stage t.stage := by
  induction h with
  | refl => exact .refl
  | tail hmoves hmove ih =>
    have hsound := Moves.keeps (fun _ _ hmove hs => hmove.sound hs) hmoves hs
    exact ih.trans (hmove.stage_next hsound)

end Kept

/-! ## Queues -/

section Queues

variable {s t u : Session} {c : Call} {calls first later : List Made}

theorem accepts_of_closed (h : s.Closed) (c : Call) : s.accepts c = false := by
  rcases s.afterQueue_cases c with ⟨-, queue, -, hqueue⟩ | ⟨hno, -⟩
  · obtain ⟨hunread, hover, -⟩ := of_loadInput hqueue
    rcases h with hsome | hsome
    · rw [hunread] at hsome
      cases hsome
    · cases hover.symm.trans hsome
  · exact hno

theorem closed_of_accepts (h : s.accepts c = true) : (s.afterQueue c).Closed := by
  rcases s.afterQueue_cases c with ⟨-, queue, -, hqueue⟩ | ⟨hno, -⟩
  · obtain ⟨-, -, bytes, heq⟩ := of_loadInput hqueue
    rw [heq]
    exact Or.inl rfl
  · cases hno.symm.trans h

theorem Moves.closed (h : s.Moves t) (hs : s.Closed) : t.Closed :=
  Moves.keeps (fun _ _ hmove hs => hmove.closed hs) h hs

theorem Trace.append (h : Trace s first t) (h' : Trace t later u) :
    Trace s (first ++ later) u := by
  induction h with
  | nil => exact h'
  | cons hcall _ ih => exact .cons hcall (ih h')

theorem Trace.count_of_closed (h : Trace s calls t) (hs : s.Closed) :
    calls.countP Made.accepted = 0 := by
  induction h with
  | nil => rfl
  | @cons s t u budget call answer calls hcall _ ih =>
    have hno := accepts_of_closed hs call
    have hsame : s.afterQueue call = s := by
      rcases s.afterQueue_cases call with ⟨hyes, -⟩ | ⟨-, hsame⟩
      · cases hno.symm.trans hyes
      · exact hsame
    have hmoves : s.Moves t := hsame ▸ perform_moves hcall
    rw [List.countP_cons_of_neg (by simp [Made.accepted, hno]), ih (hmoves.closed hs)]

/-- A queue is taken once. -/
theorem Trace.count_le (h : Trace s calls t) : calls.countP Made.accepted ≤ 1 := by
  induction h with
  | nil => exact Nat.zero_le 1
  | @cons s t u budget call answer calls hcall hrest ih =>
    cases haccepts : s.accepts call with
    | false => rwa [List.countP_cons_of_neg (by simp [Made.accepted, haccepts])]
    | true =>
      have hclosed : t.Closed := (perform_moves hcall).closed (closed_of_accepts haccepts)
      have hnone := hrest.count_of_closed hclosed
      rw [List.countP_cons_of_pos (by simp [Made.accepted, haccepts])]
      omega

end Queues

/-! ## Ends -/

section Ends

variable {s t : Session} {calls first later : List Made}

theorem Sound.loadProgram_of_isOver (hs : s.Sound) (h : s.isOver) (program : List Item) :
    s.loadProgram program = misused .secondProgram := by
  rw [loadProgram, if_pos (hs.program h)]

theorem loadInput_of_isOver (h : s.isOver) (queue : List ℤ) :
    s.loadInput queue = misused .secondInput := by
  rw [loadInput, if_pos (by simp [h])]

theorem Sound.run_of_isOver (hs : s.Sound) (h : s.isOver) (budget : ℕ) :
    s.run budget = some ⟨s, s.fault.map .fault⟩ := by
  unfold run
  cases hfault : s.fault with
  | none =>
    obtain ⟨output, houtput⟩ : ∃ output, s.output = some output := by
      have hend := isOver_iff.mp h
      rw [hfault] at hend
      exact Option.isSome_iff_exists.mp (hend.resolve_left (by simp))
    rw [houtput]
    rfl
  | some fault =>
    have houtput : s.output = none := hs.single (by rw [hfault]; rfl)
    rw [houtput]
    rfl

theorem Sound.load_of_isOver (hs : s.Sound) (h : s.isOver) (program : List Item)
    (queue : Option (List ℤ)) : s.load program queue =
      ⟨s, some (.fault (.misuse (if queue.isSome then .secondInput else .secondProgram)))⟩ := by
  cases queue with
  | none =>
    simp only [load, loadQueue, hs.loadProgram_of_isOver h]
    rfl
  | some queue =>
    simp only [load, loadQueue, loadInput_of_isOver h]
    rfl

/-- A session that has run to an end answers every call at once and stays as it is. -/
theorem Sound.perform_of_isOver (hs : s.Sound) (h : s.isOver) (budget : ℕ) (c : Call) :
    s.perform budget c = some (s, s.finalAnswer c) := by
  cases c with
  | loadProgram program =>
    rw [perform, hs.loadProgram_of_isOver h]
    rfl
  | loadInput queue =>
    rw [perform, loadInput_of_isOver h]
    rfl
  | load program queue =>
    rw [perform, hs.load_of_isOver h]
    cases queue <;> rfl
  | execute program queue =>
    rw [perform, execute, hs.load_of_isOver h]
    cases queue <;> rfl
  | run =>
    rw [perform, hs.run_of_isOver h, finalAnswer]
    cases s.fault <;> rfl
  | output | text | pointer | memory => rfl

theorem Trace.eq_of_isOver (h : Trace s calls t) (hs : s.Sound) (hover : s.isOver) : t = s := by
  induction h with
  | nil => rfl
  | @cons s t u budget call answer calls hcall _ ih =>
    rw [hs.perform_of_isOver hover] at hcall
    obtain ⟨rfl, -⟩ := Prod.mk.inj (Option.some.inj hcall)
    exact ih hs hover

/-- There is output to read at the completed stage and at no other. -/
theorem Sound.readOutput_iff (hs : s.Sound) :
    (∃ output, s.readOutput = .ok output) ↔ s.stage = .completed := by
  rw [stage_eq_completed, readOutput]
  cases houtput : s.output with
  | none => simp [misused]
  | some output =>
    cases hfault : s.fault with
    | none => simp
    | some fault => cases houtput.symm.trans (hs.single (by rw [hfault]; rfl))

theorem readText_iff : (∃ text, s.readText = .ok text) ↔ ∃ output, s.readOutput = .ok output := by
  unfold readText
  cases s.readOutput with
  | ok output => simp [Except.map]
  | error e => simp [Except.map]

end Ends

/-- **The life of a session.** -/
theorem lifecycle (first later : List Made) (s t : Session) (hfirst : Trace new first s)
    (hlater : Trace s later t) :
    Relation.ReflTransGen Stage.Next s.stage t.stage ∧
      (∀ program, s.program = some program → t.program = some program) ∧
      (first ++ later).countP Made.accepted ≤ 1 ∧
      ((∃ output, t.readOutput = .ok output) ↔ t.stage = .completed) ∧
      ((∃ text, t.readText = .ok text) ↔ t.stage = .completed) ∧
      (s.isOver → t = s ∧ ∀ budget c, s.perform budget c = some (s, s.finalAnswer c)) := by
  have hsound : s.Sound := Moves.keeps (fun _ _ hmove h => hmove.sound h) hfirst.moves new_sound
  have hsound' : t.Sound := Moves.keeps (fun _ _ hmove h => hmove.sound h) hlater.moves hsound
  refine ⟨hlater.moves.stage_next hsound, ?_, (hfirst.append hlater).count_le,
    hsound'.readOutput_iff, readText_iff.trans hsound'.readOutput_iff, ?_⟩
  · intro program hprogram
    exact Moves.keeps (fun _ _ hmove h => hmove.keeps_program h) hlater.moves hprogram
  · intro hover
    exact ⟨hlater.eq_of_isOver hsound hover, hsound.perform_of_isOver hover⟩

/-- A session that asked for input and had none. -/
def starved : Session :=
  { new with program := some [.instr ⟨.input, 1⟩], fault := some (.missingInput 1) }

theorem starved_trace : Trace new [⟨new, .execute [.instr ⟨.input, 1⟩] none⟩] starved := by
  have hcall : new.perform 1 (.execute [.instr ⟨.input, 1⟩] none) =
      some (starved, .error (.fault (.missingInput 1))) := rfl
  exact .cons hcall .nil

theorem starved_later : Trace starved [⟨starved, .loadInput [7]⟩, ⟨starved, .run⟩] starved := by
  have hload : starved.perform 0 (.loadInput [7]) = some (starved, misused .secondInput) := rfl
  have hrun : starved.perform 0 .run = some (starved, .error (.fault (.missingInput 1))) := rfl
  exact .cons hload (.cons hrun .nil)

theorem lifecycle_starved :
    (Trace new [⟨new, .execute [.instr ⟨.input, 1⟩] none⟩] starved ∧
      Trace starved [⟨starved, .loadInput [7]⟩, ⟨starved, .run⟩] starved) ∧
    Relation.ReflTransGen Stage.Next starved.stage starved.stage ∧
      (∀ program, starved.program = some program → starved.program = some program) ∧
      List.countP Made.accepted ([⟨new, .execute [.instr ⟨.input, 1⟩] none⟩] ++
        [⟨starved, .loadInput [7]⟩, ⟨starved, .run⟩]) ≤ 1 ∧
      ((∃ output, starved.readOutput = .ok output) ↔ starved.stage = .completed) ∧
      ((∃ text, starved.readText = .ok text) ↔ starved.stage = .completed) ∧
      (starved.isOver → starved = starved ∧
        ∀ budget c, starved.perform budget c = some (starved, starved.finalAnswer c)) :=
  ⟨⟨starved_trace, starved_later⟩, lifecycle _ _ _ _ starved_trace starved_later⟩

end Session

end TapeMachine
