import TapeMachine.Program
import TapeMachine.Proofs.Execution
import TapeMachine.Proofs.Lifecycle

/-! # Histories

Whatever calls a session has seen, they have left one of two things, unless a run
was cut short. Either it is at rest: its tape is blank, its pointer at the start,
and its input is the one queue that was taken. Or it has run, and is what a new
session becomes that executes the same program on the same queue. No call that
fails on the way leaves a trace (`Trace.follows`), so a run depends on the program
and the queue alone (`run_starts_fresh`).

A run is cut short if its fault cannot be reported, for a position that is too
long. It leaves what it did on the tape, and the session still takes its next run
for the first (`run_starts_spoiled`). -/
namespace TapeMachine

namespace Session

/-- The queue that was taken in a history of calls. -/
def taken (calls : List Made) : Option (List ℤ) :=
  (calls.find? Made.accepted).bind (·.call.queue?)

/-- A session that has not run, after it has been offered a queue. -/
structure Rests (s : Session) (queue : Option (List ℤ)) : Prop where
  tape : s.tape = .blank
  pointer : s.pointer = 0
  output : s.output = none
  fault : s.fault = none
  feed : feed? queue = .ok s.feed

/-- A session that is what execution on a queue leaves of a new one. -/
structure Ran (s : Session) (queue : Option (List ℤ)) : Prop where
  ended : s.isOver
  fresh : ∃ program budget, s.program = some program ∧
    new.execute budget program queue = some ⟨s, s.fault.map .fault⟩

/-- Whether a session is what its history says. -/
def Follows (s : Session) (queue : Option (List ℤ)) : Prop := s.Rests queue ∨ s.Ran queue

/-- Whether a failure that left `t` cut a run short: it is a refusal, and the reason is neither the
queue nor a program that cannot be encoded. -/
def CutsShort (t : Session) (e : Failure) : Prop :=
  ∃ refusal program code, e = .refusal refusal ∧ refusal ≠ .queueRange ∧
    t.program = some program ∧ encode program = .ok code

/-- Whether the run of a call was cut short. -/
def Made.IsCut (m : Made) : Prop :=
  ∃ budget t e, m.before.perform budget m.call = some (t, .error e) ∧ t.CutsShort e

/-! ## Queues and feeds -/

theorem toNat_of_byte {refusal : Refusal} {n : ℤ} {b : UInt8} (h : byte refusal n = .ok b) :
    (b.toNat : ℤ) = n := by
  unfold byte at h
  split at h
  · rename_i hn
    cases h
    rw [UInt8.toNat_ofNat', Nat.mod_eq_of_lt (by omega), Int.toNat_of_nonneg hn.1]
  · cases h

/-- A feed holds the values of its queue, and no byte has been asked for in vain. -/
theorem queue_of_feed {queue : Option (List ℤ)} {feed : Feed} (h : feed? queue = .ok feed) :
    feed.exhausted = false ∧ feed.unread.map queueOf = queue := by
  cases queue with
  | none =>
    cases h
    exact ⟨rfl, rfl⟩
  | some queue =>
    rw [feed?] at h
    cases hmap : queue.mapM (byte .queueRange) with
    | error e => rw [hmap] at h; cases h
    | ok bytes =>
      rw [hmap] at h
      cases h
      have hvalues : bytes.map (fun b => (b.toNat : ℤ)) = queue := by
        have hall : List.Forall₂ (· = ·) queue (bytes.map fun b => (b.toNat : ℤ)) :=
          List.forall₂_map_right_iff.mpr
            ((forall₂_of_mapM hmap).imp fun _ _ hb => (toNat_of_byte hb).symm)
        rw [List.forall₂_eq_eq_eq] at hall
        exact hall.symm
      exact ⟨rfl, by simp [queueOf, hvalues]⟩

/-! ## Failures -/

section Failures

variable {s t : Session} {program : List Item} {queue : Option (List ℤ)} {values : List ℤ}
  {e : Failure} {r : Reply} {c : Call} {budget : ℕ} {refusal : Refusal}

theorem answer_of_failure (h : r.failure = some e) : r.answer = (r.session, .error e) := by
  rw [Reply.answer, h]

theorem failure_of_answer (h : r.answer = (t, .error e)) : r.failure = some e := by
  unfold Reply.answer at h
  split at h
  · rename_i hfailure
    rw [hfailure, Except.error.inj (Prod.mk.inj h).2]
  · cases (Prod.mk.inj h).2

theorem refusal_of_byte {refusal refusal' : Refusal} {n : ℤ}
    (h : byte refusal n = .error refusal') : refusal' = refusal := by
  unfold byte at h
  split at h
  · cases h
  · cases h
    rfl

/-- A queue is refused as the second one, or for a value that is no byte. -/
theorem failure_of_loadInput (h : s.loadInput values = .error e) :
    e = .fault (.misuse .secondInput) ∨ e = .refusal .queueRange := by
  unfold loadInput at h
  split at h
  · cases h
    exact Or.inl rfl
  · split at h
    · rename_i refusal hrefused
      obtain ⟨n, -, hn⟩ := exists_of_mapM_error hrefused
      obtain rfl := refusal_of_byte hn
      cases h
      exact Or.inr rfl
    · cases h

theorem failure_of_loadProgram (h : s.loadProgram program = .error e) :
    e = .fault (.misuse .secondProgram) ∧ s.program.isSome := by
  unfold loadProgram at h
  split at h
  · cases h
    exact ⟨rfl, ‹_›⟩
  · cases h

/-- What is refused is the queue, or the program once the queue is taken. -/
theorem refused_cases (h : s.load program queue = ⟨t, some e⟩) :
    (t = s ∧ ∃ values, queue = some values ∧ s.loadInput values = .error e) ∨
      s.loadQueue queue = .ok t ∧ t.loadProgram program = .error e := by
  unfold load at h
  cases hqueue : s.loadQueue queue with
  | error e' =>
    rw [hqueue] at h
    cases h
    cases queue with
    | none => cases hqueue
    | some values => exact Or.inl ⟨rfl, values, rfl, hqueue⟩
  | ok u =>
    rw [hqueue] at h
    cases hprogram : u.loadProgram program with
    | ok v =>
      simp only [hprogram] at h
      cases h
    | error e' =>
      simp only [hprogram] at h
      cases h
      exact Or.inr ⟨rfl, hprogram⟩

/-- **A run is refused before it starts, and then changes nothing, or it is cut short.** -/
theorem run_refused (hs : s.Sound) (h : s.run budget = some ⟨t, some (.refusal refusal)⟩) :
    (t = s ∧ ∃ program, s.program = some program ∧ encode program = .error refusal) ∨
      refusal = .longInteger ∧ ∃ program code f, s.program = some program ∧
        HasLongPosition program ∧ encode program = .ok code ∧
        Run.finish program.toArray code budget (Run.start s.tape s.feed) = some f ∧
        t = s.after f.run := by
  unfold run at h
  split at h
  · cases h
  · cases h
  · cases h
  · rename_i program houtput hfault hprogram
    split at h
    · rename_i hcode
      cases h
      exact Or.inl ⟨rfl, program, hprogram, hcode⟩
    · rename_i code hcode
      obtain ⟨f, hfinish, hsettle⟩ := Option.map_eq_some_iff.mp h
      have hstage : s.stage = .loaded := by simp [stage, houtput, hfault, hprogram]
      rcases s.settle_cases hstage (f := f) with ⟨-, heq⟩ | ⟨fault, -, heq⟩ | ⟨_, hf, heq⟩
      · cases heq.symm.trans hsettle
      · cases heq.symm.trans hsettle
      · cases heq.symm.trans hsettle
        obtain ⟨rfl, hlong⟩ := long_of_refused hcode (hs.start code.size) hfinish hf
        exact Or.inr ⟨rfl, program, code, f, hprogram, hlong, hcode, hfinish, rfl⟩

theorem afterQueue_moves (s : Session) (c : Call) : s.Moves (s.afterQueue c) := by
  rcases s.afterQueue_cases c with ⟨-, queue, -, hqueue⟩ | ⟨-, hsame⟩
  · exact .single (move_of_loadInput hqueue)
  · rw [hsame]

theorem error_of_reply {x : Except Failure Session} (h : (Reply.of s x).failure = some e) :
    x = .error e := by
  cases x with
  | ok t => cases h
  | error e' =>
    cases h
    rfl

/-- Loading fails for a misuse, or for a queue with a value that is no byte. -/
theorem failure_of_load (h : (s.load program queue).failure = some e) :
    (∃ m, e = .fault (.misuse m)) ∨ e = .refusal .queueRange := by
  have hload : s.load program queue = ⟨(s.load program queue).session, some e⟩ := by rw [← h]
  rcases refused_cases hload with ⟨-, values, -, hinput⟩ | ⟨-, hprogram⟩
  · rcases failure_of_loadInput hinput with rfl | rfl
    · exact Or.inl ⟨_, rfl⟩
    · exact Or.inr rfl
  · exact Or.inl ⟨_, (failure_of_loadProgram hprogram).1⟩

/-- **A call fails as loading does, or as the run does that it makes.** -/
theorem failure_of_perform (h : s.perform budget c = some (t, .error e)) :
    (∃ m, e = .fault (.misuse m)) ∨ e = .refusal .queueRange ∨
      ∃ u, s.Moves u ∧ u.run budget = some ⟨t, some e⟩ := by
  cases c with
  | loadProgram program =>
    have hload := error_of_reply (failure_of_answer (Option.some.inj h))
    exact Or.inl ⟨_, (failure_of_loadProgram hload).1⟩
  | loadInput values =>
    have hload := error_of_reply (failure_of_answer (Option.some.inj h))
    rcases failure_of_loadInput hload with rfl | rfl
    · exact Or.inl ⟨_, rfl⟩
    · exact Or.inr (Or.inl rfl)
  | load program queue =>
    have hload := failure_of_load (failure_of_answer (Option.some.inj h))
    exact hload.imp_right Or.inl
  | execute program queue =>
    obtain ⟨r, hr, hanswer⟩ := Option.map_eq_some_iff.mp h
    have hfailure := failure_of_answer hanswer
    obtain rfl := session_of_answer hanswer
    unfold execute at hr
    simp only at hr
    split at hr
    · cases hr
      exact (failure_of_load hfailure).imp_right Or.inl
    · refine Or.inr (Or.inr ⟨_, ?_, hr.trans (by rw [← hfailure])⟩)
      exact (s.afterQueue_moves _).trans (s.load_moves program queue)
  | run =>
    obtain ⟨r, hr, hanswer⟩ := Option.map_eq_some_iff.mp h
    have hfailure := failure_of_answer hanswer
    obtain rfl := session_of_answer hanswer
    exact Or.inr (Or.inr ⟨s, .refl, hr.trans (by rw [← hfailure])⟩)
  | output | text =>
    simp only [perform, readText, readOutput] at h
    split at h
    · cases h
    · cases h
      exact Or.inl ⟨_, rfl⟩
  | pointer | memory => cases h

/-- A call that is cut short runs the session as far as it had loaded it. -/
theorem run_of_cut (h : s.perform budget c = some (t, .error e)) (hcut : t.CutsShort e) :
    ∃ u, s.Moves u ∧ u.run budget = some ⟨t, some e⟩ := by
  obtain ⟨refusal, _, _, rfl, hrange, -⟩ := hcut
  rcases failure_of_perform h with ⟨_, hmisuse⟩ | hqueue | hrun
  · cases hmisuse
  · exact absurd (Failure.refusal.inj hqueue) hrange
  · exact hrun

theorem Moves.sound (h : s.Moves t) (hs : s.Sound) : t.Sound :=
  Moves.keeps (fun _ _ hmove hs => hmove.sound hs) h hs

/-- **A run is cut short for a position in its program that is too long.** -/
theorem long_of_cut (hs : s.Sound) (h : s.perform budget c = some (t, .error e))
    (hcut : t.CutsShort e) : ∃ program, t.program = some program ∧ HasLongPosition program := by
  obtain ⟨u, hmoves, hrun⟩ := run_of_cut h hcut
  obtain ⟨refusal, program, code, rfl, -, hprogram, hcode⟩ := hcut
  rcases run_refused (hmoves.sound hs) hrun with
    ⟨rfl, program', hprogram', herror⟩ | ⟨-, program', -, -, hprogram', hlong, -, -, rfl⟩
  · cases hprogram.symm.trans hprogram'
    cases hcode.symm.trans herror
  · exact ⟨program', hprogram', hlong⟩

end Failures

/-! ## One call -/

section Calls

variable {s t : Session} {queue : Option (List ℤ)} {c : Call} {budget : ℕ}
  {answer : Except Failure Answer} {program : List Item} {r : Reply}

theorem new_rests : new.Rests none := ⟨rfl, rfl, rfl, rfl, rfl⟩

theorem Rests.not_over (h : s.Rests queue) : s.isOver = false := by
  rw [← Bool.not_eq_true, isOver_iff, h.fault, h.output]
  simp

theorem Rests.eq_ready (h : s.Rests queue) (hp : s.program = some program) :
    s = ready program s.feed := by
  obtain ⟨p, feed, output, fault, tape, pointer⟩ := s
  obtain ⟨rfl, rfl, rfl, rfl, -⟩ := h
  obtain rfl : p = _ := hp
  rfl

/-- A session at rest runs as a new one does that executes its program on its queue. -/
theorem Rests.run_eq (h : s.Rests queue) (hp : s.program = some program) (budget : ℕ) :
    s.run budget = new.execute budget program queue := by
  rw [execute_of_feed budget h.feed, ← h.eq_ready hp]

/-- A run leaves a session at rest as it was, or it is the run of a new session. -/
theorem Rests.run (h : s.Rests queue) (hrun : s.run budget = some r)
    (hwhole : ∀ e, r.failure = some e → ¬ r.session.CutsShort e) :
    r.session.Follows queue := by
  have heq := hrun
  unfold Session.run at heq
  rw [h.output, h.fault] at heq
  cases hp : s.program with
  | none =>
    rw [hp] at heq
    cases heq
    exact Or.inl h
  | some program =>
    simp only [hp] at heq
    split at heq
    · cases heq
      exact Or.inl h
    · rename_i code hcode
      obtain ⟨f, hfinish, rfl⟩ := Option.map_eq_some_iff.mp heq
      have hstage : s.stage = .loaded := stage_eq_loaded.mpr ⟨h.fault, h.output, by simp [hp]⟩
      rw [h.run_eq hp] at hrun
      rcases s.settle_cases hstage (f := f) with ⟨-, hsettle⟩ | ⟨_, -, hsettle⟩ | ⟨_, hf, hsettle⟩
      · rw [hsettle] at hrun ⊢
        refine Or.inr ⟨isOver_iff.mpr (Or.inr rfl), program, budget, hp, ?_⟩
        simpa [after, h.fault] using hrun
      · rw [hsettle] at hrun ⊢
        exact Or.inr ⟨isOver_iff.mpr (Or.inl rfl), program, budget, hp, hrun⟩
      · have hstart : (Run.start s.tape s.feed).state.Within code.size tapeSize := by
          rw [h.tape]
          exact ⟨start_fits s.feed, Nat.zero_le _⟩
        obtain ⟨rfl, -⟩ := long_of_refused hcode hstart hfinish hf
        rw [hsettle] at hwhole
        exact absurd ⟨_, program, code, rfl, by simp, hp, hcode⟩ (hwhole _ rfl)

theorem Rests.loadProgram (h : s.Rests queue) (program : List Item) :
    (Reply.of s (s.loadProgram program)).session.Rests queue := by
  unfold Session.loadProgram
  split
  · exact h
  · exact ⟨h.tape, h.pointer, h.output, h.fault, h.feed⟩

/-- A queue is taken by a session that has none, and becomes its feed. -/
theorem feed_of_loadInput {values : List ℤ} (h : s.loadInput values = .ok t) :
    s.feed.unread = none ∧ s.isOver = false ∧
      ∃ feed, t = { s with feed } ∧ feed? (some values) = .ok feed := by
  obtain ⟨hunread, hopen, -⟩ := of_loadInput h
  unfold Session.loadInput at h
  split at h
  · cases h
  · split at h
    · cases h
    · rename_i bytes hbytes
      cases h
      exact ⟨hunread, hopen, _, rfl, by rw [feed?, hbytes]; rfl⟩

/-- A queue that is taken is the first one. -/
theorem Rests.loadInput (h : s.Rests queue) {values : List ℤ} (hload : s.loadInput values = .ok t) :
    queue = none ∧ t.Rests (some values) := by
  obtain ⟨hunread, -, feed, rfl, hfeed⟩ := feed_of_loadInput hload
  refine ⟨?_, h.tape, h.pointer, h.output, h.fault, hfeed⟩
  rw [← (queue_of_feed h.feed).2, hunread]
  rfl

/-- The queue of a call, if it is taken. -/
def offered (s : Session) (c : Call) : Option (List ℤ) := if s.accepts c then c.queue? else none

theorem Rests.afterQueue (h : s.Rests queue) (c : Call) :
    (s.afterQueue c).Rests (queue.or (s.offered c)) := by
  rcases s.afterQueue_cases c with ⟨hyes, values, hc, hload⟩ | ⟨hno, hsame⟩
  · obtain ⟨rfl, ht⟩ := h.loadInput hload
    simpa [offered, hyes, hc] using ht
  · simpa [offered, hno, hsame] using h

theorem load_session (s : Session) (program : List Item) (queue : Option (List ℤ)) :
    (s.load program queue).session = s.afterQueue (.load program queue) ∨
      (s.load program queue).session = (Reply.of (s.afterQueue (.load program queue))
        ((s.afterQueue (.load program queue)).loadProgram program)).session := by
  unfold Session.load Session.afterQueue
  simp only [Call.queue?]
  cases s.loadQueue queue with
  | ok t => exact Or.inr rfl
  | error e => exact Or.inl rfl

theorem Rests.load (h : s.Rests queue) (program : List Item) (values : Option (List ℤ)) :
    (s.load program values).session.Rests (queue.or (s.offered (.load program values))) := by
  have hafter := h.afterQueue (.load program values)
  rcases s.load_session program values with heq | heq
  · exact heq ▸ hafter
  · exact heq ▸ hafter.loadProgram program

/-- **A call leaves a session at rest with the queue it took, or runs it as a new one.** -/
theorem Rests.perform (h : s.Rests queue) (hcall : s.perform budget c = some (t, answer))
    (hwhole : ∀ e, answer = .error e → ¬ t.CutsShort e) :
    t.Follows (queue.or (s.offered c)) := by
  have hafter := h.afterQueue c
  cases c with
  | loadProgram program =>
    obtain rfl := session_of_answer (Option.some.inj hcall)
    exact Or.inl (hafter.loadProgram program)
  | loadInput values =>
    obtain rfl := session_of_answer (Option.some.inj hcall)
    exact Or.inl (afterQueue_of_loadInput s values ▸ hafter)
  | load program values =>
    obtain rfl := session_of_answer (Option.some.inj hcall)
    exact Or.inl (h.load program values)
  | execute program values =>
    obtain ⟨r, hr, hanswer⟩ := Option.map_eq_some_iff.mp hcall
    obtain rfl := session_of_answer hanswer
    have hload := h.load program values
    unfold Session.execute at hr
    simp only at hr
    split at hr
    · cases hr
      exact Or.inl hload
    · refine hload.run hr fun e he => hwhole e ?_
      exact congrArg Prod.snd (hanswer.symm.trans (answer_of_failure he))
  | run =>
    obtain ⟨r, hr, hanswer⟩ := Option.map_eq_some_iff.mp hcall
    obtain rfl := session_of_answer hanswer
    refine hafter.run hr fun e he => hwhole e ?_
    exact congrArg Prod.snd (hanswer.symm.trans (answer_of_failure he))
  | output | text | pointer | memory =>
    obtain ⟨rfl, -⟩ := Prod.mk.inj (Option.some.inj hcall)
    exact Or.inl hafter

theorem Follows.perform (hs : s.Sound) (h : s.Follows queue)
    (hcall : s.perform budget c = some (t, answer))
    (hwhole : ∀ e, answer = .error e → ¬ t.CutsShort e) : t.Follows (queue.or (s.offered c)) := by
  rcases h with hrests | hran
  · exact hrests.perform hcall hwhole
  · rw [hs.perform_of_isOver hran.ended] at hcall
    obtain ⟨rfl, -⟩ := Prod.mk.inj (Option.some.inj hcall)
    have hno : s.offered c = none := by simp [offered, accepts_of_closed (Or.inr hran.ended) c]
    rw [hno, Option.or_none]
    exact Or.inr hran

end Calls

/-! ## All calls -/

section Histories

variable {s t : Session} {calls : List Made}

theorem taken_cons (s : Session) (c : Call) (calls : List Made) :
    taken (⟨s, c⟩ :: calls) = (s.offered c).or (taken calls) := by
  rcases s.afterQueue_cases c with ⟨hyes, queue, hc, -⟩ | ⟨hno, -⟩
  · simp [taken, offered, Made.accepted, hyes, hc]
  · simp [taken, offered, Made.accepted, hno]

/-- A history in which no run was cut short leaves a session with the first queue that was taken, at
rest or run. -/
theorem Trace.follows (h : Trace s calls t) (hs : s.Sound) (hwhole : ∀ m ∈ calls, ¬ m.IsCut)
    {queue : Option (List ℤ)} (hq : s.Follows queue) : t.Follows (queue.or (taken calls)) := by
  induction h generalizing queue with
  | nil => simpa [taken] using hq
  | @cons s t u budget call answer calls hcall hrest ih =>
    have hsound : t.Sound := (Trace.cons hcall .nil).moves.sound hs
    obtain ⟨hfirst, hlater⟩ := List.forall_mem_cons.mp hwhole
    rw [taken_cons, ← Option.or_assoc]
    refine ih hsound hlater (hq.perform hs hcall ?_)
    rintro e rfl hcut
    exact hfirst ⟨budget, t, e, hcall, hcut⟩

theorem Trace.follows_new (h : Trace new calls s) (hwhole : ∀ m ∈ calls, ¬ m.IsCut) :
    s.Follows (taken calls) := by
  simpa using h.follows new_sound hwhole (Or.inl new_rests)

theorem Trace.keeps_program (h : Trace s calls t) {program : List Item}
    (hp : s.program = some program) : t.program = some program :=
  Moves.keeps (fun _ _ hmove h => hmove.keeps_program h) h.moves hp

/-- A program one of whose runs was cut short has a position that is too long. -/
theorem Trace.long_of_cut (h : Trace s calls t) (hs : s.Sound) {m : Made} (hm : m ∈ calls)
    (hcut : m.IsCut) : ∃ program, t.program = some program ∧ HasLongPosition program := by
  induction h with
  | nil => cases hm
  | @cons s t u budget call answer calls hcall hrest ih =>
    rcases List.mem_cons.mp hm with rfl | hlater
    · obtain ⟨budget', t', e, hcall', hcut⟩ := hcut
      cases perform_unique hcall hcall'
      obtain ⟨program, hprogram, hlong⟩ := Session.long_of_cut hs hcall hcut
      exact ⟨program, hrest.keeps_program hprogram, hlong⟩
    · exact ih ((Trace.cons hcall .nil).moves.sound hs) hlater

theorem Follows.rests {queue : Option (List ℤ)} (h : s.Follows queue) (hover : s.isOver = false) :
    s.Rests queue := by
  rcases h with hrests | hran
  · exact hrests
  · cases hover.symm.trans hran.ended

theorem Follows.ran {queue : Option (List ℤ)} (h : s.Follows queue) (hover : s.isOver) :
    s.Ran queue := by
  rcases h with hrests | hran
  · cases hrests.not_over.symm.trans hover
  · exact hran

end Histories

/-- **A run starts from a new machine, unless an earlier one was cut short.** As long as none was, a
session that has not run has a blank tape, its pointer at the start and the one queue that was taken,
unread. So its run does what a new session does that executes the same program on the same queue, and
a session that has run is what such a session becomes. A run that is refused changes nothing, if the
program cannot be encoded, or it is cut short and leaves the session loaded with what it did. That
takes a position in the program that is too long. -/
theorem run_starts_fresh (calls : List Made) (s : Session) (h : Trace new calls s) :
    ((∀ m ∈ calls, ¬ m.IsCut) →
      (s.stage = .uninitialized ∨ s.stage = .loaded →
        s.tape = .blank ∧ s.pointer = 0 ∧ s.feed.exhausted = false ∧
          s.feed.unread.map queueOf = taken calls) ∧
      (s.stage = .loaded → ∃ program, s.program = some program ∧
        ∀ budget, s.run budget = new.execute budget program (taken calls)) ∧
      (s.stage = .completed ∨ s.stage = .failed → ∃ program budget, s.program = some program ∧
        new.execute budget program (taken calls) = some ⟨s, s.fault.map .fault⟩)) ∧
    (∀ budget t refusal, s.perform budget .run = some (t, .error (.refusal refusal)) →
      (t = s ∧ ∃ program, s.program = some program ∧ encode program = .error refusal) ∨
        refusal = .longInteger ∧ ∃ program code f, s.program = some program ∧
          HasLongPosition program ∧ encode program = .ok code ∧
          Run.finish program.toArray code budget (Run.start s.tape s.feed) = some f ∧
          t = s.after f.run) ∧
    (∀ m ∈ calls, m.IsCut → ∃ program, s.program = some program ∧ HasLongPosition program) := by
  have hsound : s.Sound := h.moves.sound new_sound
  refine ⟨?_, ?_, fun m hm hcut => h.long_of_cut new_sound hm hcut⟩
  · intro hwhole
    have hfollows := h.follows_new hwhole
    refine ⟨?_, ?_, ?_⟩
    · intro hstage
      have hrests := hfollows.rests (by rcases hstage with hs | hs <;> simp [isOver, hs])
      obtain ⟨hexhausted, hqueue⟩ := queue_of_feed hrests.feed
      exact ⟨hrests.tape, hrests.pointer, hexhausted, hqueue⟩
    · intro hstage
      have hrests := hfollows.rests (by simp [isOver, hstage])
      obtain ⟨program, hprogram⟩ := Option.isSome_iff_exists.mp (stage_eq_loaded.mp hstage).2.2
      exact ⟨program, hprogram, hrests.run_eq hprogram⟩
    · intro hstage
      exact (hfollows.ran (by simpa [isOver] using hstage)).fresh
  · intro budget t refusal hrun
    obtain ⟨r, hr, hanswer⟩ := Option.map_eq_some_iff.mp hrun
    have hfailure := failure_of_answer hanswer
    obtain rfl := session_of_answer hanswer
    exact run_refused hsound (hr.trans (by rw [← hfailure]))

/-- A session that took the queue `[7]` and was then given a program that cannot be encoded. -/
def unencodable : Session :=
  { new with program := some [.instr ⟨.add (2 ^ 63), 1⟩], feed := ⟨some [7], false⟩ }

/-- Calls that are rejected stand around those that are not. -/
def unencodableCalls : List Made :=
  [⟨new, .loadInput [300]⟩, ⟨new, .run⟩, ⟨new, .loadInput [7]⟩,
    ⟨{ new with feed := ⟨some [7], false⟩ }, .load [] (some [8])⟩,
    ⟨{ new with feed := ⟨some [7], false⟩ }, .execute [.instr ⟨.add (2 ^ 63), 1⟩] none⟩,
    ⟨unencodable, .run⟩]

theorem unencodable_trace : Trace new unencodableCalls unencodable := by
  have hrange : new.perform 1 (.loadInput [300]) = some (new, .error (.refusal .queueRange)) := rfl
  have hnone : new.perform 1 .run = some (new, .error (.fault (.misuse .noProgram))) := rfl
  have htaken : new.perform 1 (.loadInput [7]) =
      some ({ new with feed := ⟨some [7], false⟩ }, .ok .done) := rfl
  have hlate : perform 1 { new with feed := ⟨some [7], false⟩ } (.load [] (some [8])) =
      some ({ new with feed := ⟨some [7], false⟩ }, misused .secondInput) := rfl
  have hexecute : perform 1 { new with feed := ⟨some [7], false⟩ }
      (.execute [.instr ⟨.add (2 ^ 63), 1⟩] none) =
      some (unencodable, .error (.refusal .wideField)) := rfl
  have hagain : unencodable.perform 1 .run = some (unencodable, .error (.refusal .wideField)) := rfl
  exact .cons hrange (.cons hnone (.cons htaken (.cons hlate (.cons hexecute (.cons hagain .nil)))))

theorem run_starts_fresh_unencodable :
    Trace new unencodableCalls unencodable ∧ taken unencodableCalls = some [7] ∧
      (∀ m ∈ unencodableCalls, ¬ m.IsCut) ∧ unencodable.tape = .blank ∧
      unencodable.feed.unread.map queueOf = some [7] ∧
      ∀ budget, unencodable.run budget =
        new.execute budget [.instr ⟨.add (2 ^ 63), 1⟩] (some [7]) := by
  obtain ⟨hfresh, -, hlong⟩ := run_starts_fresh _ _ unencodable_trace
  have hwhole : ∀ m ∈ unencodableCalls, ¬ m.IsCut := by
    intro m hm hcut
    obtain ⟨program, hprogram, i, hi, hno⟩ := hlong m hm hcut
    cases hprogram
    cases List.mem_singleton.mp hi
    cases hno
  obtain ⟨hrest, hrun, -⟩ := hfresh hwhole
  obtain ⟨htape, -, -, hqueue⟩ := hrest (Or.inr rfl)
  obtain ⟨program, hprogram, heq⟩ := hrun rfl
  cases hprogram
  exact ⟨unencodable_trace, rfl, hwhole, htape, hqueue, heq⟩

/-- A program that changes a cell, moves on and asks for input, at a position that is too long. -/
def unreportable : List Item :=
  [.instr ⟨.add 1, 1⟩, .instr ⟨.move 1, 2⟩, .instr ⟨.input, 10 ^ Text.digitLimit⟩]

/-- What a run of it leaves of a session, with the tape. -/
def spoiled (tape : Tape) : Session :=
  { new with program := some unreportable, tape, pointer := 1 }

section Spoiled

variable {tape : Tape} {v : UInt8}

theorem unreportable_finish (hsize : tape.size = tapeSize) (hcell : tape.cell 0 = v) :
    Run.finish unreportable.toArray #[.add 1, .move 1, .input] 3 (.start tape .absent) =
      some ⟨⟨⟨2, 1, tape.setIfInBounds 0 (wordCell (cellWord v + 1))⟩, .absent, #[]⟩,
        some (.refusal .longInteger)⟩ := by
  have haddress : address tapeSize 1 = 1 := rfl
  have hraised : (Fault.missingInput (10 ^ Text.digitLimit)).raised = .refusal .longInteger :=
    Fault.raised_of_long (by rw [Fault.isWritable_missingInput, Text.isWritable_pow])
  simp [Run.finish, Run.turn, Run.read, Run.start, step, Word.apply, Feed.next?, Feed.absent,
    positionAt, unreportable, hsize, hcell, haddress, hraised]

/-- Every run of it adds one to the first cell, and leaves the session loaded. -/
theorem unreportable_run (hsize : tape.size = tapeSize) (hcell : tape.cell 0 = v) (pointer : ℕ) :
    run 3 { new with program := some unreportable, tape, pointer } =
      some ⟨spoiled (tape.setIfInBounds 0 (wordCell (cellWord v + 1))),
        some (.refusal .longInteger)⟩ := by
  have hcode : encode unreportable = .ok #[.add 1, .move 1, .input] := rfl
  simp only [run, new, hcode, unreportable_finish hsize hcell]
  rfl

/-- So two runs add two. -/
theorem unreportable_twice (hsize : tape.size = tapeSize) (hzero : tape.cell 0 = 0) :
    ∃ once again : Tape, once.cell 0 = 1 ∧ again.cell 0 = 2 ∧
      run 3 { new with program := some unreportable, tape } =
        some ⟨spoiled once, some (.refusal .longInteger)⟩ ∧
      (spoiled once).run 3 = some ⟨spoiled again, some (.refusal .longInteger)⟩ := by
  have hset : ∀ (t : Tape) v, t.size = tapeSize → Tape.cell (t.setIfInBounds 0 v) 0 = v := by
    intro t v ht
    rw [State.cell_set t (by rw [ht]; decide), if_pos rfl]
  have hsize' : (tape.setIfInBounds 0 1).size = tapeSize := by rw [Array.size_setIfInBounds, hsize]
  have hone := hset tape 1 hsize
  exact ⟨tape.setIfInBounds 0 1, _, hone, hset _ 2 hsize', unreportable_run hsize hzero 0,
    unreportable_run hsize' hone 1⟩

end Spoiled

/-- A session that is loaded need not be at rest: here a run was cut short that had changed a cell and
moved the pointer, and the next run changes that cell again. -/
theorem run_starts_spoiled : ∃ once again : Tape,
    Trace new [⟨new, .execute unreportable none⟩] (spoiled once) ∧
      (spoiled once).stage = .loaded ∧ (spoiled once).tape ≠ .blank ∧ (spoiled once).pointer ≠ 0 ∧
      (spoiled once).run 3 = some ⟨spoiled again, some (.refusal .longInteger)⟩ ∧
      new.execute 3 unreportable none = some ⟨spoiled once, some (.refusal .longInteger)⟩ ∧
      spoiled again ≠ spoiled once := by
  have hblank : Tape.blank.size = tapeSize := Array.size_replicate
  obtain ⟨once, again, hone, htwo, hfirst, hsecond⟩ :=
    unreportable_twice hblank (State.cell_blank 0)
  have hexecute : new.execute 3 unreportable none =
      some ⟨spoiled once, some (.refusal .longInteger)⟩ := hfirst
  refine ⟨once, again, ?_, rfl, ?_, Nat.one_ne_zero, hsecond, hexecute, ?_⟩
  · have hperform : new.perform 3 (.execute unreportable none) =
        some (spoiled once, .error (.refusal .longInteger)) := by
      rw [perform, hexecute]
      rfl
    exact .cons hperform .nil
  · intro hsame
    have hzero := (congrArg (Tape.cell · 0) hsame).trans (State.cell_blank 0)
    cases hone.symm.trans hzero
  · intro hsame
    cases htwo.symm.trans ((congrArg (·.tape.cell 0) hsame).trans hone)

end Session

end TapeMachine
