import Mathlib.Data.List.GetD
import TapeMachine.Proofs.Origins
import TapeMachine.Proofs.Stops
import TapeMachine.Proofs.Structured

/-! # Feeds

To a run its input is a stream without an end: the bytes in reading order, and
zeros behind them. Of the stream it sees the byte that comes next, and only at
an input instruction, so a run depends on as many bytes as it executes input
instructions (`finish_withFeed`). Zeros at the end of an input are therefore
nothing, and what a run has not read when it ends might have been anything
(`reads_stream`). -/
namespace TapeMachine

/-! ## The bytes of a feed -/

/-- The byte that is read after a number of others. There is none if no input was supplied. -/
def Feed.byteAt? (f : Feed) (i : ℕ) : Option UInt8 := f.unread.map (·.getD i 0)

section Bytes

variable {f : Feed} {b : UInt8}

/-- Behind the end there are zeros already. -/
theorem getD_zeros (d : List UInt8) (n i : ℕ) : (d ++ List.replicate n 0).getD i 0 = d.getD i 0 := by
  by_cases hi : i < d.length
  · exact List.getD_append _ _ _ _ hi
  · rw [List.getD_append_right _ _ _ _ (by omega), List.getD_eq_default d _ (by omega),
      List.getD_eq_getElem?_getD, List.getElem?_getD_replicate_default_eq]

theorem Feed.next_of_none (h : f.byteAt? 0 = none) : f.next? = none := by
  have hunread : f.unread = none := by simpa [byteAt?] using h
  rw [next?, hunread]

/-- Reading a byte moves the stream on by one place. -/
theorem Feed.next_of_some (h : f.byteAt? 0 = some b) :
    ∃ rest, f.next? = some (b, rest) ∧ ∀ i, rest.byteAt? i = f.byteAt? (i + 1) := by
  obtain ⟨unread, exhausted⟩ := f
  cases unread with
  | none => cases h
  | some bytes =>
    cases bytes with
    | nil =>
      cases h
      exact ⟨_, rfl, fun i => rfl⟩
    | cons b' bytes =>
      cases h
      exact ⟨_, rfl, fun i => rfl⟩

end Bytes

/-! ## Runs -/

/-- The turn with another feed. -/
def Turn.withFeed (feed : Feed) : Turn → Turn
  | .next r => .next { r with feed }
  | .finished f => .finished { f with run := { f.run with feed } }

/-- All that is left of a run but its feed. -/
def Finish.withoutFeed (f : Finish) : Finish := { f with run := { f.run with feed := .absent } }

namespace Run

/-- How many bytes the instruction at hand asks for. -/
def asks (code : Array Word) (r : Run) : ℕ := if code[r.state.pc]? = some .input then 1 else 0

/-- How many input instructions a run executes, in a number of turns. -/
def inputs (program : Array Item) (code : Array Word) : ℕ → Run → ℕ
  | 0, _ => 0
  | budget + 1, r => r.asks code +
    match turn program code r with
    | .next t => inputs program code budget t
    | .finished _ => 0

/-- The run when a byte was read and a feed is left. -/
def taking (r : Run) (b : UInt8) (feed : Feed) : Run :=
  ⟨⟨r.state.pc + 1, r.state.pointer, r.state.tape.setIfInBounds r.state.pointer b⟩, feed, r.output⟩

section Turns

variable (program : Array Item) {code : Array Word} {s t : State} {r : Run} {feed : Feed}
  {budget : ℕ}

/-- Whatever is no input instruction leaves the feed alone. -/
theorem turn_withFeed (h : code[r.state.pc]? ≠ some .input) (feed : Feed) :
    turn program code { r with feed } = (turn program code r).withFeed feed := by
  obtain ⟨s, old, output⟩ := r
  unfold turn
  cases hstep : step code s with
  | next t => simp only [hstep, Turn.withFeed]
  | stopped why t =>
    cases why with
    | input =>
      obtain ⟨w, hw, rfl⟩ := stopsFor_of_step (by simp) hstep
      exact absurd hw h
    | output => simp only [hstep]; rfl
    | ended | unlinked | fullTape | missedZero | endless => simp only [hstep]; rfl

theorem turn_input (h : code[r.state.pc]? = some .input) : turn program code r =
    match r.feed.next? with
    | none => .finished ⟨r, some (Fault.missingInput (positionAt program r.state.pc)).raised⟩
    | some (b, rest) => .next (r.taking b rest) := by
  have hstep : step code r.state = .stopped .input r.state := by
    rw [step, h]
    rfl
  unfold turn
  simp only [hstep]
  rfl

/-- One turn with another feed that has the same byte where one is asked for: it leads to the same,
and both feeds are as far behind where they were. -/
theorem turn_sameBytes (h : ∀ i < r.asks code, feed.byteAt? i = r.feed.byteAt? i) :
    (∃ f feed', turn program code r = .finished f ∧
      turn program code { r with feed } = .finished { f with run := { f.run with feed := feed' } }) ∨
    ∃ t feed', turn program code r = .next t ∧
      turn program code { r with feed } = .next { t with feed := feed' } ∧
      ∀ i, t.feed.byteAt? i = r.feed.byteAt? (i + r.asks code) ∧
        feed'.byteAt? i = feed.byteAt? (i + r.asks code) := by
  by_cases hw : code[r.state.pc]? = some .input
  · have hasks : r.asks code = 1 := if_pos hw
    have hturn := turn_input program hw
    have hturn' := turn_input program (r := { r with feed }) hw
    have hsame : feed.byteAt? 0 = r.feed.byteAt? 0 := h 0 (by omega)
    rw [hasks]
    cases hbyte : r.feed.byteAt? 0 with
    | none =>
      simp only [Feed.next_of_none hbyte] at hturn
      simp only [Feed.next_of_none (hsame.trans hbyte)] at hturn'
      exact Or.inl ⟨_, feed, hturn, hturn'⟩
    | some b =>
      obtain ⟨rest, hnext, hrest⟩ := Feed.next_of_some hbyte
      obtain ⟨rest', hnext', hrest'⟩ := Feed.next_of_some (hsame.trans hbyte)
      simp only [hnext] at hturn
      simp only [hnext'] at hturn'
      exact Or.inr ⟨r.taking b rest, rest', hturn, hturn', fun i => ⟨hrest i, hrest' i⟩⟩
  · have hasks : r.asks code = 0 := if_neg hw
    have hturn := turn_withFeed program hw feed
    have hkept : turn program code r = _ := turn_withFeed program hw r.feed
    rw [hasks]
    cases hnext : turn program code r with
    | finished f =>
      rw [hnext] at hturn
      exact Or.inl ⟨f, feed, rfl, hturn⟩
    | next t =>
      rw [hnext] at hturn hkept
      have hfeed : t = { t with feed := r.feed } := Turn.next.inj hkept
      exact Or.inr ⟨t, feed, rfl, hturn, fun i => ⟨by rw [hfeed]; rfl, rfl⟩⟩

/-- **A run depends on the bytes it reads.** Another feed that has the same byte at each input
instruction the run executes leads to the same end. -/
theorem finish_withFeed
    (h : ∀ i < inputs program code budget r, feed.byteAt? i = r.feed.byteAt? i) :
    (finish program code budget { r with feed }).map Finish.withoutFeed =
        (finish program code budget r).map Finish.withoutFeed ∧
      inputs program code budget { r with feed } = inputs program code budget r := by
  induction budget generalizing r feed with
  | zero => exact ⟨rfl, rfl⟩
  | succ budget ih =>
    have hasks : ({ r with feed } : Run).asks code = r.asks code := rfl
    have hfirst : ∀ i < r.asks code, feed.byteAt? i = r.feed.byteAt? i := fun i hi =>
      h i (Nat.lt_add_right _ hi)
    rcases turn_sameBytes program hfirst with
      ⟨f, feed', hturn, hturn'⟩ | ⟨t, feed', hturn, hturn', hlater⟩
    · simp only [finish, inputs, hturn, hturn', hasks]
      exact ⟨rfl, trivial⟩
    · simp only [inputs, hturn] at h
      have hagree : ∀ i < inputs program code budget t, feed'.byteAt? i = t.feed.byteAt? i := by
        intro i hi
        obtain ⟨hold, hnew⟩ := hlater i
        rw [hold, hnew]
        exact h _ (by omega)
      obtain ⟨hfinish, hcount⟩ := ih hagree
      simp only [finish, inputs, hturn, hturn', hasks, hcount]
      exact ⟨hfinish, trivial⟩

end Turns

end Run

/-! ## Sessions and sources -/

namespace Session

/-- All that is left of a session but its feed. -/
def Reply.withoutFeed (r : Reply) : Reply := { r with session := { r.session with feed := .absent } }

/-- How many input instructions the run of a session executes. -/
def inputs? (budget : ℕ) (s : Session) : Option ℕ := do
  let program ← s.program
  let code ← (encode program).toOption
  return Run.inputs program.toArray code budget (Run.start s.tape s.feed)

/-- A session for a program, with input in reading order. -/
def supplied (program : List Item) (d : List UInt8) : Session :=
  (new.load program (some (queueOf d))).session

section Supplied

variable {program : List Item} {code : Array Word} {feed : Feed} {d d' : List UInt8}
  {budget k : ℕ}

theorem feed_bytes (d : List UInt8) : feed? (some (queueOf d)) = .ok ⟨some d, false⟩ :=
  feed_queueOf (some d)

theorem supplied_inputs (hcode : encode program = .ok code) (budget : ℕ) (d : List UInt8) :
    (supplied program d).inputs? budget =
      some (Run.inputs program.toArray code budget (.start .blank ⟨some d, false⟩)) := by
  rw [supplied, load_of_feed (feed_bytes d)]
  simp [inputs?, ready, new, hcode, Except.toOption]

theorem settle_withoutFeed (f : Finish) :
    ((ready program feed).settle f).withoutFeed = (ready program .absent).settle f.withoutFeed := by
  obtain ⟨run, failure⟩ := f
  cases failure <;> rfl

theorem runProgram_bytes (hcode : encode program = .ok code) (budget : ℕ) (d : List UInt8) :
    runProgram budget program (some d) =
      (Run.finish program.toArray code budget (.start .blank ⟨some d, false⟩)).map
        (ready program ⟨some d, false⟩).settle := by
  rw [runProgram, Option.map_some, execute_of_feed budget (feed_bytes d), run_ready budget hcode]

theorem runProgram_withoutFeed (hcode : encode program = .ok code) (budget : ℕ) (d : List UInt8) :
    (runProgram budget program (some d)).map Reply.withoutFeed =
      ((Run.finish program.toArray code budget (.start .blank ⟨some d, false⟩)).map
        Finish.withoutFeed).map (ready program .absent).settle := by
  rw [runProgram_bytes hcode, Option.map_map, Option.map_map]
  exact congrArg (Option.map · _) (funext settle_withoutFeed)

/-- A session depends on the bytes that its run reads. -/
theorem runProgram_sameBytes (hcode : encode program = .ok code)
    (hk : (supplied program d).inputs? budget = some k) (h : ∀ i < k, d'.getD i 0 = d.getD i 0) :
    (runProgram budget program (some d')).map Reply.withoutFeed =
        (runProgram budget program (some d)).map Reply.withoutFeed ∧
      (supplied program d').inputs? budget = (supplied program d).inputs? budget := by
  rw [supplied_inputs hcode] at hk ⊢
  rw [supplied_inputs hcode, runProgram_withoutFeed hcode, runProgram_withoutFeed hcode]
  have hagree : ∀ i < Run.inputs program.toArray code budget (.start .blank ⟨some d, false⟩),
      Feed.byteAt? ⟨some d', false⟩ i = (Run.start .blank ⟨some d, false⟩).feed.byteAt? i :=
    fun i hi => congrArg some (h i (Option.some.inj hk ▸ hi))
  obtain ⟨hfinish, hcount⟩ := Run.finish_withFeed program.toArray hagree
  exact ⟨congrArg (Option.map _) hfinish, congrArg some hcount⟩

end Supplied

end Session

/-- Whether the run of a source comes to the same on two inputs: the session ends or not within the
budget, and holds the same but for the bytes it has left. -/
structure RunsAlike (source : String) (request : Value) (program : List Item) (budget : ℕ)
    (d d' : List UInt8) : Prop where
  session : (runProgram budget program (some d')).map Session.Reply.withoutFeed =
    (runProgram budget program (some d)).map Session.Reply.withoutFeed
  inputs : (Session.supplied program d').inputs? budget = (Session.supplied program d).inputs? budget
  answer : ∀ input input', Input.bytes input = .ok (some d) → Input.bytes input' = .ok (some d') →
    runSource budget source input' request = runSource budget source input request

section Source

variable {source : String} {request : Value} {program : List Item} {d d' : List UInt8} {budget k : ℕ}

theorem ofReply_withoutFeed (x : Option Session.Reply) : x.map (Result.ofReply program) =
    (x.map Session.Reply.withoutFeed).map (Result.ofReply program) := by
  rw [Option.map_map]
  rfl

theorem runsAlike_of_bytes (hcompile : compileAt source request = .ok program)
    (hk : (Session.supplied program d).inputs? budget = some k)
    (h : ∀ i < k, d'.getD i 0 = d.getD i 0) : RunsAlike source request program budget d d' := by
  obtain ⟨_, -, hsource⟩ := compile_of_compileAt hcompile
  obtain ⟨code, hcode⟩ := encode_of_compile hsource
  obtain ⟨hsession, hinputs⟩ := Session.runProgram_sameBytes hcode hk h
  refine ⟨hsession, hinputs, ?_⟩
  intro input input' hbytes hbytes'
  rw [runSource_of_compile hcompile hbytes, runSource_of_compile hcompile hbytes',
    ofReply_withoutFeed, hsession, ← ofReply_withoutFeed]

end Source

/-- **The end of the input is zeros, and what is not read is nothing.** Zeros behind an input make
no difference to the run of a source that compiles, at any level. A run that executes no more input
instructions than there are bytes does not depend on the bytes behind them: any input that begins
with as many of them will do. -/
theorem reads_stream (source : String) (request : Value) (program : List Item)
    (hcompile : compileAt source request = .ok program) (d : List UInt8) :
    (∀ n budget, RunsAlike source request program budget d (d ++ List.replicate n 0)) ∧
      ∀ budget, ∃ k, (Session.supplied program d).inputs? budget = some k ∧
        (k ≤ d.length → ∀ d', k ≤ d'.length → d'.take k = d.take k →
          RunsAlike source request program budget d d') := by
  obtain ⟨_, -, hsource⟩ := compile_of_compileAt hcompile
  obtain ⟨code, hcode⟩ := encode_of_compile hsource
  have hinputs := Session.supplied_inputs hcode
  refine ⟨?_, ?_⟩
  · intro n budget
    exact runsAlike_of_bytes hcompile (hinputs budget d) fun i _ => getD_zeros d n i
  · intro budget
    refine ⟨_, hinputs budget d, ?_⟩
    intro hk d' hk' htake
    refine runsAlike_of_bytes hcompile (hinputs budget d) fun i hi => ?_
    rw [List.getD_eq_getElem?_getD, List.getD_eq_getElem?_getD, ← List.getElem?_take_of_lt hi, htake,
      List.getElem?_take_of_lt hi]

/-- The program of `,.`, which puts out the first byte of its input. -/
def firstByte : List Item := [.instr ⟨.input, 1⟩, .instr ⟨.output, 2⟩]

/-- It executes one input instruction and ends. -/
theorem firstByte_run (tape : Tape) (hsize : 0 < tape.size) (bytes : List UInt8) :
    Run.inputs firstByte.toArray #[.input, .output] 3 (.start tape ⟨some (7 :: bytes), false⟩) = 1 ∧
      Run.finish firstByte.toArray #[.input, .output] 3 (.start tape ⟨some (7 :: bytes), false⟩) =
        some ⟨⟨⟨2, 0, tape.setIfInBounds 0 7⟩, ⟨some bytes, false⟩, #[7]⟩, none⟩ := by
  have hcell : Tape.cell (tape.setIfInBounds 0 7) 0 = 7 := by
    rw [State.cell_set tape hsize, if_pos rfl]
  refine ⟨?_, ?_⟩
  · simp [Run.inputs, Run.asks, Run.turn, Run.start, step, Word.apply, Run.read, Run.write,
      Feed.next?, State.advance]
  · simp [Run.finish, Run.turn, Run.start, step, Word.apply, Run.read, Run.write, Feed.next?,
      State.advance, hcell, Run.faultOf]

theorem reads_stream_firstByte :
    compileAt ",." .absent = .ok firstByte ∧
      RunsAlike ",." .absent firstByte 3 [7] [7, 0, 0] ∧
      (Session.supplied firstByte [7]).inputs? 3 = some 1 ∧
      RunsAlike ",." .absent firstByte 3 [7] [7, 9] ∧
      (runProgram 3 firstByte (some [7])).map (·.session.output) = some (some #[7]) := by
  have hcompile : compileAt ",." .absent = .ok firstByte := rfl
  have hcode : encode firstByte = .ok #[.input, .output] := rfl
  obtain ⟨hinputs, hfinish⟩ := firstByte_run .blank (by simp [Tape.blank, tapeSize]) []
  obtain ⟨hzeros, hunread⟩ := reads_stream ",." .absent firstByte hcompile [7]
  obtain ⟨k, hk, hsame⟩ := hunread 3
  have hone : (Session.supplied firstByte [7]).inputs? 3 = some 1 := by
    rw [Session.supplied_inputs hcode, hinputs]
  obtain rfl := Option.some.inj (hk.symm.trans hone)
  refine ⟨hcompile, hzeros 2 3, hone, hsame (by decide) [7, 9] (by decide) rfl, ?_⟩
  rw [Session.runProgram_bytes hcode, hfinish]
  rfl

end TapeMachine
