import Mathlib.Data.Int.Notation
import Mathlib.Data.Nat.Notation
import TapeMachine.Proofs.Stops
import TapeMachine.Proofs.Writing
import TapeMachine.Run

/-! # The turns of a run

What one turn keeps holds where a run ends (`finish_last`), and its last turn
says how it ends (`finished_cases`). A run never takes input away or brings any,
it stays on its tape, and what it fails with is the fault of one instruction. If
that fault cannot be reported, its position is why (`long_of_refused`): all the
other numbers of a run are small. -/
namespace TapeMachine

section Feeds

variable {program : Array Item} {code : Array Word} {r t : Run}

theorem next?_isSome {feed rest : Feed} {b : UInt8} (h : feed.next? = some (b, rest)) :
    feed.unread.isSome ∧ rest.unread.isSome := by
  unfold Feed.next? at h
  split at h
  · cases h
  · rename_i hunread
    cases h
    simp [hunread]
  · rename_i hunread
    cases h
    simp [hunread]

/-- A turn leaves the feed as it was, or there was input and still is. -/
theorem turn_feed (h : Run.turn program code r = .next t) :
    t.feed = r.feed ∨ r.feed.unread.isSome ∧ t.feed.unread.isSome := by
  obtain ⟨s, feed, output⟩ := r
  unfold Run.turn at h
  cases hstep : step code s with
  | next u =>
    simp only [hstep] at h
    cases h
    exact Or.inl rfl
  | stopped why u =>
    simp only [hstep] at h
    cases why with
    | output =>
      cases h
      exact Or.inl rfl
    | input =>
      simp only [Run.read] at h
      cases hnext : feed.next? with
      | none =>
        simp only [hnext] at h
        cases h
      | some result =>
        simp only [hnext] at h
        cases h
        exact Or.inr (next?_isSome hnext)
    | ended | unlinked | fullTape | missedZero | endless => cases h

end Feeds

section Turns

variable {n : ℕ} {program : Array Item} {code : Array Word} {r t : Run} {f : Finish}
  {budget budget' : ℕ}

/-- What every turn keeps holds where a run ends. -/
theorem finish_last {P : Run → Prop} (hP : ∀ r t, P r → Run.turn program code r = .next t → P t)
    (h : Run.finish program code budget r = some f) (hr : P r) :
    ∃ t, P t ∧ Run.turn program code t = .finished f := by
  induction budget generalizing r with
  | zero => cases h
  | succ budget ih =>
    rw [Run.finish] at h
    cases hturn : Run.turn program code r with
    | next t =>
      rw [hturn] at h
      exact ih h (hP r t hr hturn)
    | finished f' =>
      rw [hturn] at h
      cases h
      exact ⟨r, hr, hturn⟩

/-- A run that has ended is not changed by a larger budget. -/
theorem finish_mono (h : Run.finish program code budget r = some f) (hle : budget ≤ budget') :
    Run.finish program code budget' r = some f := by
  induction budget generalizing r budget' with
  | zero => cases h
  | succ budget ih =>
    obtain ⟨budget', rfl⟩ : ∃ n, budget' = n + 1 := ⟨budget' - 1, by omega⟩
    rw [Run.finish] at h ⊢
    cases hturn : Run.turn program code r with
    | finished g => rwa [hturn] at h
    | next t =>
      rw [hturn] at h
      exact ih h (by omega)

/-- A run ends for want of input, or with the fault of a stop. -/
theorem finished_cases (h : Run.turn program code r = .finished f) :
    ∃ why fault, step code r.state = .stopped why f.run.state ∧ f.run.feed = r.feed ∧
      f.failure = Option.map Fault.raised fault ∧
      (why = .input ∧ r.feed.next? = none ∧
          fault = some (.missingInput (positionAt program f.run.state.pc)) ∨
        why ≠ .input ∧ fault =
          Run.faultOf why (positionAt program f.run.state.pc) f.run.state.pointer) := by
  obtain ⟨s, feed, output⟩ := r
  unfold Run.turn at h
  cases hstep : step code s with
  | next u =>
    simp only [hstep] at h
    cases h
  | stopped why u =>
    simp only [hstep] at h
    cases why with
    | output => cases h
    | input =>
      simp only [Run.read] at h
      cases hnext : feed.next? with
      | some result =>
        simp only [hnext] at h
        cases h
      | none =>
        simp only [hnext] at h
        cases h
        exact ⟨.input, some _, rfl, rfl, rfl, Or.inl ⟨rfl, rfl, rfl⟩⟩
    | ended | unlinked | fullTape | missedZero | endless =>
      cases h
      exact ⟨_, _, rfl, rfl, rfl, Or.inr ⟨by simp, rfl⟩⟩

/-- What a run fails with comes of a fault. -/
theorem raised_of_finish (h : Run.finish program code budget r = some f) :
    ∃ fault, f.failure = Option.map Fault.raised fault := by
  obtain ⟨t, -, hturn⟩ := finish_last (P := fun _ => True) (fun _ _ _ _ => trivial) h trivial
  obtain ⟨-, fault, -, -, hfailure, -⟩ := finished_cases hturn
  exact ⟨fault, hfailure⟩

theorem finish_feed (h : Run.finish program code budget r = some f) :
    f.run.feed = r.feed ∨ r.feed.unread.isSome ∧ f.run.feed.unread.isSome := by
  have hkeeps : ∀ u t : Run, (u.feed = r.feed ∨ r.feed.unread.isSome ∧ u.feed.unread.isSome) →
      Run.turn program code u = .next t →
      t.feed = r.feed ∨ r.feed.unread.isSome ∧ t.feed.unread.isSome := by
    intro u t hu hturn
    rcases turn_feed hturn with hsame | ⟨hbefore, hafter⟩
    · rwa [hsame]
    · rcases hu with heq | ⟨hsome, -⟩
      · exact Or.inr ⟨heq ▸ hbefore, hafter⟩
      · exact Or.inr ⟨hsome, hafter⟩
  obtain ⟨t, ht, hturn⟩ := finish_last hkeeps h (Or.inl rfl)
  obtain ⟨-, -, -, hfeed, -⟩ := finished_cases hturn
  rwa [hfeed]

/-- A turn that goes on stays on the tape. -/
theorem turn_keeps (hcode : ∀ w ∈ code, w.Lands code.size) (h : r.state.Within code.size n)
    (hturn : Run.turn program code r = .next t) : t.state.Within code.size n := by
  obtain ⟨s, feed, output⟩ := r
  obtain ⟨hkeeps, hstops⟩ := step_keeps hcode h
  unfold Run.turn at hturn
  cases hstep : step code s with
  | next u =>
    simp only [hstep] at hturn hkeeps
    cases hturn
    exact hkeeps
  | stopped why u =>
    simp only [hstep] at hturn hkeeps
    obtain rfl : u = s := hkeeps
    cases why with
    | output =>
      cases hturn
      exact h.advance_within (hstops _ _ hstep (by simp))
    | input =>
      simp only [Run.read] at hturn
      cases hnext : feed.next? with
      | none =>
        simp only [hnext] at hturn
        cases hturn
      | some result =>
        simp only [hnext] at hturn
        cases hturn
        exact h.set_within (hstops _ _ hstep (by simp)) (Array.size_setIfInBounds ..)
    | ended | unlinked | fullTape | missedZero | endless => cases hturn

theorem finish_within (hcode : ∀ w ∈ code, w.Lands code.size) (hr : r.state.Within code.size n)
    (h : Run.finish program code budget r = some f) : f.run.state.Within code.size n := by
  obtain ⟨t, ht, hturn⟩ := finish_last (fun _ _ => turn_keeps hcode) h hr
  obtain ⟨_, _, hstep, -⟩ := finished_cases hturn
  exact eq_of_stopped hstep ▸ ht

end Turns

/-! ## Faults that cannot be reported -/

section Long

variable {program : List Item} {code : Array Word} {r : Run} {f : Finish} {budget : ℕ}
  {refusal : Refusal}

/-- Whether a program has an instruction whose position cannot be written. -/
def HasLongPosition (program : List Item) : Prop :=
  ∃ i, .instr i ∈ program ∧ Text.isWritable i.position = false

theorem isWritable_positionAt (h : ¬ HasLongPosition program) (index : ℕ) :
    Text.isWritable (positionAt program.toArray index) = true := by
  unfold positionAt
  split
  · rename_i i hi
    have hmem : .instr i ∈ program := List.mem_of_getElem? (by simpa using hi)
    by_contra hlong
    exact h ⟨i, hmem, by simpa using hlong⟩
  · rfl

/-- The step of a scan that misses the zero cells can be written. -/
theorem isWritable_of_missedZero {s t : State} {delta : ℤ}
    (h : step code s = .stopped (.missedZero delta) t) : Text.isWritable delta = true := by
  obtain ⟨w, -, hscans, -⟩ := stopsFor_of_step (by simp) h
  cases w with
  | scanLeft | scanRight => cases hscans; exact Text.isWritable_of_word (by decide)
  | add | move | input | output | opening | closing | clear | drain | transfer => cases hscans

/-- **A run whose fault cannot be reported is at an instruction with a position that is too long.** -/
theorem long_of_refused (hcode : encode program = .ok code)
    (hr : r.state.Within code.size tapeSize)
    (h : Run.finish program.toArray code budget r = some f)
    (hf : f.failure = some (.refusal refusal)) :
    refusal = .longInteger ∧ HasLongPosition program := by
  obtain ⟨t, -, hturn⟩ := finish_last (P := fun _ => True) (fun _ _ _ _ => trivial) h trivial
  obtain ⟨why, fault?, hstep, -, hfailure, hcases⟩ := finished_cases hturn
  rw [hf] at hfailure
  obtain ⟨fault, rfl, hraised⟩ := Option.map_eq_some_iff.mp hfailure.symm
  obtain ⟨hlong, rfl⟩ := Fault.raised_eq_refusal.mp hraised
  refine ⟨rfl, ?_⟩
  by_contra hno
  have hposition := isWritable_positionAt hno f.run.state.pc
  have hpointer : f.run.state.pointer < tapeSize :=
    (finish_within (lands_of_encode hcode) hr h).inside
  refine absurd ?_ (Bool.eq_false_iff.mp hlong)
  rcases hcases with ⟨-, -, hfault⟩ | ⟨-, hfault⟩
  · cases hfault
    simpa using hposition
  · cases why with
    | ended | output | input => cases hfault
    | unlinked | fullTape =>
      cases hfault
      simpa using hposition
    | missedZero delta =>
      cases hfault
      simp [Fault.isWritable, Fault.numbers, hposition, isWritable_of_missedZero hstep]
    | endless value =>
      cases hfault
      have hvalue : value.toNat < 256 := value.toNat_lt
      have hwritten : ∀ m : ℕ, m ≤ 2 ^ 64 → Text.isWritable m = true := fun m hm =>
        Text.isWritable_of_word (by simpa using hm)
      simp [Fault.isWritable, Fault.numbers, hposition, hwritten value.toNat (by omega),
        hwritten f.run.state.pointer (by rw [tapeSize] at hpointer; omega)]

end Long

end TapeMachine
