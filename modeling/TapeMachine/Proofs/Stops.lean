import TapeMachine.Proofs.Bounds

/-! # Stops

An instruction that stops the machine has done nothing: its state is the one it
was met in, and of the cells it has looked at it has written none, although a
scan moves before it knows that it fails and a transfer writes twice
(`stepLogged_clean`). Which word it is goes with the reason
(`stopsFor_of_apply`). A run that stops has therefore made a number of whole
instructions, and a run from where it stopped stops there again, for the same
reason (`stop_restarts`). -/
namespace TapeMachine

/-! ## Stopping without a trace -/

namespace Logged

/-- Whether nothing is written. -/
def ReadsOnly {α : Type} (x : Logged α) : Prop := ∀ index value, Access.write index value ∉ x.log

/-- Whether an instruction that is met in a state and stops has left the state and the cells as
they were. -/
def Clean (s : State) (x : Logged Progress) : Prop :=
  ∀ why t, x.value = .stopped why t → t = s ∧ x.ReadsOnly

section

variable {α β : Type} {x : Logged α} {s : State}

theorem readsOnly_pure (a : α) : (pure a : Logged α).ReadsOnly := by
  intro index value h
  cases h

theorem ReadsOnly.bind {f : α → Logged β} (hx : x.ReadsOnly) (hf : (f x.value).ReadsOnly) :
    (x >>= f).ReadsOnly := by
  intro index value h
  rcases List.mem_append.mp h with hfirst | hrest
  · exact hx index value hfirst
  · exact hf index value hrest

theorem clean_stopped (why : Stop) : (pure (.stopped why s) : Logged Progress).Clean s := by
  intro why' t h
  cases h
  exact ⟨rfl, readsOnly_pure _⟩

/-- An instruction that goes on may have written anything. -/
theorem clean_of_next {y : Logged Progress} {t : State} (h : y.value = .next t) : y.Clean s := by
  intro why u hstop
  cases h.symm.trans hstop

/-- Reading before an instruction leaves no trace. -/
theorem ReadsOnly.clean {f : α → Logged Progress} (hx : x.ReadsOnly)
    (hf : (f x.value).Clean s) : (x >>= f).Clean s := by
  intro why t h
  obtain ⟨hstate, hreads⟩ := hf why t h
  exact ⟨hstate, hx.bind hreads⟩

end

end Logged

section Clean

variable {tape : Tape} {s : State} {start index pointer rounds cells : ℕ}

theorem readCell_readsOnly : (readCell tape index).ReadsOnly := by
  intro i value h
  cases List.mem_singleton.mp h

theorem fetchWord_readsOnly (code : Array Word) : (fetchWord code index).ReadsOnly := by
  intro i value h
  unfold fetchWord at h
  split at h
  · cases List.mem_singleton.mp h
  · cases h

theorem scanLogged_readsOnly (delta : ℤ) :
    (scanLogged tape start delta rounds pointer).ReadsOnly := by
  induction rounds generalizing pointer with
  | zero => exact Logged.readsOnly_pure none
  | succ rounds ih =>
    refine readCell_readsOnly.bind ?_
    split
    · exact Logged.readsOnly_pure _
    · split
      · exact Logged.readsOnly_pure _
      · exact ih

theorem seekZero_readsOnly : (seekZero tape cells index).ReadsOnly := by
  induction cells generalizing index with
  | zero => exact Logged.readsOnly_pure false
  | succ cells ih =>
    refine readCell_readsOnly.bind ?_
    split
    · exact Logged.readsOnly_pure _
    · exact ih

theorem jumpLogged_clean (target : Option ℕ) (onZero : Bool) :
    (s.jumpLogged target onZero).Clean s := by
  cases target with
  | none => exact Logged.clean_stopped .unlinked
  | some t => exact Logged.clean_of_next rfl

theorem scanByLogged_clean (delta : ℤ) : (s.scanByLogged delta).Clean s := by
  refine readCell_readsOnly.clean ?_
  split
  · exact Logged.clean_of_next rfl
  · refine (scanLogged_readsOnly delta).clean ?_
    split
    · exact Logged.clean_of_next rfl
    · exact Logged.clean_of_next rfl
    · exact seekZero_readsOnly.clean (Logged.clean_stopped _)

theorem drainLogged_clean (delta : Int64) : (s.drainLogged delta).Clean s := by
  refine readCell_readsOnly.clean ?_
  split
  · exact Logged.clean_of_next rfl
  · split
    · exact Logged.clean_stopped _
    · exact Logged.clean_of_next rfl

theorem transferLogged_clean (offset sourceDelta destDelta : Int64) :
    (s.transferLogged offset sourceDelta destDelta).Clean s := by
  refine readCell_readsOnly.clean ?_
  split
  · exact Logged.clean_of_next rfl
  · split
    · exact Logged.clean_stopped _
    · exact Logged.clean_of_next rfl

/-- A word that stops the machine has done nothing. -/
theorem applyLogged_clean (w : Word) : (w.applyLogged s).Clean s := by
  cases w with
  | add | move | clear => exact Logged.clean_of_next rfl
  | input | output => exact Logged.clean_stopped _
  | opening target | closing target => exact jumpLogged_clean target _
  | scanLeft | scanRight => exact scanByLogged_clean _
  | drain delta => exact drainLogged_clean delta
  | transfer offset sourceDelta destDelta => exact transferLogged_clean offset sourceDelta destDelta

theorem stepLogged_clean (code : Array Word) : (stepLogged s code).Clean s := by
  refine (fetchWord_readsOnly code).clean ?_
  split
  · exact applyLogged_clean _
  · exact Logged.clean_stopped _

/-- A scan that comes back to its start is where it began. -/
theorem scanFrom_back {delta : ℤ} {p : ℕ}
    (h : scanFrom tape start delta rounds pointer = some (p, false)) : p = start := by
  induction rounds generalizing pointer with
  | zero => cases h
  | succ rounds ih =>
    rw [scanFrom] at h
    split at h
    · cases h
    · split at h
      · cases h
        rfl
      · exact ih h

end Clean

/-! ## Reasons to stop -/

/-- The step by which a word scans. -/
def Word.scanStep? : Word → Option ℤ
  | scanLeft => some (-1)
  | scanRight => some 1
  | _ => none

/-- Whether a word can stop the machine in a state, for a reason. -/
def Word.StopsFor (w : Word) (s : State) : Stop → Prop
  | .ended => False
  | .output => w = .output
  | .input => w = .input
  | .unlinked => w = .opening none ∨ w = .closing none
  | .fullTape => w.scanStep?.isSome ∧ s.tape.cell s.pointer ≠ 0
  | .missedZero step => w.scanStep? = some step ∧ s.tape.cell s.pointer ≠ 0
  | .endless value => value = s.tape.cell s.pointer ∧
      ((∃ step, w = .drain step) ∨
        ∃ offset sourceDelta destDelta, w = .transfer offset sourceDelta destDelta)

/-- Each reason to stop has its words. -/
theorem stopsFor_of_apply {w : Word} {s t : State} {why : Stop} (h : w.apply s = .stopped why t) :
    w.StopsFor s why := by
  cases w with
  | add | move | clear => cases h
  | input | output => cases h; rfl
  | opening target =>
    cases target with
    | none => cases h; exact Or.inl rfl
    | some target => cases h
  | closing target =>
    cases target with
    | none => cases h; exact Or.inr rfl
    | some target => cases h
  | scanLeft | scanRight =>
    simp only [Word.apply, State.scanBy] at h
    split at h
    · cases h
    · rename_i hcell
      split at h
      · cases h
      · cases h
      · split at h <;> cases h <;> exact ⟨rfl, hcell⟩
  | drain step =>
    simp only [Word.apply, State.drain] at h
    split at h
    · cases h
    · split at h <;> cases h
      exact ⟨rfl, Or.inl ⟨step, rfl⟩⟩
  | transfer offset sourceDelta destDelta =>
    simp only [Word.apply, State.transfer] at h
    split at h
    · cases h
    · split at h <;> cases h
      exact ⟨rfl, Or.inr ⟨offset, sourceDelta, destDelta, rfl⟩⟩

theorem stopsFor_of_step {code : Array Word} {s t : State} {why : Stop} (hended : why ≠ .ended)
    (h : step code s = .stopped why t) : ∃ w, code[s.pc]? = some w ∧ w.StopsFor s why := by
  rw [step] at h
  cases hw : code[s.pc]? with
  | none =>
    rw [hw] at h
    cases h
    exact absurd rfl hended
  | some w =>
    rw [hw] at h
    exact ⟨w, rfl, stopsFor_of_apply h⟩

/-! ## Whole instructions -/

/-- Whether a number of instructions, made one at a time, lead from a state to another one. -/
inductive Passes (code : Array Word) : ℕ → State → State → Prop
  | refl (s : State) : Passes code 0 s s
  | step {n : ℕ} {s t u : State} (h : step code s = .next t) (hrest : Passes code n t u) :
      Passes code (n + 1) s u

section Passes

variable {code : Array Word} {s t : State} {why : Stop} {budget : ℕ}

theorem eq_of_stopped (h : step code s = .stopped why t) : t = s :=
  (stepLogged_clean code why t ((stepLogged_value code).trans h)).1

/-- The machine stops where whole instructions lead to one that stops. -/
theorem runToStop_iff : runToStop code budget s = some (why, t) ↔
    ∃ n < budget, Passes code n s t ∧ step code t = .stopped why t := by
  induction budget generalizing s with
  | zero => simp [runToStop]
  | succ budget ih =>
    rw [runToStop]
    constructor
    · intro h
      cases hstep : step code s with
      | next u =>
        rw [hstep] at h
        obtain ⟨n, hn, hpasses, hstop⟩ := ih.mp h
        exact ⟨n + 1, by omega, .step hstep hpasses, hstop⟩
      | stopped why' u =>
        rw [hstep] at h
        cases h
        obtain rfl := eq_of_stopped hstep
        exact ⟨0, by omega, .refl _, hstep⟩
    · rintro ⟨n, hn, hpasses, hstop⟩
      cases hpasses with
      | refl => rw [hstop]
      | step hstep hrest =>
        rw [hstep]
        exact ih.mpr ⟨_, by omega, hrest, hstop⟩

theorem Passes.fits {n rounds : ℕ} (h : Passes code rounds s t) (hs : s.Fits n) : t.Fits n := by
  induction h with
  | refl => exact hs
  | step hstep _ ih => exact ih (step_fits hs hstep)

theorem runToStop_fits {n : ℕ} (hs : s.Fits n) (h : runToStop code budget s = some (why, t)) :
    t.Fits n := by
  obtain ⟨rounds, -, hpasses, -⟩ := runToStop_iff.mp h
  exact hpasses.fits hs

end Passes

/-! ## Runs side by side -/

/-- What an instruction came to, in another representation of the states. -/
def Progress.map (f : State → State) : Progress → Progress
  | next s => .next (f s)
  | stopped why s => .stopped why (f s)

theorem Progress.map_id (p : Progress) : p.map id = p := by
  cases p <;> rfl

/-- Programs whose instructions do the same have runs that do the same, if states are exchanged for
others in each of them. -/
theorem runToStop_map {code code' : Array Word} {P : State → Prop} {f : State → State}
    (hkeeps : ∀ s t, P s → step code s = .next t → P t)
    (hstep : ∀ s, P s → step code' (f s) = (step code s).map f) {s : State} (hs : P s)
    (budget : ℕ) :
    runToStop code' budget (f s) = (runToStop code budget s).map (Prod.map id f) := by
  induction budget generalizing s with
  | zero => rfl
  | succ budget ih =>
    rw [runToStop, runToStop, hstep s hs]
    cases hnext : step code s with
    | next t => exact ih (hkeeps s t hs hnext)
    | stopped why t => rfl

/-- **A stop is clean, and the machine starts again from it.** Where a run stops, its tape and its
pointer are those after a number of whole instructions. The one it stopped at has changed nothing
and written nothing, and a scan that fails hands back the pointer it was given. A run from there
stops at once, in the same state and for the same reason. A larger budget changes nothing. -/
theorem stop_restarts (code : Array Word) (budget : ℕ) (s t : State) (why : Stop)
    (h : runToStop code budget s = some (why, t)) :
    (∃ n < budget, Passes code n s t) ∧ step code t = .stopped why t ∧
      (stepLogged t code).ReadsOnly ∧
      (∀ delta p, scan t.tape t.pointer delta = some (p, false) → p = t.pointer) ∧
      (∀ budget', runToStop code (budget' + 1) t = some (why, t)) ∧
      ∀ more, runToStop code (budget + more) s = some (why, t) := by
  obtain ⟨n, hn, hpasses, hstop⟩ := runToStop_iff.mp h
  obtain ⟨-, hreads⟩ := stepLogged_clean code why t ((stepLogged_value code).trans hstop)
  refine ⟨⟨n, hn, hpasses⟩, hstop, hreads, fun delta p hscan => scanFrom_back hscan, ?_, ?_⟩
  · intro budget'
    exact runToStop_iff.mpr ⟨0, budget'.succ_pos, .refl t, hstop⟩
  · intro more
    exact runToStop_iff.mpr ⟨n, by omega, hpasses, hstop⟩

/-- On a tape of five cells a scan from cell 0 comes back to it past four zero cells. -/
theorem stop_restarts_scan :
    let code : Array Word := #[.add 7, .scanRight]
    let t : State := ⟨1, 0, #[7, 0, 0, 0, 0]⟩
    runToStop code 2 ⟨0, 0, #[0, 0, 0, 0, 0]⟩ = some (.missedZero 1, t) ∧
      (∃ n < 2, Passes code n ⟨0, 0, #[0, 0, 0, 0, 0]⟩ t) ∧ (stepLogged t code).ReadsOnly ∧
      runToStop code 9 t = some (.missedZero 1, t) := by
  intro code t
  have hrun : runToStop code 2 ⟨0, 0, #[0, 0, 0, 0, 0]⟩ = some (.missedZero 1, t) := by cbv
  obtain ⟨hpasses, -, hreads, -, hagain, -⟩ := stop_restarts code 2 _ t _ hrun
  exact ⟨hrun, hpasses, hreads, hagain 8⟩

end TapeMachine
