import TapeMachine.Proofs.DeadEnds
import TapeMachine.Proofs.Failures
import TapeMachine.Proofs.Rejections

/-! # Scans

On a circle whose size is a power of two a walk by equal steps comes back to its
start within as many rounds as there are cells. A scan therefore ends, at the
first zero cell on its way or, if there is none, where it began
(`Fits.scan_spec`). The scans of the machine go by one cell and come past all of
them: one that finds no zero cell is on a tape without any, so no run and no
session ever reports that a zero cell was missed (`scan_exact`). -/
namespace TapeMachine

/-! ## Walks -/

/-- Where a walk from a pointer is after a number of rounds, on a circle of the given size. -/
def walked (size pointer : ℕ) (delta : ℤ) (rounds : ℕ) : ℕ :=
  ((pointer + rounds * delta) % size).toNat

/-- Whether a walk stands on a zero cell after a number of rounds. -/
def Tape.ZeroAfter (tape : Tape) (pointer : ℕ) (delta : ℤ) (rounds : ℕ) : Prop :=
  tape.cell (walked tape.size pointer delta rounds) = 0

instance (tape : Tape) (pointer : ℕ) (delta : ℤ) : DecidablePred (tape.ZeroAfter pointer delta) :=
  fun _ => inferInstanceAs (Decidable (_ = _))

section Walks

variable {n k : ℕ} {s : State} {tape : Tape} {start rounds pointer : ℕ} {delta : ℤ}

/-- A scan that has ended does not depend on how many more rounds it might have taken. -/
theorem scanFrom_of_le {result : ℕ × Bool} {rounds' : ℕ}
    (h : scanFrom tape start delta rounds pointer = some result) (hle : rounds ≤ rounds') :
    scanFrom tape start delta rounds' pointer = some result := by
  induction rounds generalizing pointer rounds' with
  | zero => cases h
  | succ rounds ih =>
    obtain ⟨more, rfl⟩ := Nat.exists_eq_succ_of_ne_zero (by omega : rounds' ≠ 0)
    rw [scanFrom] at h ⊢
    split
    · rename_i hzero
      rwa [if_pos hzero] at h
    · rename_i hzero
      rw [if_neg hzero] at h
      split
      · rename_i hback
        rwa [if_pos hback] at h
      · rename_i hback
        rw [if_neg hback] at h
        exact ih h (by omega)

theorem walked_val [NeZero n] (pointer : ℕ) (delta : ℤ) (rounds : ℕ) :
    ((pointer : ZMod n) + rounds * (delta : ZMod n)).val = walked n pointer delta rounds := by
  rw [walked, toNat_emod]
  push_cast
  rfl

/-- The gaps of a memory are the zero cells of its tape. -/
theorem State.Fits.isGap_iff [NeZero n] (h : s.Fits n) :
    (s.memory n).IsGap delta rounds ↔ s.tape.ZeroAfter s.pointer delta rounds := by
  show residue (s.tape.cell ((s.pointer : ZMod n) + rounds * (delta : ZMod n)).val) = 0 ↔ _
  rw [residue_eq_zero, walked_val, Tape.ZeroAfter, h.size]

/-- **A scan ends at the first zero cell on its way, and where it began if there is none.** -/
theorem State.Fits.scan_spec [NeZero n] (h : s.Fits n) (hn : n = 2 ^ k) (delta : ℤ) :
    (∃ j, FirstRound (s.tape.ZeroAfter s.pointer delta) j ∧
        scan s.tape s.pointer delta = some (walked n s.pointer delta j, true)) ∨
      (∀ j, 1 ≤ j → ¬ s.tape.ZeroAfter s.pointer delta j) ∧
        scan s.tape s.pointer delta = some (s.pointer, false) := by
  have hgaps : (s.memory n).IsGap delta = s.tape.ZeroAfter s.pointer delta :=
    funext fun j => propext h.isGap_iff
  rcases h.scan_cases hn delta with ⟨p, j, hscan, hfirst, hlt, hcast⟩ | ⟨p, hscan, hnone⟩
  · rw [hgaps] at hfirst
    have hp : p = walked n s.pointer delta j := by
      rw [← walked_val, ← ZMod.val_natCast_of_lt hlt, hcast]
      rfl
    exact Or.inl ⟨j, hfirst, hp ▸ hscan⟩
  · rw [hgaps] at hnone
    rw [scanFrom_back hscan] at hscan
    exact Or.inr ⟨hnone, hscan⟩

/-- A scan has one result, which it has found when it has been to as many cells as there are. -/
theorem exists_scan (hsize : tape.size = 2 ^ k) (hpointer : pointer < tape.size) (delta : ℤ) :
    ∃ result, scan tape pointer delta = some result ∧
      (∀ rounds, tape.size ≤ rounds →
        scanFrom tape pointer delta rounds pointer = some result) ∧
      (∀ j, FirstRound (tape.ZeroAfter pointer delta) j →
        result = (walked tape.size pointer delta j, true)) ∧
      ((∀ j, 1 ≤ j → ¬ tape.ZeroAfter pointer delta j) → result = (pointer, false)) := by
  have hfits : State.Fits tape.size ⟨0, pointer, tape⟩ := ⟨rfl, hpointer⟩
  have : NeZero tape.size := ⟨hfits.pos.ne'⟩
  rcases hfits.scan_spec hsize delta with ⟨j, hfirst, hscan⟩ | ⟨hnone, hscan⟩
  · refine ⟨_, hscan, fun rounds hle => scanFrom_of_le hscan hle, ?_, ?_⟩
    · exact fun i hi => by rw [hi.unique hfirst]
    · exact fun hnone => absurd hfirst.here (hnone j hfirst.pos)
  · refine ⟨_, hscan, fun rounds hle => scanFrom_of_le hscan hle, ?_, fun _ => rfl⟩
    exact fun i hi => absurd hi.here (hnone i hi.pos)

end Walks

/-! ## The scans of the machine -/

section Machine

variable {n k : ℕ} {s t : State} {w : Word} {code : Array Word} {delta : ℤ}

/-- A word that scans goes by one cell. -/
theorem scanBy_of_scanStep (h : w.scanStep? = some delta) :
    w.apply s = s.scanBy delta ∧ delta * delta = 1 := by
  cases w with
  | scanLeft | scanRight => cases h; exact ⟨rfl, rfl⟩
  | add | move | input | output | opening | closing | clear | drain | transfer => cases h

theorem hasZero_iff {tape : Tape} : tape.hasZero = true ↔ 0 ∈ tape := by
  simp [Tape.hasZero, Array.mem_iff_getElem]

/-- **From a cell that is not zero a scan goes on to the nearest zero cell, and stops for a full
tape if there is none.** -/
theorem State.Fits.scanBy_spec [NeZero n] (h : s.Fits n) (hn : n = 2 ^ k) (hunit : delta * delta = 1)
    (hcell : s.tape.cell s.pointer ≠ 0) :
    (0 ∈ s.tape ∧ ∃ j, FirstRound (s.tape.ZeroAfter s.pointer delta) j ∧
        s.scanBy delta = .next ⟨s.pc + 1, walked n s.pointer delta j, s.tape⟩) ∨
      0 ∉ s.tape ∧ s.scanBy delta = .stopped .fullTape s := by
  rw [scanBy, if_neg hcell]
  rcases h.scan_spec hn delta with ⟨j, hfirst, hscan⟩ | ⟨hnone, hscan⟩
  · have hlt : walked n s.pointer delta j < s.tape.size := by
      rw [h.size, ← walked_val]
      exact ZMod.val_lt _
    have hmem : 0 ∈ s.tape := by
      have hzero := hfirst.here
      rw [Tape.ZeroAfter, h.size, Tape.cell] at hzero
      simp only [Array.getD_eq_getD_getElem?, Array.getElem?_eq_getElem hlt,
        Option.getD_some] at hzero
      exact hzero ▸ Array.getElem_mem hlt
    rw [hscan]
    exact Or.inl ⟨hmem, j, hfirst, rfl⟩
  · have hgone : ∀ j, 1 ≤ j → ¬ (s.memory n).IsGap delta j := fun j hj hgap =>
      hnone j hj (h.isGap_iff.mp hgap)
    have hfull : s.tape.hasZero = false :=
      h.hasZero_eq_false (by exact_mod_cast congrArg (Int.cast (R := ZMod n)) hunit) hgone
    rw [hscan, hfull]
    exact Or.inr ⟨by rw [← hasZero_iff, hfull]; simp, rfl⟩

theorem State.Fits.step_scan (h : s.Fits n) (hn : n = 2 ^ k) (hw : code[s.pc]? = some w)
    (hscans : w.scanStep? = some delta) (hcell : s.tape.cell s.pointer ≠ 0) :
    (0 ∈ s.tape → ∃ j, FirstRound (s.tape.ZeroAfter s.pointer delta) j ∧
        step code s = .next ⟨s.pc + 1, walked n s.pointer delta j, s.tape⟩) ∧
      (0 ∉ s.tape → step code s = .stopped .fullTape s) := by
  have : NeZero n := ⟨h.pos.ne'⟩
  obtain ⟨happly, hunit⟩ := scanBy_of_scanStep (s := s) hscans
  have hstep : step code s = s.scanBy delta := by
    rw [step, hw]
    exact happly
  rw [hstep]
  rcases h.scanBy_spec hn hunit hcell with ⟨hmem, j, hfirst, hnext⟩ | ⟨hmem, hfull⟩
  · exact ⟨fun _ => ⟨j, hfirst, hnext⟩, fun hno => absurd hmem hno⟩
  · exact ⟨fun hyes => absurd hyes hmem, fun _ => hfull⟩

/-- On a circle whose size is a power of two no zero cell is missed. -/
theorem State.Fits.step_ne_missedZero (h : s.Fits n) (hn : n = 2 ^ k) :
    step code s ≠ .stopped (.missedZero delta) t := by
  intro hstep
  obtain ⟨w, hw, hscans, hcell⟩ := stopsFor_of_step (by simp) hstep
  obtain ⟨hfound, hfull⟩ := h.step_scan hn hw hscans hcell
  by_cases hmem : 0 ∈ s.tape
  · obtain ⟨j, -, hnext⟩ := hfound hmem
    cases hnext.symm.trans hstep
  · cases (hfull hmem).symm.trans hstep

theorem runToStop_ne_missedZero (h : s.Fits n) (hn : n = 2 ^ k) (budget : ℕ) :
    runToStop code budget s ≠ some (.missedZero delta, t) := by
  intro hrun
  obtain ⟨rounds, -, hpasses, hstop⟩ := runToStop_iff.mp hrun
  exact (hpasses.fits h).step_ne_missedZero hn hstop

end Machine

/-! ## Runs and sessions -/

section Runs

variable {program : List Item} {code : Array Word} {r t : Run} {f : Finish} {budget : ℕ}
  {position delta : ℤ}

theorem Run.Reaches.within (hcode : encode program = .ok code)
    (h : Run.Reaches program.toArray code r t) (hr : r.state.Within code.size tapeSize) :
    t.state.Within code.size tapeSize := by
  induction h with
  | refl => exact hr
  | tail _ hturn ih => exact turn_keeps (lands_of_encode hcode) ih hturn

theorem finish_ne_missedZero (hcode : encode program = .ok code)
    (hr : r.state.Within code.size tapeSize)
    (h : Run.finish program.toArray code budget r = some f) :
    f.failure ≠ some (.fault (.missedZero position delta)) := by
  intro hfailure
  have hkeeps : ∀ r t : Run, r.state.Within code.size tapeSize →
      Run.turn program.toArray code r = .next t → t.state.Within code.size tapeSize :=
    fun r t => turn_keeps (lands_of_encode hcode)
  obtain ⟨t, ht, hturn⟩ := finish_last hkeeps h hr
  obtain ⟨why, fault?, hstep, -, hlast, hcases⟩ := finished_cases hturn
  obtain ⟨fault, rfl, hraised⟩ := Option.map_eq_some_iff.mp (hlast.symm.trans hfailure)
  obtain ⟨-, rfl⟩ := Fault.raised_eq_fault.mp hraised
  rcases hcases with ⟨-, -, hmissing⟩ | ⟨-, hreported⟩
  · cases hmissing
  · cases why with
    | missedZero step => exact ht.step_ne_missedZero tapeSize_eq hstep
    | ended | output | input | unlinked | fullTape | endless => cases hreported

end Runs

namespace Session

variable {s t : Session} {calls : List Made} {position delta : ℤ}

/-- No move of a session leaves a zero cell that was missed as its fault. -/
theorem Move.fault_ne_missedZero (h : s.Move t) (hs : s.Sound)
    (hfault : s.fault ≠ some (.missedZero position delta)) :
    t.fault ≠ some (.missedZero position delta) := by
  cases h with
  | queue | program => exact hfault
  | @run program code budget f hstage _ hcode hfinish =>
    rcases s.settle_cases hstage (f := f) with ⟨-, heq⟩ | ⟨fault, hf, heq⟩ | ⟨_, -, heq⟩
    · rw [heq]
      exact hfault
    · rw [heq]
      rintro hmissed
      cases hmissed
      exact finish_ne_missedZero hcode (hs.start code.size) hfinish hf
    · rw [heq]
      exact hfault

/-- Whatever calls a session has seen, its fault is not a zero cell that was missed. -/
theorem Trace.fault_ne_missedZero (h : Trace new calls s) :
    s.fault ≠ some (.missedZero position delta) :=
  (Moves.keeps (P := fun s => s.Sound ∧ s.fault ≠ some (.missedZero position delta))
    (fun _ _ hmove hs => ⟨hmove.sound hs.1, hmove.fault_ne_missedZero hs.1 hs.2⟩) h.moves
    ⟨new_sound, by simp [new]⟩).2

end Session

/-- **Scans are exact, and no zero cell is missed.** On a circle whose size is a power of two a scan
ends within as many rounds as there are cells: at the first zero cell of its walk or, if the walk
meets none, at its start. From a cell that is not zero the machine scans on to the nearest zero cell
in its direction, and stops for a full tape if there is none; it never stops for a zero cell that it
missed. The tape of a session is such a circle, and no call ever reports a missed zero cell. -/
theorem scan_exact :
    (∀ (tape : Tape) (k pointer : ℕ) (delta : ℤ), tape.size = 2 ^ k → pointer < tape.size →
      ∃ result, scan tape pointer delta = some result ∧
        (∀ rounds, tape.size ≤ rounds →
          scanFrom tape pointer delta rounds pointer = some result) ∧
        (∀ j, FirstRound (tape.ZeroAfter pointer delta) j →
          result = (walked tape.size pointer delta j, true)) ∧
        ((∀ j, 1 ≤ j → ¬ tape.ZeroAfter pointer delta j) → result = (pointer, false))) ∧
    (∀ (code : Array Word) (s : State) (k : ℕ), s.tape.size = 2 ^ k → s.pointer < s.tape.size →
      (∀ w delta, code[s.pc]? = some w → w.scanStep? = some delta →
        s.tape.cell s.pointer ≠ 0 →
          (0 ∈ s.tape → ∃ j, FirstRound (s.tape.ZeroAfter s.pointer delta) j ∧
            step code s = .next ⟨s.pc + 1, walked s.tape.size s.pointer delta j, s.tape⟩) ∧
          (0 ∉ s.tape → step code s = .stopped .fullTape s)) ∧
      ∀ budget t delta, runToStop code budget s ≠ some (.missedZero delta, t)) ∧
    ∀ (calls : List Session.Made) (s : Session), Session.Trace .new calls s →
      (∀ program code t, s.stage = .loaded → s.program = some program →
        encode program = .ok code → Run.Reaches program.toArray code (.start s.tape s.feed) t →
          t.state.tape.size = 2 ^ 16 ∧ t.state.pointer < t.state.tape.size) ∧
      ∀ position delta, s.fault ≠ some (.missedZero position delta) ∧
        ∀ budget call t,
          s.perform budget call ≠ some (t, .error (.fault (.missedZero position delta))) := by
  refine ⟨fun tape k pointer delta hsize hpointer => exists_scan hsize hpointer delta, ?_, ?_⟩
  · intro code s k hsize hpointer
    have hfits : s.Fits s.tape.size := ⟨rfl, hpointer⟩
    exact ⟨fun w delta => hfits.step_scan hsize,
      fun budget t delta => runToStop_ne_missedZero hfits hsize budget⟩
  · intro calls s h
    refine ⟨?_, ?_⟩
    · intro program code t hstage hprogram hcode hreaches
      have hsound := h.moves.sound Session.new_sound
      have hfits := hreaches.within hcode (hsound.start code.size)
      exact ⟨hfits.size, hfits.size ▸ hfits.inside⟩
    · intro position delta
      refine ⟨h.fault_ne_missedZero, ?_⟩
      intro budget call t hcall
      rcases Session.fault_of_perform hcall with ⟨m, hm⟩ | hfault
      · cases hm
      · have hlonger : Session.Trace .new (calls ++ [⟨s, call⟩]) t := h.append (.cons hcall .nil)
        exact hlonger.fault_ne_missedZero hfault

/-- A session with a program that scans from a cell which is not zero. -/
def scanning : Session :=
  { Session.new with program := some [.instr ⟨.add 1, 1⟩, .instr ⟨.scanRight, 2⟩] }

/-- On four cells a scan goes on past the last one to the zero in cell 1. -/
theorem scan_exact_aroundTheEnd :
    let tape : Tape := #[5, 0, 5, 5]
    let code : Array Word := #[.add 1, .scanRight]
    (FirstRound (tape.ZeroAfter 2 1) 3 ∧ scan tape 2 1 = some (1, true)) ∧
      (∃ j, FirstRound (tape.ZeroAfter 2 1) j ∧
        step code ⟨1, 2, tape⟩ = .next ⟨2, walked 4 2 1 j, tape⟩) ∧
      step code ⟨1, 0, #[5, 5]⟩ = .stopped .fullTape ⟨1, 0, #[5, 5]⟩ ∧
      (∀ budget t delta, runToStop code budget ⟨0, 2, tape⟩ ≠ some (.missedZero delta, t)) ∧
      Session.Trace .new [⟨.new, .loadProgram [.instr ⟨.add 1, 1⟩, .instr ⟨.scanRight, 2⟩]⟩]
        scanning ∧
      (∃ t, Run.turn #[.instr ⟨.add 1, 1⟩, .instr ⟨.scanRight, 2⟩] code (.start .blank .absent) =
        .next t ∧ t.state.tape.size = 2 ^ 16 ∧ t.state.pointer < t.state.tape.size) ∧
      ∀ budget call t position delta,
        scanning.perform budget call ≠ some (t, .error (.fault (.missedZero position delta))) := by
  intro tape code
  obtain ⟨hscans, hmachine, hsessions⟩ := scan_exact
  have hfirst : FirstRound (tape.ZeroAfter 2 1) 3 := by
    refine ⟨by decide, by decide, ?_⟩
    intro j hpos hlt
    obtain rfl | rfl : j = 1 ∨ j = 2 := by omega
    · decide
    · decide
  obtain ⟨result, hscan, -, hfound, -⟩ := hscans tape 2 2 1 rfl (by decide)
  obtain ⟨hnearest, -⟩ := hmachine code ⟨1, 2, tape⟩ 2 rfl (by decide)
  obtain ⟨hfull, -⟩ := hmachine code ⟨1, 0, #[5, 5]⟩ 1 rfl (by decide)
  obtain ⟨-, hmissed⟩ := hmachine code ⟨0, 2, tape⟩ 2 rfl (by decide)
  have htrace : Session.Trace .new
      [⟨.new, .loadProgram [.instr ⟨.add 1, 1⟩, .instr ⟨.scanRight, 2⟩]⟩] scanning :=
    .cons (show Session.new.perform 0 _ = some (scanning, .ok .done) from rfl) .nil
  obtain ⟨hreached, hnever⟩ := hsessions _ _ htrace
  refine ⟨⟨hfirst, ?_⟩, ?_, ?_, hmissed, htrace, ?_, ?_⟩
  · have hplace : walked tape.size 2 1 3 = 1 := by decide
    rw [hscan, hfound 3 hfirst, hplace]
  · exact (hnearest .scanRight 1 rfl rfl (by decide)).1 (by simp [tape])
  · exact (hfull .scanRight 1 rfl rfl (by decide)).2 (by simp)
  · exact ⟨_, rfl, hreached _ code _ rfl rfl rfl (.tail .refl rfl)⟩
  · exact fun budget call t position delta => (hnever position delta).2 budget call t

end TapeMachine
