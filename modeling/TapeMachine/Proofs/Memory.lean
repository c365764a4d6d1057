import TapeMachine.Proofs.Rounds

/-! # Memories

The memory of a machine is what its tape and its pointer come to: a circle of
residues and a place on it. On a tape whose size is a power of two every word
does to the memory what its exact amounts say (`apply_effect`), so a proof about
programs speaks of residues only and never of masks, words or arrays. -/
namespace TapeMachine

/-- A circle of `n` cells and the place of the pointer. -/
@[ext] structure Memory (n : ℕ) where
  cells : ZMod n → ZMod 256
  pointer : ZMod n

namespace Memory

variable {n : ℕ}

/-- The current cell. -/
def cell (m : Memory n) : ZMod 256 := m.cells m.pointer

def move (m : Memory n) (offset : ZMod n) : Memory n := { m with pointer := m.pointer + offset }

/-- Sets the cell at an offset from the pointer. -/
def writeAt (m : Memory n) (offset : ZMod n) (v : ZMod 256) : Memory n :=
  { m with cells := Function.update m.cells (m.pointer + offset) v }

/-- Sets the current cell. -/
def write (m : Memory n) (v : ZMod 256) : Memory n :=
  { m with cells := Function.update m.cells m.pointer v }

@[simp] theorem move_pointer (m : Memory n) (offset : ZMod n) :
    (m.move offset).pointer = m.pointer + offset := rfl

@[simp] theorem move_cells (m : Memory n) (offset : ZMod n) : (m.move offset).cells = m.cells := rfl

@[simp] theorem writeAt_pointer (m : Memory n) (offset : ZMod n) (v : ZMod 256) :
    (m.writeAt offset v).pointer = m.pointer := rfl

@[simp] theorem write_pointer (m : Memory n) (v : ZMod 256) : (m.write v).pointer = m.pointer := rfl

@[simp] theorem write_cell (m : Memory n) (v : ZMod 256) : (m.write v).cell = v :=
  Function.update_self ..

@[simp] theorem write_write (m : Memory n) (v w : ZMod 256) : (m.write v).write w = m.write w := by
  simp [write]

@[simp] theorem write_self (m : Memory n) : m.write m.cell = m := by
  simp [write, cell]

theorem move_move (m : Memory n) (a b : ZMod n) : (m.move a).move b = m.move (a + b) := by
  simp [move, add_assoc]

@[simp] theorem move_zero (m : Memory n) : m.move 0 = m := by
  simp [move]

/-- A scan by `step`: rounds are counted to the first zero cell. -/
def IsGap (m : Memory n) (step : ZMod n) (rounds : ℕ) : Prop :=
  m.cells (m.pointer + rounds * step) = 0

end Memory

/-! ## The memory of a state -/

namespace State

/-- The memory a state stands for on a tape of `n` cells. -/
def memory (n : ℕ) (s : State) : Memory n := ⟨fun i => residue (s.tape.cell i.val), s.pointer⟩

/-- Whether the tape has `n` cells and the pointer is on it. -/
structure Fits (n : ℕ) (s : State) : Prop where
  size : s.tape.size = n
  inside : s.pointer < n

variable {n : ℕ} {s : State}

theorem Fits.pos (h : s.Fits n) : 0 < n := Nat.zero_lt_of_lt h.inside

theorem Fits.pointer_val (h : s.Fits n) : (s.memory n).pointer.val = s.pointer :=
  ZMod.val_natCast_of_lt h.inside

theorem Fits.cell (h : s.Fits n) : (s.memory n).cell = residue (s.tape.cell s.pointer) := by
  show residue (s.tape.cell (s.memory n).pointer.val) = _
  rw [h.pointer_val]

theorem Fits.cell_eq_zero (h : s.Fits n) : (s.memory n).cell = 0 ↔ s.tape.cell s.pointer = 0 := by
  rw [h.cell, residue_eq_zero]

theorem cell_blank (i : ℕ) : Tape.blank.cell i = 0 := by
  simp only [Tape.cell, Tape.blank, Array.getD_eq_getD_getElem?, Array.getElem?_replicate]
  split <;> rfl

theorem cell_set (tape : Tape) {i : ℕ} (hi : i < tape.size) (v : UInt8) (j : ℕ) :
    Tape.cell (tape.setIfInBounds i v) j = if i = j then v else tape.cell j := by
  simp only [Tape.cell, Array.getD_eq_getD_getElem?, Array.getElem?_setIfInBounds]
  by_cases h : i = j
  · rw [if_pos h, if_pos h, if_pos (h ▸ hi), Option.getD_some]
  · rw [if_neg h, if_neg h]

theorem residue_cell_set [NeZero n] (tape : Tape) {i : ℕ} (hi : i < tape.size) (hs : tape.size = n)
    (v : UInt8) : (fun j : ZMod n => residue (Tape.cell (tape.setIfInBounds i v) j.val)) =
      Function.update (fun j : ZMod n => residue (tape.cell j.val)) (i : ZMod n) (residue v) := by
  funext j
  rw [cell_set tape hi]
  by_cases hj : j = (i : ZMod n)
  · subst hj
    rw [ZMod.val_natCast_of_lt (hs ▸ hi), if_pos rfl, Function.update_self]
  · have hne : i ≠ j.val := fun h => hj (by rw [h, ZMod.natCast_zmod_val])
    rw [if_neg hne, Function.update_of_ne hj]

/-- States with the same memory have the same tape and pointer. -/
theorem Fits.eq_of_memory {t : State} (hs : s.Fits n) (ht : t.Fits n)
    (h : s.memory n = t.memory n) : s.tape = t.tape ∧ s.pointer = t.pointer := by
  constructor
  · apply Array.ext (hs.size.trans ht.size.symm)
    intro i hi hi'
    have hcell := congrFun (congrArg Memory.cells h) (i : ZMod n)
    have hv : (i : ZMod n).val = i := ZMod.val_natCast_of_lt (hs.size ▸ hi)
    simp only [memory, hv] at hcell
    simpa [Tape.cell, hi, hi'] using residue_injective hcell
  · rw [← hs.pointer_val, h, ht.pointer_val]

/-! ## Scans -/

variable [NeZero n] {k : ℕ} {step : ℤ} {rounds count pointer p : ℕ}

theorem Fits.address_gap (h : s.Fits n) (hn : n = 2 ^ k)
    (hc : (pointer : ZMod n) = (s.memory n).pointer + count * (step : ZMod n)) :
    (address s.tape.size (pointer + step) : ZMod n) =
        (s.memory n).pointer + (count + 1 : ℕ) * (step : ZMod n) ∧
      (s.tape.cell (address s.tape.size (pointer + step)) = 0 ↔
        (s.memory n).IsGap step (count + 1)) := by
  have hcast : (address s.tape.size (pointer + step) : ZMod n) =
      (s.memory n).pointer + (count + 1 : ℕ) * (step : ZMod n) := by
    rw [h.size, cast_address hn]
    push_cast
    rw [hc]
    ring
  refine ⟨hcast, ?_⟩
  rw [Memory.IsGap, ← hcast]
  show _ ↔ residue (s.tape.cell (ZMod.val _)) = 0
  rw [ZMod.val_natCast_of_lt (by rw [h.size]; exact address_lt (NeZero.pos n) _), residue_eq_zero]

theorem Fits.scanFrom_found (h : s.Fits n) (hn : n = 2 ^ k)
    (hc : (pointer : ZMod n) = (s.memory n).pointer + count * (step : ZMod n))
    (hf : scanFrom s.tape s.pointer step rounds pointer = some (p, true)) :
    ∃ last, count < last ∧ (s.memory n).IsGap step last ∧
      (∀ j, count < j → j < last → ¬ (s.memory n).IsGap step j) ∧
      p < n ∧ (p : ZMod n) = (s.memory n).pointer + last * (step : ZMod n) := by
  induction rounds generalizing pointer count with
  | zero => simp [scanFrom] at hf
  | succ rounds ih =>
    obtain ⟨hnext, hgap⟩ := h.address_gap hn hc
    simp only [scanFrom] at hf
    split at hf
    · rename_i hz
      cases hf
      refine ⟨count + 1, by omega, hgap.mp hz, fun j h₁ h₂ => by omega, ?_, hnext⟩
      rw [h.size]
      exact address_lt (NeZero.pos n) _
    · rename_i hz
      split at hf
      · cases hf
      · obtain ⟨last, hlt, hlast, hbefore, hp⟩ := ih hnext hf
        refine ⟨last, by omega, hlast, ?_, hp⟩
        intro j h₁ h₂
        by_cases hj : j = count + 1
        · exact fun hg => hz (hgap.mpr (hj ▸ hg))
        · exact hbefore j (by omega) h₂

/-- A scan that gives up has come back to its start past cells that are not zero. -/
theorem Fits.scanFrom_lost (h : s.Fits n) (hn : n = 2 ^ k)
    (hc : (pointer : ZMod n) = (s.memory n).pointer + count * (step : ZMod n))
    (hf : scanFrom s.tape s.pointer step rounds pointer = some (p, false)) :
    ∃ last, count < last ∧ last * (step : ZMod n) = 0 ∧
      ∀ j, count < j → j ≤ last → ¬ (s.memory n).IsGap step j := by
  induction rounds generalizing pointer count with
  | zero => simp [scanFrom] at hf
  | succ rounds ih =>
    obtain ⟨hnext, hgap⟩ := h.address_gap hn hc
    simp only [scanFrom] at hf
    split at hf
    · cases hf
    · rename_i hz
      have hcons : ∀ {last}, (∀ j, count + 1 < j → j ≤ last → ¬ (s.memory n).IsGap step j) →
          ∀ j, count < j → j ≤ last → ¬ (s.memory n).IsGap step j := by
        intro last hlater j h₁ h₂
        by_cases hj : j = count + 1
        · exact fun hg => hz (hgap.mpr (hj ▸ hg))
        · exact hlater j (by omega) h₂
      split at hf
      · rename_i hback
        rw [hback] at hnext
        exact ⟨count + 1, by omega, left_eq_add.mp hnext, hcons fun j h₁ h₂ => by omega⟩
      · obtain ⟨last, hlt, hlast, hlater⟩ := ih hnext hf
        exact ⟨last, by omega, hlast, hcons hlater⟩

/-- A scan that is still under way has not met its start. -/
theorem Fits.scanFrom_none (h : s.Fits n) (hn : n = 2 ^ k)
    (hc : (pointer : ZMod n) = (s.memory n).pointer + count * (step : ZMod n))
    (hf : scanFrom s.tape s.pointer step rounds pointer = none) :
    ∀ j, count < j → j ≤ count + rounds → j * (step : ZMod n) ≠ 0 := by
  induction rounds generalizing pointer count with
  | zero => exact fun j h₁ h₂ => by omega
  | succ rounds ih =>
    obtain ⟨hnext, -⟩ := h.address_gap hn hc
    simp only [scanFrom] at hf
    split at hf
    · cases hf
    · split at hf
      · cases hf
      · rename_i hback
        intro j h₁ h₂
        by_cases hj : j = count + 1
        · subst hj
          intro h0
          rw [h0, add_zero] at hnext
          apply hback
          rw [← h.pointer_val, ← hnext, ZMod.val_natCast_of_lt]
          rw [h.size]
          exact address_lt (NeZero.pos n) _
        · exact ih hnext hf j (by omega) (by omega)

/-- A scan ends at the first zero cell in its direction, and gives up if there is none. -/
theorem Fits.scan_cases (h : s.Fits n) (hn : n = 2 ^ k) (step : ℤ) :
    (∃ p last, scan s.tape s.pointer step = some (p, true) ∧
      FirstRound ((s.memory n).IsGap step) last ∧ p < n ∧
      (p : ZMod n) = (s.memory n).pointer + last * (step : ZMod n)) ∨
    (∃ p, scan s.tape s.pointer step = some (p, false) ∧
      ∀ j, 1 ≤ j → ¬ (s.memory n).IsGap step j) := by
  have hc : (s.pointer : ZMod n) = (s.memory n).pointer + (0 : ℕ) * (step : ZMod n) := by
    simp [memory]
  cases hf : scan s.tape s.pointer step with
  | none =>
    have hfull := h.scanFrom_none hn hc hf n (NeZero.pos n) (by rw [h.size]; omega)
    simp at hfull
  | some result =>
    obtain ⟨p, found⟩ := result
    cases found with
    | true =>
      obtain ⟨last, hpos, hlast, hbefore, hp, hcast⟩ := h.scanFrom_found hn hc hf
      exact Or.inl ⟨p, last, rfl, ⟨hpos, hlast, hbefore⟩, hp, hcast⟩
    | false =>
      obtain ⟨last, hpos, hlast, hbefore⟩ := h.scanFrom_lost hn hc hf
      refine Or.inr ⟨p, rfl, ?_⟩
      refine no_hit_of_return (x := fun j => (s.memory n).cells ((s.memory n).pointer + j * step))
        (· = 0) hpos ?_ hbefore
      intro j
      rw [Nat.cast_add, add_mul, hlast, add_zero]

end State

end TapeMachine
