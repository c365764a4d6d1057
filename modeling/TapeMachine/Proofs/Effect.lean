import TapeMachine.Proofs.Memory

/-! # Effects

The effect of an instruction on a memory, said with residues: a step adds, a
scan goes on to the first zero cell, and a drain or transfer counts the rounds
until its cell is zero. An encoded word has the effect of its instruction
(`apply_effect`). Brackets have no effect of their own here: what they do
depends on where they lead. -/
namespace TapeMachine

variable {n : ℕ}

namespace Memory

/-- Goes to the first zero cell along the multiples of a step. -/
noncomputable def scan (m : Memory n) (step : ZMod n) : Except Stop (Memory n) :=
  if m.cell = 0 then .ok m
  else
    match firstRound? (m.IsGap step) with
    | some rounds => .ok (m.move (rounds * step))
    | none => .error .fullTape

/-- Counts the rounds until the current cell is zero, and leaves the memory they come to. -/
noncomputable def drain (m : Memory n) (step : ZMod 256) (emptied : ℕ → Memory n) :
    Except Stop (Memory n) :=
  if m.cell = 0 then .ok m
  else
    match firstRound? fun rounds => m.cell + rounds * step = 0 with
    | some rounds => .ok (emptied rounds)
    | none => .error (.endless (ofResidue m.cell))

/-- Adds a multiple of `amount` to the cell at an offset and empties the current cell. -/
def pour (m : Memory n) (offset : ZMod n) (amount : ZMod 256) (rounds : ℕ) : Memory n :=
  (m.writeAt offset (m.cells (m.pointer + offset) + rounds * amount)).write 0

end Memory

/-- What an instruction makes of a memory, or the stop at which it leaves it alone. -/
noncomputable def Op.effect : Op → Memory n → Except Stop (Memory n)
  | .add delta, m => .ok (m.write (m.cell + delta))
  | .move offset, m => .ok (m.move offset)
  | .input, _ => .error .input
  | .output, _ => .error .output
  | .opening _, m => .ok m
  | .closing _, m => .ok m
  | .clear, m => .ok (m.write 0)
  | .scanLeft, m => m.scan (-1)
  | .scanRight, m => m.scan 1
  | .drain step, m => m.drain step fun _ => m.write 0
  | .transfer offset sourceDelta destDelta, m => m.drain sourceDelta (m.pour offset destDelta)

/-- Whether a word did what an effect says: went on one instruction with the memory the effect
leaves, or stopped where it was. -/
def Progress.Shows (s : State) : Progress → Except Stop (Memory n) → Prop
  | .next t, .ok m => t.pc = s.pc + 1 ∧ t.Fits n ∧ t.memory n = m
  | .stopped why t, .error stop => why = stop ∧ t = s
  | _, _ => False

theorem Progress.Shows.of_ok {s : State} {p : Progress} {m : Memory n} (h : p.Shows s (.ok m)) :
    ∃ t, p = .next t ∧ t.pc = s.pc + 1 ∧ t.Fits n ∧ t.memory n = m := by
  cases p with
  | next t => exact ⟨t, rfl, h⟩
  | stopped why t => exact h.elim

theorem Progress.Shows.of_error {s : State} {p : Progress} {why : Stop}
    (h : p.Shows s (.error why : Except Stop (Memory n))) : p = .stopped why s := by
  cases p with
  | next t => exact h.elim
  | stopped why t =>
    obtain ⟨rfl, rfl⟩ := h
    rfl

namespace State

variable {s : State}

theorem Fits.advance_shows (h : s.Fits n) : Progress.Shows s (.next s.advance) (.ok (s.memory n)) :=
  ⟨rfl, ⟨h.size, h.inside⟩, rfl⟩

variable [NeZero n]

/-- Setting the cell at an address writes to the memory. -/
theorem Fits.set_memory (h : s.Fits n) {i : ℕ} (hi : i < n) (pc : ℕ) (v : UInt8) :
    Fits n ⟨pc, s.pointer, s.tape.setIfInBounds i v⟩ ∧
      (⟨pc, s.pointer, s.tape.setIfInBounds i v⟩ : State).memory n =
        ⟨Function.update (s.memory n).cells i (residue v), (s.memory n).pointer⟩ := by
  refine ⟨⟨by simp [h.size], h.inside⟩, ?_⟩
  ext j
  · exact congrFun (residue_cell_set s.tape (h.size.symm ▸ hi) h.size v) j
  · rfl

/-- Setting the current cell writes it. -/
theorem Fits.write_shows (h : s.Fits n) {v : UInt8} {r : ZMod 256} (hv : residue v = r) :
    Progress.Shows s (.next ⟨s.pc + 1, s.pointer, s.tape.setIfInBounds s.pointer v⟩)
      (.ok ((s.memory n).write r)) := by
  obtain ⟨hfits, hmem⟩ := h.set_memory h.inside (s.pc + 1) v
  refine ⟨rfl, hfits, ?_⟩
  rw [hmem, hv]
  rfl

theorem Fits.move_shows {k : ℕ} (h : s.Fits n) (hn : n = 2 ^ k) {offset : ℤ} {r : ZMod n}
    (ho : (offset : ZMod n) = r) :
    Progress.Shows s (.next ⟨s.pc + 1, address s.tape.size (s.pointer + offset), s.tape⟩)
      (.ok ((s.memory n).move r)) := by
  refine ⟨rfl, ⟨h.size, ?_⟩, ?_⟩
  · rw [h.size]
    exact address_lt (NeZero.pos n) _
  · rw [h.size]
    ext
    · rfl
    · simp [memory, cast_address hn, ho]

/-- A walk by one cell at a time comes past every cell, so one that meets no zero cell is on a
tape without any. -/
theorem Fits.hasZero_eq_false (h : s.Fits n) {step : ZMod n} (hunit : step * step = 1)
    (hnone : ∀ j, 1 ≤ j → ¬ (s.memory n).IsGap step j) : s.tape.hasZero = false := by
  rw [Tape.hasZero, Array.any_eq_false]
  intro i hi hz
  let rounds := (((i : ZMod n) - (s.memory n).pointer) * step).val + n
  have hplace : (s.memory n).pointer + (rounds : ZMod n) * step = i := by
    simp only [rounds, Nat.cast_add, ZMod.natCast_zmod_val, CharP.cast_eq_zero, add_zero, mul_assoc,
      hunit]
    ring
  apply hnone rounds (Nat.le_add_left_of_le (NeZero.pos n))
  have hi' : i < n := h.size ▸ hi
  rw [Memory.IsGap, hplace]
  show residue (s.tape.cell (i : ZMod n).val) = 0
  rw [ZMod.val_natCast_of_lt hi', residue_eq_zero]
  simpa [Tape.cell, hi] using hz

theorem Fits.scanBy_shows {k : ℕ} (h : s.Fits n) (hn : n = 2 ^ k) (step : ℤ)
    (hunit : (step : ZMod n) * step = 1) :
    Progress.Shows s (s.scanBy step) ((s.memory n).scan step) := by
  by_cases hz : s.tape.cell s.pointer = 0
  · rw [scanBy, if_pos hz, Memory.scan, if_pos (h.cell_eq_zero.mpr hz)]
    exact h.advance_shows
  · rw [scanBy, if_neg hz, Memory.scan, if_neg (mt h.cell_eq_zero.mp hz)]
    rcases h.scan_cases hn step with ⟨p, last, hp, hlast, hlt, hcast⟩ | ⟨p, hp, hnone⟩
    · rw [hp, firstRound?_eq_some hlast]
      refine ⟨rfl, ⟨h.size, hlt⟩, ?_⟩
      ext
      · rfl
      · exact hcast
    · rw [hp, firstRound?_eq_none hnone]
      simp [h.hasZero_eq_false hunit hnone, Progress.Shows]

/-- The count of a drain is found on the residues. -/
theorem rounds_cases {v : UInt8} {step : Int64} {amount : ℤ}
    (hs : (step.toInt : ZMod 256) = amount) :
    roundsToZero? v.toNat step.toInt =
      firstRound? fun rounds => residue v + rounds * (amount : ZMod 256) = 0 := by
  have hdrained : ∀ j, drained v.toNat step.toInt j = residue v + j * (amount : ZMod 256) := by
    intro j
    simp [drained, residue, hs]
  cases hr : roundsToZero? v.toNat step.toInt with
  | some count =>
    have hfirst := roundsToZero?_eq_some hr
    simp only [hdrained] at hfirst
    exact (firstRound?_eq_some hfirst).symm
  | none =>
    have hnone := roundsToZero?_eq_none hr
    simp only [hdrained] at hnone
    exact (firstRound?_eq_none hnone).symm

theorem Fits.drain_shows (h : s.Fits n) {step : Int64} {amount : ℤ}
    (hs : (step.toInt : ZMod 256) = amount) :
    Progress.Shows s (s.drain step) ((s.memory n).drain amount fun _ => (s.memory n).write 0) := by
  by_cases hz : s.tape.cell s.pointer = 0
  · simp only [drain, hz, if_true, Memory.drain, h.cell_eq_zero.mpr hz]
    exact h.advance_shows
  · have hne : residue (s.tape.cell s.pointer) ≠ 0 := mt residue_eq_zero.mp hz
    simp only [drain, hz, if_false, Memory.drain, rounds_cases hs, h.cell, hne]
    cases firstRound? _ with
    | none => simp [Progress.Shows]
    | some count => exact h.write_shows residue_zero

theorem Fits.transfer_shows {k : ℕ} (h : s.Fits n) (hn : n = 2 ^ k) {o a b : Int64}
    {offset source dest : ℤ} (ho : (o.toInt : ZMod n) = offset)
    (ha : (a.toInt : ZMod 256) = source) (hb : (b.toInt : ZMod 256) = dest) :
    Progress.Shows s (s.transfer o a b)
      ((s.memory n).drain source ((s.memory n).pour offset dest)) := by
  by_cases hz : s.tape.cell s.pointer = 0
  · simp only [transfer, hz, if_true, Memory.drain, h.cell_eq_zero.mpr hz]
    exact h.advance_shows
  · have hne : residue (s.tape.cell s.pointer) ≠ 0 := mt residue_eq_zero.mp hz
    simp only [transfer, hz, if_false, Memory.drain, rounds_cases ha, h.cell, hne]
    cases firstRound? _ with
    | none => simp [Progress.Shows]
    | some count =>
      let place := address s.tape.size (s.pointer + o.toInt)
      let sum := cellWord (s.tape.cell place) + Int64.ofNat count * b
      have hlt : place < n := by
        simp only [place, h.size]
        exact address_lt (NeZero.pos n) _
      have hplace : (place : ZMod n) = (s.memory n).pointer + offset := by
        simp only [place, h.size, cast_address hn, Int.cast_add, ho, Int.cast_natCast]
        rfl
      have hcell : residue (wordCell sum) =
          (s.memory n).cells ((s.memory n).pointer + offset) + count * dest := by
        rw [residue_sum, cast_mul_ofNat, hb, ← hplace]
        simp only [memory, ZMod.val_natCast_of_lt hlt]
      obtain ⟨hfits, hmem⟩ := h.set_memory hlt s.pc (wordCell sum)
      have hshows := hfits.write_shows residue_zero
      rw [hmem, hplace, hcell] at hshows
      exact hshows

end State

/-! ## Encoded instructions -/

/-- A field that fits a word keeps its value in it. -/
theorem toInt_of_word {a : ℤ} {v : Int64} (h : word a = .ok v) : v.toInt = a := by
  unfold word at h
  split at h
  · rename_i hfits
    rw [← Except.ok.inj h]
    exact Int64.toInt_ofInt_of_le hfits.1 (Int.lt_add_one_of_le hfits.2)
  · cases h

theorem map_word_eq_ok {a : ℤ} {f : Int64 → Word} {w : Word} (h : (word a).map f = .ok w) :
    ∃ v, v.toInt = a ∧ w = f v := by
  cases hw : word a with
  | error e => rw [hw] at h; cases h
  | ok v =>
    rw [hw] at h
    exact ⟨v, toInt_of_word hw, (Except.ok.inj h).symm⟩

theorem encode_transfer {items : Array Item} {a b c : ℤ} {w : Word}
    (h : (Op.transfer a b c).encode items = .ok w) :
    ∃ u v x, u.toInt = a ∧ v.toInt = b ∧ x.toInt = c ∧ w = .transfer u v x := by
  simp only [Op.encode, bind, Except.bind, pure, Except.pure] at h
  split at h
  · cases h
  · rename_i u hu
    split at h
    · cases h
    · rename_i v hv
      split at h
      · cases h
      · rename_i x hx
        exact ⟨u, v, x, toInt_of_word hu, toInt_of_word hv, toInt_of_word hx,
          (Except.ok.inj h).symm⟩

/-- **An encoded instruction has its effect.** On a tape whose size is a power of two, the word of
an instruction that is no bracket does to a state what the effect says of its memory. -/
theorem apply_effect [NeZero n] {k : ℕ} (hn : n = 2 ^ k) {s : State} (h : s.Fits n)
    {op : Op} {items : Array Item} {w : Word} (hw : op.encode items = .ok w)
    (hs : op.side? = none) : Progress.Shows s (w.apply s) (op.effect (s.memory n)) := by
  cases op with
  | add delta =>
    obtain ⟨v, rfl, rfl⟩ := map_word_eq_ok hw
    apply h.write_shows
    rw [residue_sum, h.cell]
  | move offset =>
    obtain ⟨v, rfl, rfl⟩ := map_word_eq_ok hw
    exact h.move_shows hn rfl
  | input => cases hw; exact ⟨rfl, rfl⟩
  | output => cases hw; exact ⟨rfl, rfl⟩
  | opening target => cases hs
  | closing target => cases hs
  | clear => cases hw; exact h.write_shows residue_zero
  | scanLeft => cases hw; simpa [Op.effect, Word.apply] using h.scanBy_shows hn (-1) (by simp)
  | scanRight => cases hw; simpa [Op.effect, Word.apply] using h.scanBy_shows hn 1 (by simp)
  | drain step =>
    obtain ⟨v, rfl, rfl⟩ := map_word_eq_ok hw
    exact h.drain_shows rfl
  | transfer offset sourceDelta destDelta =>
    obtain ⟨u, v, x, rfl, rfl, rfl, rfl⟩ := encode_transfer hw
    exact h.transfer_shows hn rfl rfl rfl

end TapeMachine
