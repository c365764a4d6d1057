import TapeMachine.Proofs.Stops

/-! # Rotations

A tape whose size is a power of two is a circle, and none of its cells is
special. A memory that is turned holds every cell and the pointer as many places
on; whatever an instruction does to it is what it does to the memory before,
turned (`effect_turn`). A run on a rotated tape is therefore the run on the tape
itself, rotated (`run_rotate`). -/
namespace TapeMachine

/-! ## Memories -/

namespace Memory

variable {n : ℕ}

/-- The memory with its cells and its pointer moved on by a number of places. -/
def turn (m : Memory n) (r : ZMod n) : Memory n := ⟨fun i => m.cells (i - r), m.pointer + r⟩

variable {m : Memory n} {r offset : ZMod n}

@[simp] theorem turn_pointer : (m.turn r).pointer = m.pointer + r := rfl

@[simp] theorem turn_cells (i : ZMod n) : (m.turn r).cells (i + r) = m.cells i :=
  congrArg m.cells (add_sub_cancel_right i r)

@[simp] theorem turn_cell : (m.turn r).cell = m.cell := turn_cells m.pointer

theorem turn_place : m.pointer + r + offset = m.pointer + offset + r := add_right_comm ..

/-- Setting a cell of a turned memory sets the cell it came from. -/
theorem update_turn (place : ZMod n) (v : ZMod 256) :
    Function.update (m.turn r).cells (place + r) v =
      fun i => Function.update m.cells place v (i - r) := by
  funext i
  by_cases hi : i = place + r
  · simp [hi]
  · have hne : i - r ≠ place := fun h => hi (eq_add_of_sub_eq h)
    simp [Function.update_of_ne, hi, hne, turn]

theorem write_turn (v : ZMod 256) : (m.turn r).write v = (m.write v).turn r := by
  ext i
  · exact congrFun (update_turn m.pointer v) i
  · rfl

theorem writeAt_turn (v : ZMod 256) : (m.turn r).writeAt offset v = (m.writeAt offset v).turn r := by
  ext i
  · show Function.update (m.turn r).cells (m.pointer + r + offset) v i = _
    rw [turn_place, update_turn]
    rfl
  · rfl

theorem move_turn : (m.turn r).move offset = (m.move offset).turn r := by
  ext
  · rfl
  · exact turn_place

theorem isGap_turn (step : ZMod n) : (m.turn r).IsGap step = m.IsGap step := by
  funext rounds
  rw [IsGap, IsGap, turn_pointer, turn_place, turn_cells]

theorem scan_turn (step : ZMod n) : (m.turn r).scan step = (m.scan step).map (turn · r) := by
  rw [scan, scan, turn_cell, isGap_turn]
  split
  · rfl
  · cases firstRound? (m.IsGap step) with
    | none => rfl
    | some rounds => exact congrArg _ move_turn

theorem drain_turn {step : ZMod 256} {emptied emptied' : ℕ → Memory n}
    (h : ∀ rounds, emptied' rounds = (emptied rounds).turn r) :
    (m.turn r).drain step emptied' = (m.drain step emptied).map (turn · r) := by
  rw [drain, drain, turn_cell]
  split
  · rfl
  · cases firstRound? fun rounds : ℕ => m.cell + rounds * step = 0 with
    | none => rfl
    | some rounds => exact congrArg _ (h rounds)

theorem pour_turn (amount : ZMod 256) (rounds : ℕ) :
    (m.turn r).pour offset amount rounds = (m.pour offset amount rounds).turn r := by
  rw [pour, pour, turn_pointer, turn_place, turn_cells, writeAt_turn, write_turn]

end Memory

/-- **No instruction knows where on the circle it is.** -/
theorem effect_turn {n : ℕ} (op : Op) (m : Memory n) (r : ZMod n) :
    op.effect (m.turn r) = (op.effect m).map (Memory.turn · r) := by
  cases op with
  | add delta | clear => simp [Op.effect, Except.map, Memory.write_turn]
  | move offset => simp [Op.effect, Except.map, Memory.move_turn]
  | input | output | opening | closing => rfl
  | scanLeft | scanRight => exact Memory.scan_turn _
  | drain step => exact Memory.drain_turn fun _ => Memory.write_turn 0
  | transfer offset sourceDelta destDelta => exact Memory.drain_turn (Memory.pour_turn _)

/-! ## States -/

/-- The address `r` places on from another one, on a circle of the given size. -/
def rotated (size : ℕ) (r : ℤ) (i : ℕ) : ℕ := ((i + r) % size).toNat

/-- The tape with every cell moved on by `r` places. -/
def Tape.rotate (tape : Tape) (r : ℤ) : Tape :=
  Array.ofFn fun i : Fin tape.size => tape.cell (rotated tape.size (-r) i)

/-- The state with its tape and its pointer moved on by `r` places. -/
def State.rotate (r : ℤ) (s : State) : State :=
  ⟨s.pc, rotated s.tape.size r s.pointer, s.tape.rotate r⟩

section Rotate

variable {n k : ℕ} {s t : State} {tape : Tape} {r : ℤ} {w : Word} {code : Array Word}

theorem rotated_val [NeZero n] (r : ℤ) (i : ℕ) : ((i : ZMod n) + (r : ZMod n)).val = rotated n r i := by
  rw [rotated, toNat_emod]
  push_cast
  rfl

@[simp] theorem size_rotate : (tape.rotate r).size = tape.size := Array.size_ofFn

theorem cell_rotate {i : ℕ} (h : i < tape.size) :
    (tape.rotate r).cell i = tape.cell (rotated tape.size (-r) i) := by
  simp [Tape.rotate, Tape.cell, Array.getD_eq_getD_getElem?, h]

theorem cell_rotated {i : ℕ} (h : i < tape.size) :
    (tape.rotate r).cell (rotated tape.size r i) = tape.cell i := by
  have : NeZero tape.size := ⟨by omega⟩
  have hback : rotated tape.size (-r) (rotated tape.size r i) = i := by
    rw [← rotated_val, ← rotated_val, ZMod.natCast_zmod_val, Int.cast_neg, add_neg_cancel_right,
      ZMod.val_natCast_of_lt h]
  have hplace : rotated tape.size r i < tape.size := rotated_val (n := tape.size) r i ▸ ZMod.val_lt _
  rw [cell_rotate hplace, hback]

/-- A rotated state stands for the memory that is turned. -/
theorem State.Fits.rotate [NeZero n] (h : s.Fits n) (r : ℤ) :
    (s.rotate r).Fits n ∧ (s.rotate r).memory n = (s.memory n).turn r := by
  obtain ⟨hsize, hinside⟩ := h
  have hpointer : (s.rotate r).pointer = ((s.pointer : ZMod n) + (r : ZMod n)).val := by
    rw [rotated_val, ← hsize]
    rfl
  refine ⟨⟨size_rotate.trans hsize, hpointer ▸ ZMod.val_lt _⟩, ?_⟩
  ext i
  · have hi : i.val < s.tape.size := hsize ▸ ZMod.val_lt i
    have hplace : rotated n (-r) i.val = (i - r).val := by
      rw [← rotated_val, ZMod.natCast_zmod_val, Int.cast_neg, sub_eq_add_neg]
    show residue ((s.tape.rotate r).cell i.val) = residue (s.tape.cell (i - r).val)
    rw [cell_rotate hi, hsize, hplace]
  · show ((s.rotate r).pointer : ZMod n) = _
    rw [hpointer, ZMod.natCast_zmod_val]
    rfl

/-! ## Instructions -/

theorem word_toInt (a : Int64) : word a.toInt = .ok a := by
  rw [word, if_pos ⟨a.minValue_le_toInt, a.toInt_le⟩, Int64.ofInt_toInt]

/-- A word is a bracket or encodes an instruction that is none. -/
theorem Word.exists_op (w : Word) :
    (∃ target, w = opening target ∨ w = closing target) ∨
      ∃ op : Op, op.side? = none ∧ op.encode #[] = .ok w := by
  cases w with
  | opening target => exact Or.inl ⟨target, Or.inl rfl⟩
  | closing target => exact Or.inl ⟨target, Or.inr rfl⟩
  | add delta => exact Or.inr ⟨.add delta.toInt, rfl, by rw [Op.encode, word_toInt]; rfl⟩
  | move offset => exact Or.inr ⟨.move offset.toInt, rfl, by rw [Op.encode, word_toInt]; rfl⟩
  | drain delta => exact Or.inr ⟨.drain delta.toInt, rfl, by rw [Op.encode, word_toInt]; rfl⟩
  | transfer offset sourceDelta destDelta =>
    refine Or.inr ⟨.transfer offset.toInt sourceDelta.toInt destDelta.toInt, rfl, ?_⟩
    rw [Op.encode, word_toInt, word_toInt, word_toInt]
    rfl
  | input => exact Or.inr ⟨.input, rfl, rfl⟩
  | output => exact Or.inr ⟨.output, rfl, rfl⟩
  | clear => exact Or.inr ⟨.clear, rfl, rfl⟩
  | scanLeft => exact Or.inr ⟨.scanLeft, rfl, rfl⟩
  | scanRight => exact Or.inr ⟨.scanRight, rfl, rfl⟩

/-- Two states that stand for one memory at one place are the same. -/
theorem State.Fits.eq_of_shows (hs : s.Fits n) (ht : t.Fits n) (hpc : s.pc = t.pc)
    (h : s.memory n = t.memory n) : s = t := by
  obtain ⟨htape, hpointer⟩ := hs.eq_of_memory ht h
  cases s
  cases t
  simp_all

theorem State.Fits.jump_rotate [NeZero n] (h : s.Fits n) (target : Option ℕ) (onZero : Bool) :
    (s.rotate r).jump target onZero = (s.jump target onZero).map (State.rotate r) := by
  obtain ⟨hfits, hmem⟩ := h.rotate r
  have hcell : (s.rotate r).tape.cell (s.rotate r).pointer = s.tape.cell s.pointer := by
    apply residue_injective
    rw [← hfits.cell, hmem, Memory.turn_cell, h.cell]
  cases target with
  | none => rfl
  | some target =>
    rw [jump, jump, hcell, Progress.map]
    split <;> rfl

/-- **A word does to a rotated state what it does to the state, rotated.** -/
theorem State.Fits.apply_rotate [NeZero n] (h : s.Fits n) (hn : n = 2 ^ k) (w : Word) :
    w.apply (s.rotate r) = (w.apply s).map (State.rotate r) := by
  rcases w.exists_op with ⟨target, rfl | rfl⟩ | ⟨op, hplain, hencode⟩
  · exact h.jump_rotate target true
  · exact h.jump_rotate target false
  · obtain ⟨hfits, hmem⟩ := h.rotate r
    have hshows := apply_effect hn h hencode hplain
    have hrotated := apply_effect hn hfits hencode hplain
    rw [hmem, effect_turn] at hrotated
    cases heffect : op.effect (s.memory n) with
    | ok m =>
      rw [heffect] at hshows hrotated
      obtain ⟨t, hnext, hpc, ht, htm⟩ := hshows.of_ok
      obtain ⟨u, hnext', hpc', hu, hum⟩ := hrotated.of_ok
      obtain ⟨hfits', hmem'⟩ := ht.rotate r
      have heq : u = t.rotate r :=
        hu.eq_of_shows hfits' (hpc'.trans hpc.symm) (by rw [hum, hmem', htm])
      rw [hnext, hnext', heq, Progress.map]
    | error why =>
      rw [heffect] at hshows hrotated
      rw [hshows.of_error, hrotated.of_error, Progress.map]

theorem State.Fits.step_rotate [NeZero n] (h : s.Fits n) (hn : n = 2 ^ k) (code : Array Word) :
    step code (s.rotate r) = (step code s).map (State.rotate r) := by
  have hword : code[(s.rotate r).pc]? = code[s.pc]? := rfl
  rw [step, step, hword]
  cases code[s.pc]? with
  | none => rfl
  | some w => exact h.apply_rotate hn w

end Rotate

/-! ## Runs -/

/-- **The tape is a circle with no special cell.** On a tape whose size is a power of two, moving
every cell and the pointer on by the same number of places moves the outcome of every run on by it
and changes nothing else: for every budget the run on the rotated tape stops exactly if the run on
the tape does, at the same instruction for the same reason. -/
theorem run_rotate (code : Array Word) (s : State) (k : ℕ) (hsize : s.tape.size = 2 ^ k)
    (hpointer : s.pointer < s.tape.size) (r : ℤ) :
    (s.tape.rotate r).size = s.tape.size ∧
      (∀ i < s.tape.size,
        (s.tape.rotate r).cell (rotated s.tape.size r i) = s.tape.cell i) ∧
      ∀ budget, runToStop code budget ⟨s.pc, rotated s.tape.size r s.pointer, s.tape.rotate r⟩ =
        (runToStop code budget s).map fun (why, t) =>
          (why, ⟨t.pc, rotated s.tape.size r t.pointer, t.tape.rotate r⟩) := by
  have hfits : s.Fits (2 ^ k) := ⟨hsize, hsize ▸ hpointer⟩
  refine ⟨size_rotate, fun i hi => cell_rotated hi, ?_⟩
  intro budget
  have hrun : runToStop code budget (s.rotate r) =
      (runToStop code budget s).map (Prod.map id (State.rotate r)) :=
    runToStop_map (fun _ _ => step_fits) (fun t ht => ht.step_rotate rfl code) hfits budget
  rw [State.rotate] at hrun
  rw [hrun]
  cases hstops : runToStop code budget s with
  | none => rfl
  | some stop =>
    obtain ⟨why, t⟩ := stop
    have ht : t.tape.size = s.tape.size := (runToStop_fits hfits hstops).size.trans hsize.symm
    rw [← ht]
    rfl

/-- On four cells a transfer from the last cell pours into the first one, and a move follows it
there; turned by one place neither passes the end of the tape. -/
theorem run_rotate_acrossTheEnd :
    let code : Array Word := #[.transfer 1 (-1) 2, .move 1, .scanRight]
    let s : State := ⟨0, 3, #[5, 6, 0, 4]⟩
    (s.tape.rotate 1 = #[4, 5, 6, 0] ∧ rotated 4 1 s.pointer = 0) ∧
      runToStop code 4 s = some (.ended, ⟨3, 2, #[13, 6, 0, 0]⟩) ∧
      runToStop code 4 ⟨0, 0, #[4, 5, 6, 0]⟩ = some (.ended, ⟨3, 3, #[0, 13, 6, 0]⟩) := by
  intro code s
  have hrun : runToStop code 4 s = some (.ended, ⟨3, 2, #[13, 6, 0, 0]⟩) := by cbv
  obtain ⟨-, -, hrotated⟩ := run_rotate code s 2 rfl (by decide) 1
  refine ⟨by decide, hrun, ?_⟩
  have hstart : s.tape.rotate 1 = #[4, 5, 6, 0] := by decide
  have hend : Tape.rotate #[13, 6, 0, 0] 1 = #[0, 13, 6, 0] := by decide
  have hstops := hrotated 4
  rw [hrun, hstart] at hstops
  simpa [s, rotated, hend] using hstops

end TapeMachine
