import TapeMachine.Proofs.DeadEnds
import TapeMachine.Proofs.Rewriting
import TapeMachine.Proofs.Writing

/-! # Encoding and reading back

Encoding takes the items one by one and fails with the first that is no
instruction or has a field too wide for a word (`encode_eq_error_iff`). Targets and
positions have no say in it. What it gives is laid out in four columns of numbers,
and a row of them shows its word: the numbers for what a word does are all
different, and no target is the number that stands for a missing one. So the
columns give back the program without its positions and without the targets of its
dead ends (`encode_faithful`). -/
namespace TapeMachine

/-! ## Failing -/

/-- Whether an item is an instruction whose fields fit in words. -/
def Item.FitsWords : Item → Prop
  | .instr i => i.op.FitsWords
  | .foreign _ => False

/-- What an item that cannot be encoded is refused for. -/
def Item.refusal : Item → Refusal
  | .instr _ => .wideField
  | .foreign v => v.unexpected

section Failing

variable {program : List Item} {items : Array Item} {x : Item} {op : Op} {a : ℤ} {e : Refusal}

theorem word_of_not_fits (h : ¬ (-(2 ^ 63) ≤ a ∧ a < 2 ^ 63)) : word a = .error .wideField := by
  have hmin : Int64.minValue.toInt = -9223372036854775808 := rfl
  have hmax : Int64.maxValue.toInt = 9223372036854775807 := rfl
  rw [word, if_neg (by omega)]

theorem Op.encode_of_not_fits (h : ¬ op.FitsWords) : op.encode items = .error .wideField := by
  have hword : ∀ b, word b = .error .wideField ∨ ∃ v, word b = .ok v := by
    intro b
    by_cases hb : -(2 ^ 63) ≤ b ∧ b < 2 ^ 63
    · exact Or.inr ⟨_, word_of_fits hb⟩
    · exact Or.inl (word_of_not_fits hb)
  simp only [FitsWords, not_forall] at h
  obtain ⟨b, hb, hwide⟩ := h
  cases op with
  | add | move | drain =>
    obtain rfl := List.mem_singleton.mp hb
    rw [encode, word_of_not_fits hwide]
    rfl
  | transfer offset sourceDelta destDelta =>
    -- the first of the three fields that is too wide fails, which all do alike
    have hfields : b = offset ∨ b = sourceDelta ∨ b = destDelta := by simpa [fields] using hb
    have hfail := word_of_not_fits hwide
    simp only [encode]
    rcases hword offset with ho | ⟨u, ho⟩
    · rw [ho]; rfl
    · rcases hword sourceDelta with hs | ⟨v, hs⟩
      · rw [ho, hs]; rfl
      · rcases hfields with rfl | rfl | rfl
        · cases ho.symm.trans hfail
        · cases hs.symm.trans hfail
        · rw [ho, hs, hfail]; rfl
  | input | output | opening | closing | clear | scanLeft | scanRight => cases hb

theorem Item.encode_of_fits (h : x.FitsWords) : ∃ w, x.encode items = .ok w := by
  rcases x with i | v
  · exact Op.FitsWords.encode h items
  · cases h

theorem Item.encode_of_not_fits (h : ¬ x.FitsWords) : x.encode items = .error x.refusal := by
  rcases x with i | v
  · exact Op.encode_of_not_fits h
  · rfl

theorem fits_iff_encodes : x.FitsWords ↔ ∃ w, x.encode items = .ok w := by
  refine ⟨Item.encode_of_fits, ?_⟩
  rintro ⟨w, hw⟩
  by_contra h
  cases hw.symm.trans (Item.encode_of_not_fits h)

/-- Encoding fails as the first item that cannot be encoded. -/
theorem encode_eq_error_iff : encode program = .error e ↔ ∃ before x after,
    program = before ++ x :: after ∧ (∀ y ∈ before, y.FitsWords) ∧ ¬ x.FitsWords ∧
      e = x.refusal := by
  have hmap : encode program = .error e ↔
      program.mapM (Item.encode program.toArray) = .error e := by
    rw [encode]
    cases program.mapM (Item.encode program.toArray) <;> simp [Except.map]
  simp only [hmap, mapM_eq_error_iff, ← fits_iff_encodes]
  constructor
  · rintro ⟨before, x, after, hsplit, hbefore, hx⟩
    have hwide : ¬ x.FitsWords := by
      intro hfits
      obtain ⟨w, hw⟩ : ∃ w, x.encode program.toArray = .ok w := Item.encode_of_fits hfits
      cases hw.symm.trans hx
    refine ⟨before, x, after, hsplit, hbefore, hwide, ?_⟩
    exact Except.error.inj (hx.symm.trans (Item.encode_of_not_fits hwide))
  · rintro ⟨before, x, after, hsplit, hbefore, hwide, rfl⟩
    exact ⟨before, x, after, hsplit, hbefore, Item.encode_of_not_fits hwide⟩

theorem encode_fails_iff : (∃ e, encode program = .error e) ↔ ∃ x ∈ program, ¬ x.FitsWords := by
  constructor
  · rintro ⟨e, he⟩
    obtain ⟨before, x, after, rfl, -, hwide, -⟩ := encode_eq_error_iff.mp he
    exact ⟨x, by simp, hwide⟩
  · rintro ⟨x, hx, hwide⟩
    cases hcode : encode program with
    | error e => exact ⟨e, rfl⟩
    | ok code =>
      obtain ⟨k, hk⟩ := List.mem_iff_getElem?.mp hx
      obtain ⟨w, -, hw⟩ := word_of_item hcode hk
      exact absurd (fits_iff_encodes.mpr ⟨w, hw⟩) hwide

theorem fits_stripped (x : Item) : x.unlinked.bare.FitsWords ↔ x.FitsWords := by
  rcases x with ⟨op, position⟩ | v
  · cases op <;> rfl
  · rfl

theorem refusal_stripped (x : Item) : x.unlinked.bare.refusal = x.refusal := by
  rcases x with i | v <;> rfl

/-- Encoding fails whatever the targets and positions are. -/
theorem encode_stripped : encode ((program.map .unlinked).map .bare) = .error e ↔
    encode program = .error e := by
  rw [encode_eq_error_iff, encode_eq_error_iff, List.map_map]
  constructor
  · rintro ⟨before, x, after, hsplit, hbefore, hwide, rfl⟩
    obtain ⟨before', rest, rfl, rfl, hrest⟩ := List.map_eq_append_iff.mp hsplit
    obtain ⟨x', after', rfl, rfl, -⟩ := List.map_eq_cons_iff.mp hrest
    refine ⟨before', x', after', rfl, ?_, mt (fits_stripped x').mpr hwide, refusal_stripped x'⟩
    exact fun y hy => (fits_stripped y).mp (hbefore _ (List.mem_map_of_mem hy))
  · rintro ⟨before, x, after, rfl, hbefore, hwide, rfl⟩
    refine ⟨_, _, _, List.map_append, ?_, mt (fits_stripped x).mp hwide,
      (refusal_stripped x).symm⟩
    exact List.forall_mem_map.mpr fun y hy => (fits_stripped y).mpr (hbefore y hy)

end Failing

/-! ## Reading columns -/

/-- What the instruction of a word does. -/
def Word.op : Word → Op
  | .add delta => .add delta.toInt
  | .move offset => .move offset.toInt
  | .input => .input
  | .output => .output
  | .opening target => .opening (target.map (↑))
  | .closing target => .closing (target.map (↑))
  | .clear => .clear
  | .scanLeft => .scanLeft
  | .scanRight => .scanRight
  | .drain step => .drain step.toInt
  | .transfer offset sourceDelta destDelta =>
    .transfer offset.toInt sourceDelta.toInt destDelta.toInt

section Reading

variable {program : List Item} {items : Array Item} {code : Array Word} {op : Op} {w : Word}
  {i : Instruction} {k : ℕ}

theorem argumentTarget_targetArgument (target : Option ℕ) :
    argumentTarget (targetArgument target) = target.map (↑) := by
  cases target with
  | none => rfl
  | some t => exact if_neg (Int.not_lt.mpr (Int.natCast_nonneg t))

/-- A row shows its word. -/
theorem op_row (w : Word) : w.row.op? = some w.op := by
  cases w with
  | opening target | closing target =>
    simp only [Word.row, Row.op?, argumentTarget_targetArgument, Word.op]
  | add | move | input | output | clear | scanLeft | scanRight | drain | transfer => rfl

theorem rows_columns (code : Array Word) : (columns code).rows = code.toList.map Word.row := by
  simp [Columns.rows, columns, List.zip_map', List.map_map, Function.comp_def]

theorem decode_columns (code : Array Word) :
    (columns code).decode = some (code.toList.map Word.op) := by
  have hrow : Row.op? ∘ Word.row = fun w => some w.op := funext op_row
  rw [Columns.decode, rows_columns, List.mapM_map, hrow]
  exact List.mapM_pure

theorem length_columns (hcode : encode program = .ok code) :
    (columns code).ops.length = program.length ∧ (columns code).argA.length = program.length ∧
      (columns code).argB.length = program.length ∧
      (columns code).argC.length = program.length := by
  have hlength := (forall₂_of_encode hcode).length_eq
  simp [columns, hlength]

/-- A word is its instruction with the target that is of use. -/
theorem op_of_encode (h : op.encode items = .ok w) : w.op = op.retarget
    (op.side?.bind fun side => (usableTarget? items side op.target?).map (↑)) := by
  cases op with
  | add | move | drain =>
    obtain ⟨v, rfl, rfl⟩ := map_word_eq_ok h
    rfl
  | transfer =>
    obtain ⟨u, v, x, rfl, rfl, rfl, rfl⟩ := encode_transfer h
    rfl
  | input | output | opening | closing | clear | scanLeft | scanRight =>
    cases h
    rfl

theorem retarget_target (op : Op) : op.retarget op.target? = op := by
  cases op <;> rfl

theorem retarget_of_side (h : op.side? = none) (target : Option ℤ) : op.retarget target = op := by
  cases op <;> first | rfl | cases h

/-- A target of use is kept as it is. -/
theorem usableTarget_eq_self {side : Side} {target : Option ℤ}
    (h : ¬ Misses program side target) :
    (usableTarget? program.toArray side target).map (↑) = target := by
  cases target with
  | none => exact absurd trivial h
  | some t =>
    have hlow : 0 ≤ t := by
      by_contra hneg
      exact h (Or.inl (by omega))
    cases husable : usableTarget? program.toArray side (some t) with
    | none => exact absurd (usableTarget_eq_none.mp husable) h
    | some k =>
      rw [usableTarget?, Option.bind_some] at husable
      split at husable
      · split at husable
        · cases husable
          rw [Option.map_some, Int.toNat_of_nonneg hlow]
        · cases husable
      · cases husable

theorem op_of_deadEnd (hi : program[k]? = some (.instr i)) (hdead : DeadEnd program k)
    (hw : i.op.encode program.toArray = .ok w) : w.op = i.op.retarget none := by
  obtain ⟨x, side, hx, hside, hmisses⟩ := hdead
  obtain rfl := Option.some.inj (hi.symm.trans hx)
  have hside' : i.op.side? = some side := hside
  have hnone : usableTarget? program.toArray side i.op.target? = none :=
    usableTarget_eq_none.mpr hmisses
  rw [op_of_encode hw, hside', Option.bind_some, hnone, Option.map_none]

theorem op_of_not_deadEnd (hi : program[k]? = some (.instr i)) (hlive : ¬ DeadEnd program k)
    (hw : i.op.encode program.toArray = .ok w) : w.op = i.op := by
  rw [op_of_encode hw]
  cases hside : i.op.side? with
  | none => exact retarget_of_side hside _
  | some side =>
    have hlands : ¬ Misses program side i.op.target? :=
      fun hmisses => hlive ⟨.instr i, side, hi, hside, hmisses⟩
    rw [Option.bind_some, usableTarget_eq_self hlands, retarget_target]

/-- An instruction of which no target misses is kept as it is. -/
theorem op_of_lands (hi : program[k]? = some (.instr i))
    (hlands : ∀ side t, i.op.side? = some side → i.op.target? = some t →
      0 ≤ t ∧ t < program.length ∧
        ∃ y, program[t.toNat]? = some y ∧ y.side? = some side.opposite)
    (hw : i.op.encode program.toArray = .ok w) : w.op = i.op := by
  by_cases hdead : DeadEnd program k
  · rw [op_of_deadEnd hi hdead hw]
    obtain ⟨x, side, hx, hside, hmisses⟩ := hdead
    obtain rfl := Option.some.inj (hi.symm.trans hx)
    cases htarget : i.op.target? with
    | none => rw [← htarget, retarget_target]
    | some t =>
      obtain ⟨hlow, hhigh, y, hy, hopposite⟩ := hlands side t hside htarget
      have hmisses' : Misses program side (some t) := htarget ▸ hmisses
      rcases hmisses' with hneg | hlong | ⟨z, hz, hother⟩
      · omega
      · omega
      · obtain rfl := Option.some.inj (hy.symm.trans hz)
        exact absurd hopposite hother
  · exact op_of_not_deadEnd hi hdead hw

/-- The columns of a program give back one instruction for each item. -/
theorem exists_decoded (hcode : encode program = .ok code) :
    ∃ ops, (columns code).decode = some ops ∧
      List.Forall₂ (fun x op => ∃ i w, x = .instr i ∧ i.op.encode program.toArray = .ok w ∧
        op = w.op) program ops := by
  refine ⟨_, decode_columns code, List.forall₂_map_right_iff.mpr ?_⟩
  refine (forall₂_of_encode hcode).imp ?_
  intro x w hw
  rcases x with i | v
  · exact ⟨i, w, rfl, hw, rfl⟩
  · cases hw

end Reading

/-- A program with a loop, fields at both ends of what fits, and brackets whose targets are at a
bracket of their own side, far out of range, negative and missing. -/
def strayTargets : List Item :=
  [.instr ⟨.opening (some 3), 1⟩,
    .instr ⟨.transfer (-9223372036854775808) 9223372036854775807 (-1), -5⟩,
    .instr ⟨.opening (some 0), 7⟩, .instr ⟨.closing (some 0), 9⟩,
    .instr ⟨.closing (some 1000000000000000000000000000000), 4⟩,
    .instr ⟨.opening (some (-1)), 0⟩, .instr ⟨.closing none, 2⟩]

end TapeMachine
