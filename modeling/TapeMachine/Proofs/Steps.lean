import Mathlib.Data.Int.Notation
import Mathlib.Data.Nat.Notation
import TapeMachine.Stream.Condense
import TapeMachine.Stream.Link

/-! # Steps and brackets of a stream

What folding, collapsing and pairing look at in an item: whether it is a step,
and of which axis and amount, or a bracket, and of which side. -/
namespace TapeMachine

def Instruction.side? (i : Instruction) : Option Side := i.op.side?

section Steps

variable {axis : Axis} {amount : ℤ} {op : Op} {i : Instruction} {f : Folder}

theorem step_eq (h : op.step? = some (axis, amount)) : op = axis.step amount := by
  cases op <;> cases h <;> rfl

@[simp] theorem step_step : (axis.step amount).step? = some (axis, amount) := by
  cases axis <;> rfl

theorem side_of_step (h : op.step? = some (axis, amount)) : op.side? = none := by
  rw [step_eq h]
  cases axis <;> rfl

theorem step_of_isIdiom (h : op.isIdiom = true) : op.step? = none := by
  cases op <;> first | rfl | cases h

@[simp] theorem step_item_side {position : ℤ} :
    (Item.instr ⟨axis.step amount, position⟩).side? = none := by
  cases axis <;> rfl

@[simp] theorem step_item_isIdiom {position : ℤ} :
    (Item.instr ⟨axis.step amount, position⟩).isIdiom = false := by
  cases axis <;> rfl

@[simp] theorem wrap_wrap : axis.wrap (axis.wrap amount) = axis.wrap amount := by
  cases axis <;> exact Int.emod_emod_of_dvd _ (Int.dvd_refl _)

theorem wrap_nonneg : 0 ≤ axis.wrap amount := by
  cases axis <;> exact Int.emod_nonneg _ (by decide)

theorem wrap_lt : axis.wrap amount < 65536 := by
  cases axis
  · exact Int.lt_trans (Int.emod_lt_of_pos _ (by decide : (0 : ℤ) < 256)) (by decide)
  · exact Int.emod_lt_of_pos _ (by decide)

/-! ## Reading -/

theorem lastRun?_eq_some {out rest : List Item} {position : ℤ}
    (h : Folder.lastRun? axis out = some (amount, position, rest)) :
    out = .instr ⟨axis.step amount, position⟩ :: rest := by
  unfold Folder.lastRun? at h
  split at h
  · rename_i op position' rest'
    cases hstep : op.step? with
    | none => simp [hstep] at h
    | some result =>
      obtain ⟨axis', amount'⟩ := result
      rw [hstep] at h
      by_cases hax : axis' = axis
      · subst hax
        simp only [if_pos, Option.some.injEq, Prod.mk.injEq] at h
        obtain ⟨rfl, rfl, rfl⟩ := h
        rw [step_eq hstep]
      · simp [hax] at h
  · cases h

theorem lastRun?_cons {rest : List Item} {position : ℤ} :
    Folder.lastRun? axis (.instr ⟨axis.step amount, position⟩ :: rest) =
      some (amount, position, rest) := by
  simp [Folder.lastRun?]

theorem push_of_step (h : i.op.step? = some (axis, amount)) :
    f.push (.instr i) = f.pushStep axis amount i.position := by
  obtain ⟨op, position⟩ := i
  have hop : op.step? = some (axis, amount) := h
  simp only [Folder.push, hop]

theorem push_of_not_step (h : i.op.step? = none) :
    f.push (.instr i) = ⟨.instr i :: f.out, none⟩ := by
  obtain ⟨op, position⟩ := i
  have hop : op.step? = none := h
  simp only [Folder.push, hop]

end Steps

/-! ## Pairing -/

section Pairing

variable {p : Pairing} {x : Item}

theorem pair_of_none (h : x.side? = none) :
    p.push x = .ok ⟨p.opened, p.partners.push none⟩ := by
  rcases x with ⟨op, position⟩ | v
  · cases op <;> first | rfl | cases h
  · rfl

theorem pair_of_opening (h : x.side? = some .opening) :
    p.push x = .ok ⟨(p.partners.size, x.position) :: p.opened, p.partners.push none⟩ := by
  rcases x with ⟨op, position⟩ | v
  · cases op <;> first | rfl | cases h
  · cases h

theorem pair_of_closing {opened : List (ℕ × ℤ)} {partners : Array (Option ℕ)} {start : ℕ}
    {position : ℤ} (h : x.side? = some .closing) :
    (Pairing.mk ((start, position) :: opened) partners).push x =
      .ok ⟨opened, (partners.setIfInBounds start (some partners.size)).push (some start)⟩ := by
  rcases x with ⟨op, position⟩ | v
  · cases op <;> first | rfl | cases h
  · cases h

theorem pair_of_unopened {partners : Array (Option ℕ)} (h : x.side? = some .closing) :
    (Pairing.mk [] partners).push x = .error x.position := by
  rcases x with ⟨op, position⟩ | v
  · cases op <;> first | rfl | cases h
  · cases h

end Pairing

/-! ## Brackets without a target -/

/-- An instruction without a target. -/
def Instruction.unlinked (i : Instruction) : Instruction := { i with op := i.op.retarget none }

theorem item_unlinked (i : Instruction) : (Item.instr i).unlinked = .instr i.unlinked := rfl

@[simp] theorem unlinked_side (i : Instruction) : i.unlinked.side? = i.side? := by
  obtain ⟨op, position⟩ := i
  cases op <;> rfl

theorem unlinked_of_side {i : Instruction} (h : i.side? = none) : i.unlinked = i := by
  obtain ⟨op, position⟩ := i
  cases op <;> first | rfl | cases h

theorem step_of_side {i : Instruction} {side : Side} (h : i.side? = some side) :
    i.op.step? = none := by
  obtain ⟨op, position⟩ := i
  cases op <;> first | rfl | cases h

end TapeMachine
