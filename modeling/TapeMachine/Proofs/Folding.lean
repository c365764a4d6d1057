import TapeMachine.Proofs.Linkage
import TapeMachine.Proofs.Steps

/-! # Folding blocks

Folding takes the steps of a block together and keeps its outcomes. While a
stream is read, what stands behind the last open bracket is a block with the
outcomes of what was read there (`fold_block`): a run that cancels leaves the
block before it, and no step is ever taken past a bracket. -/
namespace TapeMachine

instance : NeZero tapeSize := ⟨by decide⟩

/-- What an instruction of a source does, on the tape of a session. -/
noncomputable def Instruction.act (i : Instruction) :
    Store tapeSize → Option (Outcome (Store tapeSize)) :=
  (Piece.plain i).act

/-- Blocks of instructions with the same outcomes. -/
def Block.Agrees : Block Instruction → Block Instruction → Prop :=
  Same Instruction.act Store.Enters

/-- Blocks of instructions that always end. -/
def Block.Does : Block Instruction → (Store tapeSize → Store tapeSize) → Prop :=
  Total Instruction.act Store.Enters

/-! ## Steps -/

/-- A memory after a step. -/
def Axis.shift : Axis → ℤ → Memory tapeSize → Memory tapeSize
  | .cell, amount, m => m.write (m.cell + amount)
  | .pointer, amount, m => m.move amount

/-- A store after a step. -/
def Store.shift (axis : Axis) (amount : ℤ) (e : Store tapeSize) : Store tapeSize :=
  { e with memory := axis.shift amount e.memory }

section Steps

variable {axis : Axis} {amount before : ℤ} {op : Op}

theorem Store.shift_zero : Store.shift axis 0 = id := by
  funext e
  cases axis <;> simp [Store.shift, Axis.shift]

theorem Store.shift_shift :
    Store.shift axis amount ∘ Store.shift axis before = Store.shift axis (amount + before) := by
  funext e
  cases axis with
  | cell =>
    simp only [Function.comp_apply, Store.shift, Axis.shift, Memory.write_write, Memory.write_cell]
    push_cast
    ring_nf
  | pointer => simp [Store.shift, Axis.shift, Memory.move_move, add_comm]

theorem Store.shift_wrap : Store.shift axis (axis.wrap amount) = Store.shift axis amount := by
  funext e
  cases axis
  · simp [Store.shift, Axis.shift, Axis.wrap, cast_wrap]
  · have h : ((Offset.wrap amount : ℤ) : ZMod tapeSize) = amount := cast_emod 65536 amount
    simp [Store.shift, Axis.shift, Axis.wrap, h]

theorem act_step {i : Instruction} (h : i.op.step? = some (axis, amount)) (e : Store tapeSize) :
    i.act e = some (.ended (e.shift axis amount)) := by
  have heffect : i.op.effect e.memory = .ok (axis.shift amount e.memory) := by
    rw [step_eq h]
    cases axis <;> rfl
  unfold Instruction.act Piece.act
  rw [show (Piece.plain i).instr = i from rfl, heffect]
  rfl

theorem does_step {i : Instruction} (h : i.op.step? = some (axis, amount)) :
    (Block.act i .done).Does (Store.shift axis amount) :=
  Total.cons (act_step h) Total.done

end Steps

/-! ## Runs -/

/-- Whether an instruction can stand in a folded stream: a step is a residue other than zero, and
everything else fits in words. -/
structure Instruction.IsFolded (i : Instruction) : Prop where
  reduced : ∀ axis amount, i.op.step? = some (axis, amount) → axis.wrap amount = amount ∧ amount ≠ 0
  fits : i.op.FitsWords

theorem isFolded_of_not_step {i : Instruction} (h : i.op.step? = none) (hfits : i.op.FitsWords) :
    i.IsFolded where
  reduced axis amount hstep := by
    rw [h] at hstep
    cases hstep
  fits := hfits

/-- The run of an amount, which is empty if it cancels. -/
def Block.run (axis : Axis) (amount position : ℤ) : Block Instruction :=
  if amount = 0 then done else act ⟨axis.step amount, position⟩ done

section Runs

variable {axis : Axis} {amount position : ℤ}

theorem run_does : (Block.run axis amount position).Does (Store.shift axis amount) := by
  unfold Block.run
  split
  · rename_i h
    rw [h, Store.shift_zero]
    exact Total.done
  · exact does_step step_step

theorem run_shaped : (Block.run axis amount position).Shaped Instruction.side? := by
  unfold Block.run
  split
  · trivial
  · exact ⟨side_of_step step_step, trivial⟩

theorem run_folded : ∀ i ∈ (Block.run axis (axis.wrap amount) position).flatten, i.IsFolded := by
  unfold Block.run
  split
  · simp [Block.flatten]
  · rename_i hne
    simp only [Block.flatten, List.mem_singleton, forall_eq]
    constructor
    · intro axis' amount' h
      rw [step_step] at h
      cases h
      exact ⟨wrap_wrap, hne⟩
    · have hlow : 0 ≤ axis.wrap amount := wrap_nonneg
      have hhigh : axis.wrap amount < 65536 := wrap_lt
      have hfields : (axis.step (axis.wrap amount)).fields = [axis.wrap amount] := by
        cases axis <;> rfl
      simp only [Op.FitsWords, hfields, List.mem_singleton, forall_eq]
      omega

theorem settle_out (out : List Item) : (Folder.settle axis amount position out).out.reverse =
    out.reverse ++ (Block.run axis amount position).flatten.map .instr := by
  unfold Folder.settle Block.run
  split <;> simp [Block.flatten]

end Runs

/-! ## Reading a block -/

/-- Whether the folded items are `before` and then a block. -/
structure Folder.Reads (f : Folder) (before : List Item) (b : Block Instruction) : Prop where
  out : f.out.reverse = before ++ b.flatten.map .instr
  shaped : b.Shaped Instruction.side?
  folded : ∀ i ∈ b.flatten, i.IsFolded

/-- Whether no step ends the items. -/
def NoStepLast (l : List Item) : Prop := ∀ axis, Folder.lastRun? axis l.reverse = none

section Reads

variable {f : Folder} {before : List Item} {b : Block Instruction} {i : Instruction} {axis : Axis}
  {amount : ℤ}

/-- The run that ends the items is the last action of the block. -/
theorem Folder.Reads.last_run (h : f.Reads before b) (hbefore : NoStepLast before)
    {first : ℤ} {rest : List Item}
    (hrun : Folder.lastRun? axis f.out = some (amount, first, rest)) :
    ∃ c : Block Instruction, b = c ++ .act ⟨axis.step amount, first⟩ .done ∧
      rest.reverse = before ++ c.flatten.map .instr := by
  have hout := h.out
  rw [lastRun?_eq_some hrun, List.reverse_cons] at hout
  rcases List.eq_nil_or_concat b.flatten with hnil | ⟨init, last, hlast⟩
  · rw [hnil, List.map_nil, List.append_nil] at hout
    have hnone := hbefore axis
    rw [← hout] at hnone
    simp [lastRun?] at hnone
  · rw [hlast, List.concat_eq_append, List.map_append, ← List.append_assoc] at hout
    obtain ⟨hrest, hitem⟩ := List.append_inj' hout rfl
    simp only [List.map_cons, List.map_nil, List.cons.injEq, Item.instr.injEq, and_true] at hitem
    rw [List.concat_eq_append, ← hitem] at hlast
    obtain ⟨c, rfl, rfl⟩ := Block.exists_append_act h.shaped (side_of_step step_step) hlast
    exact ⟨c, rfl, hrest⟩

theorem Folder.Reads.settle {out : List Item} {c : Block Instruction} {position : ℤ}
    (hout : out.reverse = before ++ c.flatten.map .instr) (hc : c.Shaped Instruction.side?)
    (hfolded : ∀ i ∈ c.flatten, i.IsFolded) :
    (Folder.settle axis (axis.wrap amount) position out).Reads before
      (c ++ .run axis (axis.wrap amount) position) where
  out := by rw [settle_out, hout]; simp
  shaped := Block.shaped_append.mpr ⟨hc, run_shaped⟩
  folded := by
    rw [Block.flatten_append, List.forall_mem_append]
    exact ⟨hfolded, run_folded⟩

/-- A step that is read goes into the block. -/
theorem Folder.Reads.push_step (h : f.Reads before b) (hbefore : NoStepLast before)
    (hi : i.op.step? = some (axis, amount)) :
    ∃ c, (f.push (.instr i)).Reads before c ∧ (b ++ .act i .done).Agrees c := by
  rw [push_of_step hi, Folder.pushStep]
  cases hrun : Folder.lastRun? axis f.out with
  | none =>
    refine ⟨_, .settle h.out h.shaped h.folded, .append (.refl _) ?_⟩
    refine Total.same (does_step hi) ?_
    rw [← Store.shift_wrap]
    exact run_does
  | some result =>
    obtain ⟨amount', first, rest⟩ := result
    obtain ⟨c, rfl, hrest⟩ := h.last_run hbefore hrun
    have hfolded := h.folded
    rw [Block.flatten_append, List.forall_mem_append] at hfolded
    refine ⟨_, .settle hrest (Block.shaped_append.mp h.shaped).1 hfolded.1, ?_⟩
    rw [Block.append_assoc]
    refine .append (.refl _) (Total.same (Total.append (does_step step_step) (does_step hi)) ?_)
    have hwrap : Store.shift axis (axis.wrap amount) = Store.shift axis amount := Store.shift_wrap
    rw [← hwrap, Store.shift_shift, ← Store.shift_wrap]
    exact run_does

/-- Anything else that is read stands behind the block. -/
theorem Folder.Reads.push_other (h : f.Reads before b) (hi : i.op.step? = none)
    (hside : i.side? = none) (hfits : i.op.FitsWords) :
    (f.push (.instr i)).Reads before (b ++ .act i .done) where
  out := by
    rw [push_of_not_step hi, List.reverse_cons, h.out]
    simp [Block.flatten]
  shaped := Block.shaped_append.mpr ⟨h.shaped, hside, trivial⟩
  folded := by
    rw [Block.flatten_append, List.forall_mem_append]
    refine ⟨h.folded, ?_⟩
    simp only [Block.flatten, List.mem_singleton, forall_eq]
    exact isFolded_of_not_step hi hfits

end Reads

/-- Folding goes on with a stream. -/
def Folder.pushAll (f : Folder) (stream : List Instruction) : Folder :=
  (stream.map Item.instr).foldl (fun f x => f.push x.unlinked) f

@[simp] theorem pushAll_cons (f : Folder) (i : Instruction) (stream : List Instruction) :
    f.pushAll (i :: stream) = (f.push (Item.instr i).unlinked).pushAll stream := rfl

@[simp] theorem pushAll_append (f : Folder) (stream stream' : List Instruction) :
    f.pushAll (stream ++ stream') = (f.pushAll stream).pushAll stream' := by
  simp [Folder.pushAll]

theorem bracket_fits {i : Instruction} {side : Side} (h : i.side? = some side) :
    i.op.FitsWords := by
  obtain ⟨op, position⟩ := i
  cases op <;> first | cases h; done | simp [Op.FitsWords, Op.fields]

theorem noStepLast_bracket {l : List Item} {i : Instruction} {side : Side}
    (h : i.side? = some side) : NoStepLast (l ++ [.instr i]) := by
  obtain ⟨op, position⟩ := i
  have hop : op.step? = none := step_of_side h
  intro axis
  simp [Folder.lastRun?, hop]

section Brackets

variable {f : Folder} {before : List Item} {a c : Block Instruction} {o e : Instruction}

/-- Behind an opening bracket a new block begins. -/
theorem Folder.Reads.push_opening (h : f.Reads before a) (ho : o.side? = some .opening) :
    (f.push (.instr o)).Reads (before ++ a.flatten.map .instr ++ [.instr o]) .done where
  out := by
    rw [push_of_not_step (step_of_side ho), List.reverse_cons, h.out]
    simp [Block.flatten]
  shaped := trivial
  folded := by simp [Block.flatten]

/-- The closing bracket makes it the body of a loop in the block before. -/
theorem Folder.Reads.push_closing
    (h : f.Reads (before ++ a.flatten.map .instr ++ [.instr o]) c) (ha : a.Shaped Instruction.side?)
    (hfolded : ∀ i ∈ a.flatten, i.IsFolded) (ho : o.side? = some .opening)
    (he : e.side? = some .closing) :
    (f.push (.instr e)).Reads before (a ++ .loop o c e .done) where
  out := by
    rw [push_of_not_step (step_of_side he), List.reverse_cons, h.out]
    simp [Block.flatten]
  shaped := Block.shaped_append.mpr ⟨ha, ho, h.shaped, he, trivial⟩
  folded := by
    simp only [Block.flatten_append, Block.flatten, List.forall_mem_append, List.forall_mem_cons]
    exact ⟨hfolded, isFolded_of_not_step (step_of_side ho) (bracket_fits ho), h.folded,
      isFolded_of_not_step (step_of_side he) (bracket_fits he), by simp⟩

end Brackets

/-- **Reading a block appends a block with the same outcomes.** -/
theorem fold_block {b : Block Instruction} (hb : b.Shaped Instruction.side?)
    (hfits : ∀ i ∈ b.flatten, i.op.FitsWords) {f : Folder} {before : List Item}
    {a : Block Instruction} (ha : f.Reads before a) (hbefore : NoStepLast before) :
    ∃ c, (f.pushAll b.flatten).Reads before c ∧ (a ++ b).Agrees c := by
  induction b generalizing f before a with
  | done => exact ⟨a, ha, by rw [Block.append_done]; exact .refl a⟩
  | act i rest ih =>
    simp only [Block.flatten, List.forall_mem_cons] at hfits
    obtain ⟨c, hc, hagree⟩ : ∃ c, (f.push (.instr i)).Reads before c ∧
        (a ++ .act i .done).Agrees c := by
      cases hstep : i.op.step? with
      | none => exact ⟨_, ha.push_other hstep hb.1 hfits.1, .refl _⟩
      | some result => exact ha.push_step hbefore hstep
    obtain ⟨d, hd, hagree'⟩ := ih hb.2 hfits.2 hc hbefore
    rw [Block.flatten, pushAll_cons, item_unlinked, unlinked_of_side hb.1]
    refine ⟨d, hd, Same.trans ?_ hagree'⟩
    have := hagree.append (.refl rest)
    rwa [Block.append_assoc] at this
  | loop o body e rest ihb ih =>
    obtain ⟨ho, hbody, he, hrest⟩ := hb
    simp only [Block.flatten, List.forall_mem_cons, List.forall_mem_append] at hfits
    obtain ⟨-, hfbody, -, hfrest⟩ := hfits
    have ho' : o.unlinked.side? = some .opening := (unlinked_side o).trans ho
    have he' : e.unlinked.side? = some .closing := (unlinked_side e).trans he
    obtain ⟨c, hc, hagree⟩ := ihb hbody hfbody (ha.push_opening ho') (noStepLast_bracket ho')
    have hclosed := hc.push_closing ha.shaped ha.folded ho' he'
    obtain ⟨d, hd, hagree'⟩ := ih hrest hfrest hclosed hbefore
    refine ⟨d, by simpa [Block.flatten, item_unlinked] using hd, Same.trans ?_ hagree'⟩
    rw [Block.append_assoc]
    exact .append (.refl a) (.loop hagree (.refl rest))

/-- **Folding the stream of a block gives the stream of a folded block with the same outcomes.** -/
theorem foldSteps_flatten {b : Block Instruction} (hb : b.Shaped Instruction.side?)
    (hfits : ∀ i ∈ b.flatten, i.op.FitsWords) :
    ∃ c : Block Instruction, foldSteps (b.flatten.map .instr) = c.flatten.map .instr ∧
      c.Shaped Instruction.side? ∧ (∀ i ∈ c.flatten, i.IsFolded) ∧ b.Agrees c := by
  have hempty : Folder.empty.Reads [] .done := ⟨rfl, trivial, by simp [Block.flatten]⟩
  obtain ⟨c, hc, hagree⟩ := fold_block hb hfits hempty fun axis => rfl
  exact ⟨c, hc.out, hc.shaped, hc.folded, hagree⟩

end TapeMachine
