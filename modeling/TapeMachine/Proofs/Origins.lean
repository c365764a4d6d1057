import TapeMachine.Proofs.Condensing
import TapeMachine.Proofs.Diagnosis
import TapeMachine.Proofs.Positions
import TapeMachine.Proofs.Turns

/-! # Where instructions come from

The program of a source has instructions of three kinds: steps, instructions that
the source has itself, and idioms. Folding makes nothing but steps, and an idiom
stands at the position of the bracket that began its loop. So what asks for input
stands where the source does, and an idiom stands at a loop of the source
(`origin_of_piece`). -/
namespace TapeMachine

/-! ## Condensed streams -/

section Origin

variable {l stream : List Item} {level : Level} {x y : Item}

/-- Whether an item is a step. -/
def Item.isStep (x : Item) : Bool := x.op?.any (·.step?.isSome)

/-- What stands in a stream with its idioms replaced was there or replaces a loop from there. -/
theorem mem_replaceIdioms (h : y ∈ replaceIdioms l) :
    y ∈ l ∨ ∃ o ∈ l, o.side? = some .opening ∧
      ∃ op : Op, op.isIdiom = true ∧ y = .instr ⟨op, o.position⟩ := by
  induction hn : l.length using Nat.strongRecOn generalizing l with
  | _ n ih =>
  cases hl : idiomAt? l with
  | some result =>
    obtain ⟨i, after⟩ := result
    obtain ⟨o, body, e, hloop, rfl⟩ := idiomAt?_eq_some.mp hl
    rw [replaceIdioms_of_idiom hl, List.mem_cons] at h
    rcases h with rfl | h
    · refine Or.inr ⟨o, by simp, hloop.side, i.op, ofBody?_isIdiom hloop.body, ?_⟩
      obtain ⟨target, rfl⟩ := hloop.opening
      rfl
    · rcases ih after.length (hn ▸ idiomAt?_length hl) h rfl with hy | ⟨o', ho', hrest⟩
      · exact Or.inl (by simp [hy])
      · exact Or.inr ⟨o', by simp [ho'], hrest⟩
  | none =>
    cases l with
    | nil => simp [replaceIdioms_nil] at h
    | cons x rest =>
      rw [replaceIdioms_cons hl, List.mem_cons] at h
      rcases h with rfl | h
      · exact Or.inl (by simp)
      · rcases ih rest.length (by simp [← hn]) h rfl with hy | ⟨o, ho, hrest⟩
        · exact Or.inl (by simp [hy])
        · exact Or.inr ⟨o, by simp [ho], hrest⟩

/-- Folding makes nothing but steps. -/
theorem mem_foldSteps (h : y ∈ foldSteps stream) (hy : y.isStep = false) :
    ∃ x ∈ stream, y = x.unlinked := by
  have hplain : ∀ axis amount position,
      (!(Item.instr ⟨Axis.step axis amount, position⟩).isStep) = false := fun axis _ _ => by
    cases axis <;> rfl
  have hmem : y ∈ (foldSteps stream).filter (!·.isStep) := List.mem_filter.mpr ⟨h, by simp [hy]⟩
  rw [foldSteps_filter hplain, List.mem_filter, List.mem_map] at hmem
  obtain ⟨⟨x, hx, rfl⟩, -⟩ := hmem
  exact ⟨x, hx, rfl⟩

theorem isStep_of_side {side : Side} (h : x.side? = some side) : x.isStep = false := by
  rcases x with i | v
  · simp [Item.isStep, Item.op?, step_of_side h]
  · rfl

/-- Condensing makes nothing but steps and idioms, and idioms only where a loop began. -/
theorem mem_condense (h : y ∈ condense level stream) (hy : y.isStep = false) :
    (∃ x ∈ stream, y = x.unlinked) ∨
      level = .idiomatic ∧ ∃ o ∈ stream, o.side? = some .opening ∧
        ∃ op : Op, op.isIdiom = true ∧ y = .instr ⟨op, o.position⟩ := by
  cases level with
  | plain =>
    obtain ⟨x, hx, rfl⟩ := List.mem_map.mp h
    exact Or.inl ⟨x, hx, rfl⟩
  | folded => exact Or.inl (mem_foldSteps h hy)
  | idiomatic =>
    rw [condense, collapseLoops_eq] at h
    rcases mem_replaceIdioms h with hold | ⟨o, ho, hside, op, hop, rfl⟩
    · exact Or.inl (mem_foldSteps hold hy)
    · obtain ⟨o', ho', rfl⟩ := mem_foldSteps ho (isStep_of_side hside)
      refine Or.inr ⟨rfl, o', ho', (side_retarget o' none).symm.trans hside, op, hop, ?_⟩
      cases o' <;> rfl

end Origin

/-! ## Programs of sources -/

section Compiled

variable {source : String} {level : Level} {program : List Item} {b : Block Instruction}
  {c : Block Piece} {x : Piece} {i : ℕ}

/-- A source that compiles has no other characters, and its brackets pair up. -/
theorem sound_of_compile (h : compile source level = .ok program) :
    Source.Clean source ∧ Balanced Source.side? (Source.placed source) := by
  have hclean : Source.Clean source := by
    by_contra hdirty
    obtain ⟨p, -, hread⟩ := Source.read_of_not_clean hdirty
    cases (compile_of_unread hread).symm.trans h
  refine ⟨hclean, ?_⟩
  have hscan := compile_of_scan hclean level
  rcases scan_cases Source.side? (Source.placed source) with
    ⟨opened, hopen, hopened⟩ | ⟨_, p, _, herror, _⟩
  · rw [hopen] at hscan
    rcases hopened.outermost with ⟨-, hl⟩ | ⟨_, p, _, _, _, _, _, rfl, _⟩
    · exact hl
    · simp only [List.getLast?_concat] at hscan
      cases hscan.symm.trans h
  · rw [herror] at hscan
    cases hscan.symm.trans h

/-- The program of a source is that of a block that its instructions condense to. -/
theorem condenses_of_compile (h : compile source level = .ok program) :
    ∃ b c, b.flatten = (Source.placed source).map Source.instruction ∧ Condenses b level c ∧
      program = c.linked 0 := by
  obtain ⟨hclean, hbalanced⟩ := sound_of_compile h
  obtain ⟨tree, hshaped, htext⟩ := hbalanced.exists_block
  have hflatten : (tree.map Source.instruction).flatten =
      (Source.placed source).map Source.instruction := by rw [Block.flatten_map, htext]
  have hfits : ∀ i ∈ (tree.map Source.instruction).flatten, i.op.FitsWords := by
    rw [Block.flatten_map, List.forall_mem_map]
    exact fun p _ => Source.instruction_fits p
  obtain ⟨c, hc⟩ := condense_block
    (Block.shaped_map (fun p _ => Source.instruction_side p) hshaped) hfits level
  refine ⟨_, c, hflatten, hc, ?_⟩
  have hstream := hc.stream
  rw [hflatten, List.map_map] at hstream
  rw [compile_of_clean hclean] at h
  have hlink := link_flatten source hc.shaped
  rw [← hstream] at hlink
  exact Except.ok.inj (h.symm.trans hlink)

theorem position_unlinked (x : Item) : x.unlinked.position = x.position := by
  cases x <;> rfl

/-- A program is spelled by its source, but for the targets of its brackets. -/
theorem spelled_of_compile (h : compile source level = .ok program) :
    ∃ out : List Instruction, Source.Spelled (Source.placed source) out ∧
      program.map Item.unlinked = out.map fun i => (Item.instr i).unlinked := by
  obtain ⟨hclean, -⟩ := sound_of_compile h
  rw [compile_of_clean hclean] at h
  obtain ⟨out, hout, hspelled⟩ := Source.spelled_of_condense hclean level
  have hsame := map_unlinked_of_link h
  rw [hout, List.map_map] at hsame
  exact ⟨out, hspelled, hsame⟩

/-- Every instruction of a program stands at a position of the source. -/
theorem position_of_compile (h : compile source level = .ok program) {i : Instruction}
    (hi : .instr i ∈ program) : ∃ p ∈ Source.placed source, i.position = p.2 := by
  obtain ⟨out, hspelled, hsame⟩ := spelled_of_compile h
  have hmem : (Item.instr i).unlinked ∈ program.map Item.unlinked := List.mem_map_of_mem hi
  rw [hsame] at hmem
  obtain ⟨o, ho, heq⟩ := List.mem_map.mp hmem
  have hposition : (Item.instr o).position = (Item.instr i).position := by
    simpa only [position_unlinked] using congrArg Item.position heq
  obtain ⟨p, hp, hplace⟩ :=
    List.mem_map.mp (hspelled.positions.subset (List.mem_map_of_mem ho))
  exact ⟨p, hp, (hplace.trans hposition).symm⟩

/-- A program has no more instructions than its source has characters. -/
theorem length_of_compile (h : compile source level = .ok program) :
    program.length ≤ source.length := by
  obtain ⟨out, hspelled, hsame⟩ := spelled_of_compile h
  have hlength : program.length = out.length := by simpa using congrArg List.length hsame
  have hle := hspelled.positions.length_le
  rw [List.length_map, List.length_map, Source.placed, List.length_zipIdx,
    String.length_toList] at hle
  omega

theorem not_long_of_compile (h : compile source level = .ok program)
    (hnumbered : Source.Numbered source) : ¬ HasLongPosition program := by
  rintro ⟨i, hi, hlong⟩
  obtain ⟨p, hp, hposition⟩ := position_of_compile h hi
  rw [hposition, hnumbered.position hp] at hlong
  cases hlong

theorem encode_of_compile (h : compile source level = .ok program) :
    ∃ code, encode program = .ok code := by
  obtain ⟨b, c, -, hc, rfl⟩ := condenses_of_compile h
  obtain ⟨code, hcode, -⟩ := encode_linked hc.shaped hc.fits
  exact ⟨code, hcode⟩

theorem getElem?_linked (hc : c.Shaped Piece.side?) (hx : c.flatten[i]? = some x)
    (hside : x.side? = none) : (c.linked 0)[i]? = some (.instr x.instr) := by
  obtain ⟨hi, -⟩ := List.getElem?_eq_some_iff.mp hx
  have hi' : i < (c.partners 0).length := by rwa [Block.length_partners]
  have hlink : ∀ partner, x.item.linkTo partner = .instr x.instr := by
    obtain ⟨⟨op, position⟩, collapsed⟩ := x
    intro partner
    cases partner with
    | none => rfl
    | some t => cases op <;> first | rfl | cases hside
  rw [← zipWith_linkTo hc, List.getElem?_zipWith, List.getElem?_map, hx,
    List.getElem?_eq_getElem hi']
  exact congrArg some (hlink _)

theorem Source.instruction_not_idiom (p : Char × ℕ) : (instruction p).op.isIdiom = false := by
  unfold instruction Op.ofChar?
  split <;> rfl

theorem Source.char_of_input {p : Char × ℕ} (h : p.1 ∈ alphabet)
    (hop : (instruction p).op = .input) : p.1 = ',' := by
  obtain ⟨char, position⟩ := p
  fin_cases h <;> first | rfl | cases hop

/-- Whether an instruction stands where a source has it: input where the source asks for input, and
an idiom, which only the most condensed level has, where the source has a loop. -/
structure Piece.ComesFrom (source : String) (level : Level) (x : Piece) : Prop where
  input : x.instr.op = .input →
    ∃ p : ℕ, (',', p) ∈ Source.placed source ∧ x.instr.position = p
  idiom : x.instr.op.isIdiom = true → level = .idiomatic ∧
    ∃ p : ℕ, ('[', p) ∈ Source.placed source ∧ x.instr.position = p

/-- **What a source compiles to comes from the source.** -/
theorem origin_of_piece (hclean : Source.Clean source)
    (hb : b.flatten = (Source.placed source).map Source.instruction) (hc : Condenses b level c)
    (hx : x ∈ c.flatten) : x.ComesFrom source level := by
  have hmem : x.item ∈ condense level ((Source.placed source).map Source.item) := by
    have hstream := hc.stream
    rw [hb, List.map_map] at hstream
    exact hstream ▸ List.mem_map_of_mem hx
  -- an instruction that is condensed from a source is one of its own or an idiom
  have hcases : x.instr.op.step? = none →
      (∃ p ∈ Source.placed source, x.instr = Source.instruction p) ∨
        level = .idiomatic ∧ x.instr.op.isIdiom = true ∧
          ∃ p : ℕ, ('[', p) ∈ Source.placed source ∧ x.instr.position = p := by
    intro hstep
    have hplain : x.item.isStep = false := by simp [Item.isStep, Piece.item, Item.op?, hstep]
    rcases mem_condense hmem hplain with ⟨y, hy, hsame⟩ | ⟨hlevel, o, ho, hside, op, hop, hsame⟩
    · obtain ⟨p, hp, rfl⟩ := List.mem_map.mp hy
      refine Or.inl ⟨p, hp, ?_⟩
      rw [Source.item, item_unlinked, Source.instruction_unlinked] at hsame
      exact Item.instr.inj hsame
    · obtain ⟨p, hp, rfl⟩ := List.mem_map.mp ho
      have hinstr : x.instr = ⟨op, (Source.item p).position⟩ := Item.instr.inj hsame
      have hchar : p.1 = '[' := Source.char_of_side hside
      refine Or.inr ⟨hlevel, by rw [hinstr]; exact hop, p.2, ?_, by rw [hinstr]; rfl⟩
      rwa [← hchar]
  constructor
  · intro hop
    rcases hcases (by rw [hop]; rfl) with ⟨p, hp, hinstr⟩ | ⟨-, hidiom, -⟩
    · refine ⟨p.2, ?_, by rw [hinstr]; rfl⟩
      rwa [← Source.char_of_input (hclean p hp) (by rw [← hinstr, hop])]
    · rw [hop] at hidiom
      cases hidiom
  · intro hidiom
    rcases hcases (step_of_isIdiom hidiom) with ⟨p, -, hinstr⟩ | ⟨hlevel, -, hplace⟩
    · rw [hinstr, Source.instruction_not_idiom] at hidiom
      cases hidiom
    · exact ⟨hlevel, hplace⟩

end Compiled

end TapeMachine
