import TapeMachine.Proofs.Idioms

/-! # Condensing blocks

Condensing a balanced stream gives the stream of a block with the same outcomes,
at every level (`condense_block`). A piece of that block is marked as collapsed
where a loop of the folded stream stood before. -/
namespace TapeMachine

/-- A block with its loops around idioms collapsed. -/
def Block.collapse : Block Instruction → Block Piece
  | done => done
  | act i rest => act (.plain i) rest.collapse
  | loop opening body closing rest =>
    match Idiom.ofBody? (body.flatten.map .instr) with
    | some op => act ⟨⟨op, opening.position⟩, true⟩ rest.collapse
    | none => loop (.plain opening) body.collapse (.plain closing) rest.collapse

section Collapse

variable {b body : Block Instruction} {o e i : Instruction} {op : Op} {tail : List Item}

theorem isIdiomLoop_instr {l : List Item} (ho : o.side? = some .opening)
    (he : e.side? = some .closing) (h : Idiom.ofBody? l = some op) :
    IsIdiomLoop (.instr o) l (.instr e) ⟨op, o.position⟩ := by
  refine ⟨?_, h, he⟩
  obtain ⟨opening, position⟩ := o
  cases opening <;> first | exact ⟨_, rfl⟩ | cases ho

theorem idiomAt?_instr {l : List Item} (ho : o.side? = some .opening)
    (he : e.side? = some .closing) (h : Idiom.ofBody? l = some op) (tail : List Item) :
    idiomAt? (.instr o :: (l ++ .instr e :: tail)) = some (⟨op, o.position⟩, tail) :=
  idiomAt?_eq_some.mpr ⟨_, _, _, isIdiomLoop_instr ho he h, rfl⟩

theorem idiomAt?_of_side (h : i.side? ≠ some .opening) : idiomAt? (.instr i :: tail) = none := by
  rw [Option.eq_none_iff_forall_ne_some]
  intro result hsome
  obtain ⟨o, body, e, hloop, heq⟩ := idiomAt?_eq_some.mp hsome
  obtain ⟨rfl, -⟩ := List.cons.inj heq
  exact h hloop.side

theorem replaceIdioms_cons_of_side (h : i.side? ≠ some .opening) :
    replaceIdioms (.instr i :: tail) = .instr i :: replaceIdioms tail :=
  replaceIdioms_cons (idiomAt?_of_side h)

/-- A loop is no idiom unless its whole body makes one. -/
theorem idiomAt?_eq_none (hb : body.Shaped Instruction.side?) (he : e.side? = some .closing)
    (h : Idiom.ofBody? (body.flatten.map .instr) = none) (o : Instruction) (tail : List Item) :
    idiomAt? (.instr o :: (body.flatten.map .instr ++ .instr e :: tail)) = none := by
  rw [Option.eq_none_iff_forall_ne_some]
  intro result hsome
  obtain ⟨o', body', e', hloop, heq⟩ := idiomAt?_eq_some.mp hsome
  obtain ⟨-, htail⟩ := List.cons.inj heq
  have hbody : (body.map Item.instr).Shaped Item.side? := Block.shaped_map (fun _ _ => rfl) hb
  have hbody' : (Block.ofList body').Shaped Item.side? :=
    Block.ofList_shaped (ofBody?_side hloop.body)
  rw [← Block.flatten_map, ← Block.flatten_ofList body'] at htail
  obtain ⟨hsame, -⟩ := Block.flatten_inj_tail hbody hbody' (fun x hx => by cases hx; exact he)
    (by simpa [Ends] using hloop.closing) htail
  rw [← Block.flatten_map, hsame, Block.flatten_ofList, hloop.body] at h
  cases h

/-- The stream of the collapsed block is the stream with its idioms replaced. -/
theorem collapse_flatten (hb : b.Shaped Instruction.side?) (tail : List Item) :
    replaceIdioms (b.flatten.map .instr ++ tail) =
      b.collapse.flatten.map Piece.item ++ replaceIdioms tail := by
  induction b generalizing tail with
  | done => rfl
  | act i rest ih =>
    obtain ⟨hi, hrest⟩ := hb
    rw [Block.flatten, List.map_cons, List.cons_append,
      replaceIdioms_cons_of_side (by rw [hi]; simp), ih hrest]
    rfl
  | loop o body e rest ihb ih =>
    obtain ⟨ho, hbody, he, hrest⟩ := hb
    simp only [Block.flatten, List.map_cons, List.map_append, List.cons_append, List.append_assoc]
    cases hidiom : Idiom.ofBody? (body.flatten.map .instr) with
    | some op =>
      rw [replaceIdioms_of_idiom (idiomAt?_instr ho he hidiom _), ih hrest]
      simp [Block.collapse, hidiom, Block.flatten, Piece.item]
    | none =>
      rw [replaceIdioms_cons (idiomAt?_eq_none hbody he hidiom o _), ihb hbody,
        replaceIdioms_cons_of_side (by rw [he]; simp), ih hrest]
      simp [Block.collapse, hidiom, Block.flatten, Piece.item, Piece.plain]

theorem collapse_shaped (hb : b.Shaped Instruction.side?) : b.collapse.Shaped Piece.side? := by
  induction b with
  | done => trivial
  | act i rest ih => exact ⟨hb.1, ih hb.2⟩
  | loop o body e rest ihb ih =>
    obtain ⟨ho, hbody, he, hrest⟩ := hb
    cases hidiom : Idiom.ofBody? (body.flatten.map .instr) with
    | some op =>
      rw [Block.collapse, hidiom]
      exact ⟨side_of_isIdiom (ofBody?_isIdiom hidiom), ih hrest⟩
    | none =>
      rw [Block.collapse, hidiom]
      exact ⟨ho, ihb hbody, he, ih hrest⟩

/-- A move that folding leaves changes the place of the pointer. -/
theorem moves_of_folded {l : List Instruction} (h : ∀ i ∈ l, i.IsFolded) : Moves l := by
  intro i hi offset hop hzero
  obtain ⟨hwrap, hne⟩ := (h i hi).reduced .pointer offset (by rw [hop]; rfl)
  rw [ZMod.intCast_zmod_eq_zero_iff_dvd] at hzero
  exact hne (hwrap.symm.trans (Int.emod_eq_zero_of_dvd hzero))

theorem Block.Does.total {f : Store tapeSize → Store tapeSize} (h : b.Does f) :
    Total Piece.act Store.Enters (b.map .plain) f := fun e out => eval_map.trans (h e out)

/-- **Collapsing the loops of a folded block keeps its outcomes.** -/
theorem collapse_alike (hb : b.Shaped Instruction.side?) (h : ∀ i ∈ b.flatten, i.IsFolded) :
    (b.map Piece.plain).Alike b.collapse := by
  induction b with
  | done => exact .refl _
  | act i rest ih =>
    simp only [Block.flatten, List.forall_mem_cons] at h
    exact .cons _ (ih hb.2 h.2)
  | loop o body e rest ihb ih =>
    obtain ⟨ho, hbody, he, hrest⟩ := hb
    simp only [Block.flatten, List.forall_mem_cons, List.forall_mem_append] at h
    obtain ⟨-, hfbody, -, hfrest⟩ := h
    rw [Block.map, Block.collapse]
    cases hidiom : Idiom.ofBody? (body.flatten.map .instr) with
    | some op =>
      have hside : ∀ i ∈ body.flatten, i.side? = none := fun i hi =>
        ofBody?_side hidiom (.instr i) (List.mem_map_of_mem hi)
      obtain ⟨lap, hdoes, hloops⟩ := ofBody?_loops hidiom (moves_of_folded hfbody)
      rw [← Block.eq_ofList hbody hside] at hdoes
      have hloop : Block.Alike (.loop (.plain o) (body.map .plain) (.plain e) .done)
          (.act ⟨⟨op, o.position⟩, true⟩ .done) := idiom_same hdoes.total hloops rfl
      exact hloop.append (ih hrest hfrest)
    | none => exact .loop (ihb hbody hfbody) (ih hrest hfrest)

theorem collapse_fits (h : ∀ i ∈ b.flatten, i.op.FitsWords) :
    ∀ x ∈ b.collapse.flatten, x.instr.op.FitsWords := by
  induction b with
  | done => simp [Block.collapse, Block.flatten]
  | act i rest ih =>
    simp only [Block.flatten, Block.collapse, List.forall_mem_cons] at h ⊢
    exact ⟨h.1, ih h.2⟩
  | loop o body e rest ihb ih =>
    simp only [Block.flatten, List.forall_mem_cons, List.forall_mem_append] at h
    obtain ⟨ho, hbody, he, hrest⟩ := h
    rw [Block.collapse]
    cases hidiom : Idiom.ofBody? (body.flatten.map .instr) with
    | some op =>
      simp only [Block.flatten, List.forall_mem_cons]
      exact ⟨ofBody?_fits hidiom hbody, ih hrest⟩
    | none =>
      simp only [Block.flatten, List.forall_mem_cons, List.forall_mem_append]
      exact ⟨ho, ihb hbody, he, ih hrest⟩

end Collapse

/-! ## Where the idioms come from -/

/-- Whether the instruction that replaces a loop of a stream comes to stand at an index. -/
def Stands (stream : List Item) (index : ℕ) (i : Instruction) : Prop :=
  ∃ before o body e after, IsIdiomLoop o body e i ∧ stream = before ++ o :: (body ++ e :: after) ∧
    (replaceIdioms before).length = index

section Stands

variable {b : Block Instruction} {i j : Instruction} {x : Item} {y : Piece} {l after : List Item}
  {index : ℕ}

theorem stands_here (h : idiomAt? l = some (i, after)) : Stands l 0 i := by
  obtain ⟨o, body, e, hloop, rfl⟩ := idiomAt?_eq_some.mp h
  exact ⟨[], o, body, e, after, hloop, rfl, by rw [replaceIdioms_nil]; rfl⟩

theorem Stands.after_idiom (hs : Stands after index i) (h : idiomAt? l = some (j, after)) :
    Stands l (index + 1) i := by
  obtain ⟨o, body, e, hloop, rfl⟩ := idiomAt?_eq_some.mp h
  obtain ⟨before, o', body', e', after', hloop', rfl, rfl⟩ := hs
  refine ⟨o :: (body ++ e :: before), o', body', e', after', hloop', by simp, ?_⟩
  rw [replaceIdioms_of_idiom (idiomAt?_eq_some.mpr ⟨o, body, e, hloop, rfl⟩), List.length_cons]

theorem Stands.cons (hs : Stands l index i) (h : idiomAt? (x :: l) = none) :
    Stands (x :: l) (index + 1) i := by
  obtain ⟨before, o, body, e, after, hloop, rfl, rfl⟩ := hs
  refine ⟨x :: before, o, body, e, after, hloop, rfl, ?_⟩
  rw [replaceIdioms_cons, List.length_cons]
  rw [Option.eq_none_iff_forall_ne_some] at h ⊢
  intro result hsome
  obtain ⟨o', body', e', hloop', heq⟩ := idiomAt?_eq_some.mp hsome
  obtain ⟨rfl, rfl⟩ := List.cons.inj heq
  exact h _ (idiomAt?_eq_some.mpr ⟨_, _, _, hloop', by simp; rfl⟩)

theorem Stands.after_block (hs : Stands l index i) (hb : b.Shaped Instruction.side?) :
    Stands (b.flatten.map .instr ++ l) (b.collapse.flatten.length + index) i := by
  obtain ⟨before, o, body, e, after, hloop, rfl, rfl⟩ := hs
  refine ⟨b.flatten.map .instr ++ before, o, body, e, after, hloop, by simp, ?_⟩
  rw [collapse_flatten hb, List.length_append, List.length_map]

/-- A piece that is marked as collapsed stands for a loop. -/
theorem stands_of_collapsed (hb : b.Shaped Instruction.side?)
    (hy : b.collapse.flatten[index]? = some y) (hc : y.collapsed = true) (tail : List Item) :
    Stands (b.flatten.map .instr ++ tail) index y.instr := by
  induction b generalizing index tail with
  | done => simp [Block.collapse, Block.flatten] at hy
  | act a rest ih =>
    obtain ⟨ha, hrest⟩ := hb
    have hnone : idiomAt? (.instr a :: (rest.flatten.map .instr ++ tail)) = none :=
      idiomAt?_of_side (by rw [ha]; simp)
    cases index with
    | zero =>
      obtain rfl : Piece.plain a = y := by simpa [Block.collapse, Block.flatten] using hy
      cases hc
    | succ index =>
      have hy' : rest.collapse.flatten[index]? = some y := by
        simpa [Block.collapse, Block.flatten] using hy
      exact (ih hrest hy' tail).cons hnone
  | loop o body e rest ihb ih =>
    obtain ⟨ho, hbody, he, hrest⟩ := hb
    simp only [Block.flatten, List.map_cons, List.map_append, List.cons_append, List.append_assoc]
    rw [Block.collapse] at hy
    cases hidiom : Idiom.ofBody? (body.flatten.map .instr) with
    | some op =>
      rw [hidiom] at hy
      have hsome := idiomAt?_instr ho he hidiom (rest.flatten.map .instr ++ tail)
      cases index with
      | zero =>
        obtain rfl := Option.some.inj hy
        exact stands_here hsome
      | succ index => exact (ih hrest hy tail).after_idiom hsome
    | none =>
      rw [hidiom] at hy
      have hnone := idiomAt?_eq_none hbody he hidiom o (rest.flatten.map .instr ++ tail)
      have hnone' : idiomAt? (.instr e :: (rest.flatten.map .instr ++ tail)) = none :=
        idiomAt?_of_side (by rw [he]; simp)
      cases index with
      | zero =>
        obtain rfl := Option.some.inj hy
        cases hc
      | succ index =>
        rw [Block.flatten, List.getElem?_cons_succ, List.getElem?_append] at hy
        split at hy
        · exact (ihb hbody hy _).cons hnone
        · rename_i hlt
          obtain ⟨index', rfl⟩ := Nat.exists_eq_add_of_le (Nat.le_of_not_lt hlt)
          rw [Nat.add_sub_cancel_left] at hy
          cases index' with
          | zero =>
            obtain rfl := Option.some.inj hy
            cases hc
          | succ index' =>
            exact (((ih hrest hy tail).cons hnone').after_block hbody).cons hnone

end Stands

/-! ## All levels -/

/-- What condensing makes of a balanced stream. -/
structure Condenses (b : Block Instruction) (level : Level) (c : Block Piece) : Prop where
  stream : condense level (b.flatten.map .instr) = c.flatten.map Piece.item
  shaped : c.Shaped Piece.side?
  fits : ∀ x ∈ c.flatten, x.instr.op.FitsWords
  alike : (b.map Piece.plain).Alike c
  origin : ∀ index x, c.flatten[index]? = some x → x.collapsed = true →
    level = .idiomatic ∧ Stands (foldSteps (b.flatten.map .instr)) index x.instr

section Levels

variable {b c : Block Instruction}

theorem Block.Agrees.alike (h : b.Agrees c) : (b.map Piece.plain).Alike (c.map Piece.plain) := by
  intro e out
  rw [eval_map, eval_map]
  exact h e out

/-- A block that collapses nothing. -/
theorem condenses_plain {level : Level} (hc : c.Shaped Instruction.side?)
    (hfits : ∀ i ∈ c.flatten, i.op.FitsWords) (hagree : b.Agrees c)
    (hstream : condense level (b.flatten.map .instr) = c.flatten.map .instr) :
    Condenses b level (c.map .plain) where
  stream := by
    rw [hstream, Block.flatten_map, List.map_map]
    rfl
  shaped := Block.shaped_map (fun _ _ => rfl) hc
  fits := by
    rw [Block.flatten_map, List.forall_mem_map]
    exact hfits
  alike := hagree.alike
  origin index x hx hcollapsed := by
    rw [Block.flatten_map, List.getElem?_map] at hx
    obtain ⟨i, -, rfl⟩ := Option.map_eq_some_iff.mp hx
    cases hcollapsed

/-- Targets do not matter. -/
theorem unlinked_agrees (hb : b.Shaped Instruction.side?) : b.Agrees (b.map .unlinked) := by
  induction b with
  | done => exact .refl _
  | act i rest ih =>
    rw [Block.map, unlinked_of_side hb.1]
    exact .cons i (ih hb.2)
  | loop o body e rest ihb ih => exact .loop (ihb hb.2.1) (ih hb.2.2.2)

theorem unlinked_shaped (hb : b.Shaped Instruction.side?) :
    (b.map .unlinked).Shaped Instruction.side? := Block.shaped_map (fun i _ => unlinked_side i) hb

theorem unlinked_fits (i : Instruction) : i.unlinked.op.FitsWords ↔ i.op.FitsWords := by
  obtain ⟨op, position⟩ := i
  cases op <;> rfl

/-- **Condensing a balanced stream keeps its outcomes, at every level.** -/
theorem condense_block (hb : b.Shaped Instruction.side?) (hfits : ∀ i ∈ b.flatten, i.op.FitsWords)
    (level : Level) : ∃ c, Condenses b level c := by
  obtain ⟨c, hstream, hc, hfolded, hagree⟩ := foldSteps_flatten hb hfits
  have hcfits : ∀ i ∈ c.flatten, i.op.FitsWords := fun i hi => (hfolded i hi).fits
  cases level with
  | plain =>
    refine ⟨_, condenses_plain (unlinked_shaped hb) ?_ (unlinked_agrees hb) ?_⟩
    · rw [Block.flatten_map, List.forall_mem_map]
      exact fun i hi => (unlinked_fits i).mpr (hfits i hi)
    · rw [condense, Block.flatten_map, List.map_map, List.map_map]
      rfl
  | folded => exact ⟨_, condenses_plain hc hcfits hagree hstream⟩
  | idiomatic =>
    refine ⟨c.collapse, ?_, collapse_shaped hc, collapse_fits hcfits,
      hagree.alike.trans (collapse_alike hc hfolded), fun index x hx hcollapsed => ⟨rfl, ?_⟩⟩
    · rw [condense, collapseLoops_eq, hstream]
      simpa [replaceIdioms_nil] using collapse_flatten hc []
    · simpa [hstream] using stands_of_collapsed hc hx hcollapsed []

end Levels

end TapeMachine
