import TapeMachine.Proofs.Origins
import TapeMachine.Proofs.Rewriting

/-! # Replacing idioms at once

The loops around idioms in a folded stream never overlap (`IdiomBlock.apart`), so
they can all be replaced together, each by its idiom and each once: every index of
the stream then has a piece of its own, and the pieces follow each other
(`Replacement`). Collapsing loops while folding gives this stream
(`collapseLoops_replaces`). Its amounts are those of folded steps, as an idiom
takes its own from the body that it stands for. -/
namespace TapeMachine

/-! ## Blocks -/

/-- Whether the part of a stream from `start` up to `stop` is a loop around an idiom. The body of
one has no bracket (`ofBody?_side`). -/
def IdiomBlock (stream : List Item) (start stop : ℕ) (i : Instruction) : Prop :=
  ∃ before o body e after, stream = before ++ o :: (body ++ e :: after) ∧
    before.length = start ∧ start + body.length + 2 = stop ∧ IsIdiomLoop o body e i

section Blocks

variable {stream front rest : List Item} {start stop start' stop' k : ℕ} {i i' : Instruction}

/-- A block is where an idiom can be read off. -/
theorem idiomBlock_iff : IdiomBlock stream start stop i ↔
    ∃ after, idiomAt? (stream.drop start) = some (i, after) ∧
      stop + after.length = stream.length := by
  constructor
  · intro h
    obtain ⟨before, o, body, e, after, rfl, rfl, rfl, hloop⟩ := h
    refine ⟨after, ?_, ?_⟩
    · rw [List.drop_left]
      exact idiomAt?_eq_some.mpr ⟨o, body, e, hloop, rfl⟩
    · simp only [List.length_append, List.length_cons]
      omega
  · intro h
    obtain ⟨after, hidiom, hlen⟩ := h
    obtain ⟨o, body, e, hloop, hdrop⟩ := idiomAt?_eq_some.mp hidiom
    have hrest := congrArg List.length hdrop
    simp only [List.length_drop, List.length_append, List.length_cons] at hrest
    refine ⟨stream.take start, o, body, e, after, ?_, ?_, ?_, hloop⟩
    · rw [← hdrop, List.take_append_drop]
    · rw [List.length_take]
      omega
    · omega

theorem IdiomBlock.lt (h : IdiomBlock stream start stop i) : start < stop := by
  obtain ⟨_, _, body, _, _, -, -, rfl, -⟩ := h
  omega

/-- Where a block starts, it ends at one index, and it has one idiom. -/
theorem IdiomBlock.unique (h : IdiomBlock stream start stop i)
    (h' : IdiomBlock stream start stop' i') : stop = stop' ∧ i = i' := by
  obtain ⟨after, hidiom, hlen⟩ := idiomBlock_iff.mp h
  obtain ⟨after', hidiom', hlen'⟩ := idiomBlock_iff.mp h'
  cases hidiom.symm.trans hidiom'
  exact ⟨by omega, rfl⟩

theorem IdiomBlock.opening (h : IdiomBlock stream start stop i) :
    ∃ o, stream[start]? = some o ∧ o.side? = some .opening := by
  obtain ⟨before, o, body, e, after, rfl, rfl, -, hloop⟩ := h
  exact ⟨o, by simp, hloop.side⟩

/-- No loop begins inside a block. -/
theorem IdiomBlock.not_opening (h : IdiomBlock stream start stop i) (hstart : start < k)
    (hstop : k < stop) : ∃ x, stream[k]? = some x ∧ x.side? ≠ some .opening := by
  obtain ⟨before, o, body, e, after, rfl, rfl, rfl, hloop⟩ := h
  have hbody : ∀ x ∈ body ++ [e], x.side? ≠ some .opening := by
    rw [List.forall_mem_append]
    refine ⟨fun x hx => ?_, by simp [hloop.closing]⟩
    rw [ofBody?_side hloop.body x hx]
    exact nofun
  have hlen : k - before.length - 1 < (body ++ [e]).length := by
    simp only [List.length_append, List.length_singleton]
    omega
  refine ⟨(body ++ [e])[k - before.length - 1], ?_, hbody _ (List.getElem_mem hlen)⟩
  rw [List.getElem?_append_right (by omega), List.getElem?_cons, if_neg (by omega),
    List.append_cons body e after, List.getElem?_append_left hlen, List.getElem?_eq_getElem hlen]

/-- A block is over where a later one starts. -/
theorem IdiomBlock.stop_le (h : IdiomBlock stream start stop i)
    (h' : IdiomBlock stream start' stop' i') (hlt : start < start') : stop ≤ start' := by
  by_contra hinside
  obtain ⟨o, ho, hside⟩ := h'.opening
  obtain ⟨x, hx, hplain⟩ := h.not_opening hlt (by omega)
  cases ho.symm.trans hx
  exact hplain hside

/-- **Blocks do not overlap.** -/
theorem IdiomBlock.apart (h : IdiomBlock stream start stop i)
    (h' : IdiomBlock stream start' stop' i') :
    (start = start' ∧ stop = stop' ∧ i = i') ∨ stop ≤ start' ∨ stop' ≤ start := by
  rcases Nat.lt_trichotomy start start' with hlt | rfl | hgt
  · exact Or.inr (Or.inl (h.stop_le h' hlt))
  · exact Or.inl ⟨rfl, h.unique h'⟩
  · exact Or.inr (Or.inr (h'.stop_le h hgt))

/-- A block behind the front of a stream is a block of the rest. -/
theorem IdiomBlock.behind (h : IdiomBlock (front ++ rest) start stop i)
    (hfront : front.length ≤ start) :
    IdiomBlock rest (start - front.length) (stop - front.length) i := by
  have hlt := h.lt
  obtain ⟨after, hidiom, hlen⟩ := idiomBlock_iff.mp h
  rw [List.drop_append, List.drop_eq_nil_of_le hfront, List.nil_append] at hidiom
  rw [List.length_append] at hlen
  exact idiomBlock_iff.mpr ⟨after, hidiom, by omega⟩

theorem IdiomBlock.append (h : IdiomBlock rest start stop i) (front : List Item) :
    IdiomBlock (front ++ rest) (front.length + start) (front.length + stop) i := by
  obtain ⟨before, o, body, e, after, rfl, rfl, rfl, hloop⟩ := h
  exact ⟨front ++ before, o, body, e, after, by simp, by simp, by omega, hloop⟩

end Blocks

/-! ## Pieces -/

/-- Whether the pieces are what a stream has at each index once its blocks are replaced: the idiom
where a block starts, nothing in the rest of it, and the item itself outside all blocks. -/
structure Replacement (stream : List Item) (piece : ℕ → List Item) : Prop where
  first {start stop : ℕ} {i : Instruction} :
    IdiomBlock stream start stop i → piece start = [.instr i]
  inside {start stop k : ℕ} {i : Instruction} :
    IdiomBlock stream start stop i → start < k → k < stop → piece k = []
  outside {k : ℕ} {x : Item} : stream[k]? = some x →
    (∀ start stop i, IdiomBlock stream start stop i → k < start ∨ stop ≤ k) → piece k = [x]

section Pieces

variable {stream rest after body : List Item} {piece : ℕ → List Item} {o e x y : Item}
  {i : Instruction}

/-- The pieces of a stream that starts with an item outside all blocks. -/
theorem Replacement.cons (h : Replacement rest piece) (hx : idiomAt? (x :: rest) = none) :
    Replacement (x :: rest) fun k => if k = 0 then [x] else piece (k - 1) := by
  have hpos : ∀ {start stop i}, IdiomBlock (x :: rest) start stop i → 1 ≤ start := by
    intro start stop i hblock
    rw [Nat.one_le_iff_ne_zero]
    rintro rfl
    obtain ⟨after, hidiom, -⟩ := idiomBlock_iff.mp hblock
    cases hx.symm.trans hidiom
  have hbehind : ∀ {start stop i}, IdiomBlock (x :: rest) start stop i →
      IdiomBlock rest (start - 1) (stop - 1) i :=
    fun {start stop i} hblock =>
      (show IdiomBlock ([x] ++ rest) start stop i from hblock).behind (hpos hblock)
  constructor
  · intro start stop i hblock
    have hstart := hpos hblock
    rw [if_neg (by omega)]
    exact h.first (hbehind hblock)
  · intro start stop k i hblock hk hk'
    have hstart := hpos hblock
    rw [if_neg (by omega)]
    exact h.inside (hbehind hblock) (by omega) (by omega)
  · intro k y hy hout
    cases k with
    | zero =>
      cases hy
      rfl
    | succ k =>
      rw [if_neg (by omega)]
      refine h.outside hy fun start stop i hblock => ?_
      have hmoved := hout _ _ _ (hblock.append [x])
      simp only [List.length_singleton] at hmoved
      omega

/-- The pieces of a stream that starts with a block. -/
theorem Replacement.loop (h : Replacement after piece) (hloop : IsIdiomLoop o body e i) :
    Replacement (o :: (body ++ e :: after)) fun k =>
      if k = 0 then [.instr i] else if k < body.length + 2 then []
      else piece (k - (body.length + 2)) := by
  have hwhole : o :: (body ++ e :: after) = (o :: (body ++ [e])) ++ after := by simp
  have hlen : (o :: (body ++ [e])).length = body.length + 2 := by simp
  have hhead : IdiomBlock (o :: (body ++ e :: after)) 0 (body.length + 2) i :=
    ⟨[], o, body, e, after, rfl, rfl, by omega, hloop⟩
  -- every other block lies behind the first one
  have hcases : ∀ {start stop j}, IdiomBlock (o :: (body ++ e :: after)) start stop j →
      (start = 0 ∧ stop = body.length + 2 ∧ j = i) ∨ (body.length + 2 ≤ start ∧
        IdiomBlock after (start - (body.length + 2)) (stop - (body.length + 2)) j) := by
    intro start stop j hblock
    rcases hblock.apart hhead with ⟨rfl, rfl, rfl⟩ | hnone | hbehind
    · exact Or.inl ⟨rfl, rfl, rfl⟩
    · have := hblock.lt
      omega
    · rw [hwhole] at hblock
      have hafter := hblock.behind (hlen ▸ hbehind)
      rw [hlen] at hafter
      exact Or.inr ⟨hbehind, hafter⟩
  constructor
  · intro start stop j hblock
    rcases hcases hblock with ⟨rfl, -, rfl⟩ | ⟨hbehind, hafter⟩
    · rfl
    · rw [if_neg (by omega), if_neg (by omega)]
      exact h.first hafter
  · intro start stop k j hblock hk hk'
    rcases hcases hblock with ⟨rfl, rfl, -⟩ | ⟨hbehind, hafter⟩
    · rw [if_neg (by omega), if_pos hk']
    · rw [if_neg (by omega), if_neg (by omega)]
      exact h.inside hafter (by omega) (by omega)
  · intro k y hy hout
    have hbehind : body.length + 2 ≤ k := by
      have := hout _ _ _ hhead
      omega
    rw [if_neg (by omega), if_neg (by omega)]
    refine h.outside ?_ fun start stop j hblock => ?_
    · rwa [hwhole, List.getElem?_append_right (hlen ▸ hbehind), hlen] at hy
    · have hmoved := hout _ _ _ (hwhole ▸ hblock.append (o :: (body ++ [e])))
      rw [hlen] at hmoved
      omega

/-- Pieces that stand for a block, followed by those of the rest. -/
theorem flatMap_loop (first : List Item) (piece : ℕ → List Item) {n m : ℕ} :
    ((List.range (n + 1 + m)).flatMap fun k =>
      if k = 0 then first else if k < n + 1 then [] else piece (k - (n + 1))) =
        first ++ (List.range m).flatMap piece := by
  have hnothing : (List.range n).flatMap (fun k =>
      if k + 1 = 0 then first else if k + 1 < n + 1 then [] else piece (k + 1 - (n + 1))) = [] := by
    rw [List.flatMap_eq_nil_iff]
    intro k hk
    rw [List.mem_range] at hk
    rw [if_neg (by omega), if_pos (by omega)]
  rw [List.range_add, List.flatMap_append, List.range_succ_eq_map, List.flatMap_cons, if_pos rfl,
    List.flatMap_map, List.flatMap_map, hnothing, List.append_nil]
  refine congrArg (first ++ ·) (List.flatMap_congr fun k _ => ?_)
  rw [if_neg (by omega), if_neg (by omega), Nat.add_sub_cancel_left]

/-- Replacing from left to right gives the pieces one behind the other. -/
theorem exists_replacement (stream : List Item) :
    ∃ piece, Replacement stream piece ∧
      replaceIdioms stream = (List.range stream.length).flatMap piece := by
  induction hn : stream.length using Nat.strongRecOn generalizing stream with
  | _ n ih =>
  subst hn
  cases hstream : idiomAt? stream with
  | some result =>
    obtain ⟨i, after⟩ := result
    obtain ⟨piece, hpiece, hafter⟩ := ih after.length (idiomAt?_length hstream) after rfl
    obtain ⟨o, body, e, hloop, rfl⟩ := idiomAt?_eq_some.mp hstream
    refine ⟨_, hpiece.loop hloop, ?_⟩
    have hlen : (o :: (body ++ e :: after)).length = body.length + 1 + 1 + after.length := by
      simp
      omega
    rw [replaceIdioms_of_idiom hstream, hafter, hlen]
    exact (flatMap_loop [.instr i] piece).symm
  | none =>
    cases stream with
    | nil => exact ⟨fun _ => [], ⟨fun _ => by simp_all [idiomBlock_iff], fun _ _ _ => rfl, nofun⟩,
        replaceIdioms_nil⟩
    | cons x rest =>
      obtain ⟨piece, hpiece, hrest⟩ := ih rest.length (by simp) rest rfl
      refine ⟨_, hpiece.cons hstream, ?_⟩
      rw [replaceIdioms_cons hstream, hrest, List.length_cons, List.range_succ_eq_map,
        List.flatMap_cons, List.flatMap_map]
      rfl

/-- What is there after the replacement was there before or is the idiom of a block. -/
theorem Replacement.mem (h : Replacement stream piece)
    (hy : y ∈ (List.range stream.length).flatMap piece) :
    y ∈ stream ∨ ∃ start stop i, IdiomBlock stream start stop i ∧ y = .instr i := by
  obtain ⟨k, hk, hy⟩ := List.mem_flatMap.mp hy
  rw [List.mem_range] at hk
  by_cases hblock : ∃ start stop i, IdiomBlock stream start stop i ∧ start ≤ k ∧ k < stop
  · obtain ⟨start, stop, i, hblock, hstart, hstop⟩ := hblock
    rcases Nat.eq_or_lt_of_le hstart with rfl | hlt
    · rw [h.first hblock, List.mem_singleton] at hy
      exact Or.inr ⟨_, _, i, hblock, hy⟩
    · rw [h.inside hblock hlt hstop] at hy
      cases hy
  · rw [h.outside (List.getElem?_eq_getElem hk) fun start stop i hother => by
      by_contra hin
      exact hblock ⟨start, stop, i, hother, by omega, by omega⟩, List.mem_singleton] at hy
    exact Or.inl (hy ▸ List.getElem_mem hk)

end Pieces

/-! ## Amounts -/

/-- Whether the amounts of an instruction are residues other than zero. Draining by 1 or by 255 is
clearing. -/
def Op.InRange : Op → Prop
  | .add delta => 1 ≤ delta ∧ delta ≤ 255
  | .move offset => 1 ≤ offset ∧ offset ≤ 65535
  | .drain step => 2 ≤ step ∧ step ≤ 254
  | .transfer offset sourceDelta destDelta => (1 ≤ offset ∧ offset ≤ 65535) ∧
      (1 ≤ sourceDelta ∧ sourceDelta ≤ 255) ∧ 1 ≤ destDelta ∧ destDelta ≤ 255
  | _ => True

section Amounts

variable {stream out body : List Item} {axis : Axis} {amount amount' position position' : ℤ}
  {op : Op} {i : Instruction}

theorem step_inRange (hwrap : axis.wrap amount = amount) (hne : amount ≠ 0) :
    (axis.step amount).InRange := by
  cases axis with
  | cell =>
    have hmod : amount % 256 = amount := hwrap
    exact ⟨by omega, by omega⟩
  | pointer =>
    have hmod : amount % 65536 = amount := hwrap
    exact ⟨by omega, by omega⟩

/-- Steps that are settled are in range. -/
theorem Settled.inRange (h : Settled out) (hi : .instr i ∈ out) (hstep : i.op.isIdiom = false) :
    i.op.InRange := by
  obtain ⟨above, below, rfl⟩ := List.append_of_mem hi
  have hlast := h.of_append
  obtain ⟨op, position⟩ := i
  cases op with
  | add delta =>
    have hreduced : Axis.cell.wrap delta = delta ∧ delta ≠ 0 := Settled.reduced hlast
    exact step_inRange hreduced.1 hreduced.2
  | move offset =>
    have hreduced : Axis.pointer.wrap offset = offset ∧ offset ≠ 0 := Settled.reduced hlast
    exact step_inRange hreduced.1 hreduced.2
  | input => trivial
  | output => trivial
  | opening target => trivial
  | closing target => trivial
  | clear => cases hstep
  | scanLeft => cases hstep
  | scanRight => cases hstep
  | drain step => cases hstep
  | transfer offset sourceDelta destDelta => cases hstep

theorem ofStep?_inRange {op' : Op} (h : Idiom.ofStep? op' = some op) (hop : op'.InRange) :
    op.InRange := by
  unfold Idiom.ofStep? at h
  split at h
  · rename_i delta
    obtain ⟨hlow, hhigh⟩ : 1 ≤ delta ∧ delta ≤ 255 := hop
    cases h
    split
    · trivial
    · exact ⟨by omega, by omega⟩
  · split_ifs at h <;> cases h <;> trivial
  · cases h

theorem ofTrip?_inRange {source there dest back : ℤ}
    (h : Idiom.ofTrip? source there dest back = some op) (hsource : (Op.add source).InRange)
    (hthere : (Op.move there).InRange) (hdest : (Op.add dest).InRange) : op.InRange := by
  unfold Idiom.ofTrip? at h
  split_ifs at h
  cases h
  exact ⟨hthere, hsource, hdest⟩

/-- An idiom takes its amounts from its body. -/
theorem ofBody?_inRange (h : Idiom.ofBody? body = some op)
    (hbody : ∀ i, Item.instr i ∈ body → i.op.InRange) : op.InRange := by
  unfold Idiom.ofBody? at h
  split at h
  · exact ofStep?_inRange h (hbody _ (by simp))
  · rename_i a b c d
    have ha := hbody a (by simp)
    have hb := hbody b (by simp)
    have hc := hbody c (by simp)
    have hd := hbody d (by simp)
    split at h
    · rename_i hopa hopb hopc _
      rw [hopa] at ha
      rw [hopb] at hb
      rw [hopc] at hc
      exact ofTrip?_inRange h ha hb hc
    · rename_i hopa hopb _ hopd
      rw [hopa] at ha
      rw [hopb] at hb
      rw [hopd] at hd
      exact ofTrip?_inRange h hd ha hb
    · cases h
  · cases h

theorem foldSteps_inRange (hstream : ∀ x ∈ stream, x.isIdiom = false)
    (hi : .instr i ∈ foldSteps stream) : i.op.InRange := by
  cases hstep : (Item.instr i).isStep with
  | true =>
    have hplain : i.op.isIdiom = false := by
      by_contra hidiom
      rw [Bool.not_eq_false] at hidiom
      simp [Item.isStep, Item.op?, step_of_isIdiom hidiom] at hstep
    exact (foldSteps_settled stream).inRange (List.mem_reverse.mpr hi) hplain
  | false =>
    obtain ⟨x, hx, hunlinked⟩ := mem_foldSteps hi hstep
    refine (foldSteps_settled stream).inRange (List.mem_reverse.mpr hi) ?_
    have hplain := hstream x hx
    rcases x with ⟨op, position⟩ | v
    · cases hunlinked
      cases op <;> first | rfl | cases hplain
    · cases hunlinked

theorem collapseLoops_inRange (hstream : ∀ x ∈ stream, x.isIdiom = false)
    (hi : .instr i ∈ collapseLoops stream) : i.op.InRange := by
  obtain ⟨piece, hpiece, hflat⟩ := exists_replacement (foldSteps stream)
  rw [collapseLoops_eq, hflat] at hi
  rcases hpiece.mem hi with hold | ⟨start, stop, j, hblock, hj⟩
  · exact foldSteps_inRange hstream hold
  · cases hj
    obtain ⟨before, o, body, e, after, hfold, -, -, hloop⟩ := hblock
    refine ofBody?_inRange hloop.body fun b hb => foldSteps_inRange hstream ?_
    rw [hfold]
    simp [hb]

/-- Settled items have no two steps of one axis next to each other. -/
theorem Settled.not_adjacent {before after : List Item}
    (h : Settled (before ++ .instr ⟨axis.step amount, position⟩ ::
      .instr ⟨axis.step amount', position'⟩ :: after).reverse) : False := by
  simp only [List.reverse_append, List.reverse_cons, List.append_assoc, List.singleton_append] at h
  cases h.of_append.lastRun_tail.symm.trans lastRun?_cons

end Amounts

/-! ## Condensed streams -/

/-- **Collapsing loops while folding replaces all idioms of the folded stream at once.** -/
theorem collapseLoops_replaces (stream : List Item) :
    (∃ piece, Replacement (foldSteps stream) piece ∧
      condense .idiomatic stream = (List.range (foldSteps stream).length).flatMap piece) ∧
    (∀ start stop i start' stop' i', IdiomBlock (foldSteps stream) start stop i →
      IdiomBlock (foldSteps stream) start' stop' i' →
        (start = start' ∧ stop = stop' ∧ i = i') ∨ stop ≤ start' ∨ stop' ≤ start) ∧
    (∀ start stop i, ¬ IdiomBlock (condense .idiomatic stream) start stop i) ∧
    (∀ (before : List Item) (axis : Axis) amount position amount' position' after,
      condense .idiomatic stream ≠ before ++ .instr ⟨axis.step amount, position⟩ ::
        .instr ⟨axis.step amount', position'⟩ :: after) ∧
    ((∀ x ∈ stream, x.isIdiom = false) →
      ∀ i, .instr i ∈ condense .idiomatic stream → i.op.InRange) := by
  refine ⟨?_, fun _ _ _ _ _ _ h h' => h.apart h', ?_, ?_, fun h i hi => collapseLoops_inRange h hi⟩
  · obtain ⟨piece, hpiece, hflat⟩ := exists_replacement (foldSteps stream)
    exact ⟨piece, hpiece, (collapseLoops_eq stream).trans hflat⟩
  · intro start stop i hblock
    obtain ⟨after, hidiom, -⟩ := idiomBlock_iff.mp hblock
    have hfree := collapseLoops_free stream _ (List.drop_suffix start _)
    cases hfree.symm.trans hidiom
  · intro before axis amount position amount' position' after heq
    have hsettled := collapseLoops_settled stream
    rw [show collapseLoops stream = _ from heq] at hsettled
    exact hsettled.not_adjacent

/-- A loop that moves a cell, with moves in it that fold, and a loop that clears one, between two
stray brackets. -/
def strayLoops : List Item :=
  [.instr ⟨.closing (some 7), 1⟩, .instr ⟨.opening none, 2⟩, .instr ⟨.add (-1), 3⟩,
    .instr ⟨.move 1, 4⟩, .instr ⟨.add 1, 5⟩, .instr ⟨.move 1, 6⟩, .instr ⟨.move (-2), 7⟩,
    .instr ⟨.closing none, 8⟩, .instr ⟨.opening none, 9⟩, .instr ⟨.add (-1), 10⟩,
    .instr ⟨.closing none, 11⟩, .instr ⟨.opening none, 12⟩]

theorem collapseLoops_replaces_strayLoops :
    IdiomBlock (foldSteps strayLoops) 1 7 ⟨.transfer 1 255 1, 2⟩ ∧
      IdiomBlock (foldSteps strayLoops) 7 10 ⟨.clear, 9⟩ ∧ (7 ≤ 7 ∨ 10 ≤ 1) ∧
      (∃ piece, condense .idiomatic strayLoops =
          (List.range (foldSteps strayLoops).length).flatMap piece ∧
        piece 1 = [.instr ⟨.transfer 1 255 1, 2⟩] ∧ piece 7 = [.instr ⟨.clear, 9⟩]) ∧
      ∀ i, .instr i ∈ condense .idiomatic strayLoops → i.op.InRange := by
  have hmove : IdiomBlock (foldSteps strayLoops) 1 7 ⟨.transfer 1 255 1, 2⟩ :=
    ⟨[.instr ⟨.closing none, 1⟩], .instr ⟨.opening none, 2⟩,
      [.instr ⟨.add 255, 3⟩, .instr ⟨.move 1, 4⟩, .instr ⟨.add 1, 5⟩, .instr ⟨.move 65535, 6⟩],
      .instr ⟨.closing none, 8⟩, (foldSteps strayLoops).drop 7, rfl, rfl, rfl, ⟨none, rfl⟩, rfl, rfl⟩
  have hclear : IdiomBlock (foldSteps strayLoops) 7 10 ⟨.clear, 9⟩ :=
    ⟨(foldSteps strayLoops).take 7, .instr ⟨.opening none, 9⟩, [.instr ⟨.add 255, 10⟩],
      .instr ⟨.closing none, 11⟩, [.instr ⟨.opening none, 12⟩], rfl, rfl, rfl, ⟨none, rfl⟩, rfl, rfl⟩
  obtain ⟨⟨piece, hpiece, hflat⟩, hapart, -, -, hrange⟩ := collapseLoops_replaces strayLoops
  have happart : 7 ≤ 7 ∨ 10 ≤ 1 :=
    (hapart _ _ _ _ _ _ hmove hclear).resolve_left fun hsame => nomatch hsame.1
  exact ⟨hmove, hclear, happart, ⟨piece, hflat, hpiece.first hmove, hpiece.first hclear⟩,
    hrange (by decide)⟩

end TapeMachine
