import Mathlib.Data.List.Induction
import Mathlib.Tactic.SplitIfs
import TapeMachine.Proofs.Steps

/-! # Collapsing in a second pass

Loops are collapsed while a stream is folded. The result is that of two passes:
fold first, then replace every loop around an idiom at once (`collapseLoops_eq`).
What keeps the two in step is that the items folded so far, with their loops
replaced, are the items of the one pass: a loop is replaced when its closing
bracket comes, and an idiom never takes part in a later fold or body. -/
namespace TapeMachine

/-! ## Loops around idioms -/

/-- Whether a loop with this body and these brackets is replaced by an instruction. -/
structure IsIdiomLoop (opening : Item) (body : List Item) (closing : Item) (i : Instruction) :
    Prop where
  opening : ∃ target, opening = .instr ⟨.opening target, i.position⟩
  body : Idiom.ofBody? body = some i.op
  closing : closing.side? = some .closing

/-- The items up to the first bracket. -/
def untilBracket (l : List Item) : List Item := l.takeWhile (!·.isBracket)

/-- The idiom of the loop that starts a stream, and what stands behind the loop. -/
def idiomAt? : List Item → Option (Instruction × List Item)
  | .instr ⟨.opening _, position⟩ :: rest =>
    match rest.dropWhile (!·.isBracket) with
    | x :: after =>
      if x.side? = some .closing then
        (Idiom.ofBody? (untilBracket rest)).map fun op => (⟨op, position⟩, after)
      else none
    | [] => none
  | _ => none

section IdiomLoop

variable {body after l : List Item} {o e x : Item} {op : Op} {i : Instruction}

theorem ofStep?_isSome {op' : Op} (h : Idiom.ofStep? op = some op') : op.step?.isSome := by
  cases op <;> first | rfl | cases h

/-- The body of an idiom has nothing but steps. -/
theorem ofBody?_steps (h : Idiom.ofBody? body = some op) :
    ∀ x ∈ body, ∃ i : Instruction, x = .instr i ∧ i.op.step?.isSome := by
  unfold Idiom.ofBody? at h
  split at h
  · simpa using ofStep?_isSome h
  · rename_i a b c d
    split at h
    · rename_i ha hb hc hd
      simp [ha, hb, hc, hd, Op.step?]
    · rename_i ha hb hc hd
      simp [ha, hb, hc, hd, Op.step?]
    · cases h
  · cases h

theorem ofBody?_length (h : Idiom.ofBody? body = some op) : body.length = 1 ∨ body.length = 4 := by
  unfold Idiom.ofBody? at h
  split at h
  · exact Or.inl rfl
  · exact Or.inr rfl
  · cases h

theorem ofBody?_side (h : Idiom.ofBody? body = some op) : ∀ x ∈ body, x.side? = none := by
  intro x hx
  obtain ⟨i, rfl, hi⟩ := ofBody?_steps h x hx
  obtain ⟨⟨axis, amount⟩, hstep⟩ := Option.isSome_iff_exists.mp hi
  exact side_of_step hstep

theorem isBracket_of_side {side : Side} (h : x.side? = some side) : x.isBracket = true := by
  simp [Item.isBracket, h]

theorem cut_at_bracket (hbody : ∀ x ∈ body, x.side? = none) (he : e.isBracket = true)
    (after : List Item) :
    untilBracket (body ++ e :: after) = body ∧
      (body ++ e :: after).dropWhile (!·.isBracket) = e :: after := by
  have hplain : ∀ x ∈ body, (!x.isBracket) = true := fun x hx => by
    simp [Item.isBracket, hbody x hx]
  constructor
  · rw [untilBracket, List.takeWhile_append_of_pos hplain,
      List.takeWhile_cons_of_neg (by simp [he]), List.append_nil]
  · rw [List.dropWhile_append_of_pos hplain, List.dropWhile_cons_of_neg (by simp [he])]

/-- A stream is cut at its last bracket in one way. -/
theorem last_bracket_unique {before before' body' : List Item} {o' : Item}
    (hbody : ∀ x ∈ body, x.side? = none) (hbody' : ∀ x ∈ body', x.side? = none)
    (ho : o.isBracket = true) (ho' : o'.isBracket = true)
    (h : before ++ o :: body = before' ++ o' :: body') :
    before = before' ∧ o = o' ∧ body = body' := by
  have hcut := cut_at_bracket (fun x hx => hbody x (List.mem_reverse.mp hx)) ho before.reverse
  have hcut' := cut_at_bracket (fun x hx => hbody' x (List.mem_reverse.mp hx)) ho' before'.reverse
  have hrev : body.reverse ++ o :: before.reverse = body'.reverse ++ o' :: before'.reverse := by
    simpa using congrArg List.reverse h
  rw [hrev] at hcut
  obtain ⟨hhead, htail⟩ := List.cons.inj (hcut.2.symm.trans hcut'.2)
  exact ⟨List.reverse_inj.mp htail, hhead, List.reverse_inj.mp (hcut.1.symm.trans hcut'.1)⟩

theorem idiomAt?_eq_some :
    idiomAt? l = some (i, after) ↔
      ∃ o body e, IsIdiomLoop o body e i ∧ l = o :: (body ++ e :: after) := by
  constructor
  · intro h
    unfold idiomAt? at h
    split at h
    · rename_i target position rest
      cases hrest : rest.dropWhile (!·.isBracket) with
      | nil => simp [hrest] at h
      | cons x after' =>
        rw [hrest] at h
        by_cases hx : x.side? = some .closing
        · simp only [if_pos hx, Option.map_eq_some_iff, Prod.mk.injEq] at h
          obtain ⟨op, hop, rfl, rfl⟩ := h
          refine ⟨_, untilBracket rest, x, ⟨⟨target, rfl⟩, hop, hx⟩, ?_⟩
          rw [← hrest, untilBracket, List.takeWhile_append_dropWhile]
        · simp [hx] at h
    · cases h
  · intro h
    obtain ⟨o, body, e, ⟨⟨target, rfl⟩, hbody, he⟩, rfl⟩ := h
    obtain ⟨htake, hdrop⟩ := cut_at_bracket (ofBody?_side hbody) (isBracket_of_side he) after
    simp [idiomAt?, hdrop, htake, he, hbody]

theorem idiomAt?_length (h : idiomAt? l = some (i, after)) : after.length < l.length := by
  obtain ⟨o, body, e, -, rfl⟩ := idiomAt?_eq_some.mp h
  simp
  omega

end IdiomLoop

/-- The stream with every loop around an idiom replaced. -/
def replaceIdioms (l : List Item) : List Item :=
  match _h : idiomAt? l with
  | some (i, after) => .instr i :: replaceIdioms after
  | none =>
    match l with
    | [] => []
    | x :: rest => x :: replaceIdioms rest
termination_by l.length
decreasing_by
  · exact idiomAt?_length ‹_›
  · simp

section Replace

variable {l l' rest after : List Item} {x : Item} {i : Instruction}

theorem replaceIdioms_nil : replaceIdioms [] = [] := by
  rw [replaceIdioms.eq_def]
  rfl

theorem replaceIdioms_of_idiom (h : idiomAt? l = some (i, after)) :
    replaceIdioms l = .instr i :: replaceIdioms after := by
  rw [replaceIdioms.eq_def]
  split
  · rename_i h'
    cases h.symm.trans h'
    rfl
  · rename_i h'
    cases h.symm.trans h'

theorem replaceIdioms_cons (h : idiomAt? (x :: rest) = none) :
    replaceIdioms (x :: rest) = x :: replaceIdioms rest := by
  rw [replaceIdioms.eq_def]
  split
  · rename_i h'
    cases h.symm.trans h'
  · rfl

/-- Whether a loop that is replaced begins in one stream and ends in the other. -/
def Straddled (l l' : List Item) : Prop :=
  ∃ before o body body' e after i, IsIdiomLoop o (body ++ body') e i ∧
    l = before ++ o :: body ∧ l' = body' ++ e :: after

/-- Streams that no loop straddles are replaced apart. -/
theorem replaceIdioms_append (h : ¬ Straddled l l') :
    replaceIdioms (l ++ l') = replaceIdioms l ++ replaceIdioms l' := by
  induction hn : l.length using Nat.strongRecOn generalizing l with
  | _ n ih =>
  cases hl : idiomAt? l with
  | some result =>
    obtain ⟨i, after⟩ := result
    obtain ⟨o, body, e, hloop, rfl⟩ := idiomAt?_eq_some.mp hl
    have hwhole : idiomAt? (o :: (body ++ e :: after) ++ l') = some (i, after ++ l') :=
      idiomAt?_eq_some.mpr ⟨o, body, e, hloop, by simp⟩
    have hafter : ¬ Straddled after l' := by
      intro hacross
      obtain ⟨before, o', body', body'', e', after', i', hloop', rfl, rfl⟩ := hacross
      exact h ⟨o :: (body ++ e :: before), o', body', body'', e', after', i', hloop', by simp, rfl⟩
    rw [replaceIdioms_of_idiom hwhole, replaceIdioms_of_idiom hl,
      ih after.length (hn ▸ idiomAt?_length hl) hafter rfl, List.cons_append]
  | none =>
    cases l with
    | nil => rw [List.nil_append, replaceIdioms_nil, List.nil_append]
    | cons x rest =>
      have hwhole : idiomAt? (x :: (rest ++ l')) = none := by
        rw [Option.eq_none_iff_forall_ne_some]
        intro result hsome
        obtain ⟨i, after⟩ := result
        obtain ⟨o, body, e, hloop, heq⟩ := idiomAt?_eq_some.mp hsome
        obtain ⟨rfl, hcut⟩ := List.cons.inj heq
        -- the loop lies in the first stream or straddles
        rcases List.append_eq_append_iff.mp hcut with ⟨middle, rfl, rfl⟩ | ⟨middle, rfl, hmiddle⟩
        · exact h ⟨[], x, rest, middle, e, after, i, hloop, rfl, rfl⟩
        · cases middle with
          | nil =>
            exact h ⟨[], x, body, [], e, after, i, by simpa using hloop, by simp, hmiddle.symm⟩
          | cons y middle =>
            obtain ⟨rfl, rfl⟩ := List.cons.inj hmiddle
            have hinner : idiomAt? (x :: (body ++ e :: middle)) = some (i, middle) :=
              idiomAt?_eq_some.mpr ⟨x, body, e, hloop, rfl⟩
            cases hl.symm.trans hinner
      have hrest : ¬ Straddled rest l' := by
        intro hacross
        obtain ⟨before, o, body, body', e, after, i, hloop, rfl, rfl⟩ := hacross
        exact h ⟨x :: before, o, body, body', e, after, i, hloop, rfl, rfl⟩
      rw [List.cons_append, replaceIdioms_cons hwhole, replaceIdioms_cons hl,
        ih rest.length (by simp [← hn]) hrest rfl, List.cons_append]

theorem replaceIdioms_singleton : replaceIdioms [x] = [x] := by
  rw [replaceIdioms_cons, replaceIdioms_nil]
  rw [Option.eq_none_iff_forall_ne_some]
  intro result hsome
  obtain ⟨i, after⟩ := result
  obtain ⟨o, body, e, -, heq⟩ := idiomAt?_eq_some.mp hsome
  simp at heq

/-- An item that completes no loop is left alone. -/
theorem replaceIdioms_concat
    (h : ∀ before o body i, IsIdiomLoop o body x i → l ≠ before ++ o :: body) :
    replaceIdioms (l ++ [x]) = replaceIdioms l ++ [x] := by
  rw [replaceIdioms_append, replaceIdioms_singleton]
  intro hacross
  obtain ⟨before, o, body, body', e, after, i, hloop, rfl, heq⟩ := hacross
  obtain ⟨rfl, rfl⟩ : body' = [] ∧ x = e := by
    cases body' <;> simp_all
  exact h before o body i (by simpa using hloop) rfl

/-- Only a closing bracket completes a loop. -/
theorem replaceIdioms_concat_of_side (hx : x.side? ≠ some .closing) :
    replaceIdioms (l ++ [x]) = replaceIdioms l ++ [x] :=
  replaceIdioms_concat fun _ _ _ _ hloop => absurd hloop.closing hx

theorem replaceIdioms_append_of_side (h : ∀ x ∈ l', x.side? ≠ some .closing) :
    replaceIdioms (l ++ l') = replaceIdioms l ++ l' := by
  induction l' generalizing l with
  | nil => rw [List.append_nil, List.append_nil]
  | cons x l' ih =>
    rw [List.forall_mem_cons] at h
    rw [List.append_cons, ih h.2, replaceIdioms_concat_of_side h.1, ← List.append_cons]

theorem IsIdiomLoop.side {o e : Item} {body : List Item} (h : IsIdiomLoop o body e i) :
    o.side? = some .opening := by
  obtain ⟨target, rfl⟩ := h.opening
  rfl

theorem IsIdiomLoop.unique {o e : Item} {body : List Item} {j : Instruction}
    (h : IsIdiomLoop o body e i) (h' : IsIdiomLoop o body e j) : i = j := by
  obtain ⟨target, rfl⟩ := h.opening
  obtain ⟨target', hposition⟩ := h'.opening
  have hop := h.body.symm.trans h'.body
  obtain ⟨op, position⟩ := i
  obtain ⟨op', position'⟩ := j
  simp_all

/-- A closing bracket replaces the loop it completes. -/
theorem replaceIdioms_close {before body : List Item} {o e : Item} (h : IsIdiomLoop o body e i) :
    replaceIdioms (before ++ o :: body ++ [e]) = replaceIdioms before ++ [.instr i] := by
  have hloop : replaceIdioms (o :: (body ++ [e])) = [.instr i] := by
    rw [replaceIdioms_of_idiom (idiomAt?_eq_some.mpr ⟨o, body, e, h, rfl⟩), replaceIdioms_nil]
  rw [List.append_assoc, List.cons_append, replaceIdioms_append, hloop]
  intro hacross
  obtain ⟨before', o', body', body'', e', after, i', hloop', -, heq⟩ := hacross
  cases body'' with
  | nil =>
    obtain ⟨rfl, -⟩ := List.cons.inj heq
    cases h.side.symm.trans hloop'.closing
  | cons y body'' =>
    obtain ⟨rfl, -⟩ := List.cons.inj heq
    cases h.side.symm.trans (ofBody?_side hloop'.body o (by simp))

end Replace

/-! ## Replacing while folding -/

section Online

variable {l l' rest body before : List Item} {o e x : Item} {i : Instruction} {op : Op}

theorem ofStep?_isIdiom {op' : Op} (h : Idiom.ofStep? op' = some op) : op.isIdiom = true := by
  unfold Idiom.ofStep? at h
  split at h
  · cases h
    split_ifs <;> rfl
  · split_ifs at h <;> cases h <;> rfl
  · cases h

theorem ofTrip?_isIdiom {source there dest back : ℤ}
    (h : Idiom.ofTrip? source there dest back = some op) : op.isIdiom = true := by
  unfold Idiom.ofTrip? at h
  split_ifs at h
  cases h
  rfl

theorem ofBody?_isIdiom (h : Idiom.ofBody? body = some op) : op.isIdiom = true := by
  unfold Idiom.ofBody? at h
  split at h
  · exact ofStep?_isIdiom h
  · split at h
    · exact ofTrip?_isIdiom h
    · exact ofTrip?_isIdiom h
    · cases h
  · cases h

theorem side_of_isIdiom (h : op.isIdiom = true) : op.side? = none := by
  cases op <;> first | rfl | cases h

/-- Before its closing bracket comes, a loop holds nothing that a replacement could have made. -/
theorem IsIdiomLoop.kept (h : IsIdiomLoop o body e i) :
    ∀ x ∈ o :: body, x.side? ≠ some .closing ∧ x.isIdiom = false := by
  rw [List.forall_mem_cons]
  constructor
  · obtain ⟨target, rfl⟩ := h.opening
    exact ⟨nofun, rfl⟩
  · intro x hx
    obtain ⟨j, rfl, hj⟩ := ofBody?_steps h.body x hx
    obtain ⟨⟨axis, amount⟩, hstep⟩ := Option.isSome_iff_exists.mp hj
    obtain ⟨op, position⟩ := j
    obtain rfl : op = axis.step amount := step_eq hstep
    simp

/-- An item that is there after the replacement and that no loop leaves was there before. -/
theorem replaceIdioms_eq_concat (h : replaceIdioms l = l' ++ [x]) (hside : x.side? ≠ some .closing)
    (hidiom : x.isIdiom = false) : ∃ m, l = m ++ [x] ∧ replaceIdioms m = l' := by
  rcases List.eq_nil_or_concat l with rfl | ⟨m, y, rfl⟩
  · rw [replaceIdioms_nil] at h
    simp at h
  · rw [List.concat_eq_append] at h ⊢
    by_cases hclose : ∃ before o body i, IsIdiomLoop o body y i ∧ m = before ++ o :: body
    · obtain ⟨before, o, body, i, hloop, rfl⟩ := hclose
      rw [replaceIdioms_close hloop] at h
      obtain ⟨-, hx⟩ := List.append_inj' h rfl
      obtain rfl : Item.instr i = x := by simpa using hx
      have : (Item.instr i).isIdiom = true := ofBody?_isIdiom hloop.body
      rw [this] at hidiom
      cases hidiom
    · rw [replaceIdioms_concat fun before o body i hloop heq =>
        hclose ⟨before, o, body, i, hloop, heq⟩] at h
      obtain ⟨rfl, hx⟩ := List.append_inj' h rfl
      obtain rfl : y = x := by simpa using hx
      exact ⟨m, rfl, rfl⟩

theorem replaceIdioms_eq_append (h : replaceIdioms l = l' ++ rest)
    (hrest : ∀ x ∈ rest, x.side? ≠ some .closing ∧ x.isIdiom = false) :
    ∃ m, l = m ++ rest ∧ replaceIdioms m = l' := by
  induction rest using List.reverseRecOn generalizing l with
  | nil => exact ⟨l, by simp, by simpa using h⟩
  | append_singleton rest x ih =>
    rw [← List.append_assoc] at h
    rw [List.forall_mem_append] at hrest
    obtain ⟨hside, hidiom⟩ := hrest.2 x (by simp)
    obtain ⟨m, rfl, hm⟩ := replaceIdioms_eq_concat h hside hidiom
    obtain ⟨m', rfl, hm'⟩ := ih hm hrest.1
    exact ⟨m', by simp, hm'⟩

theorem collapseWidth?_eq_some {width : ℕ} {below out : List Item} (he : e.side? = some .closing) :
    collapseWidth? width (e :: below) = some out ↔
      ∃ before o body i, IsIdiomLoop o body e i ∧ body.length = width ∧
        below.reverse = before ++ o :: body ∧ out.reverse = before ++ [.instr i] := by
  constructor
  · intro h
    unfold collapseWidth? at h
    split at h
    · cases h
    · rename_i below' heq
      obtain ⟨-, rfl⟩ := List.cons.inj heq
      split at h
      · rename_i target position rest hdrop
        obtain ⟨op, hop, rfl⟩ := Option.map_eq_some_iff.mp h
        refine ⟨rest.reverse, _, _, ⟨op, position⟩, ⟨⟨target, rfl⟩, hop, he⟩, ?_, ?_, ?_⟩
        · have hlen := congrArg List.length hdrop
          simp only [List.length_drop, List.length_cons] at hlen
          simp
          omega
        · have hcut := List.take_append_drop width below
          rw [hdrop] at hcut
          simpa using congrArg List.reverse hcut.symm
        · simp
      · cases h
  · intro h
    obtain ⟨before, o, body, i, ⟨⟨target, rfl⟩, hbody, -⟩, rfl, hbelow, hout⟩ := h
    have hbelow' : below =
        body.reverse ++ .instr ⟨.opening target, i.position⟩ :: before.reverse := by
      simpa using congrArg List.reverse hbelow
    have hout' : out = .instr i :: before.reverse := by simpa using congrArg List.reverse hout
    rw [hbelow', hout', ← List.length_reverse]
    simp [collapseWidth?, hbody]

/-- The last item collapses the loop it completes. -/
theorem collapseLast_close {before below : List Item} (h : IsIdiomLoop o body e i)
    (hbelow : below.reverse = before ++ o :: body) :
    (collapseLast (e :: below)).reverse = before ++ [.instr i] := by
  have hunique : ∀ width out, collapseWidth? width (e :: below) = some out →
      out.reverse = before ++ [.instr i] := by
    intro width out hout
    obtain ⟨before', o', body', i', h', -, hbelow', hout'⟩ :=
      (collapseWidth?_eq_some h.closing).mp hout
    obtain ⟨rfl, rfl, rfl⟩ := last_bracket_unique (ofBody?_side h.body) (ofBody?_side h'.body)
      (isBracket_of_side h.side) (isBracket_of_side h'.side) (hbelow.symm.trans hbelow')
    rw [hout', h.unique h']
  have hwidth : ∃ out, collapseWidth? body.length (e :: below) = some out :=
    ⟨.instr i :: before.reverse, (collapseWidth?_eq_some h.closing).mpr
      ⟨before, o, body, i, h, rfl, hbelow, by simp⟩⟩
  unfold collapseLast
  cases h₁ : collapseWidth? 1 (e :: below) with
  | some out => simpa using hunique _ _ h₁
  | none =>
    cases h₄ : collapseWidth? 4 (e :: below) with
    | some out => simpa using hunique _ _ h₄
    | none =>
      obtain ⟨out, hout⟩ := hwidth
      rcases ofBody?_length h.body with hlen | hlen
      · rw [hlen, h₁] at hout
        cases hout
      · rw [hlen, h₄] at hout
        cases hout

/-- It leaves everything alone if it completes none. -/
theorem collapseLast_apart {below : List Item} (he : e.side? = some .closing)
    (h : ∀ before o body i, IsIdiomLoop o body e i → below.reverse ≠ before ++ o :: body) :
    collapseLast (e :: below) = e :: below := by
  have hnone : ∀ width, collapseWidth? width (e :: below) = none := by
    intro width
    rw [Option.eq_none_iff_forall_ne_some]
    intro out hout
    obtain ⟨before, o, body, i, hloop, -, hbelow, -⟩ := (collapseWidth?_eq_some he).mp hout
    exact h before o body i hloop hbelow
  simp [collapseLast, hnone]

/-- Whether one folder has its loops replaced and the other one has not. -/
structure Folder.Replaced (f g : Folder) : Prop where
  out : g.out.reverse = replaceIdioms f.out.reverse
  cancelled : g.cancelled = f.cancelled

variable {f g : Folder} {axis : Axis} {amount position : ℤ}

theorem Folder.Replaced.settle {out out' : List Item}
    (h : out'.reverse = replaceIdioms out.reverse) :
    (Folder.settle axis amount position out).Replaced
      (Folder.settle axis amount position out') := by
  unfold Folder.settle
  split
  · exact ⟨h, rfl⟩
  · refine ⟨?_, rfl⟩
    rw [List.reverse_cons, List.reverse_cons, h, replaceIdioms_concat_of_side (by simp)]

/-- A step goes into the same run in both folders. -/
theorem Folder.Replaced.pushStep (h : f.Replaced g) :
    (f.pushStep axis amount position).Replaced (g.pushStep axis amount position) := by
  unfold Folder.pushStep
  cases hrun : lastRun? axis f.out with
  | some result =>
    obtain ⟨before, first, rest⟩ := result
    have hout := h.out
    rw [lastRun?_eq_some hrun, List.reverse_cons, replaceIdioms_concat_of_side (by simp)] at hout
    have hlast : g.out =
        .instr ⟨axis.step before, first⟩ :: (replaceIdioms rest.reverse).reverse := by
      simpa using congrArg List.reverse hout
    rw [hlast, lastRun?_cons]
    exact .settle (by simp)
  | none =>
    have hnone : lastRun? axis g.out = none := by
      rw [Option.eq_none_iff_forall_ne_some]
      intro result hsome
      obtain ⟨before, first, rest⟩ := result
      have hout := h.out
      rw [lastRun?_eq_some hsome, List.reverse_cons] at hout
      obtain ⟨m, hm, -⟩ := replaceIdioms_eq_concat hout.symm (by simp) (by simp)
      have hlast : f.out = .instr ⟨axis.step before, first⟩ :: m.reverse := by
        simpa using congrArg List.reverse hm
      rw [hlast, lastRun?_cons] at hrun
      cases hrun
    have hstart : f.start axis position = g.start axis position := by
      rw [Folder.start, Folder.start, h.cancelled]
    rw [hnone, hstart]
    exact .settle h.out

/-- An item that is no step and completes no loop is put behind both. -/
theorem Folder.Replaced.put (h : f.Replaced g)
    (hx : ∀ before o body i, IsIdiomLoop o body x i → f.out.reverse ≠ before ++ o :: body) :
    Folder.Replaced ⟨x :: f.out, none⟩ ⟨x :: g.out, none⟩ where
  out := by rw [List.reverse_cons, List.reverse_cons, h.out, replaceIdioms_concat hx]
  cancelled := rfl

/-- A closing bracket collapses the loop that it completes, and no other. -/
theorem Folder.Replaced.close (h : f.Replaced g) (he : e.side? = some .closing) :
    Folder.Replaced ⟨e :: f.out, none⟩ ⟨collapseLast (e :: g.out), none⟩ := by
  by_cases hclose : ∃ before o body i, IsIdiomLoop o body e i ∧ f.out.reverse = before ++ o :: body
  · obtain ⟨before, o, body, i, hloop, hout⟩ := hclose
    have hcollapse : replaceIdioms (before ++ o :: body) = replaceIdioms before ++ o :: body :=
      replaceIdioms_append_of_side fun x hx => (hloop.kept x hx).1
    refine ⟨?_, rfl⟩
    rw [collapseLast_close hloop (by rw [h.out, hout, hcollapse]), List.reverse_cons, hout,
      replaceIdioms_close hloop]
  · have hapart : ∀ before o body i, IsIdiomLoop o body e i →
        g.out.reverse ≠ before ++ o :: body := by
      intro before o body i hloop hout
      rw [h.out] at hout
      obtain ⟨m, hm, -⟩ := replaceIdioms_eq_append hout hloop.kept
      exact hclose ⟨m, o, body, i, hloop, hm⟩
    rw [collapseLast_apart he hapart]
    exact h.put fun before o body i hloop hout => hclose ⟨before, o, body, i, hloop, hout⟩

theorem Folder.Replaced.pushLoop (h : f.Replaced g) : (f.push x).Replaced (g.pushLoop x) := by
  rcases x with i | v
  · cases hstep : i.op.step? with
    | some result =>
      obtain ⟨axis, amount⟩ := result
      have hside : (Item.instr i).side? = none := side_of_step hstep
      rw [Folder.pushLoop, if_neg (by simp [hside]), push_of_step hstep, push_of_step hstep]
      exact h.pushStep
    | none =>
      rw [Folder.pushLoop, push_of_not_step hstep, push_of_not_step hstep]
      split
      · exact h.close ‹_›
      · exact h.put fun _ _ _ _ hloop => absurd hloop.closing ‹_›
  · exact h.put fun _ _ _ _ hloop => by cases hloop.closing

/-- **Collapsing loops while folding is folding and then replacing all idioms.** -/
theorem collapseLoops_eq (stream : List Item) :
    collapseLoops stream = replaceIdioms (foldSteps stream) := by
  have hall : ∀ f g : Folder, f.Replaced g →
      (stream.foldl (fun f x => f.push x.unlinked) f).Replaced
        (stream.foldl (fun f x => f.pushLoop x.unlinked) g) := by
    induction stream with
    | nil => exact fun f g h => h
    | cons x stream ih => exact fun f g h => ih _ _ h.pushLoop
  exact (hall .empty .empty ⟨replaceIdioms_nil.symm, rfl⟩).out

end Online

end TapeMachine
