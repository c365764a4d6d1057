import Mathlib.Logic.Relation
import TapeMachine.Proofs.NormalForm

/-! # Rewriting the steps of a stream

Steps can be reduced to residues, neighbours of one axis made one step, and steps
of nothing dropped, one after the other and anywhere in a stream (`Rewrite`).
However this is done, it ends in the folded stream (`foldSteps_unique`). The items
folded so far are a run of the axis that is pushed, possibly an empty one, on items
that end in no such run. A step adds to that run (`pushStep_settle`), so a rewrite
in front of it or behind it makes no difference. Where a run starts depends on the
order of the rewrites, so positions are left out. -/
namespace TapeMachine

/-- An item without its position. -/
def Item.bare : Item → Item
  | .instr i => .instr ⟨i.op, 0⟩
  | .foreign v => .foreign v

/-- What neighbouring steps can be rewritten to. A step that is made of two may count as starting
anywhere. -/
inductive Rule : List Item → List Item → Prop
  | reduce (axis : Axis) (amount position : ℤ) :
      Rule [.instr ⟨axis.step amount, position⟩] [.instr ⟨axis.step (axis.wrap amount), position⟩]
  | merge (axis : Axis) (amount amount' position position' start : ℤ) :
      Rule [.instr ⟨axis.step amount, position⟩, .instr ⟨axis.step amount', position'⟩]
        [.instr ⟨axis.step (axis.wrap (amount + amount')), start⟩]
  | drop (axis : Axis) (amount position : ℤ) : axis.wrap amount = 0 →
      Rule [.instr ⟨axis.step amount, position⟩] []

/-- One rewrite of a stream, at any place in it. -/
inductive Rewrite : List Item → List Item → Prop
  | within {l l' : List Item} (before after : List Item) : Rule l l' →
      Rewrite (before ++ l ++ after) (before ++ l' ++ after)

/-- A number of rewrites. -/
abbrev Rewrites : List Item → List Item → Prop := Relation.ReflTransGen Rewrite

/-- Whether no rewrite changes anything. -/
def Normal (t : List Item) : Prop := ∀ u, Rewrite t u → u = t

/-! ## Folding without positions -/

/-- Whether two folders have folded the same items, but for positions. -/
def Folder.Alike (f g : Folder) : Prop := f.out.map Item.bare = g.out.map Item.bare

section Alike

variable {f g : Folder} {axis : Axis} {amount v position position' : ℤ} {out out' rest : List Item}
  {x y : Item} {l : List Item}

theorem lastRun?_bare (axis : Axis) (out : List Item) :
    Folder.lastRun? axis (out.map Item.bare) =
      (Folder.lastRun? axis out).map fun run => (run.1, 0, run.2.2.map Item.bare) := by
  rcases out with _ | ⟨⟨op, position⟩ | v, rest⟩
  · rfl
  · simp only [List.map_cons, Item.bare, Folder.lastRun?]
    cases op.step? with
    | none => rfl
    | some step =>
      obtain ⟨axis', amount⟩ := step
      simp only
      split <;> rfl
  · rfl

theorem op_bare (x : Item) : x.bare.op? = x.op? := by
  cases x <;> rfl

theorem settle_alike (h : out.map Item.bare = out'.map Item.bare) :
    (Folder.settle axis amount position out).Alike (Folder.settle axis amount position' out') := by
  unfold Folder.settle Folder.Alike
  split
  · exact h
  · simpa [Item.bare] using h

theorem Folder.Alike.pushStep (h : f.Alike g) :
    (f.pushStep axis amount position).Alike (g.pushStep axis amount position') := by
  have hruns := lastRun?_bare axis f.out
  rw [show f.out.map Item.bare = g.out.map Item.bare from h, lastRun?_bare] at hruns
  unfold Folder.pushStep
  cases hf : Folder.lastRun? axis f.out with
  | none =>
    rw [hf, Option.map_none, Option.map_eq_none_iff] at hruns
    rw [hruns]
    exact settle_alike h
  | some run =>
    rw [hf, Option.map_some, Option.map_eq_some_iff] at hruns
    obtain ⟨run', hg, hrun⟩ := hruns
    obtain ⟨amount, first, rest⟩ := run
    obtain ⟨amount', first', rest'⟩ := run'
    simp only [Prod.mk.injEq, true_and] at hrun
    obtain ⟨rfl, hrest⟩ := hrun
    rw [hg]
    exact settle_alike hrest.symm

/-- Positions make no difference to what is folded. -/
theorem Folder.Alike.push (h : f.Alike g) (hx : x.bare = y.bare) : (f.push x).Alike (g.push y) := by
  have hop : x.op? = y.op? := by rw [← op_bare x, hx, op_bare]
  rcases push_cases x with ⟨axis, amount, position, rfl⟩ | ⟨hstep, hpush⟩
  · rcases y with ⟨op, position'⟩ | v
    · obtain rfl : axis.step amount = op := Option.some.inj hop
      rw [push_of_step step_step, push_of_step step_step]
      exact h.pushStep
    · cases hop
  · rcases push_cases y with ⟨axis, amount, position, rfl⟩ | ⟨-, hpush'⟩
    · rw [hop] at hstep
      simp [Item.op?] at hstep
    · rw [hpush, hpush', Folder.Alike, List.map_cons, List.map_cons, hx, h]

theorem bare_unlinked (x : Item) : x.unlinked.bare = x.bare.unlinked := by
  cases x <;> rfl

theorem Folder.Alike.foldl {l' : List Item} (h : f.Alike g)
    (hl : l.map Item.bare = l'.map Item.bare) :
    (l.foldl (fun f x => f.push x.unlinked) f).Alike
      (l'.foldl (fun f x => f.push x.unlinked) g) := by
  induction l generalizing l' f g with
  | nil =>
    obtain rfl := List.map_eq_nil_iff.mp hl.symm
    exact h
  | cons x l ih =>
    obtain ⟨y, l', rfl, hxy, htail⟩ := List.map_eq_cons_iff.mp hl.symm
    have hpush : (f.push x.unlinked).Alike (g.push y.unlinked) :=
      h.push (by rw [bare_unlinked, bare_unlinked, hxy])
    rw [List.foldl_cons, List.foldl_cons]
    exact ih hpush htail.symm

end Alike

/-! ## Runs -/

section Runs

variable {f : Folder} {axis : Axis} {amount amount' v position : ℤ} {out rest : List Item}
  {l l' : List Item}

theorem wrap_add_wrap : axis.wrap (amount + axis.wrap amount') = axis.wrap (amount + amount') := by
  cases axis <;> simp [Axis.wrap, Cell.wrap, Offset.wrap]

theorem wrap_add_wrap_left :
    axis.wrap (axis.wrap amount + amount') = axis.wrap (amount + amount') := by
  rw [Int.add_comm, wrap_add_wrap, Int.add_comm]

/-- A step is a residue other than zero in settled items. -/
theorem Settled.reduced (h : Settled (.instr ⟨axis.step amount, position⟩ :: out)) :
    axis.wrap amount = amount ∧ amount ≠ 0 := by
  generalize hx : Item.instr ⟨axis.step amount, position⟩ = x at h
  cases h with
  | @step axis' amount' _ _ hwrap hne _ _ =>
    cases axis <;> cases axis' <;> first | (cases hx; exact ⟨hwrap, hne⟩) | cases hx
  | other hop _ _ =>
    rw [← hx] at hop
    cases axis <;> cases hop

/-- Whether the items are a run of an axis on items that end in none, the run of zero being empty. -/
structure EndsIn (out : List Item) (axis : Axis) (amount : ℤ) (rest : List Item) : Prop where
  wrapped : axis.wrap amount = amount
  last : Folder.lastRun? axis rest = none
  out : out.map Item.bare = (Folder.settle axis amount 0 rest).out.map Item.bare

theorem Settled.endsIn (h : Settled out) (axis : Axis) :
    ∃ amount rest, EndsIn out axis amount rest := by
  cases hrun : Folder.lastRun? axis out with
  | none =>
    refine ⟨0, out, by cases axis <;> rfl, hrun, ?_⟩
    simp [Folder.settle]
  | some run =>
    obtain ⟨amount, position, rest⟩ := run
    rw [lastRun?_eq_some hrun] at h ⊢
    obtain ⟨hwrap, hne⟩ := h.reduced
    refine ⟨amount, rest, hwrap, h.lastRun_tail, ?_⟩
    simp [Folder.settle, hne, Item.bare]

/-- A step adds to the run of its axis. -/
theorem EndsIn.pushStep (h : EndsIn f.out axis v rest) :
    EndsIn (f.pushStep axis amount position).out axis (axis.wrap (amount + v)) rest := by
  refine ⟨wrap_wrap, h.last, ?_⟩
  have halike : f.Alike (Folder.settle axis v 0 rest) := h.out
  have hpushed : (f.pushStep axis amount position).Alike
      ((Folder.settle axis v 0 rest).pushStep axis amount 0) := halike.pushStep
  refine hpushed.trans ?_
  unfold Folder.pushStep
  by_cases hv : v = 0
  · have hout : (Folder.settle axis v 0 rest).out = rest := by rw [Folder.settle, if_pos hv]
    rw [hout, h.last, hv, Int.add_zero]
    exact settle_alike rfl
  · have hout : (Folder.settle axis v 0 rest).out = .instr ⟨axis.step v, 0⟩ :: rest := by
      rw [Folder.settle, if_neg hv]
    simp only [hout, lastRun?_cons, wrap_add_wrap_left]

theorem EndsIn.push (h : EndsIn f.out axis v rest) (amount position : ℤ) : EndsIn
    (f.push (Item.instr ⟨axis.step amount, position⟩).unlinked).out axis
      (axis.wrap (amount + v)) rest := by
  rw [unlinked_step, push_of_step step_step]
  exact h.pushStep

/-- Items that end in the same run are alike. -/
theorem EndsIn.alike {g : Folder} (h : EndsIn f.out axis v rest) (h' : EndsIn g.out axis v rest) :
    f.Alike g := h.out.trans h'.out.symm

/-- Folding what a rule gives comes to the same as folding what it was given. -/
theorem rule_alike (h : Rule l l') (hf : Settled f.out) :
    (l.foldl (fun f x => f.push x.unlinked) f).Alike
      (l'.foldl (fun f x => f.push x.unlinked) f) := by
  cases h with
  | reduce axis amount position =>
    obtain ⟨v, rest, hrun⟩ := hf.endsIn axis
    have hreduced := hrun.push (axis.wrap amount) position
    rw [wrap_add_wrap_left] at hreduced
    exact (hrun.push amount position).alike hreduced
  | merge axis amount amount' position position' start =>
    obtain ⟨v, rest, hrun⟩ := hf.endsIn axis
    have hboth := (hrun.push amount position).push amount' position'
    have hmerged := hrun.push (axis.wrap (amount + amount')) start
    rw [wrap_add_wrap, ← Int.add_assoc, Int.add_comm amount' amount] at hboth
    rw [wrap_add_wrap_left] at hmerged
    exact hboth.alike hmerged
  | drop axis amount position hzero =>
    obtain ⟨v, rest, hrun⟩ := hf.endsIn axis
    have hnothing := hrun.push amount position
    rw [← wrap_add_wrap_left, hzero, Int.zero_add, hrun.wrapped] at hnothing
    exact hnothing.alike hrun

/-- A rewrite makes no difference to what is folded. -/
theorem Rewrite.alike {s t : List Item} (h : Rewrite s t) :
    (foldSteps s).map Item.bare = (foldSteps t).map Item.bare := by
  obtain ⟨before, after, hrule⟩ := h
  have hbefore : Settled (before.foldl (fun f x => f.push x.unlinked) Folder.empty).out :=
    settled_foldl (fun f x hf => hf.push x) .nil
  have hall := (rule_alike hrule hbefore).foldl (l := after) rfl
  simp only [foldSteps, List.foldl_append, List.map_reverse]
  exact congrArg List.reverse hall

theorem Rewrites.alike {s t : List Item} (h : Rewrites s t) :
    (foldSteps s).map Item.bare = (foldSteps t).map Item.bare := by
  induction h with
  | refl => rfl
  | tail _ hrewrite ih => exact ih.trans hrewrite.alike

end Runs

/-! ## Normal forms -/

section Normal

variable {s t before after : List Item} {x : Item} {axis : Axis} {amount amount' position : ℤ}

theorem Rewrite.append (h : Rewrite s t) (before after : List Item) :
    Rewrite (before ++ s ++ after) (before ++ t ++ after) := by
  obtain ⟨head, tail, hrule⟩ := h
  simpa using Rewrite.within (before ++ head) (tail ++ after) hrule

theorem Rewrites.append (h : Rewrites s t) (before after : List Item) :
    Rewrites (before ++ s ++ after) (before ++ t ++ after) := by
  induction h with
  | refl => exact .refl
  | tail _ hrewrite ih => exact ih.tail (hrewrite.append before after)

theorem rewrite_last {l l' : List Item} (t : List Item) (h : Rule l l') :
    Rewrite (t ++ l) (t ++ l') := by
  simpa using Rewrite.within t [] h

theorem Normal.of_append (h : Normal (before ++ s ++ after)) : Normal s := by
  intro t ht
  simpa using h _ (ht.append before after)

theorem step_injective (h : axis.step amount = axis.step amount') : amount = amount' := by
  cases axis <;> cases h <;> rfl

theorem eq_step_of_unlinked (h : x.unlinked = .instr ⟨axis.step amount, position⟩) :
    x = .instr ⟨axis.step amount, position⟩ := by
  rcases x with ⟨op, position'⟩ | v
  · cases axis <;> cases op <;> first | exact h | cases h
  · cases h

/-- A stream that no rewrite changes is folded as it stands, but for targets. -/
theorem Normal.settled (h : Normal t) : Settled (t.map Item.unlinked).reverse := by
  induction t using List.reverseRecOn with
  | nil => exact .nil
  | append_singleton t x ih =>
    have hwhole : Normal ([] ++ t ++ [x]) := h
    have hsettled := ih hwhole.of_append
    rw [List.map_append, List.reverse_append]
    rcases push_cases x.unlinked with ⟨axis, amount, position, hx⟩ | ⟨hstep, -⟩
    · obtain rfl := eq_step_of_unlinked hx
      have hwrap : axis.wrap amount = amount := by
        have hsame := h _ (rewrite_last t (.reduce axis amount position))
        simp only [List.append_cancel_left_eq, List.cons.injEq, Item.instr.injEq,
          Instruction.mk.injEq, and_true] at hsame
        exact step_injective hsame
      have hne : amount ≠ 0 := by
        rintro rfl
        have hsame := h _ (rewrite_last t (.drop axis 0 position hwrap))
        simp at hsame
      have hlast : Folder.lastRun? axis (t.map Item.unlinked).reverse = none := by
        rw [Option.eq_none_iff_forall_ne_some]
        intro run hrun
        obtain ⟨before, first, rest⟩ := run
        have hmap := congrArg List.reverse (lastRun?_eq_some hrun)
        rw [List.reverse_reverse, List.reverse_cons] at hmap
        obtain ⟨t, last, rfl, -, hlast⟩ := List.map_eq_append_iff.mp hmap
        obtain ⟨y, rfl, hy⟩ := List.map_eq_singleton_iff.mp hlast
        obtain rfl := eq_step_of_unlinked hy
        rw [List.append_assoc] at h
        have hsame := h _ (rewrite_last t (.merge axis before amount first position first))
        simp at hsame
      simpa [unlinked_step] using Settled.step hwrap hne hlast hsettled
    · exact .other hstep (unlinked_unlinked x) hsettled

/-- A folded stream is changed by no rewrite. -/
theorem normal_of_settled (h : Settled (t.map Item.unlinked).reverse) : Normal t := by
  intro u hu
  obtain ⟨before, after, hrule⟩ := hu
  rw [List.map_append, List.reverse_append, List.map_append, List.reverse_append] at h
  have hfront := h.of_append
  cases hrule with
  | reduce axis amount position =>
    simp only [List.map_cons, List.map_nil, List.reverse_singleton, List.singleton_append,
      unlinked_step] at hfront
    rw [hfront.reduced.1]
  | merge axis amount amount' position position' start =>
    simp only [List.map_cons, List.map_nil, List.reverse_cons, List.reverse_nil, List.nil_append,
      List.cons_append, unlinked_step] at hfront
    cases hfront.lastRun_tail.symm.trans lastRun?_cons
  | drop axis amount position hzero =>
    simp only [List.map_cons, List.map_nil, List.reverse_singleton, List.singleton_append,
      unlinked_step] at hfront
    obtain ⟨hwrap, hne⟩ := hfront.reduced
    exact absurd (hwrap.symm.trans hzero) hne

/-- What an item counts for: a step that is no residue counts double. -/
def Item.cost (x : Item) : ℕ :=
  match x.op?.bind Op.step? with
  | some (axis, amount) => if axis.wrap amount = amount then 1 else 2
  | none => 1

theorem cost_step : (Item.instr ⟨axis.step amount, position⟩).cost =
    if axis.wrap amount = amount then 1 else 2 := by
  simp [Item.cost, Item.op?]

/-- What the items of a stream count for together. -/
def weight : List Item → ℕ
  | [] => 0
  | x :: s => x.cost + weight s

theorem weight_append : weight (s ++ t) = weight s + weight t := by
  induction s with
  | nil => exact (Nat.zero_add _).symm
  | cons x s ih => rw [List.cons_append, weight, weight, ih, Nat.add_assoc]

/-- A rewrite that changes anything makes a stream lighter. -/
theorem Rewrite.lighter (h : Rewrite s t) : t = s ∨ weight t < weight s := by
  obtain ⟨before, after, hrule⟩ := h
  simp only [weight_append]
  cases hrule with
  | reduce axis amount position =>
    by_cases hwrap : axis.wrap amount = amount
    · exact Or.inl (by rw [hwrap])
    · right
      simp [weight, cost_step, hwrap]
  | merge axis amount amount' position position' start =>
    right
    simp only [weight, cost_step, wrap_wrap]
    split_ifs <;> omega
  | drop axis amount position hzero =>
    right
    simp only [weight, cost_step]
    split_ifs <;> omega

/-- Rewriting comes to an end. -/
theorem exists_normal (s : List Item) : ∃ t, Rewrites s t ∧ Normal t := by
  induction hn : weight s using Nat.strongRecOn generalizing s with
  | _ n ih =>
  by_cases hnormal : Normal s
  · exact ⟨s, .refl, hnormal⟩
  · simp only [Normal, not_forall] at hnormal
    obtain ⟨u, hu, hne⟩ := hnormal
    obtain ⟨t, ht, hnormal⟩ := ih (weight u) (hn ▸ hu.lighter.resolve_left hne) u rfl
    exact ⟨t, .head hu ht, hnormal⟩

end Normal

/-! ## Folded streams -/

section Fold

variable {s t stream : List Item}

theorem foldSteps_unlinked (s : List Item) : foldSteps (s.map Item.unlinked) = foldSteps s :=
  condense_unlinked .folded s

theorem foldSteps_normal (stream : List Item) : Normal (foldSteps stream) := by
  have hsettled := foldSteps_settled stream
  apply normal_of_settled
  rwa [unlinked_of_settled hsettled]

theorem Normal.foldSteps (h : Normal t) : TapeMachine.foldSteps t = t.map Item.unlinked := by
  rw [← foldSteps_unlinked]
  exact foldSteps_of_settled h.settled

/-- Folding does not look at positions. -/
theorem foldSteps_bare (h : s.map Item.bare = t.map Item.bare) :
    (foldSteps s).map Item.bare = (foldSteps t).map Item.bare := by
  have halike := Folder.Alike.foldl (f := Folder.empty) (g := Folder.empty) rfl h
  simp only [foldSteps, List.map_reverse]
  exact congrArg List.reverse halike

/-- What rewriting ends in is the folded stream. -/
theorem Rewrites.foldSteps (h : Rewrites stream t) (ht : Normal t) :
    (t.map Item.unlinked).map Item.bare = (foldSteps stream).map Item.bare := by
  rw [← ht.foldSteps]
  exact h.alike.symm

end Fold

/-- **Rewriting ends in the folded stream, whatever is rewritten first.** -/
theorem foldSteps_unique (stream : List Item) :
    (∃ t, Rewrites stream t ∧ Normal t) ∧ Normal (foldSteps stream) ∧
      (∀ t, Rewrites stream t → Normal t →
        (t.map Item.unlinked).map Item.bare = (foldSteps stream).map Item.bare) ∧
      ∀ more, (foldSteps (stream ++ more)).map Item.bare =
        (foldSteps (foldSteps stream ++ foldSteps more)).map Item.bare := by
  refine ⟨exists_normal stream, foldSteps_normal stream, fun t h ht => h.foldSteps ht, ?_⟩
  intro more
  obtain ⟨t, ht, hnormal⟩ := exists_normal stream
  obtain ⟨u, hu, hnormal'⟩ := exists_normal more
  have hboth : Rewrites (stream ++ more) (t ++ u) := by
    have hfirst := ht.append [] more
    have hsecond := hu.append t []
    rw [List.append_nil, List.append_nil] at hsecond
    exact Relation.ReflTransGen.trans hfirst hsecond
  rw [hboth.alike, ← foldSteps_unlinked]
  apply foldSteps_bare
  rw [List.map_append, List.map_append, List.map_append, ht.foldSteps hnormal, hu.foldSteps hnormal']

/-- Two additions with moves between them that cancel, and a loop that is open. -/
def cancelling : List Item :=
  [.instr ⟨.add 300, 1⟩, .instr ⟨.move 1, 2⟩, .instr ⟨.move (-1), 3⟩, .instr ⟨.add 213, 4⟩,
    .instr ⟨.opening (some 9), 5⟩]

/-- What they are rewritten to. -/
def cancelled : List Item := [.instr ⟨.add 1, 4⟩, .instr ⟨.opening (some 9), 5⟩]

theorem cancelling_rewrites : Rewrites cancelling cancelled := by
  have hmoves : Rewrite cancelling _ :=
    .within [.instr ⟨.add 300, 1⟩] [.instr ⟨.add 213, 4⟩, .instr ⟨.opening (some 9), 5⟩]
      (.merge .pointer 1 (-1) 2 3 2)
  have hdrop := Rewrite.within [.instr ⟨.add 300, 1⟩]
    [.instr ⟨.add 213, 4⟩, .instr ⟨.opening (some 9), 5⟩] (.drop .pointer 0 2 rfl)
  have hadds : Rewrite _ cancelled :=
    .within [] [.instr ⟨.opening (some 9), 5⟩] (.merge .cell 300 213 1 4 4)
  exact .tail (.tail (.single hmoves) hdrop) hadds

theorem cancelled_normal : Normal cancelled :=
  normal_of_settled (.other rfl rfl (.step (show Axis.cell.wrap 1 = 1 from rfl) (by decide) rfl .nil))

theorem foldSteps_unique_cancelling :
    Rewrites cancelling cancelled ∧ Normal cancelled ∧
      (cancelled.map Item.unlinked).map Item.bare = (foldSteps cancelling).map Item.bare :=
  ⟨cancelling_rewrites, cancelled_normal,
    (foldSteps_unique cancelling).2.2.1 cancelled cancelling_rewrites cancelled_normal⟩

end TapeMachine
