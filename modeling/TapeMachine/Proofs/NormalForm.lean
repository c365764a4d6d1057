import TapeMachine.Proofs.Collapse

/-! # Condensed streams are in normal form

Condensing a stream that was condensed before changes nothing that the higher of
the two levels had not changed (`condense_condense`). Folding keeps its items in
a stack where no step stands on one of its own axis (`Settled`), and a settled
stack is put up again as it stands. Collapsing takes loops off that stack and
leaves no loop around an idiom (`Free`), for the idiom it puts in their place is
part of no other one. -/
namespace TapeMachine

/-! ## Folded items -/

/-- Whether folding leaves the items alone (the last one first): their steps are residues other
than zero, none stands on a step of its own axis, and their brackets have no target. -/
inductive Settled : List Item → Prop
  | nil : Settled []
  | step {axis : Axis} {amount position : ℤ} {out : List Item} : axis.wrap amount = amount →
      amount ≠ 0 → Folder.lastRun? axis out = none → Settled out →
      Settled (.instr ⟨axis.step amount, position⟩ :: out)
  | other {x : Item} {out : List Item} : x.op?.bind Op.step? = none → x.unlinked = x →
      Settled out → Settled (x :: out)

section Settled

variable {axis : Axis} {amount position : ℤ} {out rest : List Item} {x : Item} {f : Folder}

@[simp] theorem unlinked_unlinked (x : Item) : x.unlinked.unlinked = x.unlinked := by
  rcases x with ⟨op, position⟩ | v
  · cases op <;> rfl
  · rfl

theorem unlinked_step :
    (Item.instr ⟨axis.step amount, position⟩).unlinked = .instr ⟨axis.step amount, position⟩ := by
  cases axis <;> rfl

/-- An item is a step, or folding puts it on the items as it is. -/
theorem push_cases (x : Item) :
    (∃ (axis : Axis) (amount position : ℤ), x = .instr ⟨axis.step amount, position⟩) ∨
      (x.op?.bind Op.step? = none ∧ ∀ f : Folder, f.push x = ⟨x :: f.out, none⟩) := by
  rcases x with i | v
  · cases hstep : i.op.step? with
    | none => exact Or.inr ⟨hstep, fun f => push_of_not_step hstep⟩
    | some result =>
      obtain ⟨op, position⟩ := i
      obtain ⟨axis, amount⟩ := result
      obtain rfl := step_eq hstep
      exact Or.inl ⟨axis, amount, position, rfl⟩
  · exact Or.inr ⟨rfl, fun f => rfl⟩

theorem Settled.tail (h : Settled (x :: out)) : Settled out := by
  cases h with
  | step _ _ _ h => exact h
  | other _ _ h => exact h

theorem Settled.of_append (h : Settled (rest ++ out)) : Settled out := by
  induction rest with
  | nil => exact h
  | cons x rest ih => exact ih h.tail

/-- No step of its axis stands under a step. -/
theorem Settled.lastRun_tail (h : Settled (.instr ⟨axis.step amount, position⟩ :: out)) :
    Folder.lastRun? axis out = none := by
  generalize hx : Item.instr ⟨axis.step amount, position⟩ = x at h
  cases h with
  | @step axis' _ _ _ _ _ hlast _ =>
    cases axis <;> cases axis' <;> first | exact hlast | cases hx
  | other hop _ _ =>
    rw [← hx] at hop
    cases axis <;> cases hop

theorem Settled.unlinked (h : Settled out) : out.map Item.unlinked = out := by
  induction h with
  | nil => rfl
  | step _ _ _ _ ih => rw [List.map_cons, unlinked_step, ih]
  | other _ hx _ ih => rw [List.map_cons, hx, ih]

theorem Settled.settle (h : Settled out) (hlast : Folder.lastRun? axis out = none) :
    Settled (Folder.settle axis (axis.wrap amount) position out).out := by
  unfold Folder.settle
  split
  · exact h
  · exact .step wrap_wrap ‹_› hlast h

/-- Folding one more item leaves the items settled. -/
theorem Settled.push (h : Settled f.out) (x : Item) : Settled (f.push x.unlinked).out := by
  rcases push_cases x.unlinked with ⟨axis, amount, position, hx⟩ | ⟨hstep, hpush⟩
  · rw [hx, push_of_step step_step, Folder.pushStep]
    cases hrun : Folder.lastRun? axis f.out with
    | none => exact h.settle hrun
    | some result =>
      obtain ⟨before, first, rest⟩ := result
      rw [lastRun?_eq_some hrun] at h
      exact h.tail.settle h.lastRun_tail
  · rw [hpush]
    exact .other hstep (unlinked_unlinked x) h

/-- Settled items are put up again as they stand. -/
theorem Settled.refold (h : Settled out) :
    out.reverse.foldl (fun f x => f.push x.unlinked) Folder.empty = ⟨out, none⟩ := by
  induction h with
  | nil => rfl
  | @step axis amount position out hwrap hne hlast _ ih =>
    rw [List.reverse_cons, List.foldl_append, ih, List.foldl_cons, unlinked_step,
      push_of_step step_step]
    simp [Folder.pushStep, hlast, hwrap, Folder.settle, hne, Folder.start]
  | @other x out hstep hx _ ih =>
    rw [List.reverse_cons, List.foldl_append, ih, List.foldl_cons, hx]
    rcases push_cases x with ⟨axis, amount, position, rfl⟩ | ⟨-, hpush⟩
    · simp [Item.op?] at hstep
    · rw [hpush]
      rfl

end Settled

/-! ## Collapsed items -/

section Collapsed

variable {op : Op} {i : Instruction} {below out : List Item} {e x : Item} {f : Folder}

theorem unlinked_of_isIdiom (h : i.op.isIdiom = true) : (Item.instr i).unlinked = .instr i := by
  obtain ⟨op, position⟩ := i
  cases op <;> first | rfl | cases h

/-- Collapsing the last loop leaves the items settled. -/
theorem Settled.collapseLast (h : Settled (e :: below)) (he : e.side? = some .closing) :
    Settled (collapseLast (e :: below)) := by
  by_cases hclose : ∃ before o body i, IsIdiomLoop o body e i ∧ below.reverse = before ++ o :: body
  · obtain ⟨before, o, body, i, hloop, hbelow⟩ := hclose
    have hout : TapeMachine.collapseLast (e :: below) = .instr i :: before.reverse := by
      simpa using congrArg List.reverse (collapseLast_close hloop hbelow)
    have hcut : below = (body.reverse ++ [o]) ++ before.reverse := by
      simpa using congrArg List.reverse hbelow
    have hidiom := ofBody?_isIdiom hloop.body
    rw [hout]
    refine .other (step_of_isIdiom hidiom) (unlinked_of_isIdiom hidiom) ?_
    rw [hcut] at h
    exact h.tail.of_append
  · rw [collapseLast_apart he fun before o body i hloop hbelow =>
      hclose ⟨before, o, body, i, hloop, hbelow⟩]
    exact h

theorem Settled.pushLoop (h : Settled f.out) (x : Item) :
    Settled (f.pushLoop x.unlinked).out := by
  have hpush := h.push x
  unfold Folder.pushLoop
  split
  · rename_i hx
    rcases push_cases x.unlinked with ⟨axis, amount, position, hstep⟩ | ⟨-, hstack⟩
    · rw [hstep, step_item_side] at hx
      cases hx
    · rw [hstack] at hpush ⊢
      exact hpush.collapseLast hx
  · exact hpush

end Collapsed

/-! ## Loops that are left -/

/-- Whether a stream has no loop around an idiom. -/
def Free (l : List Item) : Prop := ∀ rest, rest <:+ l → idiomAt? rest = none

section Free

variable {l rest front : List Item} {i : Instruction} {x : Item}

theorem isIdiom_of_side {side : Side} (h : x.side? = some side) : x.isIdiom = false := by
  rcases x with ⟨op, position⟩ | v
  · cases op <;> first | rfl | cases h
  · rfl

/-- An item that replacing left alone was there before, in front of what gave the rest. -/
theorem replaceIdioms_eq_cons (h : replaceIdioms l = x :: rest) (hx : x.isIdiom = false) :
    ∃ l', l = x :: l' ∧ replaceIdioms l' = rest := by
  cases hl : idiomAt? l with
  | some result =>
    obtain ⟨i, after⟩ := result
    obtain ⟨o, body, e, hloop, -⟩ := idiomAt?_eq_some.mp hl
    rw [replaceIdioms_of_idiom hl] at h
    obtain ⟨rfl, -⟩ := List.cons.inj h
    cases hx.symm.trans (ofBody?_isIdiom hloop.body)
  | none =>
    cases l with
    | nil =>
      rw [replaceIdioms_nil] at h
      cases h
    | cons y l' =>
      rw [replaceIdioms_cons hl] at h
      obtain ⟨rfl, rfl⟩ := List.cons.inj h
      exact ⟨l', rfl, rfl⟩

theorem replaceIdioms_front (h : replaceIdioms l = front ++ rest)
    (hfront : ∀ x ∈ front, x.isIdiom = false) : ∃ l', l = front ++ l' := by
  induction front generalizing l with
  | nil => exact ⟨l, rfl⟩
  | cons x front ih =>
    rw [List.forall_mem_cons] at hfront
    obtain ⟨l', rfl, hl'⟩ := replaceIdioms_eq_cons h hfront.1
    obtain ⟨l'', rfl⟩ := ih hl' hfront.2
    exact ⟨l'', rfl⟩

/-- Replacing makes no loop around an idiom. -/
theorem idiomAt?_replaceIdioms (h : idiomAt? l = none) : idiomAt? (replaceIdioms l) = none := by
  rw [Option.eq_none_iff_forall_ne_some]
  intro result hsome
  obtain ⟨i, after⟩ := result
  obtain ⟨o, body, e, hloop, hl⟩ := idiomAt?_eq_some.mp hsome
  have hfront : ∀ x ∈ o :: (body ++ [e]), x.isIdiom = false := by
    rw [← List.cons_append, List.forall_mem_append]
    exact ⟨fun x hx => (hloop.kept x hx).2, by simp [isIdiom_of_side hloop.closing]⟩
  obtain ⟨l', rfl⟩ := replaceIdioms_front (by simpa using hl) hfront
  have hbefore : idiomAt? (o :: (body ++ [e]) ++ l') = some (i, l') :=
    idiomAt?_eq_some.mpr ⟨o, body, e, hloop, by simp⟩
  cases h.symm.trans hbefore

theorem idiomAt?_of_isIdiom (h : i.op.isIdiom = true) : idiomAt? (.instr i :: rest) = none := by
  rw [Option.eq_none_iff_forall_ne_some]
  intro result hsome
  obtain ⟨o, body, e, hloop, heq⟩ := idiomAt?_eq_some.mp hsome
  obtain ⟨rfl, -⟩ := List.cons.inj heq
  cases hloop.side.symm.trans (side_of_isIdiom h)

theorem free_cons (h : idiomAt? (x :: l) = none) (hl : Free l) : Free (x :: l) := by
  intro rest hrest
  rcases List.suffix_cons_iff.mp hrest with rfl | hrest
  · exact h
  · exact hl rest hrest

/-- After replacing, no loop around an idiom is left. -/
theorem replaceIdioms_free (l : List Item) : Free (replaceIdioms l) := by
  induction hn : l.length using Nat.strongRecOn generalizing l with
  | _ n ih =>
  cases hl : idiomAt? l with
  | some result =>
    obtain ⟨i, after⟩ := result
    obtain ⟨o, body, e, hloop, -⟩ := idiomAt?_eq_some.mp hl
    rw [replaceIdioms_of_idiom hl]
    exact free_cons (idiomAt?_of_isIdiom (ofBody?_isIdiom hloop.body))
      (ih after.length (hn ▸ idiomAt?_length hl) after rfl)
  | none =>
    have hwhole := idiomAt?_replaceIdioms hl
    cases l with
    | nil =>
      rw [replaceIdioms_nil]
      intro rest hrest
      rw [List.suffix_nil.mp hrest]
      rfl
    | cons x rest =>
      rw [replaceIdioms_cons hl] at hwhole ⊢
      exact free_cons hwhole (ih rest.length (by simp [← hn]) rest rfl)

/-- Nothing is replaced where no such loop is. -/
theorem replaceIdioms_of_free (h : Free l) : replaceIdioms l = l := by
  induction l with
  | nil => exact replaceIdioms_nil
  | cons x rest ih =>
    rw [replaceIdioms_cons (h _ List.suffix_rfl),
      ih fun tail htail => h tail (htail.trans (List.suffix_cons x rest))]

end Free

/-! ## Condensing again -/

section Condense

variable {stream : List Item} {f : Folder}

theorem settled_foldl {push : Folder → Item → Folder}
    (hpush : ∀ f x, Settled f.out → Settled (push f x).out) (hf : Settled f.out) :
    Settled (stream.foldl push f).out := by
  induction stream generalizing f with
  | nil => exact hf
  | cons x stream ih => exact ih (hpush f x hf)

theorem foldSteps_settled (stream : List Item) : Settled (foldSteps stream).reverse := by
  rw [foldSteps, List.reverse_reverse]
  exact settled_foldl (fun f x h => h.push x) .nil

theorem collapseLoops_settled (stream : List Item) : Settled (collapseLoops stream).reverse := by
  rw [collapseLoops, List.reverse_reverse]
  exact settled_foldl (fun f x h => h.pushLoop x) .nil

theorem foldSteps_of_settled (h : Settled stream.reverse) : foldSteps stream = stream := by
  have hfold := h.refold
  rw [List.reverse_reverse] at hfold
  rw [foldSteps, hfold, List.reverse_reverse]

theorem unlinked_of_settled (h : Settled stream.reverse) : stream.map Item.unlinked = stream := by
  have hmap := h.unlinked
  rw [List.map_reverse] at hmap
  exact List.reverse_inj.mp hmap

/-- Condensing does not look at targets. -/
theorem condense_unlinked (level : Level) (stream : List Item) :
    condense level (stream.map .unlinked) = condense level stream := by
  cases level <;> simp [condense, foldSteps, collapseLoops, List.foldl_map]

theorem collapseLoops_free (stream : List Item) : Free (collapseLoops stream) := by
  rw [collapseLoops_eq]
  exact replaceIdioms_free _

theorem collapseLoops_of_settled (h : Settled stream.reverse) (hfree : Free stream) :
    collapseLoops stream = stream := by
  rw [collapseLoops_eq, foldSteps_of_settled h, replaceIdioms_of_free hfree]

end Condense

/-! ## Linked streams -/

section Linked

variable {stream linked : List Item} {p q : Pairing} {partners : List (Option ℕ)}

theorem pair_size {x : Item} (h : p.push x = .ok q) : q.partners.size = p.partners.size + 1 := by
  cases hx : x.side? with
  | none =>
    rw [pair_of_none hx] at h
    cases h
    simp
  | some side =>
    cases side with
    | opening =>
      rw [pair_of_opening hx] at h
      cases h
      simp
    | closing =>
      obtain ⟨opened, partners⟩ := p
      cases opened with
      | nil =>
        rw [pair_of_unopened hx] at h
        cases h
      | cons pair opened =>
        rw [pair_of_closing hx] at h
        cases h
        simp

/-- Pairing finds a partner, or that there is none, for every item. -/
theorem pairing_size (h : stream.foldlM Pairing.push p = .ok q) :
    q.partners.size = p.partners.size + stream.length := by
  induction stream generalizing p with
  | nil =>
    cases h
    rfl
  | cons x stream ih =>
    rw [List.foldlM_cons] at h
    cases hx : p.push x with
    | error position =>
      rw [hx] at h
      cases h
    | ok next =>
      rw [hx] at h
      rw [ih h, pair_size hx, List.length_cons, Nat.add_right_comm, Nat.add_assoc]

@[simp] theorem unlinked_linkTo (x : Item) (partner : Option ℕ) :
    (x.linkTo partner).unlinked = x.unlinked := by
  cases partner with
  | none => rfl
  | some i =>
    rcases x with ⟨op, position⟩ | v
    · cases op <;> rfl
    · rfl

theorem map_unlinked_zipWith (h : stream.length = partners.length) :
    (stream.zipWith Item.linkTo partners).map Item.unlinked = stream.map Item.unlinked := by
  induction stream generalizing partners with
  | nil => rfl
  | cons x stream ih =>
    cases partners with
    | nil => cases h
    | cons partner partners =>
      simp only [List.zipWith_cons_cons, List.map_cons, unlinked_linkTo]
      rw [ih (Nat.succ.inj h)]

/-- Linking sets targets and changes nothing else. -/
theorem map_unlinked_of_link {source : String} (h : link source stream = .ok linked) :
    linked.map Item.unlinked = stream.map Item.unlinked := by
  unfold link at h
  split at h
  · cases h
  · rename_i pairing hpairing
    split at h
    · cases h
    · cases h
      have hsize := pairing_size hpairing
      refine map_unlinked_zipWith ?_
      simpa [Pairing.empty] using hsize.symm

end Linked

/-- **Condensing again gives what the higher level gives.** Linking in between is undone. -/
theorem condense_condense (stream : List Item) (a b : Level) :
    condense b (condense a stream) = condense (max a b) stream ∧
      ∀ source linked, link source stream = .ok linked →
        condense b linked = condense b stream := by
  constructor
  · cases a with
    | plain =>
      have hmax : max Level.plain b = b := by cases b <;> rfl
      rw [hmax]
      exact condense_unlinked b stream
    | folded =>
      have hsettled := foldSteps_settled stream
      cases b with
      | plain => exact unlinked_of_settled hsettled
      | folded => exact foldSteps_of_settled hsettled
      | idiomatic =>
        show collapseLoops (foldSteps stream) = collapseLoops stream
        rw [collapseLoops_eq, collapseLoops_eq, foldSteps_of_settled hsettled]
    | idiomatic =>
      have hsettled := collapseLoops_settled stream
      cases b with
      | plain => exact unlinked_of_settled hsettled
      | folded => exact foldSteps_of_settled hsettled
      | idiomatic => exact collapseLoops_of_settled hsettled (collapseLoops_free stream)
  · intro source linked h
    rw [← condense_unlinked b linked, map_unlinked_of_link h, condense_unlinked]

/-- A stream with a value that is no instruction, an idiom, and a loop with a stale target. -/
def staleLoop : List Item :=
  [.foreign (.int 7), .instr ⟨.drain 4, 1⟩, .instr ⟨.opening (some 9), 2⟩, .instr ⟨.add 300, 3⟩,
    .instr ⟨.add (-2), 4⟩, .instr ⟨.closing none, 5⟩]

/-- The same with its brackets linked. -/
def staleLoopLinked : List Item :=
  [.foreign (.int 7), .instr ⟨.drain 4, 1⟩, .instr ⟨.opening (some 5), 2⟩, .instr ⟨.add 300, 3⟩,
    .instr ⟨.add (-2), 4⟩, .instr ⟨.closing (some 2), 5⟩]

theorem condense_condense_staleLoop :
    link "" staleLoop = .ok staleLoopLinked ∧
      condense .idiomatic (condense .folded staleLoop) =
        condense (max .folded .idiomatic) staleLoop ∧
      condense .idiomatic staleLoopLinked = condense .idiomatic staleLoop :=
  ⟨rfl, (condense_condense staleLoop .folded .idiomatic).1,
    (condense_condense staleLoop .folded .idiomatic).2 "" staleLoopLinked rfl⟩

end TapeMachine
