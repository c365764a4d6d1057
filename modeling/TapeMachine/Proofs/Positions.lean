import TapeMachine.Proofs.NormalForm
import TapeMachine.Proofs.Reading

/-! # Positions

Every instruction of a condensed source stands at the position of a character,
and the characters from there up to the next position are what it was made of
(`condense_spelled`). The text of a run folds to the run wherever one can begin
(`Runs`). Reading goes on with the last run, or with one that has cancelled and
left its start behind, or begins a new one (`Folded`). A run that cancels leaves
its text to the instruction before it, so that what can be taken off the end of
the items is always at the end of the text (`Folded.last_step`,
`Folded.last_other`). -/
namespace TapeMachine

namespace Source

/-! ## Texts -/

/-- The characters that are steps of an axis. -/
def signs : Axis → List Char
  | .cell => ['+', '-']
  | .pointer => ['<', '>']

/-- Whether a text has nothing but steps. -/
def Steps (text : List (Char × ℕ)) : Prop := ∀ p ∈ text, ∃ axis, p.1 ∈ signs axis

/-- Whether a text has nothing but steps, and they fold to nothing. -/
structure Cancels (text : List (Char × ℕ)) : Prop where
  steps : Steps text
  folds : foldSteps (text.map item) = []

/-- The character of an instruction that is neither a step nor an idiom. -/
def sign? : Op → Option Char
  | .input => some ','
  | .output => some '.'
  | .opening none => some '['
  | .closing none => some ']'
  | _ => none

/-- Whether a text is what an instruction was made of. It begins at the position of the
instruction. -/
inductive Spells : List (Char × ℕ) → Instruction → Prop
  /-- A run begins with a step of its axis and folds to one step. -/
  | run {axis : Axis} {amount : ℤ} {p : Char × ℕ} {rest : List (Char × ℕ)} :
      p.1 ∈ signs axis → Steps rest →
      foldSteps ((p :: rest).map item) = [.instr ⟨axis.step amount, p.2⟩] →
      Spells (p :: rest) ⟨axis.step amount, p.2⟩
  | sign {op : Op} {p : Char × ℕ} {rest : List (Char × ℕ)} : sign? op = some p.1 → Cancels rest →
      Spells (p :: rest) ⟨op, p.2⟩
  /-- An idiom has the text of its loop. -/
  | loop {op : Op} {o e : Char × ℕ} {body rest : List (Char × ℕ)} : o.1 = '[' → Steps body →
      Idiom.ofBody? (foldSteps (body.map item)) = some op → e.1 = ']' → Cancels rest →
      Spells (o :: (body ++ e :: rest)) ⟨op, o.2⟩

/-- Whether a text, behind a part that cancels, is cut into what instructions were made of. -/
def Spelled (text : List (Char × ℕ)) (out : List Instruction) : Prop :=
  ∃ head pieces, text = head ++ pieces.flatten ∧ Cancels head ∧ List.Forall₂ Spells pieces out

section Texts

variable {text piece rest : List (Char × ℕ)} {out : List Instruction} {p : Char × ℕ} {axis : Axis}
  {i : Instruction}

theorem steps_append {text' : List (Char × ℕ)} :
    Steps (text ++ text') ↔ Steps text ∧ Steps text' :=
  List.forall_mem_append

theorem item_of_sign (h : p.1 ∈ signs axis) :
    ∃ amount, item p = .instr ⟨axis.step amount, p.2⟩ := by
  obtain ⟨c, position⟩ := p
  cases axis <;> simp only [signs, List.mem_cons, List.not_mem_nil, or_false] at h <;>
    rcases h with rfl | rfl <;> exact ⟨_, rfl⟩

/-- A character is a step, or folding puts it on the items as it is. -/
theorem item_cases (p : Char × ℕ) :
    (∃ axis, p.1 ∈ signs axis) ∨ (item p).op?.bind Op.step? = none := by
  obtain ⟨c, position⟩ := p
  unfold item instruction Op.ofChar?
  split
  · exact Or.inl ⟨.cell, by simp_all [signs]⟩
  · exact Or.inl ⟨.cell, by simp_all [signs]⟩
  · exact Or.inl ⟨.pointer, by simp_all [signs]⟩
  · exact Or.inl ⟨.pointer, by simp_all [signs]⟩
  all_goals exact Or.inr rfl

theorem sign_of_item (hp : p.1 ∈ alphabet) (h : (item p).op?.bind Op.step? = none) :
    sign? (instruction p).op = some p.1 := by
  obtain ⟨c, position⟩ := p
  simp only at hp
  fin_cases hp <;> first | rfl | cases h

theorem spelled_nil (h : Cancels text) : Spelled text [] :=
  ⟨text, [], by simp, h, .nil⟩

theorem Spelled.concat (h : Spelled text out) (hp : Spells piece i) :
    Spelled (text ++ piece) (out ++ [i]) := by
  obtain ⟨head, pieces, rfl, hhead, hpieces⟩ := h
  refine ⟨head, pieces ++ [piece], by simp, hhead, ?_⟩
  exact List.rel_append hpieces (.cons hp .nil)

/-- What an instruction was made of begins at its position. -/
theorem Spells.first (h : Spells piece i) : ∃ p rest, piece = p :: rest ∧ i.position = p.2 := by
  cases h <;> exact ⟨_, _, rfl, rfl⟩

theorem spelled_positions {pieces : List (List (Char × ℕ))} (h : List.Forall₂ Spells pieces out) :
    (out.map (·.position)).Sublist (pieces.flatten.map fun p => (p.2 : ℤ)) := by
  induction h with
  | nil => exact .slnil
  | cons hp _ ih =>
    obtain ⟨p, rest, rfl, hposition⟩ := hp.first
    rw [List.map_cons, hposition, List.flatten_cons, List.map_append, List.map_cons]
    exact .cons_cons _ (ih.trans (List.sublist_append_right _ _))

/-- What a source spells stands at positions of the source. -/
theorem Spelled.positions {source : String} (h : Spelled (placed source) out) :
    (out.map (·.position)).Sublist ((placed source).map fun p => (p.2 : ℤ)) := by
  obtain ⟨head, pieces, htext, -, hpieces⟩ := h
  rw [htext, List.map_append]
  exact (spelled_positions hpieces).trans (List.sublist_append_right _ _)

/-- The positions of what a source spells increase. -/
theorem Spelled.increasing {source : String} (h : Spelled (placed source) out) :
    out.Pairwise (·.position < ·.position) := by
  have hplaced : ((placed source).map fun p => (p.2 : ℤ)).Pairwise (· < ·) := by
    have hrange : ((placed source).map Prod.snd).Pairwise (· < ·) := by
      rw [placed, List.zipIdx_map_snd]
      exact List.pairwise_lt_range'
    rw [List.pairwise_map] at hrange ⊢
    exact hrange.imp (by simp)
  exact List.pairwise_map.mp (hplaced.sublist h.positions)

end Texts

/-! ## Folding a text -/

/-- A folder after a text. -/
def fold (f : Folder) (text : List (Char × ℕ)) : Folder := text.foldl (fun f p => f.push (item p)) f

section Fold

variable {f g : Folder} {text text' seg seg' : List (Char × ℕ)} {axis : Axis} {first : ℤ}
  {result result' : List Item → Folder} {p : Char × ℕ} {out front : List Item} {o x : Item}
  {amount : ℤ}

@[simp] theorem fold_append : fold f (text ++ text') = fold (fold f text) text' :=
  List.foldl_append

@[simp] theorem fold_singleton : fold f [p] = f.push (item p) := rfl

theorem foldSteps_items (text : List (Char × ℕ)) :
    foldSteps (text.map item) = (fold .empty text).out.reverse := by
  have hpush : (fun (f : Folder) p => f.push (item p).unlinked) = fun f p => f.push (item p) := by
    funext f p
    rw [item, item_unlinked, instruction_unlinked]
  rw [foldSteps, List.foldl_map, hpush, fold]

/-- Whether the next step of an axis begins a run where it stands. -/
structure Enters (axis : Axis) (f : Folder) : Prop where
  last : Folder.lastRun? axis f.out = none
  start : ∀ position, f.start axis position = position

theorem enters_empty : Enters axis .empty := ⟨rfl, fun _ => rfl⟩

/-- Whether a text begins with a step of an axis, and wherever this begins a run, the text does the
same to the items. -/
structure Runs (seg : List (Char × ℕ)) (axis : Axis) (first : ℤ) (result : List Item → Folder) :
    Prop where
  steps : Steps seg
  head : ∃ p rest, seg = p :: rest ∧ p.1 ∈ signs axis ∧ first = p.2
  folds : ∀ f, Enters axis f → fold f seg = result f.out

theorem Runs.append (h : Runs seg axis first result) (hsteps : Steps seg')
    (hfold : ∀ out, Folder.lastRun? axis out = none → fold (result out) seg' = result' out) :
    Runs (seg ++ seg') axis first result' where
  steps := steps_append.mpr ⟨h.steps, hsteps⟩
  head := by
    obtain ⟨p, rest, rfl, hp⟩ := h.head
    exact ⟨p, rest ++ seg', rfl, hp⟩
  folds f hf := by rw [fold_append, h.folds f hf, hfold f.out hf.last]

/-- Whether a text is folded, run by run, to a folder. -/
inductive Folded : List (Char × ℕ) → Folder → Prop
  | start : Folded [] .empty
  | run {text seg : List (Char × ℕ)} {f : Folder} {axis : Axis} {amount first : ℤ} :
      Folded text f → Enters axis f → Runs seg axis first (Folder.settle axis amount first) →
      Folded (text ++ seg) (Folder.settle axis amount first f.out)
  | other {text : List (Char × ℕ)} {f : Folder} {p : Char × ℕ} : Folded text f →
      (item p).op?.bind Op.step? = none → Folded (text ++ [p]) ⟨item p :: f.out, none⟩

/-! ## Taking items off the end -/

theorem not_step {position : ℤ}
    (h : (Item.instr ⟨axis.step amount, position⟩).op?.bind Op.step? = none) : False := by
  simp [Item.op?] at h

/-- Whether a run ends the items is seen from the last one. -/
theorem lastRun?_of_cons {out' : List Item} (h : Folder.lastRun? axis (x :: out) = none) :
    Folder.lastRun? axis (x :: out') = none := by
  rw [Option.eq_none_iff_forall_ne_some]
  intro run hrun
  obtain ⟨amount, first, rest⟩ := run
  obtain ⟨rfl, -⟩ := List.cons.inj (lastRun?_eq_some hrun)
  cases h.symm.trans lastRun?_cons

/-- The last item, if it is a step, has the end of the text for its run. Runs that have cancelled
behind it are part of that. -/
theorem Folded.last_step (h : Folded text f)
    (hout : f.out = .instr ⟨axis.step amount, first⟩ :: out) :
    ∃ text' seg f', text = text' ++ seg ∧ Folded text' f' ∧ f'.out = out ∧ Enters axis f' ∧
      Runs seg axis first fun out => ⟨.instr ⟨axis.step amount, first⟩ :: out, f.cancelled⟩ := by
  induction h with
  | start => cases hout
  | @run text seg f axis' amount' first' hf henters hruns ih =>
    by_cases hzero : amount' = 0
    · simp only [Folder.settle, if_pos hzero] at hout ⊢
      obtain ⟨text', seg', f', rfl, hf', rfl, henters', hruns'⟩ := ih hout
      refine ⟨text', seg' ++ seg, f', by simp, hf', rfl, henters', hruns'.append hruns.steps ?_⟩
      intro out _
      have hnext : Enters axis' ⟨.instr ⟨axis.step amount, first⟩ :: out, f.cancelled⟩ := by
        have hlast := henters.last
        rw [hout] at hlast
        exact ⟨lastRun?_of_cons hlast, henters.start⟩
      rw [hruns.folds _ hnext, Folder.settle, if_pos hzero]
    · simp only [Folder.settle, if_neg hzero, List.cons.injEq] at hout ⊢
      obtain ⟨hstep, rfl⟩ := hout
      have hsame : axis' = axis := by cases axis' <;> cases axis <;> first | rfl | cases hstep
      subst hsame
      have hfirst : first' = first := congrArg Item.position hstep
      subst hfirst
      refine ⟨text, seg, f, rfl, hf, rfl, henters, ⟨hruns.steps, hruns.head, ?_⟩⟩
      intro g hg
      rw [hruns.folds g hg, Folder.settle, if_neg hzero, hstep]
  | other _ hother _ =>
    obtain ⟨hitem, -⟩ := List.cons.inj hout
    rw [hitem] at hother
    exact (not_step hother).elim

/-- An item that is no step has everything behind it in the text for what follows it, and this folds
to that by itself. -/
theorem Folded.last_other (h : Folded text f) (ho : o.op?.bind Op.step? = none)
    (hfront : ∀ x ∈ front, x.op?.bind Op.step? ≠ none) (hout : f.out = front ++ o :: out) :
    ∃ text' p rest f', text = text' ++ p :: rest ∧ Folded text' f' ∧ f'.out = out ∧ item p = o ∧
      Steps rest ∧ fold .empty rest = ⟨front, f.cancelled⟩ := by
  induction h generalizing front with
  | start => cases front <;> cases hout
  | @run text seg f axis amount first hf henters hruns ih =>
    -- the run is at the end of the front, which it leaves as it is if it cancels
    obtain ⟨front', hfront', hrest, hsettle⟩ : ∃ front',
        (∀ x ∈ front', x.op?.bind Op.step? ≠ none) ∧ f.out = front' ++ o :: out ∧
        Folder.settle axis amount first front' =
          ⟨front, (Folder.settle axis amount first f.out).cancelled⟩ := by
      by_cases hzero : amount = 0
      · simp only [Folder.settle, if_pos hzero] at hout ⊢
        exact ⟨front, hfront, hout, rfl⟩
      · simp only [Folder.settle, if_neg hzero] at hout ⊢
        cases front with
        | nil =>
          obtain ⟨rfl, -⟩ := List.cons.inj hout
          exact (not_step ho).elim
        | cons x front =>
          obtain ⟨rfl, hrest⟩ := List.cons.inj hout
          exact ⟨front, fun x hx => hfront x (List.mem_cons_of_mem _ hx), hrest, rfl⟩
    obtain ⟨text', p, rest, f', rfl, hf', rfl, hp, hsteps, hfold⟩ := ih hfront' hrest
    have hnext : Enters axis ⟨front', f.cancelled⟩ := by
      have hlast := henters.last
      rw [hrest] at hlast
      refine ⟨?_, henters.start⟩
      cases front' with
      | nil => rfl
      | cons x front' => exact lastRun?_of_cons hlast
    refine ⟨text', p, rest ++ seg, f', by simp, hf', rfl, hp,
      steps_append.mpr ⟨hsteps, hruns.steps⟩, ?_⟩
    rw [fold_append, hfold, hruns.folds _ hnext, hsettle]
  | @other text f p hf hother _ =>
    cases front with
    | nil =>
      obtain ⟨rfl, rfl⟩ := List.cons.inj hout
      exact ⟨text, p, [], f, rfl, hf, rfl, rfl, List.forall_mem_nil _, rfl⟩
    | cons x front =>
      obtain ⟨rfl, -⟩ := List.cons.inj hout
      exact absurd hother (hfront _ (List.mem_cons_self ..))

/-- A text that leaves no items has nothing but steps. -/
theorem Folded.cancels (h : Folded text f) (hout : f.out = []) :
    Steps text ∧ fold .empty text = f := by
  induction h with
  | start => exact ⟨List.forall_mem_nil _, rfl⟩
  | @run text seg f axis amount first hf henters hruns ih =>
    have hrest : f.out = [] := by
      unfold Folder.settle at hout
      split at hout
      · exact hout
      · cases hout
    obtain ⟨hsteps, hfold⟩ := ih hrest
    refine ⟨steps_append.mpr ⟨hsteps, hruns.steps⟩, ?_⟩
    rw [fold_append, hfold, hruns.folds f henters]
  | other => cases hout

/-- A run that has just cancelled is at the end of the text. -/
theorem Folded.last_cancelled (h : Folded text f) (hcancelled : f.cancelled = some (axis, first)) :
    ∃ text' seg f', text = text' ++ seg ∧ Folded text' f' ∧ f'.out = f.out ∧ Enters axis f' ∧
      Runs seg axis first (Folder.settle axis 0 first) := by
  cases h with
  | start => cases hcancelled
  | @run text seg f axis' amount first' hf henters hruns =>
    by_cases hzero : amount = 0
    · subst hzero
      cases hcancelled
      exact ⟨text, seg, f, rfl, hf, rfl, henters, hruns⟩
    · simp only [Folder.settle, if_neg hzero] at hcancelled
      cases hcancelled
  | other => cases hcancelled

/-! ## Reading on -/

/-- A step goes on with the run at the end, or with one that has cancelled there, or begins one. -/
theorem Folded.push_sign (h : Folded text f) (hp : p.1 ∈ signs axis) :
    Folded (text ++ [p]) (f.push (item p)) := by
  have hsteps : Steps [p] := List.forall_mem_singleton.mpr ⟨axis, hp⟩
  obtain ⟨amount, hitem⟩ := item_of_sign hp
  have hpush : ∀ g : Folder, g.push (item p) = g.pushStep axis amount p.2 := by
    intro g
    rw [hitem, push_of_step step_step]
  rw [hpush, Folder.pushStep]
  cases hrun : Folder.lastRun? axis f.out with
  | some run =>
    obtain ⟨before, first, rest⟩ := run
    obtain ⟨text', seg, f', rfl, hf', rfl, henters, hruns⟩ :=
      h.last_step (lastRun?_eq_some hrun)
    rw [List.append_assoc]
    refine .run hf' henters (hruns.append hsteps ?_)
    intro out _
    rw [fold_singleton, hpush, Folder.pushStep, lastRun?_cons]
  | none =>
    by_cases hstart : ∀ position, f.start axis position = position
    · simp only [hstart]
      refine .run h ⟨hrun, hstart⟩ ⟨hsteps, ⟨p, [], rfl, hp, rfl⟩, ?_⟩
      intro g hg
      rw [fold_singleton, hpush, Folder.pushStep, hg.last]
      simp only [hg.start]
    · -- a run of this axis has cancelled, and the new one starts where that did
      obtain ⟨first, hcancelled⟩ : ∃ first, f.cancelled = some (axis, first) := by
        unfold Folder.start at hstart
        split at hstart
        · rename_i axis' first hcancelled
          by_cases hsame : axis' = axis
          · exact ⟨first, hsame ▸ hcancelled⟩
          · simp [hsame] at hstart
        · simp at hstart
      have hfirst : f.start axis p.2 = first := by simp [Folder.start, hcancelled]
      obtain ⟨text', seg, f', rfl, hf', hout, henters, hruns⟩ := h.last_cancelled hcancelled
      simp only [hfirst]
      rw [List.append_assoc, ← hout]
      refine .run hf' henters (hruns.append hsteps ?_)
      intro out hlast
      rw [fold_singleton, hpush, Folder.pushStep, Folder.settle, if_pos rfl, hlast]
      simp [Folder.start]

theorem folded (text : List (Char × ℕ)) : Folded text (fold .empty text) := by
  induction text using List.reverseRecOn with
  | nil => exact .start
  | append_singleton text p ih =>
    rw [fold_append, fold_singleton]
    rcases item_cases p with ⟨axis, hp⟩ | hother
    · exact ih.push_sign hp
    · rcases push_cases (item p) with ⟨axis, amount, position, hstep⟩ | ⟨-, hpush⟩
      · rw [hstep] at hother
        exact (not_step hother).elim
      · rw [hpush]
        exact ih.other hother

end Fold

/-! ## Cutting -/

section Cuts

variable {text : List (Char × ℕ)} {f : Folder} {x o e : Item} {out before body : List Item}
  {i : Instruction}

theorem cancels_of_fold (hsteps : Steps text) (h : fold .empty text = f) (hout : f.out = []) :
    Cancels text :=
  ⟨hsteps, by rw [foldSteps_items, h, hout, List.reverse_nil]⟩

/-- The last item has the text from its position on. -/
theorem Folded.last (h : Folded text f) (hclean : ∀ p ∈ text, p.1 ∈ alphabet)
    (hout : f.out = x :: out) :
    ∃ text' piece f' i, text = text' ++ piece ∧ Folded text' f' ∧ f'.out = out ∧ x = .instr i ∧
      Spells piece i := by
  rcases push_cases x with ⟨axis, amount, first, rfl⟩ | ⟨hother, -⟩
  · obtain ⟨text', seg, f', rfl, hf', rfl, -, hruns⟩ := h.last_step hout
    obtain ⟨p, rest, rfl, hp, rfl⟩ := hruns.head
    refine ⟨text', p :: rest, f', _, rfl, hf', rfl, rfl, .run hp ?_ ?_⟩
    · exact (List.forall_mem_cons.mp hruns.steps).2
    · rw [foldSteps_items, hruns.folds _ enters_empty]
      rfl
  · obtain ⟨text', p, rest, f', rfl, hf', rfl, rfl, hsteps, hfold⟩ :=
      h.last_other hother (List.forall_mem_nil _) hout
    refine ⟨text', p :: rest, f', instruction p, rfl, hf', rfl, rfl, .sign ?_ ?_⟩
    · exact sign_of_item (hclean p (by simp)) hother
    · exact cancels_of_fold hsteps hfold rfl

/-- So does the idiom that is put in for the last loop. -/
theorem Folded.last_loop (h : Folded text f) (hloop : IsIdiomLoop o body e i)
    (hout : f.out = e :: (body.reverse ++ o :: out)) :
    ∃ text' piece f', text = text' ++ piece ∧ Folded text' f' ∧ f'.out = out ∧ Spells piece i := by
  have hbody : ∀ x ∈ body.reverse, x.op?.bind Op.step? ≠ none := by
    intro x hx
    obtain ⟨j, rfl, hj⟩ := ofBody?_steps hloop.body x (List.mem_reverse.mp hx)
    exact Option.isSome_iff_ne_none.mp hj
  have hother : ∀ {x : Item} {side : Side}, x.side? = some side → x.op?.bind Op.step? = none := by
    intro x side hside
    rcases x with j | v
    · exact step_of_side hside
    · rfl
  obtain ⟨text', q, rest, f', rfl, hf', hout', rfl, hrest, hfold⟩ :=
    h.last_other (hother hloop.closing) (List.forall_mem_nil _) hout
  obtain ⟨text'', p, inner, f'', rfl, hf'', rfl, rfl, hinner, hfold'⟩ :=
    hf'.last_other (hother hloop.side) hbody hout'
  have hfolds : foldSteps (inner.map item) = body := by
    rw [foldSteps_items, hfold']
    exact List.reverse_reverse body
  obtain ⟨op, position⟩ := i
  obtain ⟨target, hopening⟩ := hloop.opening
  obtain rfl : (p.2 : ℤ) = position := congrArg Item.position hopening
  refine ⟨text'', p :: (inner ++ q :: rest), f'', by simp, hf'', rfl, ?_⟩
  exact .loop (char_of_side hloop.side) hinner (hfolds ▸ hloop.body) (char_of_side hloop.closing)
    (cancels_of_fold hrest hfold rfl)

/-- What a text folds to is spelled by it. -/
theorem Folded.spelled (h : Folded text f) (hclean : ∀ p ∈ text, p.1 ∈ alphabet) :
    ∃ out, f.out.reverse = out.map .instr ∧ Spelled text out := by
  generalize hout : f.out = l
  induction l generalizing text f with
  | nil =>
    obtain ⟨hsteps, hfold⟩ := h.cancels hout
    exact ⟨[], rfl, spelled_nil (cancels_of_fold hsteps hfold hout)⟩
  | cons x l ih =>
    obtain ⟨text', piece, f', i, rfl, hf', hrest, rfl, hpiece⟩ := h.last hclean hout
    obtain ⟨out, hmap, hspelled⟩ := ih hf' (fun p hp => hclean p (List.mem_append_left _ hp)) hrest
    exact ⟨out ++ [i], by simp [hmap], hspelled.concat hpiece⟩

/-- It is spelled by it as well with its idioms put in. -/
theorem Folded.spelled_idioms (h : Folded text f) (hclean : ∀ p ∈ text, p.1 ∈ alphabet) :
    ∃ out, replaceIdioms f.out.reverse = out.map .instr ∧ Spelled text out := by
  induction hn : f.out.length using Nat.strongRecOn generalizing text f with
  | _ n ih =>
  subst hn
  cases hout : f.out with
  | nil =>
    obtain ⟨out, hmap, hspelled⟩ := h.spelled hclean
    rw [hout] at hmap
    exact ⟨out, by rw [← hmap]; exact replaceIdioms_nil, hspelled⟩
  | cons x l =>
    rw [List.reverse_cons]
    by_cases hclose : ∃ before o body i, IsIdiomLoop o body x i ∧ l.reverse = before ++ o :: body
    · obtain ⟨before, o, body, i, hloop, hl⟩ := hclose
      have hcut : l = body.reverse ++ o :: before.reverse := by
        simpa using congrArg List.reverse hl
      obtain ⟨text', piece, f', rfl, hf', hrest, hpiece⟩ := h.last_loop hloop (hcut ▸ hout)
      have hshorter : f'.out.length < f.out.length := by
        rw [hrest, hout, hcut]
        simp
        omega
      obtain ⟨out, hmap, hspelled⟩ :=
        ih _ hshorter hf' (fun p hp => hclean p (List.mem_append_left _ hp)) rfl
      rw [hrest, List.reverse_reverse] at hmap
      refine ⟨out ++ [i], ?_, hspelled.concat hpiece⟩
      rw [hl, replaceIdioms_close hloop, hmap, List.map_append]
      rfl
    · obtain ⟨text', piece, f', i, rfl, hf', hrest, rfl, hpiece⟩ := h.last hclean hout
      obtain ⟨out, hmap, hspelled⟩ := ih _ (by simp [hrest, hout]) hf'
        (fun p hp => hclean p (List.mem_append_left _ hp)) rfl
      rw [hrest] at hmap
      refine ⟨out ++ [i], ?_, hspelled.concat hpiece⟩
      rw [replaceIdioms_concat fun before o body j hloop heq =>
        hclose ⟨before, o, body, j, hloop, heq⟩, hmap, List.map_append]
      rfl

/-- Each character spells its own instruction. -/
theorem spelled_instructions (hclean : ∀ p ∈ text, p.1 ∈ alphabet) :
    Spelled text (text.map instruction) := by
  induction text using List.reverseRecOn with
  | nil => exact spelled_nil ⟨List.forall_mem_nil _, rfl⟩
  | append_singleton text p ih =>
    rw [List.forall_mem_append, List.forall_mem_singleton] at hclean
    rw [List.map_append]
    refine (ih hclean.1).concat ?_
    obtain ⟨c, position⟩ := p
    have hnothing : Cancels [] := ⟨List.forall_mem_nil _, rfl⟩
    have hc := hclean.2
    simp only at hc
    fin_cases hc
    · exact @Spells.run .cell 1 _ _ (by simp [signs]) hnothing.steps rfl
    · exact @Spells.run .cell 255 _ _ (by simp [signs]) hnothing.steps rfl
    · exact @Spells.run .pointer 65535 _ _ (by simp [signs]) hnothing.steps rfl
    · exact @Spells.run .pointer 1 _ _ (by simp [signs]) hnothing.steps rfl
    all_goals exact .sign rfl hnothing

/-- What a source is condensed to is spelled by the source. -/
theorem spelled_of_condense {source : String} (h : Clean source) (level : Level) :
    ∃ out : List Instruction, condense level ((placed source).map item) = out.map .instr ∧
      Spelled (placed source) out := by
  have hfolded := folded (placed source)
  cases level with
  | plain =>
    refine ⟨(placed source).map instruction, ?_, spelled_instructions h⟩
    rw [List.map_map]
    exact unlinked_items _
  | folded =>
    obtain ⟨out, hout, hspelled⟩ := hfolded.spelled h
    exact ⟨out, (foldSteps_items _).trans hout, hspelled⟩
  | idiomatic =>
    obtain ⟨out, hout, hspelled⟩ := hfolded.spelled_idioms h
    refine ⟨out, ?_, hspelled⟩
    rw [condense, collapseLoops_eq, foldSteps_items, hout]

end Cuts

end Source

/-- **Positions are faithful.** Whatever the level, what a source over the eight characters is
condensed to has increasing positions, and the source, cut at these, is a text that cancels and then
one text for each instruction: for a step a run that folds to it, for an idiom its loop, for
anything else its character, and behind these two only steps that cancel. -/
theorem condense_spelled {source : String} (h : Source.Clean source) (level : Level) :
    ∃ tokens out : List Instruction, Source.read source = .ok tokens ∧
      condense level (tokens.map .instr) = out.map .instr ∧
      out.Pairwise (·.position < ·.position) ∧ Source.Spelled (Source.placed source) out := by
  have hitems : ((Source.placed source).map Source.instruction).map Item.instr =
      (Source.placed source).map Source.item := List.map_map ..
  obtain ⟨out, hout, hspelled⟩ := Source.spelled_of_condense h level
  exact ⟨_, out, Source.read_of_clean h, hitems ▸ hout, hspelled.increasing, hspelled⟩

/-- A source with steps that cancel in front, in a run and behind two instructions. -/
def detours : String := "><+-+.<>[-]><-"

/-- The instructions it is condensed to. -/
def detoursOut : List Instruction :=
  [⟨.add 1, 3⟩, ⟨.output, 6⟩, ⟨.clear, 9⟩, ⟨.add 255, 14⟩]

theorem condense_spelled_detours :
    Source.Clean detours ∧ ∃ tokens, Source.read detours = .ok tokens ∧
      condense .idiomatic (tokens.map .instr) = detoursOut.map .instr ∧
      detoursOut.Pairwise (·.position < ·.position) ∧
      Source.Spelled (Source.placed detours) detoursOut := by
  have hclean : Source.Clean detours := by unfold Source.Clean; decide
  obtain ⟨tokens, out, hread, hcondense, hincreasing, hspelled⟩ :=
    condense_spelled hclean .idiomatic
  have hout : condense .idiomatic (tokens.map .instr) = detoursOut.map .instr := by
    have hknown : Source.read detours = .ok (Source.instructions detours) := rfl
    cases hread.symm.trans hknown
    rfl
  obtain rfl : out = detoursOut :=
    List.map_injective_iff.mpr (fun _ _ => Item.instr.inj) (hcondense.symm.trans hout)
  exact ⟨hclean, tokens, hread, hout, hincreasing, hspelled⟩

end TapeMachine
