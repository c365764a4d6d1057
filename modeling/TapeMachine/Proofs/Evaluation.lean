import Mathlib.Logic.Function.Iterate
import Mathlib.Logic.Relation
import TapeMachine.Fault
import TapeMachine.Proofs.Block

/-! # Running blocks

Blocks run big-step: a loop is gone through again while its test holds, and a
block that never ends has no outcome. What an action does and when a loop is
entered are parameters. Blocks with the same outcomes can take each other's
place (`Same.append`, `Same.loop`), and actions that agree on related states
agree on whole blocks (`Eval.transfer`). -/
namespace TapeMachine

/-- How an action or a block ended, and the state it left. -/
inductive Outcome (σ : Type) where
  | ended (s : σ)
  | failed (fault : Fault) (s : σ)

/-- Outcomes of the same kind, with the same fault if any, in related states. -/
inductive Outcome.Related {σ τ : Type} (R : σ → τ → Prop) : Outcome σ → Outcome τ → Prop
  | ended {s t} : R s t → Related R (.ended s) (.ended t)
  | failed {fault s t} : R s t → Related R (.failed fault s) (.failed fault t)

section Eval

variable {α σ : Type} (act : α → σ → Option (Outcome σ)) (enters : σ → Prop)

/-- The outcomes of a block. An action without an outcome never ends. -/
inductive Eval : Block α → σ → Outcome σ → Prop
  | done {s} : Eval .done s (.ended s)
  | act {a rest s t o} : act a s = some (.ended t) → Eval rest t o → Eval (.act a rest) s o
  | fail {a rest s t fault} : act a s = some (.failed fault t) →
      Eval (.act a rest) s (.failed fault t)
  | skip {opening body closing rest s o} : ¬ enters s → Eval rest s o →
      Eval (.loop opening body closing rest) s o
  | again {opening body closing rest s t o} : enters s → Eval body s (.ended t) →
      Eval (.loop opening body closing rest) t o → Eval (.loop opening body closing rest) s o
  | escape {opening body closing rest s t fault} : enters s → Eval body s (.failed fault t) →
      Eval (.loop opening body closing rest) s (.failed fault t)

variable {act enters} {s t : σ} {o : Outcome σ} {b c d : Block α}

@[simp] theorem eval_done : Eval act enters .done s o ↔ o = .ended s :=
  ⟨fun h => by cases h; rfl, fun h => h ▸ .done⟩

theorem eval_act {a : α} {rest : Block α} : Eval act enters (.act a rest) s o ↔
    (∃ t, act a s = some (.ended t) ∧ Eval act enters rest t o) ∨
      ∃ fault t, act a s = some (.failed fault t) ∧ o = .failed fault t := by
  constructor
  · intro h
    cases h with
    | act ha hrest => exact Or.inl ⟨_, ha, hrest⟩
    | fail ha => exact Or.inr ⟨_, _, ha, rfl⟩
  · intro hout
    rcases hout with ⟨t, ha, hrest⟩ | ⟨fault, t, ha, rfl⟩
    · exact .act ha hrest
    · exact .fail ha

variable (act enters) in
/-- One time through a loop. -/
def Lap (body : Block α) (s t : σ) : Prop := enters s ∧ Eval act enters body s (.ended t)

/-- A loop runs a number of laps and then is left, or fails in the lap it is in. -/
theorem eval_loop {opening closing : α} {body rest : Block α} :
    Eval act enters (.loop opening body closing rest) s o ↔
      ∃ t, Relation.ReflTransGen (Lap act enters body) s t ∧
        ((¬ enters t ∧ Eval act enters rest t o) ∨
          (enters t ∧ ∃ fault u, o = .failed fault u ∧ Eval act enters body t o)) := by
  constructor
  · intro h
    generalize hb : Block.loop opening body closing rest = b at h
    induction h with
    | done => cases hb
    | act => cases hb
    | fail => cases hb
    | skip hs hrest =>
      cases hb
      exact ⟨_, .refl, Or.inl ⟨hs, hrest⟩⟩
    | again hs hbody _ _ ih =>
      cases hb
      obtain ⟨t, hlaps, hend⟩ := ih rfl
      exact ⟨t, .head ⟨hs, hbody⟩ hlaps, hend⟩
    | escape hs hbody =>
      cases hb
      exact ⟨_, .refl, Or.inr ⟨hs, _, _, rfl, hbody⟩⟩
  · intro hout
    obtain ⟨t, hlaps, hend⟩ := hout
    induction hlaps using Relation.ReflTransGen.head_induction_on with
    | refl =>
      rcases hend with ⟨ht, hrest⟩ | ⟨ht, fault, u, rfl, hbody⟩
      · exact .skip ht hrest
      · exact .escape ht hbody
    | head hlap _ ih => exact .again hlap.1 hlap.2 ih

/-- A block after another runs if the first one ended, and its outcome counts. -/
theorem eval_append : Eval act enters (b ++ c) s o ↔
    (∃ t, Eval act enters b s (.ended t) ∧ Eval act enters c t o) ∨
      ∃ fault t, o = .failed fault t ∧ Eval act enters b s o := by
  induction b generalizing s with
  | done =>
    simp only [Block.done_append, eval_done, Outcome.ended.injEq, exists_eq_left]
    exact ⟨Or.inl, fun h => h.resolve_right (by rintro ⟨_, _, rfl, h⟩; cases h)⟩
  | act a rest ih =>
    simp only [Block.act_append, eval_act, ih]
    constructor
    · intro hout
      rcases hout with ⟨t, ha, ⟨u, hu, hc⟩ | ⟨fault, u, rfl, hrest⟩⟩ | ⟨fault, t, ha, rfl⟩
      · exact Or.inl ⟨u, Or.inl ⟨t, ha, hu⟩, hc⟩
      · exact Or.inr ⟨fault, u, rfl, Or.inl ⟨t, ha, hrest⟩⟩
      · exact Or.inr ⟨fault, t, rfl, Or.inr ⟨fault, t, ha, rfl⟩⟩
    · intro hout
      rcases hout with
        ⟨u, ⟨t, ha, hu⟩ | ⟨_, _, _, h⟩, hc⟩ | ⟨fault, u, rfl, ⟨t, ha, hrest⟩ | h⟩
      · exact Or.inl ⟨t, ha, Or.inl ⟨u, hu, hc⟩⟩
      · cases h
      · exact Or.inl ⟨t, ha, Or.inr ⟨fault, u, rfl, hrest⟩⟩
      · exact Or.inr h
  | loop opening body closing rest _ ih =>
    simp only [Block.loop_append, eval_loop, ih]
    constructor
    · intro hout
      rcases hout with
        ⟨t, hlaps, ⟨ht, ⟨u, hu, hc⟩ | ⟨fault, u, rfl, hrest⟩⟩ | ⟨ht, fault, u, rfl, hbody⟩⟩
      · exact Or.inl ⟨u, ⟨t, hlaps, Or.inl ⟨ht, hu⟩⟩, hc⟩
      · exact Or.inr ⟨fault, u, rfl, t, hlaps, Or.inl ⟨ht, hrest⟩⟩
      · exact Or.inr ⟨fault, u, rfl, t, hlaps, Or.inr ⟨ht, fault, u, rfl, hbody⟩⟩
    · intro hout
      rcases hout with
        ⟨u, ⟨t, hlaps, ⟨ht, hu⟩ | ⟨_, _, _, h, _⟩⟩, hc⟩ |
          ⟨fault, u, rfl, t, hlaps, ⟨ht, hrest⟩ | h⟩
      · exact ⟨t, hlaps, Or.inl ⟨ht, Or.inl ⟨u, hu, hc⟩⟩⟩
      · cases h
      · exact ⟨t, hlaps, Or.inl ⟨ht, Or.inr ⟨fault, u, rfl, hrest⟩⟩⟩
      · exact ⟨t, hlaps, Or.inr h⟩

/-! ## Blocks with the same outcomes -/

variable (act enters) in
/-- Whether two blocks have the same outcomes from every state. -/
def Same (b c : Block α) : Prop := ∀ s o, Eval act enters b s o ↔ Eval act enters c s o

theorem Same.refl (b : Block α) : Same act enters b b := fun _ _ => Iff.rfl

theorem Same.symm (h : Same act enters b c) : Same act enters c b := fun s o => (h s o).symm

theorem Same.trans (h : Same act enters b c) (h' : Same act enters c d) : Same act enters b d :=
  fun s o => (h s o).trans (h' s o)

theorem Same.append {b' c' : Block α} (hb : Same act enters b b') (hc : Same act enters c c') :
    Same act enters (b ++ c) (b' ++ c') := by
  intro s o
  simp only [eval_append, hb s, hc _ o]

theorem Same.cons (a : α) (h : Same act enters b c) : Same act enters (.act a b) (.act a c) := by
  intro s o
  simp only [eval_act, h _ o]

/-- The brackets at the ends of a loop do not matter. -/
theorem Same.loop {body body' : Block α} {x y x' y' : α} (hb : Same act enters body body')
    (hc : Same act enters b c) :
    Same act enters (.loop x body y b) (.loop x' body' y' c) := by
  have hlap : Lap act enters body = Lap act enters body' := by
    funext s t
    simp only [Lap, hb s]
  intro s o
  simp only [eval_loop, hlap, hb _ o, hc _ o]

/-! ## Total blocks and loops around them -/

/-- A body that always ends, in a state that the start determines. -/
def Total (act : α → σ → Option (Outcome σ)) (enters : σ → Prop) (body : Block α) (f : σ → σ) :
    Prop :=
  ∀ s o, Eval act enters body s o ↔ o = .ended (f s)

theorem Total.done : Total act enters .done id := fun _ _ => eval_done

theorem Total.cons {a : α} {f g : σ → σ} (ha : ∀ s, act a s = some (.ended (f s)))
    (hb : Total act enters b g) : Total act enters (.act a b) (g ∘ f) := by
  intro s o
  simp [eval_act, ha, hb _ o]

theorem Total.append {f g : σ → σ} (hb : Total act enters b f) (hc : Total act enters c g) :
    Total act enters (b ++ c) (g ∘ f) := by
  intro s o
  simp only [eval_append, hb s, hc _ o, Outcome.ended.injEq, exists_eq_left]
  exact ⟨fun h => h.resolve_right (by rintro ⟨_, _, rfl, h⟩; cases h), Or.inl⟩

theorem Total.same {f : σ → σ} (hb : Total act enters b f) (hc : Total act enters c f) :
    Same act enters b c := fun s o => (hb s o).trans (hc s o).symm

theorem Total.laps {body : Block α} {f : σ → σ} (h : Total act enters body f) :
    Relation.ReflTransGen (Lap act enters body) s t ↔
      ∃ k, t = f^[k] s ∧ ∀ j < k, enters (f^[j] s) := by
  constructor
  · intro hlaps
    induction hlaps with
    | refl => exact ⟨0, rfl, fun j hj => by omega⟩
    | tail _ hlap ih =>
      obtain ⟨k, rfl, hk⟩ := ih
      refine ⟨k + 1, ?_, ?_⟩
      · rw [Function.iterate_succ_apply']
        exact Outcome.ended.inj ((h _ _).mp hlap.2)
      · intro j hj
        rcases Nat.lt_succ_iff_lt_or_eq.mp hj with hj | rfl
        · exact hk j hj
        · exact hlap.1
  · intro hout
    obtain ⟨k, rfl, hk⟩ := hout
    induction k with
    | zero => exact .refl
    | succ k ih =>
      refine .tail (ih fun j hj => hk j (by omega)) ⟨hk k (by omega), ?_⟩
      rw [Function.iterate_succ_apply']
      exact (h _ _).mpr rfl

/-- A loop around a total body goes round until its test fails, if it ever does. -/
theorem Total.eval_loop_iff {opening closing : α} {body rest : Block α} {f : σ → σ}
    (h : Total act enters body f) : Eval act enters (.loop opening body closing rest) s o ↔
      ∃ k, (∀ j < k, enters (f^[j] s)) ∧ ¬ enters (f^[k] s) ∧
        Eval act enters rest (f^[k] s) o := by
  rw [eval_loop]
  constructor
  · intro hout
    rcases hout with ⟨t, hlaps, ⟨ht, hrest⟩ | ⟨_, fault, u, rfl, hbody⟩⟩
    · obtain ⟨k, rfl, hk⟩ := h.laps.mp hlaps
      exact ⟨k, hk, ht, hrest⟩
    · cases (h _ _).mp hbody
  · intro hout
    obtain ⟨k, hk, ht, hrest⟩ := hout
    exact ⟨_, h.laps.mpr ⟨k, rfl, hk⟩, Or.inl ⟨ht, hrest⟩⟩

/-! ## Related actions -/

/-- The leaves of a block are its actions, loops included. -/
def Block.Leaves (P : α → Prop) : Block α → Prop
  | .done => True
  | .act a rest => P a ∧ rest.Leaves P
  | .loop _ body _ rest => body.Leaves P ∧ rest.Leaves P

theorem Block.Shaped.leaves {side : α → Option Side} {P : α → Prop} {b : Block α}
    (hb : b.Shaped side) (h : ∀ a ∈ b.flatten, P a) : b.Leaves fun a => P a ∧ side a = none := by
  induction b with
  | done => trivial
  | act a rest ih =>
    simp only [Block.flatten, List.forall_mem_cons] at h
    exact ⟨⟨h.1, hb.1⟩, ih hb.2 h.2⟩
  | loop o body e rest ihb ih =>
    simp only [Block.flatten, List.forall_mem_cons, List.forall_mem_append] at h
    exact ⟨ihb hb.2.1 h.2.1, ih hb.2.2.2 h.2.2.2⟩

/-- A block that fails does so at one of its actions. -/
theorem Eval.exists_action {P : α → Prop} {fault : Fault} (h : Eval act enters b s o)
    (hb : b.Leaves P) (ho : o = .failed fault t) :
    ∃ a u, P a ∧ act a u = some (.failed fault t) := by
  induction h with
  | done => cases ho
  | act _ _ ih => exact ih hb.2 ho
  | fail ha =>
    cases ho
    exact ⟨_, _, hb.1, ha⟩
  | skip _ _ ih => exact ih hb.2 ho
  | again _ _ _ _ ih => exact ih hb ho
  | escape _ _ ih => exact ih hb.1 ho

variable {τ : Type} {act' : α → τ → Option (Outcome τ)} {enters' : τ → Prop} {R : σ → τ → Prop}
  {P : α → Prop}

/-- Where actions and tests agree on related states, so do the outcomes of blocks. -/
theorem Eval.transfer (henters : ∀ s t, R s t → (enters s ↔ enters' t))
    (hact : ∀ a s t, P a → R s t → Option.Rel (Outcome.Related R) (act a s) (act' a t))
    {b : Block α} {s : σ} {o : Outcome σ} (h : Eval act enters b s o) (hb : b.Leaves P) {t : τ}
    (hst : R s t) : ∃ o', Eval act' enters' b t o' ∧ o.Related R o' := by
  induction h generalizing t with
  | done => exact ⟨_, .done, .ended hst⟩
  | @act a rest s u o ha _ ih =>
    have hrel := hact _ _ _ hb.1 hst
    rw [ha] at hrel
    generalize hx : act' a t = x at hrel
    cases hrel with
    | some hrel =>
      cases hrel with
      | ended huv =>
        obtain ⟨o', ho', hrel'⟩ := ih hb.2 huv
        exact ⟨o', .act hx ho', hrel'⟩
  | @fail a rest s u fault ha =>
    have hrel := hact _ _ _ hb.1 hst
    rw [ha] at hrel
    generalize hx : act' a t = x at hrel
    cases hrel with
    | some hrel =>
      cases hrel with
      | failed huv => exact ⟨_, .fail hx, .failed huv⟩
  | skip hs _ ih =>
    obtain ⟨o', ho', hrel⟩ := ih hb.2 hst
    exact ⟨o', .skip (mt (henters _ _ hst).mpr hs) ho', hrel⟩
  | again hs _ _ ihb ih =>
    obtain ⟨_, hbody, hrel⟩ := ihb hb.1 hst
    cases hrel with
    | ended huv =>
      obtain ⟨o', ho', hrel'⟩ := ih hb huv
      exact ⟨o', .again ((henters _ _ hst).mp hs) hbody ho', hrel'⟩
  | escape hs _ ihb =>
    obtain ⟨_, hbody, hrel⟩ := ihb hb.1 hst
    cases hrel with
    | failed huv => exact ⟨_, .escape ((henters _ _ hst).mp hs) hbody, .failed huv⟩

theorem Outcome.Related.swap {o : Outcome σ} {o' : Outcome τ} (h : o.Related R o') :
    o'.Related (fun t s => R s t) o := by
  cases h with
  | ended h => exact .ended h
  | failed h => exact .failed h

/-- The same the other way round. -/
theorem Eval.transfer_back (henters : ∀ s t, R s t → (enters s ↔ enters' t))
    (hact : ∀ a s t, P a → R s t → Option.Rel (Outcome.Related R) (act a s) (act' a t))
    {b : Block α} {t : τ} {o : Outcome τ} (h : Eval act' enters' b t o) (hb : b.Leaves P) {s : σ}
    (hst : R s t) : ∃ o', Eval act enters b s o' ∧ o'.Related R o := by
  have hswap : ∀ a t s, P a → R s t →
      Option.Rel (Outcome.Related fun t s => R s t) (act' a t) (act a s) := by
    intro a t s ha hst
    have hrel := hact a s t ha hst
    generalize act a s = x at hrel ⊢
    generalize act' a t = y at hrel ⊢
    cases hrel with
    | some hrel => exact .some hrel.swap
    | none => exact .none
  obtain ⟨o', ho', hrel⟩ := h.transfer (fun t s hst => (henters s t hst).symm) hswap hb hst
  exact ⟨o', ho', hrel.swap⟩

/-- Running a renamed block is running the block with renamed actions. -/
theorem eval_map {β : Type} {f : β → α} {b : Block β} :
    Eval act enters (b.map f) s o ↔ Eval (fun a => act (f a)) enters b s o := by
  induction b generalizing s o with
  | done => simp [Block.map]
  | act a rest ih => simp only [Block.map, eval_act, ih]
  | loop x body y rest ihb ih =>
    have hlap : Lap act enters (body.map f) = Lap (fun a => act (f a)) enters body := by
      funext s t
      simp only [Lap, ihb]
    simp only [Block.map, eval_loop, hlap, ihb, ih]

end Eval

end TapeMachine
