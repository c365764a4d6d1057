import TapeMachine.Proofs.Store

/-! # Blocks in a program

A block is placed in an encoded program where its words stand one behind the
other and the brackets of each loop lead to each other. The machine then runs
the block: every outcome of the block is reached (`Eval.reached`), and a run
that ends has an outcome of the block, or stands at an instruction that took the
place of a loop that would go on for ever (`outcome_of_finish`). A taken jump
lands on the partner bracket, which tests the cell again. -/
namespace TapeMachine

/-- An encoded program beside the pieces it came from. -/
structure Image where
  pieces : List Piece
  program : Array Item
  code : Array Word

namespace Image

/-- Whether an action stands at an index. -/
structure Holds (g : Image) (i : ℕ) (x : Piece) : Prop where
  plain : x.side? = none
  piece : g.pieces[i]? = some x
  position : positionAt g.program i = x.instr.position
  word : ∃ items w, x.instr.op.encode items = .ok w ∧ g.code[i]? = some w

/-- Whether a block stands from an index on. -/
def Places (g : Image) : ℕ → Block Piece → Prop
  | _, .done => True
  | base, .act x rest => g.Holds base x ∧ g.Places (base + 1) rest
  | base, .loop _ body _ rest =>
    g.code[base]? = some (.opening (some (base + 1 + body.flatten.length))) ∧
      g.Places (base + 1) body ∧
      g.code[base + 1 + body.flatten.length]? = some (.closing (some base)) ∧
      g.Places (base + 1 + body.flatten.length + 1) rest

def turn (g : Image) (r : Run) : Turn := Run.turn g.program g.code r

def finish (g : Image) (budget : ℕ) (r : Run) : Option Finish :=
  Run.finish g.program g.code budget r

/-- Any number of turns. -/
def Leads (g : Image) : Run → Run → Prop := Relation.ReflTransGen fun r t => g.turn r = .next t

variable {g : Image} {r t : Run} {f f' : Finish} {budget budget' : ℕ}

theorem finish_succ : g.finish (budget + 1) r =
    match g.turn r with
    | .next t => g.finish budget t
    | .finished f => some f := rfl

theorem finish_of_next (h : g.turn r = .next t) : g.finish (budget + 1) r = g.finish budget t := by
  rw [finish_succ, h]

theorem finish_of_finished (budget : ℕ) (h : g.turn r = .finished f) :
    g.finish (budget + 1) r = some f := by
  rw [finish_succ, h]

theorem Leads.finish (h : g.Leads r t) (hf : g.finish budget t = some f) :
    ∃ budget, g.finish budget r = some f := by
  induction h using Relation.ReflTransGen.head_induction_on with
  | refl => exact ⟨budget, hf⟩
  | head hturn _ ih =>
    obtain ⟨budget', hf'⟩ := ih
    exact ⟨budget' + 1, (finish_of_next hturn).trans hf'⟩

/-- A run ends in one way, whatever the budget. -/
theorem finish_unique (h : g.finish budget r = some f) (h' : g.finish budget' r = some f') :
    f = f' := by
  induction budget generalizing r budget' with
  | zero => cases h
  | succ budget ih =>
    cases budget' with
    | zero => cases h'
    | succ budget' =>
      rw [finish_succ] at h h'
      cases hturn : g.turn r with
      | next t =>
        rw [hturn] at h h'
        exact ih h h'
      | finished f =>
        rw [hturn] at h h'
        exact Option.some.inj (h.symm.trans h')

end Image

/-! ## Brackets -/

/-- A run at another place. -/
def Run.goTo (r : Run) (pc : ℕ) : Run := ⟨{ r.state with pc }, r.feed, r.output⟩

section Bracket

variable {n : ℕ} {g : Image} {r : Run} {target : ℕ}

@[simp] theorem goTo_pc (pc : ℕ) : (r.goTo pc).state.pc = pc := rfl

@[simp] theorem goTo_goTo (pc pc' : ℕ) : (r.goTo pc).goTo pc' = r.goTo pc' := rfl

@[simp] theorem goTo_self : r.goTo r.state.pc = r := rfl

theorem State.Fits.goTo (h : r.state.Fits n) (pc : ℕ) : (r.goTo pc).state.Fits n :=
  ⟨h.size, h.inside⟩

theorem turn_jump {w : Word} (onZero : Bool) (hcode : g.code[r.state.pc]? = some w)
    (hw : w.apply r.state = r.state.jump (some target) onZero) :
    g.turn r = .next (r.goTo (if (r.state.tape.cell r.state.pointer == 0) = onZero then target
      else r.state.pc + 1)) := by
  obtain ⟨s, feed, output⟩ := r
  have hstep : step g.code s = w.apply s := by
    unfold step
    rw [hcode]
  unfold Image.turn Run.turn
  simp only [hstep, hw, State.jump]
  split <;> rfl

theorem enters_iff (h : r.state.Fits n) :
    (r.store n).Enters ↔ r.state.tape.cell r.state.pointer ≠ 0 :=
  not_congr h.cell_eq_zero

/-- An opening bracket leads into its loop or to its end. -/
theorem turn_opening (h : r.state.Fits n)
    (hcode : g.code[r.state.pc]? = some (.opening (some target))) :
    ((r.store n).Enters → g.turn r = .next (r.goTo (r.state.pc + 1))) ∧
      (¬ (r.store n).Enters → g.turn r = .next (r.goTo target)) := by
  rw [turn_jump true hcode rfl, enters_iff h]
  exact ⟨fun hne => by simp [hne], fun heq => by simp [not_not.mp heq]⟩

/-- A closing bracket leads back to its loop or out of it. -/
theorem turn_closing (h : r.state.Fits n)
    (hcode : g.code[r.state.pc]? = some (.closing (some target))) :
    ((r.store n).Enters → g.turn r = .next (r.goTo target)) ∧
      (¬ (r.store n).Enters → g.turn r = .next (r.goTo (r.state.pc + 1))) := by
  rw [turn_jump false hcode rfl, enters_iff h]
  exact ⟨fun hne => by simp [hne], fun heq => by simp [not_not.mp heq]⟩

end Bracket

/-! ## Outcomes -/

namespace Image

/-- Whether a run comes to an outcome: at the index `stop`, or at an action that fails. -/
def Arrives {n : ℕ} (g : Image) (r : Run) (stop : ℕ) : Outcome (Store n) → Prop
  | .ended e => ∃ t, g.Leads r t ∧ t.state.pc = stop ∧ t.state.Fits n ∧ t.store n = e
  | .failed fault e => ∃ t x, g.Leads r t ∧ g.Holds t.state.pc x ∧
      x.act (t.store n) = some (.failed fault e) ∧ g.turn t = .finished ⟨t, some fault.raised⟩ ∧
      t.state.Fits n ∧ t.store n = e

/-- Whether a run ended at an instruction that stands for a loop without an end. -/
structure Stuck (n : ℕ) (g : Image) (f : Finish) (x : Piece) : Prop where
  holds : g.Holds f.run.state.pc x
  fits : f.run.state.Fits n
  endless : x.act (f.run.store n) = none
  collapsed : x.collapsed = true
  fault : ∃ fault : Fault, f.failure = some fault.raised ∧ fault.IsEndless n x.instr.position

/-- What a run that ends with `f` came to: it passed the index `stop`, or failed before it, with an
outcome in `P`, or it got stuck. -/
inductive Resolves {n : ℕ} (g : Image) (f : Finish) (budget stop : ℕ)
    (P : Outcome (Store n) → Prop) :
    Prop
  | passed {rest : ℕ} {t : Run} (hle : rest ≤ budget) (hfinish : g.finish rest t = some f)
      (hpc : t.state.pc = stop) (hfits : t.state.Fits n) (h : P (.ended (t.store n))) :
      Resolves g f budget stop P
  | failed {fault : Fault} (hfault : f.failure = some fault.raised) (hfits : f.run.state.Fits n)
      (h : P (.failed fault (f.run.store n))) : Resolves g f budget stop P
  | stuck {x : Piece} (h : Stuck n g f x) : Resolves g f budget stop P

variable {n : ℕ} {g : Image} {r t : Run} {f : Finish} {b : Block Piece} {o : Outcome (Store n)}
  {x : Piece} {stop budget : ℕ}

theorem Resolves.weaken {P Q : Outcome (Store n) → Prop} {budget' : ℕ}
    (h : g.Resolves f budget stop P) (hle : budget ≤ budget') (hPQ : ∀ o, P o → Q o) :
    g.Resolves f budget' stop Q := by
  cases h with
  | passed hrest hfinish hpc hfits h =>
    exact .passed (hrest.trans hle) hfinish hpc hfits (hPQ _ h)
  | failed hfault hfits h => exact .failed hfault hfits (hPQ _ h)
  | stuck h => exact .stuck h

theorem Leads.of_next {u : Run} (h : g.turn r = .next t) (hu : g.Leads r u) (hne : r ≠ u) :
    g.Leads t u := by
  rcases Relation.ReflTransGen.cases_head hu with heq | ⟨v, hv, hvu⟩
  · exact absurd heq hne
  · obtain rfl := Turn.next.inj (h.symm.trans hv)
    exact hvu

/-- Before its stop a run comes to what it comes to after its next turn. -/
theorem arrives_next (h : g.turn r = .next t) (hne : r.state.pc ≠ stop) :
    g.Arrives r stop o ↔ g.Arrives t stop o := by
  cases o with
  | ended e =>
    constructor
    · intro harrives
      obtain ⟨u, hu, hpc, hfits, hstore⟩ := harrives
      exact ⟨u, hu.of_next h (by rintro rfl; exact hne hpc), hpc, hfits, hstore⟩
    · intro harrives
      obtain ⟨u, hu, hrest⟩ := harrives
      exact ⟨u, .head h hu, hrest⟩
  | failed fault e =>
    constructor
    · intro harrives
      obtain ⟨u, x, hu, hx, hact, hturn, hrest⟩ := harrives
      refine ⟨u, x, hu.of_next h ?_, hx, hact, hturn, hrest⟩
      rintro rfl
      cases h.symm.trans hturn
    · intro harrives
      obtain ⟨u, x, hu, hrest⟩ := harrives
      exact ⟨u, x, .head h hu, hrest⟩

theorem Arrives.trans {e : Store n} {middle : ℕ} (h : g.Arrives r middle (.ended e))
    (h' : ∀ t, t.state.pc = middle → t.state.Fits n → t.store n = e → g.Arrives t stop o) :
    g.Arrives r stop o := by
  obtain ⟨t, hlead, hpc, hfits, hstore⟩ := h
  have harrives := h' t hpc hfits hstore
  cases o with
  | ended _ =>
    obtain ⟨u, hu, hrest⟩ := harrives
    exact ⟨u, hlead.trans hu, hrest⟩
  | failed _ _ =>
    obtain ⟨u, x, hu, hrest⟩ := harrives
    exact ⟨u, x, hlead.trans hu, hrest⟩

/-- A failure does not depend on where a run was to stop. -/
theorem Arrives.of_failed {fault : Fault} {e : Store n} {stop' : ℕ}
    (h : g.Arrives r stop' (.failed fault e)) : g.Arrives r stop (.failed fault e) := h

/-- Whether runs of fewer than `budget` turns that end with `f` come to outcomes of their blocks. -/
def ResolvesBelow (n : ℕ) (g : Image) (f : Finish) (budget : ℕ) : Prop :=
  ∀ m < budget, ∀ r b, g.Places r.state.pc b → r.state.Fits n → g.finish m r = some f →
    g.Resolves f m (r.state.pc + b.flatten.length) (Eval Piece.act Store.Enters b (r.store n))

section Loop

variable {opening closing : Piece} {body rest : Block Piece}

/-- A loop that is not entered is left behind its closing bracket. -/
theorem resolves_skip (ih : g.ResolvesBelow n f budget)
    (hb : g.Places r.state.pc (.loop opening body closing rest)) (hr : r.state.Fits n)
    (h : g.finish budget r = some f) (henters : ¬ (r.store n).Enters) :
    g.Resolves f budget (r.state.pc + (Block.loop opening body closing rest).flatten.length)
      (Eval Piece.act Store.Enters (.loop opening body closing rest) (r.store n)) := by
  obtain ⟨hopen, -, hclose, hrest⟩ := hb
  cases budget with
  | zero => cases h
  | succ budget =>
  rw [finish_of_next ((turn_opening hr hopen).2 henters)] at h
  cases budget with
  | zero => cases h
  | succ budget =>
  rw [finish_of_next ((turn_closing (hr.goTo _) hclose).2 henters)] at h
  have hres := ih budget (by omega) (r.goTo _) rest hrest (hr.goTo _) h
  have hstop : r.state.pc + 1 + body.flatten.length + 1 + rest.flatten.length =
      r.state.pc + (Block.loop opening body closing rest).flatten.length := by
    simp [Block.flatten]
    omega
  rw [goTo_pc, hstop] at hres
  exact hres.weaken (by omega) fun o => .skip henters

/-- A loop that is entered runs its body, and then comes to its outcome from there. -/
theorem resolves_again (ih : g.ResolvesBelow n f budget)
    (hb : g.Places r.state.pc (.loop opening body closing rest)) (hr : r.state.Fits n)
    (h : g.finish budget r = some f) (henters : (r.store n).Enters) :
    g.Resolves f budget (r.state.pc + (Block.loop opening body closing rest).flatten.length)
      (Eval Piece.act Store.Enters (.loop opening body closing rest) (r.store n)) := by
  have hloop := hb
  obtain ⟨hopen, hbody, hclose, hrest⟩ := hb
  cases budget with
  | zero => cases h
  | succ budget =>
  rw [finish_of_next ((turn_opening hr hopen).1 henters)] at h
  have hres := ih budget (Nat.lt_succ_self _) (r.goTo _) body hbody (hr.goTo _) h
  cases hres with
  | failed hfault hfits hfail => exact .failed hfault hfits (.escape henters hfail)
  | stuck hstuck => exact .stuck hstuck
  | @passed left t hle hfinish hpc hfits hlap =>
    rw [goTo_pc] at hpc
    cases left with
    | zero => cases hfinish
    | succ left =>
    by_cases ht : (t.store n).Enters
    · rw [finish_of_next ((turn_closing hfits (hpc ▸ hclose)).1 ht)] at hfinish
      have hres := ih left (by omega) (t.goTo _) _ hloop (hfits.goTo _) hfinish
      exact hres.weaken (by omega) fun o => .again henters hlap
    · rw [finish_of_next ((turn_closing hfits (hpc ▸ hclose)).2 ht)] at hfinish
      have hres := ih left (by omega) (t.goTo _) rest (hpc ▸ hrest) (hfits.goTo _) hfinish
      have hstop : t.state.pc + 1 + rest.flatten.length =
          r.state.pc + (Block.loop opening body closing rest).flatten.length := by
        simp [Block.flatten, hpc]
        omega
      rw [goTo_pc, hstop] at hres
      exact hres.weaken (by omega) fun o ho => .again henters hlap (.skip ht ho)

end Loop

section Run

variable [NeZero n] {k : ℕ} (hn : n = 2 ^ k)

include hn

/-- A turn at an action goes on, fails or gets stuck as the action does. -/
theorem Holds.turn_cases (hx : g.Holds r.state.pc x) (h : r.state.Fits n) :
    (∃ t, g.turn r = .next t ∧ x.act (r.store n) = some (.ended (t.store n)) ∧
        t.state.pc = r.state.pc + 1 ∧ t.state.Fits n) ∨
      (∃ fault : Fault, g.turn r = .finished ⟨r, some fault.raised⟩ ∧
        x.act (r.store n) = some (.failed fault (r.store n))) ∨
      ∃ f, g.turn r = .finished f ∧ f.run = r ∧ x.act (r.store n) = none ∧ Stuck n g f x := by
  obtain ⟨items, w, hw, hcode⟩ := hx.word
  have hshows : (g.turn r).Shows x r (x.act (r.store n)) :=
    turn_act hn h hcode hw hx.plain hx.position
  cases hturn : g.turn r with
  | next t =>
    rw [hturn] at hshows
    cases hact : x.act (r.store n) with
    | none => rw [hact] at hshows; exact hshows.elim
    | some o =>
      rw [hact] at hshows
      cases o with
      | failed fault e => exact hshows.elim
      | ended e =>
        obtain ⟨hpc, hfits, rfl⟩ := hshows
        exact Or.inl ⟨t, rfl, rfl, hpc, hfits⟩
  | finished f =>
    rw [hturn] at hshows
    cases hact : x.act (r.store n) with
    | none =>
      rw [hact] at hshows
      obtain ⟨hcollapsed, rfl, hfault⟩ := hshows
      exact Or.inr (Or.inr ⟨f, rfl, rfl, rfl, hx, h, hact, hcollapsed, hfault⟩)
    | some o =>
      rw [hact] at hshows
      cases o with
      | ended e => exact hshows.elim
      | failed fault e =>
        obtain ⟨rfl, rfl⟩ := hshows
        exact Or.inr (Or.inl ⟨fault, rfl, rfl⟩)

/-- **Every outcome of a block is reached by the run that stands at it.** -/
theorem arrives_of_eval {e : Store n} (h : Eval Piece.act Store.Enters b e o)
    (hb : g.Places r.state.pc b) (hr : r.state.Fits n) (he : r.store n = e) :
    g.Arrives r (r.state.pc + b.flatten.length) o := by
  induction h generalizing r with
  | done => exact ⟨r, .refl, rfl, hr, he⟩
  | @act x rest e e' o hact _ ih =>
    obtain ⟨hx, hrest⟩ := hb
    subst he
    rcases hx.turn_cases hn hr with
      ⟨t, hturn, hact', hpc, hfits⟩ | ⟨_, _, hact'⟩ | ⟨_, _, _, hact', _⟩
    · rw [arrives_next hturn (by simp [Block.flatten])]
      obtain rfl := Outcome.ended.inj (Option.some.inj (hact'.symm.trans hact))
      have := ih (hpc ▸ hrest) hfits rfl
      rwa [hpc, Nat.add_right_comm, Nat.add_assoc] at this
    · cases hact'.symm.trans hact
    · cases hact'.symm.trans hact
  | @fail x rest e e' fault hact =>
    obtain ⟨hx, -⟩ := hb
    subst he
    rcases hx.turn_cases hn hr with
      ⟨_, _, hact', _⟩ | ⟨fault', hturn, hact'⟩ | ⟨_, _, _, hact', _⟩
    · cases hact'.symm.trans hact
    · obtain ⟨rfl, rfl⟩ := Outcome.failed.inj (Option.some.inj (hact'.symm.trans hact))
      exact ⟨r, x, .refl, hx, hact, hturn, hr, rfl⟩
    · cases hact'.symm.trans hact
  | @skip opening body closing rest e o henters _ ih =>
    obtain ⟨hopen, -, hclose, hrest⟩ := hb
    subst he
    have hturn := (turn_opening hr hopen).2 henters
    have hturn' := (turn_closing (hr.goTo _) hclose).2 henters
    rw [arrives_next hturn (by simp [Block.flatten]),
      arrives_next hturn' (by simp [Block.flatten]; omega)]
    have := ih (r := r.goTo _) hrest (hr.goTo _) rfl
    simpa [Block.flatten, Nat.add_assoc, Nat.add_comm, Nat.add_left_comm] using this
  | @again opening body closing rest e e' o henters _ _ ihb ih =>
    have hloop := hb
    obtain ⟨hopen, hbody, hclose, -⟩ := hb
    subst he
    have hturn := (turn_opening hr hopen).1 henters
    rw [arrives_next hturn (by simp [Block.flatten])]
    refine (ihb (r := r.goTo _) hbody (hr.goTo _) rfl).trans ?_
    intro t hpc hfits hstore
    have hclose' : g.code[t.state.pc]? = some (.closing (some r.state.pc)) := hpc ▸ hclose
    have hagain := ih (r := t.goTo r.state.pc) hloop (hfits.goTo _) hstore
    by_cases ht : (t.store n).Enters
    · rw [arrives_next ((turn_closing hfits hclose').1 ht) ?_]
      · exact hagain
      · rw [hpc]
        simp [Block.flatten]
        omega
    · -- the run from the opening bracket comes by the closing one
      have hback : g.turn (t.goTo r.state.pc) = .next t := by
        rw [goTo_pc] at hpc
        rw [(turn_opening (hfits.goTo _) hopen).2 ht, goTo_goTo, ← hpc, goTo_self]
      exact (arrives_next hback (by simp [Block.flatten])).mp hagain
  | @escape opening body closing rest e e' fault henters _ ihb =>
    obtain ⟨hopen, hbody, -, -⟩ := hb
    subst he
    have hturn := (turn_opening hr hopen).1 henters
    rw [arrives_next hturn (by simp [Block.flatten])]
    exact (ihb (r := r.goTo _) hbody (hr.goTo _) rfl).of_failed

theorem resolves_act (ih : g.ResolvesBelow n f budget) (hx : g.Holds r.state.pc x)
    (hrest : g.Places (r.state.pc + 1) b) (hr : r.state.Fits n)
    (h : g.finish budget r = some f) :
    g.Resolves f budget (r.state.pc + (Block.act x b).flatten.length)
      (Eval Piece.act Store.Enters (.act x b) (r.store n)) := by
  cases budget with
  | zero => cases h
  | succ budget =>
  rw [finish_succ] at h
  rcases hx.turn_cases hn hr with
    ⟨t, hturn, hact, hpc, hfits⟩ | ⟨fault, hturn, hact⟩ | ⟨f', hturn, -, -, hstuck⟩
  · rw [hturn] at h
    have hres := ih budget (Nat.lt_succ_self _) t b (hpc ▸ hrest) hfits h
    rw [hpc, Nat.add_assoc, Nat.add_comm 1] at hres
    exact hres.weaken (Nat.le_succ _) fun o => .act hact
  · rw [hturn] at h
    obtain rfl := Option.some.inj h
    exact .failed rfl hr (.fail hact)
  · rw [hturn] at h
    obtain rfl := Option.some.inj h
    exact .stuck hstuck

/-- **A run that ends comes to an outcome of the block it stands at, or gets stuck.** -/
theorem resolves_of_finish (hb : g.Places r.state.pc b) (hr : r.state.Fits n)
    (h : g.finish budget r = some f) :
    g.Resolves f budget (r.state.pc + b.flatten.length)
      (Eval Piece.act Store.Enters b (r.store n)) := by
  -- every node of a block takes at least one turn, and so does every lap of a loop
  induction budget using Nat.strong_induction_on generalizing r b with
  | _ budget ih =>
  have hbelow : g.ResolvesBelow n f budget := fun m hm r b hb hr h => ih m hm hb hr h
  cases b with
  | done => exact .passed (Nat.le_refl _) h rfl hr .done
  | act x rest => exact resolves_act hn hbelow hb.1 hb.2 hr h
  | loop opening body closing rest =>
    by_cases henters : (r.store n).Enters
    · exact resolves_again hbelow hb hr h henters
    · exact resolves_skip hbelow hb hr h henters

end Run

end Image

/-! ## Whole programs -/

/-- Whether a run that ended shows an outcome. -/
def Finish.Shows {n : ℕ} (f : Finish) : Outcome (Store n) → Prop
  | .ended e => f.failure = none ∧ f.run.state.Fits n ∧ f.run.store n = e
  | .failed fault e => f.failure = some fault.raised ∧ f.run.state.Fits n ∧ f.run.store n = e

/-- Whether a program is the text of a block and nothing else. -/
structure Image.Whole (g : Image) (b : Block Piece) : Prop where
  places : g.Places 0 b
  size : g.code.size = b.flatten.length

namespace Image.Whole

variable {n : ℕ} [NeZero n] {k : ℕ} {g : Image} {b : Block Piece} {r t : Run} {f : Finish}
  {o : Outcome (Store n)} {budget : ℕ}

theorem finish_end (hg : g.Whole b) (budget : ℕ) (h : t.state.pc = b.flatten.length) :
    g.finish (budget + 1) t = some ⟨t, none⟩ := by
  obtain ⟨s, feed, output⟩ := t
  have hstep : step g.code s = .stopped .ended s := by
    unfold step
    rw [Array.getElem?_eq_none (by rw [hg.size]; exact Nat.le_of_eq h.symm)]
  apply finish_of_finished
  unfold Image.turn Run.turn
  simp only [hstep]
  rfl

theorem arrives (hn : n = 2 ^ k) (hg : g.Whole b) (hpc : r.state.pc = 0)
    (hr : r.state.Fits n) (h : Eval Piece.act Store.Enters b (r.store n) o) :
    g.Arrives r b.flatten.length o := by
  have harrives := arrives_of_eval hn h (hpc ▸ hg.places) hr rfl
  rwa [hpc, Nat.zero_add] at harrives

/-- A run of a whole program ends with any outcome its block has. -/
theorem finish_of_eval (hn : n = 2 ^ k) (hg : g.Whole b) (hpc : r.state.pc = 0)
    (hr : r.state.Fits n) (h : Eval Piece.act Store.Enters b (r.store n) o) :
    ∃ budget f, g.finish budget r = some f ∧ f.Shows o := by
  have harrives := hg.arrives hn hpc hr h
  cases o with
  | ended e =>
    obtain ⟨t, hlead, hend, hfits, hstore⟩ := harrives
    obtain ⟨budget, hf⟩ := hlead.finish (hg.finish_end 0 hend)
    exact ⟨budget, _, hf, rfl, hfits, hstore⟩
  | failed fault e =>
    obtain ⟨t, x, hlead, -, -, hturn, hfits, hstore⟩ := harrives
    obtain ⟨budget, hf⟩ := hlead.finish (finish_of_finished 0 hturn)
    exact ⟨budget, _, hf, rfl, hfits, hstore⟩

/-- A run of a whole program that ends shows an outcome of its block, or got stuck. -/
theorem eval_of_finish (hn : n = 2 ^ k) (hg : g.Whole b) (hpc : r.state.pc = 0)
    (hr : r.state.Fits n) (h : g.finish budget r = some f) :
    (∃ o, Eval Piece.act Store.Enters b (r.store n) o ∧ f.Shows o) ∨ ∃ x, Stuck n g f x := by
  have hres := resolves_of_finish hn (hpc ▸ hg.places) hr h
  cases hres with
  | @passed rest t _ hfinish hend hfits heval =>
    rw [hpc, Nat.zero_add] at hend
    obtain rfl := finish_unique hfinish (hg.finish_end 0 hend)
    exact Or.inl ⟨_, heval, rfl, hfits, rfl⟩
  | failed hfault hfits heval => exact Or.inl ⟨_, heval, hfault, hfits, rfl⟩
  | stuck hstuck => exact Or.inr ⟨_, hstuck⟩

/-- Where a run gets stuck, its block has no outcome. -/
theorem not_eval_of_stuck (hn : n = 2 ^ k) (hg : g.Whole b) (hpc : r.state.pc = 0)
    (hr : r.state.Fits n) (h : g.finish budget r = some f) {x : Piece} (hstuck : Stuck n g f x) :
    ¬ Eval Piece.act Store.Enters b (r.store n) o := by
  intro heval
  have harrives := hg.arrives hn hpc hr heval
  cases o with
  | ended e =>
    obtain ⟨t, hlead, hend, -⟩ := harrives
    obtain ⟨_, hf⟩ := hlead.finish (hg.finish_end 0 hend)
    obtain rfl := finish_unique h hf
    obtain ⟨_, hfault, -⟩ := hstuck.fault
    cases hfault
  | failed fault e =>
    obtain ⟨t, y, hlead, hy, hact, hturn, -⟩ := harrives
    obtain ⟨_, hf⟩ := hlead.finish (finish_of_finished 0 hturn)
    obtain rfl := finish_unique h hf
    obtain rfl := Option.some.inj (hy.piece.symm.trans hstuck.holds.piece)
    cases hact.symm.trans hstuck.endless

end Image.Whole

end TapeMachine
