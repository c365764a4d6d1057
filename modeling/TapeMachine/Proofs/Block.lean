import TapeMachine.Instruction

/-! # Blocks

The structured side of a stream: a block is a sequence of actions and loops, and
its text is the stream with the brackets in it. The balanced streams are the
texts of blocks (`Balanced.exists_block`), each of one block only
(`Block.flatten_injective`). -/
namespace TapeMachine

/-- A sequence of actions and loops. A loop keeps what stands at its two ends. -/
inductive Block (α : Type) where
  | done
  | act (a : α) (rest : Block α)
  | loop (opening : α) (body : Block α) (closing : α) (rest : Block α)

namespace Block

variable {α β : Type}

/-- The stream of a block. -/
def flatten : Block α → List α
  | done => []
  | act a rest => a :: rest.flatten
  | loop opening body closing rest => opening :: (body.flatten ++ closing :: rest.flatten)

def append : Block α → Block α → Block α
  | done, c => c
  | act a rest, c => act a (rest.append c)
  | loop opening body closing rest, c => loop opening body closing (rest.append c)

instance : Append (Block α) := ⟨append⟩

@[simp] theorem done_append (c : Block α) : done ++ c = c := rfl

@[simp] theorem act_append (a : α) (b c : Block α) : act a b ++ c = act a (b ++ c) := rfl

@[simp] theorem loop_append (o : α) (body : Block α) (e : α) (b c : Block α) :
    loop o body e b ++ c = loop o body e (b ++ c) := rfl

@[simp] theorem append_done (b : Block α) : b ++ done = b := by
  induction b with
  | done => rfl
  | act a rest ih => simp [ih]
  | loop o body e rest _ ih => simp [ih]

theorem append_assoc (a b c : Block α) : a ++ b ++ c = a ++ (b ++ c) := by
  induction a with
  | done => rfl
  | act x rest ih => simp [ih]
  | loop o body e rest _ ih => simp [ih]

@[simp] theorem flatten_append (b c : Block α) : (b ++ c).flatten = b.flatten ++ c.flatten := by
  induction b with
  | done => rfl
  | act a rest ih => simp [flatten, ih]
  | loop o body e rest _ ih => simp [flatten, ih]

def map (f : α → β) : Block α → Block β
  | done => done
  | act a rest => act (f a) (rest.map f)
  | loop opening body closing rest => loop (f opening) (body.map f) (f closing) (rest.map f)

@[simp] theorem flatten_map (f : α → β) (b : Block α) : (b.map f).flatten = b.flatten.map f := by
  induction b with
  | done => rfl
  | act a rest ih => simp [map, flatten, ih]
  | loop o body e rest ihb ih => simp [map, flatten, ihb, ih]

/-- Whether brackets stand at the ends of loops and nowhere else. -/
def Shaped (side : α → Option Side) : Block α → Prop
  | done => True
  | act a rest => side a = none ∧ rest.Shaped side
  | loop opening body closing rest =>
    side opening = some .opening ∧ body.Shaped side ∧ side closing = some .closing ∧
      rest.Shaped side

variable {side : α → Option Side}

@[simp] theorem shaped_append {b c : Block α} :
    (b ++ c).Shaped side ↔ b.Shaped side ∧ c.Shaped side := by
  induction b with
  | done => simp [Shaped]
  | act a rest ih => simp [Shaped, ih, and_assoc]
  | loop o body e rest _ ih => simp [Shaped, ih, and_assoc]

theorem shaped_map {side' : β → Option Side} {f : α → β} {b : Block α}
    (h : ∀ a ∈ b.flatten, side' (f a) = side a) (hb : b.Shaped side) : (b.map f).Shaped side' := by
  induction b with
  | done => trivial
  | act a rest ih =>
    simp only [flatten, List.forall_mem_cons] at h
    exact ⟨h.1.trans hb.1, ih h.2 hb.2⟩
  | loop o body e rest ihb ih =>
    simp only [flatten, List.forall_mem_cons, List.forall_mem_append] at h
    obtain ⟨ho, hbody, he, hrest⟩ := h
    exact ⟨ho.trans hb.1, ihb hbody hb.2.1, he.trans hb.2.2.1, ih hrest hb.2.2.2⟩

/-- A block of actions one after the other. -/
def ofList : List α → Block α
  | [] => done
  | a :: l => act a (ofList l)

@[simp] theorem flatten_ofList (l : List α) : (ofList l).flatten = l := by
  induction l with
  | nil => rfl
  | cons a l ih => rw [ofList, flatten, ih]

theorem ofList_shaped {l : List α} (h : ∀ a ∈ l, side a = none) : (ofList l).Shaped side := by
  induction l with
  | nil => trivial
  | cons a l ih =>
    rw [List.forall_mem_cons] at h
    exact ⟨h.1, ih h.2⟩

/-- A block whose text ends in an action is that action after a shorter block. -/
theorem exists_append_act {b : Block α} {l : List α} {a : α} (hb : b.Shaped side)
    (ha : side a = none) (h : b.flatten = l ++ [a]) : ∃ c, b = c ++ act a done ∧ c.flatten = l := by
  induction b generalizing l with
  | done => simp [flatten] at h
  | act x rest ih =>
    cases l with
    | nil =>
      obtain ⟨rfl, hrest⟩ := List.cons.inj h
      cases rest with
      | done => exact ⟨done, rfl, rfl⟩
      | act y rest => simp [flatten] at hrest
      | loop o body e rest => simp [flatten] at hrest
    | cons y l =>
      obtain ⟨rfl, hrest⟩ := List.cons.inj h
      obtain ⟨c, rfl, hc⟩ := ih hb.2 hrest
      exact ⟨act x c, rfl, by simp [flatten, hc]⟩
  | loop o body e rest _ ih =>
    obtain ⟨ho, hbody, he, hrest⟩ := hb
    rcases List.eq_nil_or_concat rest.flatten with hnil | ⟨init, last, hlast⟩
    · have heq : (o :: body.flatten) ++ [e] = l ++ [a] := by simpa [flatten, hnil] using h
      obtain ⟨-, hlast⟩ := List.append_inj' heq rfl
      obtain rfl : e = a := by simpa using hlast
      rw [ha] at he
      cases he
    · rw [List.concat_eq_append] at hlast
      have heq : (o :: (body.flatten ++ e :: init)) ++ [last] = l ++ [a] := by
        simpa [flatten, hlast] using h
      obtain ⟨rfl, hl⟩ := List.append_inj' heq rfl
      obtain rfl : last = a := by simpa using hl
      obtain ⟨c, rfl, hc⟩ := ih hrest hlast
      exact ⟨loop o body e c, rfl, by simp [flatten, hc]⟩

end Block

/-! ## Balanced streams -/

/-- A stream whose brackets pair up: outside of its loops it has no bracket. -/
inductive Balanced {α : Type} (side : α → Option Side) : List α → Prop
  | nil : Balanced side []
  | cons {a : α} {l : List α} : side a = none → Balanced side l → Balanced side (a :: l)
  | loop {a b : α} {body rest : List α} : side a = some .opening → Balanced side body →
      side b = some .closing → Balanced side rest → Balanced side (a :: (body ++ b :: rest))

section Balanced

variable {α : Type} {side : α → Option Side}

theorem Block.Shaped.balanced {b : Block α} (h : b.Shaped side) : Balanced side b.flatten := by
  induction b with
  | done => exact .nil
  | act a rest ih => exact .cons h.1 (ih h.2)
  | loop o body e rest ihb ih => exact .loop h.1 (ihb h.2.1) h.2.2.1 (ih h.2.2.2)

theorem Balanced.exists_block {l : List α} (h : Balanced side l) :
    ∃ b : Block α, b.Shaped side ∧ b.flatten = l := by
  induction h with
  | nil => exact ⟨.done, trivial, rfl⟩
  | @cons a l ha _ ih =>
    obtain ⟨b, hb, rfl⟩ := ih
    exact ⟨.act a b, ⟨ha, hb⟩, rfl⟩
  | @loop o e _ _ ho _ he _ ihb ih =>
    obtain ⟨body, hbody, rfl⟩ := ihb
    obtain ⟨rest, hrest, rfl⟩ := ih
    exact ⟨.loop o body e rest, ⟨ho, hbody, he, hrest⟩, rfl⟩

/-- Whether a stream is at an end that closes the block before it. -/
def Ends (side : α → Option Side) (l : List α) : Prop :=
  ∀ a ∈ l.head?, side a = some .closing

theorem Block.flatten_inj_tail {b c : Block α} {x y : List α} (hb : b.Shaped side)
    (hc : c.Shaped side) (hx : Ends side x) (hy : Ends side y)
    (h : b.flatten ++ x = c.flatten ++ y) : b = c ∧ x = y := by
  induction b generalizing c x y with
  | done =>
    cases c with
    | done => exact ⟨rfl, h⟩
    | act a rest =>
      have := hx a (by simp_all [flatten])
      rw [hc.1] at this
      cases this
    | loop o body e rest =>
      have := hx o (by simp_all [flatten])
      rw [hc.1] at this
      cases this
  | act a rest ih =>
    cases c with
    | done =>
      have := hy a (by simp [flatten] at h; simp [← h])
      rw [hb.1] at this
      cases this
    | act a' rest' =>
      obtain ⟨rfl, hrest⟩ := List.cons.inj h
      obtain ⟨rfl, rfl⟩ := ih hb.2 hc.2 hx hy hrest
      exact ⟨rfl, rfl⟩
    | loop o body e rest' =>
      obtain ⟨rfl, -⟩ := List.cons.inj h
      have := hb.1.symm.trans hc.1
      cases this
  | loop o body e rest ihb ih =>
    obtain ⟨ho, hbody, he, hrest⟩ := hb
    cases c with
    | done =>
      have := hy o (by simp [flatten] at h; simp [← h])
      rw [ho] at this
      cases this
    | act a rest' =>
      obtain ⟨rfl, -⟩ := List.cons.inj h
      have := ho.symm.trans hc.1
      cases this
    | loop o' body' e' rest' =>
      simp only [flatten, List.cons_append, List.append_assoc, List.cons.injEq] at h
      obtain ⟨rfl, h⟩ := h
      obtain ⟨-, hbody', he', hrest'⟩ := hc
      obtain ⟨rfl, htail⟩ := ihb hbody hbody' (by simp [Ends, he]) (by simp [Ends, he']) h
      obtain ⟨rfl, hend⟩ := List.cons.inj htail
      obtain ⟨rfl, rfl⟩ := ih hrest hrest' hx hy hend
      exact ⟨rfl, rfl⟩

/-- A stream is the text of at most one block. -/
theorem Block.flatten_injective {b c : Block α} (hb : b.Shaped side) (hc : c.Shaped side)
    (h : b.flatten = c.flatten) : b = c :=
  (flatten_inj_tail hb hc (x := []) (y := []) (by simp [Ends]) (by simp [Ends]) (by simp [h])).1

/-- A block without brackets has no loops. -/
theorem Block.eq_ofList {b : Block α} (hb : b.Shaped side) (h : ∀ a ∈ b.flatten, side a = none) :
    b = .ofList b.flatten :=
  flatten_injective hb (ofList_shaped h) (flatten_ofList _).symm

end Balanced

end TapeMachine
