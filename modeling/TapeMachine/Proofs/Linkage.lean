import Mathlib.Data.List.Forall2
import TapeMachine.Proofs.Placement
import TapeMachine.Proofs.Steps

/-! # Linking blocks

The stream of a block links, and the linked stream encodes if its fields fit in
words. In the encoded program the block is placed where its stream was
(`encode_linked`): the partner found by pairing brackets is the bracket at the
other end of the loop. -/
namespace TapeMachine

/-! ## Pairing -/

namespace Block

/-- The stream of a block that stands at an index, with its brackets linked. -/
def linked : ℕ → Block Piece → List Item
  | _, done => []
  | base, act x rest => x.item :: rest.linked (base + 1)
  | base, loop opening body closing rest =>
    opening.item.retarget (some (base + 1 + body.flatten.length : ℕ)) ::
      (body.linked (base + 1) ++ closing.item.retarget (some base) ::
        rest.linked (base + 1 + body.flatten.length + 1))

/-- The partners that pairing finds in a block that stands at an index. -/
def partners : ℕ → Block Piece → List (Option ℕ)
  | _, done => []
  | base, act _ rest => none :: rest.partners (base + 1)
  | base, loop _ body _ rest =>
    some (base + 1 + body.flatten.length) :: (body.partners (base + 1) ++ some base ::
      rest.partners (base + 1 + body.flatten.length + 1))

@[simp] theorem length_partners (b : Block Piece) (base : ℕ) :
    (b.partners base).length = b.flatten.length := by
  induction b generalizing base with
  | done => rfl
  | act x rest ih => simp [partners, flatten, ih]
  | loop o body e rest ihb ih => simp [partners, flatten, ihb, ih]

@[simp] theorem length_linked (b : Block Piece) (base : ℕ) :
    (b.linked base).length = b.flatten.length := by
  induction b generalizing base with
  | done => rfl
  | act x rest ih => simp [linked, flatten, ih]
  | loop o body e rest ihb ih => simp [linked, flatten, ihb, ih]

end Block

/-- Pairing goes through a block and finds its partners. -/
theorem pair_block {b : Block Piece} (hb : b.Shaped Piece.side?) (p : Pairing) :
    ∃ q, (b.flatten.map Piece.item).foldlM Pairing.push p = .ok q ∧ q.opened = p.opened ∧
      q.partners.toList = p.partners.toList ++ b.partners p.partners.size := by
  induction b generalizing p with
  | done => exact ⟨p, rfl, rfl, by simp [Block.partners]⟩
  | act x rest ih =>
    obtain ⟨q, hq, hopened, hpartners⟩ := ih hb.2 ⟨p.opened, p.partners.push none⟩
    refine ⟨q, ?_, hopened, ?_⟩
    · rw [Block.flatten, List.map_cons, List.foldlM_cons, pair_of_none (x := x.item) hb.1]
      exact hq
    · simpa [Block.partners] using hpartners
  | loop o body e rest ihb ih =>
    obtain ⟨ho, hbody, he, hrest⟩ := hb
    obtain ⟨q, hq, hopened, hpartners⟩ := ihb hbody
      ⟨(p.partners.size, o.item.position) :: p.opened, p.partners.push none⟩
    have hsize : q.partners.size = p.partners.size + 1 + body.flatten.length := by
      rw [← Array.length_toList, hpartners]
      simp [Nat.add_assoc, Nat.add_comm]
    obtain ⟨q', hq', hopened', hpartners'⟩ := ih hrest ⟨p.opened,
      (q.partners.setIfInBounds p.partners.size (some q.partners.size)).push (some p.partners.size)⟩
    refine ⟨q', ?_, hopened', ?_⟩
    · obtain ⟨opened, partners⟩ := q
      obtain rfl : opened = _ := hopened
      rw [Block.flatten, List.map_cons, List.foldlM_cons, pair_of_opening (x := o.item) ho]
      simp only [List.map_append, List.map_cons, List.foldlM_append, List.foldlM_cons]
      show ((body.flatten.map Piece.item).foldlM Pairing.push _ >>= _) = _
      rw [hq]
      show (Pairing.push _ e.item >>= _) = _
      rw [pair_of_closing (x := e.item) he]
      exact hq'
    · rw [hpartners']
      simp [hpartners, hsize, Block.partners]

theorem zipWith_linkTo {b : Block Piece} (hb : b.Shaped Piece.side?) (base : ℕ) :
    (b.flatten.map Piece.item).zipWith Item.linkTo (b.partners base) = b.linked base := by
  induction b generalizing base with
  | done => rfl
  | act x rest ih => simp [Block.flatten, Block.partners, Block.linked, Item.linkTo, ih hb.2]
  | loop o body e rest ihb ih =>
    simp [Block.flatten, Block.partners, Block.linked, Item.linkTo, ihb hb.2.1, ih hb.2.2.2,
      List.zipWith_append]

/-- **The stream of a block links.** -/
theorem link_flatten (source : String) {b : Block Piece} (hb : b.Shaped Piece.side?) :
    link source (b.flatten.map Piece.item) = .ok (b.linked 0) := by
  obtain ⟨q, hq, hopened, hpartners⟩ := pair_block hb Pairing.empty
  rw [link, hq]
  have hnone : q.oldest? = none := by
    rw [Pairing.oldest?, hopened]
    rfl
  have hlist : q.partners.toList = b.partners 0 := by simpa [Pairing.empty] using hpartners
  simp only [hnone, hlist, zipWith_linkTo hb]

/-! ## Encoding -/

/-- The numeric fields of an instruction. -/
def Op.fields : Op → List ℤ
  | .add delta => [delta]
  | .move offset => [offset]
  | .drain step => [step]
  | .transfer offset sourceDelta destDelta => [offset, sourceDelta, destDelta]
  | _ => []

/-- Whether all fields of an instruction fit in words. -/
def Op.FitsWords (op : Op) : Prop := ∀ a ∈ op.fields, -(2 ^ 63) ≤ a ∧ a < 2 ^ 63

theorem word_of_fits {a : ℤ} (h : -(2 ^ 63) ≤ a ∧ a < 2 ^ 63) : word a = .ok (Int64.ofInt a) := by
  have hmin : Int64.minValue.toInt = -9223372036854775808 := rfl
  have hmax : Int64.maxValue.toInt = 9223372036854775807 := rfl
  rw [word, if_pos ⟨by omega, by omega⟩]

theorem Op.FitsWords.encode {op : Op} (h : op.FitsWords) (items : Array Item) :
    ∃ w, op.encode items = .ok w := by
  have hword : ∀ a ∈ op.fields, word a = .ok (Int64.ofInt a) := fun a ha =>
    word_of_fits (h a ha)
  cases op with
  | add | move | drain =>
    rw [Op.encode, hword _ (by simp [Op.fields])]
    exact ⟨_, rfl⟩
  | transfer offset sourceDelta destDelta =>
    simp only [Op.encode, hword offset (by simp [Op.fields]),
      hword sourceDelta (by simp [Op.fields]), hword destDelta (by simp [Op.fields])]
    exact ⟨_, rfl⟩
  | input | output | opening | closing | clear | scanLeft | scanRight => exact ⟨_, rfl⟩

theorem mapM_of_forall₂ {α β ε : Type} {f : α → Except ε β} {l : List α} {ws : List β}
    (h : List.Forall₂ (fun x w => f x = .ok w) l ws) : l.mapM f = .ok ws := by
  induction h with
  | nil => rfl
  | cons hx _ ih =>
    rw [List.mapM_cons, hx]
    show (List.mapM f _ >>= fun ws => pure (_ :: ws)) = _
    rw [ih]
    rfl

theorem mapM_forall₂ {α β ε : Type} {f : α → Except ε β} {l : List α}
    (h : ∀ x ∈ l, ∃ w, f x = .ok w) :
    ∃ ws, l.mapM f = .ok ws ∧ List.Forall₂ (fun x w => f x = .ok w) l ws := by
  induction l with
  | nil => exact ⟨[], rfl, .nil⟩
  | cons x l ih =>
    simp only [List.forall_mem_cons] at h
    obtain ⟨w, hw⟩ := h.1
    obtain ⟨ws, -, hall⟩ := ih h.2
    exact ⟨w :: ws, mapM_of_forall₂ (.cons hw hall), .cons hw hall⟩

theorem forall₂_of_mapM {α β ε : Type} {f : α → Except ε β} {l : List α} {ws : List β}
    (h : l.mapM f = .ok ws) : List.Forall₂ (fun x w => f x = .ok w) l ws := by
  induction l generalizing ws with
  | nil => cases h; exact .nil
  | cons x l ih =>
    rw [List.mapM_cons] at h
    cases hx : f x with
    | error e => rw [hx] at h; cases h
    | ok w =>
      cases hl : l.mapM f with
      | error e => rw [hx, hl] at h; cases h
      | ok rest =>
        rw [hx, hl] at h
        cases h
        exact .cons hx (ih hl)

/-- A program is encoded item by item. -/
theorem forall₂_of_encode {program : List Item} {code : Array Word}
    (h : encode program = .ok code) :
    List.Forall₂ (fun x w => x.encode program.toArray = .ok w) program code.toList := by
  rw [encode] at h
  cases hws : program.mapM (Item.encode program.toArray) with
  | error e => rw [hws] at h; cases h
  | ok ws =>
    rw [hws] at h
    cases h
    exact forall₂_of_mapM hws

/-- Lists that are related item by item have related items at each index. -/
theorem forall₂_getElem? {α β : Type} {R : α → β → Prop} {l : List α} {l' : List β}
    (h : List.Forall₂ R l l') {i : ℕ} {x : α} (hx : l[i]? = some x) :
    ∃ y, l'[i]? = some y ∧ R x y := by
  obtain ⟨hi, rfl⟩ := List.getElem?_eq_some_iff.mp hx
  have hi' : i < l'.length := h.length_eq ▸ hi
  exact ⟨l'[i], List.getElem?_eq_getElem hi', h.get hi hi'⟩

/-- A list of which every item is taken in turn fails as the first item that fails. -/
theorem mapM_eq_error_iff {α β ε : Type} {f : α → Except ε β} {l : List α} {e : ε} :
    l.mapM f = .error e ↔ ∃ before x after, l = before ++ x :: after ∧
      (∀ y ∈ before, ∃ w, f y = .ok w) ∧ f x = .error e := by
  constructor
  · intro h
    induction l with
    | nil => cases h
    | cons x l ih =>
      rw [List.mapM_cons] at h
      cases hx : f x with
      | error e' =>
        rw [hx] at h
        cases h
        exact ⟨[], x, l, rfl, by simp, hx⟩
      | ok w =>
        cases hl : l.mapM f with
        | ok rest => rw [hx, hl] at h; cases h
        | error e' =>
          rw [hx, hl] at h
          cases h
          obtain ⟨before, y, after, rfl, hbefore, hy⟩ := ih hl
          exact ⟨x :: before, y, after, rfl, List.forall_mem_cons.mpr ⟨⟨w, hx⟩, hbefore⟩, hy⟩
  · rintro ⟨before, x, after, rfl, hbefore, hx⟩
    obtain ⟨ws, hws, -⟩ := mapM_forall₂ hbefore
    rw [List.mapM_append, hws, List.mapM_cons, hx]
    rfl

theorem exists_of_mapM_error {α β ε : Type} {f : α → Except ε β} {l : List α} {e : ε}
    (h : l.mapM f = .error e) : ∃ x ∈ l, f x = .error e := by
  obtain ⟨before, x, after, rfl, -, hx⟩ := mapM_eq_error_iff.mp h
  exact ⟨x, by simp, hx⟩

/-- Whether a list stands in another one from an index on. -/
def Sits {α : Type} (l whole : List α) (base : ℕ) : Prop := l <+: whole.drop base

section Sits

variable {α : Type} {l l' whole : List α} {a : α} {base : ℕ}

theorem sits_self : Sits l l 0 := List.prefix_rfl

theorem sits_cons : Sits (a :: l) whole base ↔ whole[base]? = some a ∧ Sits l whole (base + 1) := by
  rw [Sits, Sits, ← List.tail_drop, ← List.head?_drop]
  cases whole.drop base with
  | nil => simp
  | cons b rest => simp [List.cons_prefix_cons, eq_comm]

theorem sits_append : Sits (l ++ l') whole base ↔
    Sits l whole base ∧ Sits l' whole (base + l.length) := by
  induction l generalizing base with
  | nil => simp [Sits]
  | cons a l ih =>
    simp only [List.cons_append, sits_cons, ih, List.length_cons, and_assoc]
    rw [Nat.add_assoc base, Nat.add_comm 1]

end Sits

/-- A bracket keeps a target that is a bracket of the other side. -/
theorem usableTarget_of_side {items : List Item} {x : Item} {side : Side} {target : ℕ}
    (hx : items[target]? = some x) (hs : x.side? = some side.opposite) :
    usableTarget? items.toArray side (some target) = some target := by
  have hitem : itemAt? items.toArray target = some x := by
    rw [itemAt?, if_neg (by omega)]
    simpa using hx
  rw [usableTarget?, Option.bind_some, hitem]
  simp [hs]

@[simp] theorem side_retarget (x : Item) (target : Option ℤ) :
    (x.retarget target).side? = x.side? := by
  rcases x with ⟨op, position⟩ | v
  · cases op <;> rfl
  · rfl

theorem encode_opening {x : Piece} (h : x.side? = some .opening) (items : Array Item)
    (target : Option ℤ) : (x.item.retarget target).encode items =
      .ok (.opening (usableTarget? items .opening target)) := by
  obtain ⟨⟨op, position⟩, collapsed⟩ := x
  cases op <;> first | rfl | cases h

theorem encode_closing {x : Piece} (h : x.side? = some .closing) (items : Array Item)
    (target : Option ℤ) : (x.item.retarget target).encode items =
      .ok (.closing (usableTarget? items .closing target)) := by
  obtain ⟨⟨op, position⟩, collapsed⟩ := x
  cases op <;> first | rfl | cases h

section Encode

variable {b : Block Piece} {base : ℕ}

theorem linked_encodes (hb : b.Shaped Piece.side?) (h : ∀ x ∈ b.flatten, x.instr.op.FitsWords)
    (base : ℕ) (items : Array Item) : ∀ y ∈ b.linked base, ∃ w, y.encode items = .ok w := by
  induction b generalizing base with
  | done => simp [Block.linked]
  | act x rest ih =>
    simp only [Block.flatten, Block.linked, List.forall_mem_cons] at h ⊢
    exact ⟨h.1.encode items, ih hb.2 h.2 _⟩
  | loop o body e rest ihb ih =>
    obtain ⟨ho, hbody, he, hrest⟩ := hb
    simp only [Block.flatten, Block.linked, List.forall_mem_cons, List.forall_mem_append] at h ⊢
    exact ⟨⟨_, encode_opening ho items _⟩, ihb hbody h.2.1 _, ⟨_, encode_closing he items _⟩,
      ih hrest h.2.2.2 _⟩

theorem places_of_sits {program : List Item} {pieces : List Piece} {code : Array Word}
    (hcode : ∀ (i : ℕ) (y : Item), program[i]? = some y →
      ∃ w, y.encode program.toArray = .ok w ∧ code[i]? = some w)
    (hb : b.Shaped Piece.side?) (h : Sits (b.linked base) program base)
    (hp : Sits b.flatten pieces base) : Image.Places ⟨pieces, program.toArray, code⟩ base b := by
  induction b generalizing base with
  | done => trivial
  | act x rest ih =>
    rw [Block.linked, sits_cons] at h
    rw [Block.flatten, sits_cons] at hp
    obtain ⟨w, hw, hword⟩ := hcode _ _ h.1
    refine ⟨⟨hb.1, hp.1, ?_, ⟨_, w, hw, hword⟩⟩, ih hb.2 h.2 hp.2⟩
    simp [positionAt, h.1, Piece.item]
  | loop o body e rest ihb ih =>
    obtain ⟨ho, hbody, he, hrest⟩ := hb
    rw [Block.linked, sits_cons, sits_append, sits_cons, Block.length_linked] at h
    rw [Block.flatten, sits_cons, sits_append, sits_cons] at hp
    obtain ⟨hopen, hinner, hclose, hafter⟩ := h
    obtain ⟨wo, hwo, hopen'⟩ := hcode _ _ hopen
    obtain ⟨we, hwe, hclose'⟩ := hcode _ _ hclose
    rw [encode_opening ho, usableTarget_of_side hclose (by rw [side_retarget]; exact he)] at hwo
    rw [encode_closing he, usableTarget_of_side hopen (by rw [side_retarget]; exact ho)] at hwe
    cases hwo
    cases hwe
    exact ⟨hopen', ihb hbody hinner hp.2.1, hclose', ih hrest hafter hp.2.2.2⟩

/-- **A linked block encodes, and the program is placed as the block says.** -/
theorem encode_linked (hb : b.Shaped Piece.side?) (h : ∀ x ∈ b.flatten, x.instr.op.FitsWords) :
    ∃ code, encode (b.linked 0) = .ok code ∧
      Image.Whole ⟨b.flatten, (b.linked 0).toArray, code⟩ b := by
  obtain ⟨ws, hws, hall⟩ := mapM_forall₂ (linked_encodes hb h 0 (b.linked 0).toArray)
  refine ⟨ws.toArray, by rw [encode, hws]; rfl, ?_, ?_⟩
  · refine places_of_sits ?_ hb sits_self sits_self
    intro i y hy
    obtain ⟨hi, rfl⟩ := List.getElem?_eq_some_iff.mp hy
    have hi' : i < ws.length := hall.length_eq ▸ hi
    exact ⟨ws[i], hall.get hi hi', by simp [hi']⟩
  · simp [← hall.length_eq]

end Encode

end TapeMachine
