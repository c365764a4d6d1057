import TapeMachine.Proofs.Diagnosis
import TapeMachine.Proofs.NormalForm

/-! # Partners

Linking sends every bracket to the other end of its loop. A loop of a stream is an
opening bracket and a closing one with a balanced stream in between (`LoopAt`), and
a bracket is an end of one loop at most (`Partners.unique`). Pairing finds such
loops only, and one for every bracket it does not keep open (`Pairing.Tracks`). So
the stream that linking gives is the only one whose brackets all go to their
partners (`link_matches`). -/
namespace TapeMachine

/-! ## Balanced streams -/

section Balanced

variable {α β : Type} {side : α → Option Side} {l l' body body' : List α} {o o' e e' : α}

theorem balanced_iff_scan : Balanced side l ↔ scanBrackets side [] l = .ok [] := by
  constructor
  · exact fun h => h.scan
  · intro h
    rcases scan_cases side l with ⟨opened, hscan, hopened⟩ | ⟨_, x, _, hscan, -⟩
    · cases hscan.symm.trans h
      cases hopened with
      | balanced hl => exact hl
    · cases hscan.symm.trans h

theorem balanced_map_iff {side' : β → Option Side} {f : α → β}
    (hside : ∀ x, side' (f x) = side x) : Balanced side' (l.map f) ↔ Balanced side l := by
  have hscan : scanBrackets side' (([] : List α).map f) (l.map f) =
      ((scanBrackets side [] l).map (List.map f)).mapError f := scan_map hside
  rw [List.map_nil] at hscan
  rw [balanced_iff_scan, balanced_iff_scan, hscan]
  cases scanBrackets side [] l <;> simp [Except.map, Except.mapError]

/-- No bracket of a balanced stream closes more than the stream has in front of it. -/
theorem Balanced.not_closed (h : Balanced side (body ++ e :: l)) (hbody : Balanced side body) :
    side e ≠ some .closing := by
  intro he
  exact nowhere_unopened h.scan body e l rfl (hbody.unopened he l)

/-- No bracket of a balanced stream is left open by what the stream has behind it. -/
theorem Balanced.not_opened (h : Balanced side (l ++ o :: body)) (hbody : Balanced side body) :
    side o ≠ some .opening := by
  intro ho
  exact h.nowhere_unclosed l o body rfl ((Opened.balanced hbody).unclosed ho l)

/-- A loop ends at one bracket. -/
theorem Balanced.end_unique (h : Balanced side body) (h' : Balanced side body')
    (he : side e = some .closing) (he' : side e' = some .closing)
    (heq : body ++ e :: l = body' ++ e' :: l') : body = body' := by
  rcases List.append_eq_append_iff.mp heq with ⟨middle, rfl, hrest⟩ | ⟨middle, rfl, hrest⟩
  · cases middle with
    | nil => exact (List.append_nil body).symm
    | cons c middle =>
      obtain ⟨rfl, -⟩ := List.cons.inj hrest
      exact absurd he (h'.not_closed h)
  · cases middle with
    | nil => exact List.append_nil body'
    | cons c middle =>
      obtain ⟨rfl, -⟩ := List.cons.inj hrest
      exact absurd he' (h.not_closed h')

/-- A loop starts at one bracket. -/
theorem Balanced.start_unique (h : Balanced side body) (h' : Balanced side body')
    (ho : side o = some .opening) (ho' : side o' = some .opening)
    (heq : l ++ o :: body = l' ++ o' :: body') : l = l' := by
  rcases List.append_eq_append_iff.mp heq with ⟨middle, rfl, hrest⟩ | ⟨middle, rfl, hrest⟩
  · cases middle with
    | nil => exact (List.append_nil l).symm
    | cons c middle =>
      obtain ⟨rfl, rfl⟩ := List.cons.inj hrest
      exact absurd ho' (h.not_opened h')
  · cases middle with
    | nil => exact List.append_nil l'
    | cons c middle =>
      obtain ⟨rfl, rfl⟩ := List.cons.inj hrest
      exact absurd ho (h'.not_opened h)

end Balanced

/-! ## Loops of a stream -/

/-- Whether the loop that starts at one index of a stream ends at another. -/
def LoopAt (l : List Item) (start stop : ℕ) : Prop :=
  ∃ before o body e after, l = before ++ o :: (body ++ e :: after) ∧ before.length = start ∧
    start + 1 + body.length = stop ∧ o.side? = some .opening ∧ e.side? = some .closing ∧
    Balanced Item.side? body

/-- Whether two indices of a stream are the ends of a loop. -/
def Partners (l : List Item) (i j : ℕ) : Prop := LoopAt l i j ∨ LoopAt l j i

section Loops

variable {l l' stream : List Item} {i j k m : ℕ} {x y : Item} {side : Side}

theorem LoopAt.lt (h : LoopAt l i j) : i < j := by
  obtain ⟨before, o, body, e, after, -, -, rfl, -⟩ := h
  omega

theorem LoopAt.append (h : LoopAt l i j) (l' : List Item) : LoopAt (l ++ l') i j := by
  obtain ⟨before, o, body, e, after, rfl, hrest⟩ := h
  exact ⟨before, o, body, e, after ++ l', by simp, hrest⟩

theorem LoopAt.ends (h : LoopAt l i j) : (∃ x, l[i]? = some x ∧ x.side? = some .opening) ∧
    ∃ y, l[j]? = some y ∧ y.side? = some .closing := by
  obtain ⟨before, o, body, e, after, rfl, rfl, rfl, ho, he, -⟩ := h
  refine ⟨⟨o, by simp, ho⟩, e, ?_, he⟩
  rw [List.getElem?_append_right (by omega)]
  simp [show before.length + 1 + body.length - before.length = body.length + 1 by omega]

/-- The items strictly between the ends are balanced. -/
theorem LoopAt.between (h : LoopAt l i j) : Balanced Item.side? ((l.take j).drop (i + 1)) := by
  obtain ⟨before, o, body, e, after, rfl, rfl, rfl, -, -, hbody⟩ := h
  have hcut : ((before ++ o :: (body ++ e :: after)).take (before.length + 1 + body.length)).drop
      (before.length + 1) = body := by
    simp [List.take_append, List.drop_append, Nat.add_assoc, Nat.add_comm 1]
  rwa [hcut]

theorem loopAt_of_between (hx : l[i]? = some x) (hy : l[j]? = some y) (hlt : i < j)
    (hopening : x.side? = some .opening) (hclosing : y.side? = some .closing)
    (h : Balanced Item.side? ((l.take j).drop (i + 1))) : LoopAt l i j := by
  obtain ⟨hj, rfl⟩ := List.getElem?_eq_some_iff.mp hy
  obtain ⟨hi, rfl⟩ := List.getElem?_eq_some_iff.mp hx
  refine ⟨l.take i, l[i], (l.take j).drop (i + 1), l[j], l.drop (j + 1), ?_, ?_, ?_, hopening,
    hclosing, h⟩
  · have hhead := List.take_append_drop i (l.take j)
    rw [List.take_take, Nat.min_eq_left hlt.le, List.drop_eq_getElem_cons (by simp; omega),
      List.getElem_take] at hhead
    calc l = l.take j ++ l[j] :: l.drop (j + 1) := by
          rw [← List.drop_eq_getElem_cons hj, List.take_append_drop]
      _ = l.take i ++ l[i] :: (l.take j).drop (i + 1) ++ l[j] :: l.drop (j + 1) := by rw [hhead]
      _ = l.take i ++ l[i] :: ((l.take j).drop (i + 1) ++ l[j] :: l.drop (j + 1)) := by
          rw [List.append_assoc, List.cons_append]
  · simp; omega
  · simp; omega

theorem Partners.append (h : Partners l i j) (l' : List Item) : Partners (l ++ l') i j :=
  h.imp (·.append l') (·.append l')

theorem LoopAt.stop_unique (h : LoopAt l i j) (h' : LoopAt l i k) : j = k := by
  obtain ⟨before, o, body, e, after, rfl, rfl, rfl, -, he, hbody⟩ := h
  obtain ⟨before', o', body', e', after', heq, hlen, rfl, -, he', hbody'⟩ := h'
  obtain ⟨rfl, hrest⟩ := List.append_inj heq hlen.symm
  rw [hbody.end_unique hbody' he he' (List.cons.inj hrest).2]

theorem LoopAt.start_unique (h : LoopAt l i k) (h' : LoopAt l j k) : i = j := by
  obtain ⟨before, o, body, e, after, rfl, rfl, rfl, ho, -, hbody⟩ := h
  obtain ⟨before', o', body', e', after', heq, rfl, hlen, ho', -, hbody'⟩ := h'
  have hcut : (before ++ o :: body) ++ e :: after = (before' ++ o' :: body') ++ e' :: after' := by
    simpa using heq
  obtain ⟨hhead, -⟩ := List.append_inj hcut (by simp; omega)
  rw [hbody.start_unique hbody' ho ho' hhead]

/-- Loops lie one inside the other or apart. -/
theorem LoopAt.nested (h : LoopAt l i j) (h' : LoopAt l k m) (hlow : i < k) (hhigh : k < j) :
    m < j := by
  obtain ⟨before, o, body, e, after, rfl, rfl, rfl, -, -, hbody⟩ := h
  obtain ⟨⟨x, hx, hopening⟩, -⟩ := h'.ends
  obtain ⟨p, rfl⟩ : ∃ p, k = before.length + 1 + p := ⟨k - (before.length + 1), by omega⟩
  have hp : p < body.length := by omega
  have hcut : body = body.take p ++ x :: body.drop (p + 1) := by
    rw [List.getElem?_append_right (by omega),
      show before.length + 1 + p - before.length = p + 1 by omega, List.getElem?_cons_succ,
      List.getElem?_append_left hp, List.getElem?_eq_getElem hp, Option.some.injEq] at hx
    rw [← hx, ← List.drop_eq_getElem_cons hp, List.take_append_drop]
  -- the body closes the loop that starts in it
  have hclosed : ∃ inner f tail, body.drop (p + 1) = inner ++ f :: tail ∧
      f.side? = some .closing ∧ Balanced Item.side? inner := by
    by_contra hopen
    refine hbody.nowhere_unclosed _ x _ hcut ⟨hopening, ?_⟩
    exact fun inner f tail htail hf hinner => hopen ⟨inner, f, tail, htail, hf, hinner⟩
  obtain ⟨inner, f, tail, htail, hf, hinner⟩ := hclosed
  have hlen := congrArg List.length htail
  simp only [List.length_drop, List.length_append, List.length_cons] at hlen
  have hinside : LoopAt (before ++ o :: (body ++ e :: after)) (before.length + 1 + p)
      (before.length + 1 + p + 1 + inner.length) := by
    refine ⟨before ++ o :: body.take p, x, inner, f, tail ++ e :: after, ?_, ?_, rfl, hopening, hf,
      hinner⟩
    · conv_lhs => rw [hcut, htail]
      simp
    · simp
      omega
  have hstop := h'.stop_unique hinside
  omega

theorem balanced_unlinked :
    Balanced Item.side? (l.map Item.unlinked) ↔ Balanced Item.side? l :=
  balanced_map_iff fun x => side_retarget x none

theorem loopAt_map_unlinked : LoopAt (l.map Item.unlinked) i j ↔ LoopAt l i j := by
  constructor
  · intro h
    obtain ⟨before, o, body, e, after, heq, rfl, rfl, ho, he, hbody⟩ := h
    obtain ⟨before, rest, rfl, rfl, hrest⟩ := List.map_eq_append_iff.mp heq
    obtain ⟨o, rest, rfl, rfl, hloop⟩ := List.map_eq_cons_iff.mp hrest
    obtain ⟨body, rest, rfl, rfl, htail⟩ := List.map_eq_append_iff.mp hloop
    obtain ⟨e, after, rfl, rfl, rfl⟩ := List.map_eq_cons_iff.mp htail
    exact ⟨before, o, body, e, after, rfl, by simp, by simp, (side_retarget o none).symm.trans ho,
      (side_retarget e none).symm.trans he, balanced_unlinked.mp hbody⟩
  · intro h
    obtain ⟨before, o, body, e, after, rfl, rfl, rfl, ho, he, hbody⟩ := h
    exact ⟨before.map .unlinked, o.unlinked, body.map .unlinked, e.unlinked, after.map .unlinked,
      by simp, by simp, by simp, (side_retarget o none).trans ho, (side_retarget e none).trans he,
      balanced_unlinked.mpr hbody⟩

theorem Partners.symm (h : Partners l i j) : Partners l j i := Or.symm h

/-- The partner of an opening bracket is where its loop ends. -/
theorem Partners.loopAt (h : Partners l i j) (hx : l[i]? = some x)
    (hopening : x.side? = some .opening) : LoopAt l i j := by
  rcases h with h | h
  · exact h
  · obtain ⟨-, y, hy, hclosing⟩ := h.ends
    cases hx.symm.trans hy
    cases hopening.symm.trans hclosing

theorem Partners.opposite (h : Partners l i j) (hx : l[i]? = some x) (hside : x.side? = some side) :
    ∃ y, l[j]? = some y ∧ y.side? = some side.opposite := by
  rcases h with h | h
  · obtain ⟨⟨x', hx', hopening⟩, y, hy, hclosing⟩ := h.ends
    cases hx.symm.trans hx'
    cases hside.symm.trans hopening
    exact ⟨y, hy, hclosing⟩
  · obtain ⟨⟨y, hy, hopening⟩, x', hx', hclosing⟩ := h.ends
    cases hx.symm.trans hx'
    cases hside.symm.trans hclosing
    exact ⟨y, hy, hopening⟩

/-- A bracket has one partner. -/
theorem Partners.unique (h : Partners l i j) (h' : Partners l i k) : j = k := by
  have happart : ∀ {j k}, LoopAt l i j → ¬ LoopAt l k i := by
    intro j k h h'
    obtain ⟨⟨x, hx, hopening⟩, -⟩ := h.ends
    obtain ⟨-, y, hy, hclosing⟩ := h'.ends
    cases hx.symm.trans hy
    cases hopening.symm.trans hclosing
  rcases h with h | h <;> rcases h' with h' | h'
  · exact h.stop_unique h'
  · exact absurd h' (happart h)
  · exact absurd h (happart h')
  · exact h.start_unique h'

theorem loopAt_congr (h : l.map Item.unlinked = l'.map Item.unlinked) :
    LoopAt l i j ↔ LoopAt l' i j := by
  rw [← loopAt_map_unlinked, h, loopAt_map_unlinked]

theorem partners_congr (h : l.map Item.unlinked = l'.map Item.unlinked) :
    Partners l i j ↔ Partners l' i j :=
  or_congr (loopAt_congr h) (loopAt_congr h)

end Loops

/-! ## Linked streams -/

/-- Whether every bracket of a stream goes to its partner in it, and the stream is another one
but for the targets of its brackets. -/
structure Links (stream linked : List Item) : Prop where
  same : linked.map Item.unlinked = stream.map Item.unlinked
  back : isLinked linked = true
  loops : ∀ i x, linked[i]? = some x → x.side? = some .opening →
    ∃ j : ℕ, i < j ∧ x.target? = some (j : ℤ) ∧ (linked[j]?.bind Item.target?) = some (i : ℤ) ∧
      Balanced Item.side? ((linked.take j).drop (i + 1))

section Links

variable {l stream linked other : List Item} {i j k m : ℕ} {x y : Item} {side : Side}

theorem itemAt?_eq_some {t : ℤ} :
    itemAt? l.toArray t = some y ↔ ∃ m : ℕ, t = (m : ℤ) ∧ l[m]? = some y := by
  unfold itemAt?
  constructor
  · intro h
    split at h
    · cases h
    · exact ⟨t.toNat, by omega, by simpa using h⟩
  · intro h
    obtain ⟨m, rfl, hm⟩ := h
    rw [if_neg (by omega)]
    simpa using hm

theorem hasPartner_iff {target : Option ℤ} :
    hasPartner l.toArray k side target = true ↔ ∃ (m : ℕ) (y : Item), target = some (m : ℤ) ∧
      l[m]? = some y ∧ y.side? = some side.opposite ∧ y.target? = some (k : ℤ) := by
  unfold hasPartner
  constructor
  · intro h
    split at h
    · rename_i y hy
      obtain ⟨t, rfl, ht⟩ := Option.bind_eq_some_iff.mp hy
      obtain ⟨m, rfl, hm⟩ := itemAt?_eq_some.mp ht
      exact ⟨m, y, rfl, hm, by simpa using h⟩
    · cases h
  · intro h
    obtain ⟨m, y, rfl, hm, hy⟩ := h
    rw [Option.bind_some, itemAt?_eq_some.mpr ⟨m, rfl, hm⟩]
    simpa using hy

theorem isLinked_iff : isLinked l = true ↔
    ∀ (k : ℕ) (x : Item) (side : Side), l[k]? = some x → x.side? = some side →
      ∃ (m : ℕ) (y : Item), x.target? = some (m : ℤ) ∧ l[m]? = some y ∧
        y.side? = some side.opposite ∧ y.target? = some (k : ℤ) := by
  unfold isLinked
  rw [List.all_eq_true]
  constructor
  · intro h k x side hx hside
    have hall := h (x, k) (List.mem_zipIdx_iff_getElem?.mpr hx)
    simp only [hside] at hall
    exact hasPartner_iff.mp hall
  · intro h p hp
    obtain ⟨x, k⟩ := p
    cases hside : x.side? with
    | none => simp [hside]
    | some side =>
      simp only [hside]
      exact hasPartner_iff.mpr (h k x side (List.mem_zipIdx_iff_getElem?.mp hp) hside)

/-- In a linked stream every bracket goes to its partner. -/
theorem links_iff : Links stream linked ↔ linked.map Item.unlinked = stream.map Item.unlinked ∧
    ∀ (k : ℕ) (x : Item), linked[k]? = some x → x.isBracket = true →
      ∃ m : ℕ, x.target? = some (m : ℤ) ∧ Partners stream k m := by
  constructor
  · intro h
    refine ⟨h.same, ?_⟩
    intro k x hx hbracket
    obtain ⟨side, hside⟩ := Option.isSome_iff_exists.mp hbracket
    obtain ⟨m, y, htarget, hy, hopposite, hback⟩ := isLinked_iff.mp h.back k x side hx hside
    refine ⟨m, htarget, (partners_congr h.same).mp ?_⟩
    cases side with
    | opening =>
      obtain ⟨j, hlt, hj, -, hbetween⟩ := h.loops k x hx hside
      obtain rfl : m = j := by simpa [htarget] using hj
      exact Or.inl (loopAt_of_between hx hy hlt hside hopposite hbetween)
    | closing =>
      obtain ⟨j, hlt, hj, -, hbetween⟩ := h.loops m y hy hopposite
      obtain rfl : k = j := by simpa [hback] using hj
      exact Or.inr (loopAt_of_between hy hx hlt hopposite hside hbetween)
  · intro h
    obtain ⟨hsame, htargets⟩ := h
    have hback : ∀ (k : ℕ) (x : Item) (side : Side), linked[k]? = some x → x.side? = some side →
        ∃ (m : ℕ) (y : Item), x.target? = some (m : ℤ) ∧ linked[m]? = some y ∧
          y.side? = some side.opposite ∧ y.target? = some (k : ℤ) := by
      intro k x side hx hside
      obtain ⟨m, htarget, hm⟩ := htargets k x hx (isBracket_of_side hside)
      obtain ⟨y, hy, hopposite⟩ := ((partners_congr hsame).mpr hm).opposite hx hside
      obtain ⟨m', htarget', hm'⟩ := htargets m y hy (isBracket_of_side hopposite)
      obtain rfl := hm.symm.unique hm'
      exact ⟨m, y, htarget, hy, hopposite, htarget'⟩
    refine ⟨hsame, isLinked_iff.mpr hback, ?_⟩
    intro i x hx hside
    obtain ⟨m, y, htarget, hy, hopposite, hm⟩ := hback i x .opening hx hside
    obtain ⟨j, hj, hpartner⟩ := htargets i x hx (isBracket_of_side hside)
    obtain rfl : m = j := by simpa [htarget] using hj
    have hloop := ((partners_congr hsame).mpr hpartner).loopAt hx hside
    exact ⟨m, hloop.lt, htarget, by rw [hy, Option.bind_some, hm], hloop.between⟩

theorem eq_of_target (hsame : x.unlinked = y.unlinked) (htarget : x.target? = y.target?) :
    x = y := by
  rcases x with ⟨op, position⟩ | v <;> rcases y with ⟨op', position'⟩ | v'
  · cases op <;> cases op' <;> simp_all [Item.unlinked, Item.retarget, Op.retarget, Item.target?,
      Item.op?, Op.target?]
  · cases hsame
  · cases hsame
  · exact hsame

theorem target_of_side (h : x.side? = none) : x.target? = none := by
  rcases x with ⟨op, position⟩ | v
  · cases op <;> first | rfl | cases h
  · rfl

theorem target_retarget {target : Option ℤ} (h : x.isBracket = true) :
    (x.retarget target).target? = target := by
  rcases x with ⟨op, position⟩ | v
  · cases op <;> first | rfl | cases h
  · cases h

/-- A stream is linked in one way. -/
theorem Links.unique (h : Links stream linked) (h' : Links stream other) : other = linked := by
  have hsame : other.map Item.unlinked = linked.map Item.unlinked := h'.same.trans h.same.symm
  apply List.ext_getElem?
  intro k
  have hk := congrArg (·[k]?) hsame
  simp only [List.getElem?_map] at hk
  cases hx : other[k]? with
  | none =>
    rw [hx] at hk
    exact (Option.map_eq_none_iff.mp hk.symm).symm
  | some x =>
    rw [hx] at hk
    obtain ⟨y, hy, hxy⟩ := Option.map_eq_some_iff.mp hk.symm
    have hside : y.side? = x.side? := by
      rw [← side_retarget y none, ← side_retarget x none]
      exact congrArg Item.side? hxy
    have htarget : y.target? = x.target? := by
      cases hbracket : x.side? with
      | none => rw [target_of_side hbracket, target_of_side (hside.trans hbracket)]
      | some side =>
        obtain ⟨m, hm, hpartner⟩ := (links_iff.mp h').2 k x hx (isBracket_of_side hbracket)
        obtain ⟨m', hm', hpartner'⟩ :=
          (links_iff.mp h).2 k y hy (isBracket_of_side (hside.trans hbracket))
        rw [hm, hm', hpartner.unique hpartner']
    rw [hy, eq_of_target hxy htarget]

end Links

/-! ## Pairing -/

section Pairing

variable {stream linked : List Item} {p q : Pairing} {partners : Array (Option ℕ)}
  {opened opened' : List ℕ} {x y : Item} {source : String} {k m : ℕ}

/-- Whether partners only were found for the items of a stream, and one for every bracket that is
not at one of the given indices. -/
structure Finds (partners : Array (Option ℕ)) (stream : List Item) (opened : List ℕ) : Prop where
  size : partners.size = stream.length
  sound : ∀ k m, partners[k]? = some (some m) → Partners stream k m
  complete : ∀ (k : ℕ) (x : Item), stream[k]? = some x → x.isBracket = true →
    partners[k]? = some none → k ∈ opened

theorem getElem?_concat (h : (stream ++ [x])[k]? = some y) :
    stream[k]? = some y ∨ k = stream.length ∧ y = x := by
  rw [List.getElem?_append] at h
  split at h
  · exact Or.inl h
  · obtain ⟨hk, rfl⟩ := List.getElem?_eq_some_iff.mp h
    simp only [List.length_cons, List.length_nil] at hk
    exact Or.inr ⟨by omega, by simp⟩

/-- An item without a partner so far is no bracket or stays open. -/
theorem Finds.skip (h : Finds partners stream opened) (hkeep : opened ⊆ opened')
    (hx : x.isBracket = true → stream.length ∈ opened') :
    Finds (partners.push none) (stream ++ [x]) opened' where
  size := by simp [h.size]
  sound k m hk := by
    rw [Array.getElem?_push] at hk
    split at hk
    · cases hk
    · exact (h.sound k m hk).append [x]
  complete k y hy hbracket hk := by
    rcases getElem?_concat hy with hold | ⟨rfl, rfl⟩
    · have hne : k ≠ partners.size := by
        have := (List.getElem?_eq_some_iff.mp hold).1
        rw [h.size]
        omega
      rw [Array.getElem?_push, if_neg hne] at hk
      exact hkeep (h.complete k y hold hbracket hk)
    · exact hx hbracket

/-- The end of a loop is the partner of its start. -/
theorem Finds.close {start : ℕ} (h : Finds partners stream (start :: opened))
    (hloop : LoopAt (stream ++ [x]) start stream.length) :
    Finds ((partners.setIfInBounds start (some stream.length)).push (some start)) (stream ++ [x])
      opened where
  size := by simp [h.size]
  sound k m hk := by
    rw [Array.getElem?_push, Array.size_setIfInBounds, h.size] at hk
    split at hk
    · rename_i hlast
      cases hk
      exact hlast ▸ Or.inr hloop
    · rw [Array.getElem?_setIfInBounds] at hk
      split at hk
      · rename_i hstart
        split at hk
        · cases hk
          exact hstart ▸ Or.inl hloop
        · cases hk
      · exact (h.sound k m hk).append [x]
  complete k y hy hbracket hk := by
    rw [Array.getElem?_push, Array.size_setIfInBounds, h.size] at hk
    split at hk
    · cases hk
    · rename_i hne
      rw [Array.getElem?_setIfInBounds] at hk
      split at hk
      · split at hk <;> cases hk
      · rename_i hstart
        have hold := (getElem?_concat hy).resolve_right fun hlast => hne hlast.1
        exact (List.mem_cons.mp (h.complete k y hold hbracket hk)).resolve_left fun hk =>
          hstart hk.symm

/-- The end of a loop that an item at an index marks. -/
def placedSide (q : Item × ℕ) : Option Side := q.1.side?

/-- A closing bracket ends the loop of the bracket opened last. -/
theorem Opened.loopAt {o : Item} {start : ℕ} {placed : List (Item × ℕ)}
    (h : Opened placedSide stream.zipIdx ((o, start) :: placed)) (hx : x.side? = some .closing) :
    LoopAt (stream ++ [x]) start stream.length := by
  generalize hl : stream.zipIdx = l at h
  cases h with
  | @opening before _ _ body _ ho hbody =>
    have hstream : stream = before.map Prod.fst ++ o :: body.map Prod.fst := by
      have hmap := congrArg (List.map Prod.fst) hl
      rw [List.zipIdx_map_fst] at hmap
      simpa using hmap
    have hstart : start = before.length := by
      have hget : stream.zipIdx[before.length]? = some (o, start) := by simp [hl]
      rw [List.getElem?_zipIdx, Option.map_eq_some_iff] at hget
      obtain ⟨_, -, hpair⟩ := hget
      simpa using (congrArg Prod.snd hpair).symm
    have hinner : Balanced Item.side? (body.map Prod.fst) :=
      (balanced_map_iff fun _ => rfl).mpr hbody
    refine ⟨before.map Prod.fst, o, body.map Prod.fst, x, [], ?_, ?_, ?_, ho, hx, hinner⟩
    · rw [hstream]
      simp
    · simp [hstart]
    · rw [hstream, hstart]
      simp
      omega

/-- Whether a pairing has read a stream and has the given brackets open. -/
structure Pairing.Tracks (p : Pairing) (stream : List Item) (placed : List (Item × ℕ)) : Prop where
  scan : Opened placedSide stream.zipIdx placed
  opened : p.opened = placed.map fun q => (q.2, q.1.position)
  finds : Finds p.partners stream (placed.map Prod.snd)

/-- Reading one more item finds the partner of a closing bracket and keeps an opening one open. -/
theorem Pairing.Tracks.push {placed : List (Item × ℕ)} (h : p.Tracks stream placed)
    (hq : p.push x = .ok q) : ∃ placed', q.Tracks (stream ++ [x]) placed' := by
  have hzip : (stream ++ [x]).zipIdx = stream.zipIdx ++ [(x, stream.length)] := by
    simp [List.zipIdx_append]
  have hsize := h.finds.size
  cases hside : x.side? with
  | none =>
    cases (pair_of_none hside).symm.trans hq
    refine ⟨placed, ?_, h.opened, h.finds.skip (List.Subset.refl _) ?_⟩
    · rw [hzip]
      exact h.scan.append (.cons hside .nil)
    · simp [Item.isBracket, hside]
  | some side =>
    cases side with
    | opening =>
      cases (pair_of_opening hside).symm.trans hq
      refine ⟨(x, stream.length) :: placed, ?_, by simp [h.opened, hsize], h.finds.skip ?_ ?_⟩
      · rw [hzip]
        exact .opening h.scan hside .nil
      · exact List.subset_cons_self _ _
      · simp
    | closing =>
      obtain ⟨opened, partners⟩ := p
      cases placed with
      | nil =>
        obtain rfl : opened = [] := h.opened
        cases (pair_of_unopened hside).symm.trans hq
      | cons o placed =>
        obtain ⟨o, start⟩ := o
        obtain rfl : opened = _ := h.opened
        rw [List.map_cons, pair_of_closing hside] at hq
        cases hq
        have hloop := Opened.loopAt h.scan hside
        refine ⟨placed, ?_, rfl, ?_⟩
        · have hlast : placedSide (x, stream.length) = some .closing := hside
          rcases h.scan.concat (x := (x, stream.length)) with ⟨placed', hopen, hscan⟩ | ⟨-, hnil, -⟩
          · cases (openAfter_of_closing hlast).symm.trans hopen
            rwa [hzip]
          · cases hnil
        · rw [show partners.size = stream.length from hsize]
          exact h.finds.close hloop

theorem tracks_of_foldlM (h : stream.foldlM Pairing.push Pairing.empty = .ok q) :
    ∃ placed, q.Tracks stream placed := by
  induction stream using List.reverseRecOn generalizing q with
  | nil =>
    cases h
    exact ⟨[], .balanced .nil, rfl, rfl, by simp [Pairing.empty], by simp⟩
  | append_singleton stream x ih =>
    rw [List.foldlM_append] at h
    cases hp : stream.foldlM Pairing.push Pairing.empty with
    | error position =>
      rw [hp] at h
      cases h
    | ok p =>
      rw [hp] at h
      obtain ⟨placed, htracks⟩ := ih hp
      have hlast : [x].foldlM Pairing.push p = .ok q := h
      rw [List.foldlM_cons] at hlast
      simp only [List.foldlM_nil, bind_pure] at hlast
      exact htracks.push hlast

/-- What linking gives has every bracket sent to its partner. -/
theorem links_of_link (h : link source stream = .ok linked) : Links stream linked := by
  refine links_iff.mpr ⟨map_unlinked_of_link h, ?_⟩
  unfold link at h
  split at h
  · cases h
  · rename_i pairing hpairing
    obtain ⟨placed, htracks⟩ := tracks_of_foldlM hpairing
    split at h
    · cases h
    · rename_i hnone
      cases h
      have hclosed : placed = [] := by
        rw [Pairing.oldest?, Option.map_eq_none_iff, List.getLast?_eq_none_iff, htracks.opened] at hnone
        exact List.map_eq_nil_iff.mp hnone
      intro k x hx hbracket
      obtain ⟨y, partner, hy, hpartner, rfl⟩ := List.getElem?_zipWith_eq_some.mp hx
      rw [Array.getElem?_toList] at hpartner
      have hside : y.isBracket = true := by
        cases partner with
        | none => exact hbracket
        | some m => rwa [Item.linkTo, Item.isBracket, side_retarget] at hbracket
      cases partner with
      | none =>
        have hopen := htracks.finds.complete k y hy hside hpartner
        rw [hclosed] at hopen
        cases hopen
      | some m =>
        exact ⟨m, target_retarget hside, htracks.finds.sound k m hpartner⟩

/-- A stream links if its brackets are balanced, and only then. -/
theorem link_isOk_iff : (∃ linked, link source stream = .ok linked) ↔
    Balanced Item.side? stream := by
  have hlink := link_of_scan source stream
  rw [balanced_iff_scan]
  cases hscan : scanBrackets Item.side? [] stream with
  | error x =>
    rw [hscan] at hlink
    simp only at hlink
    simp [hlink]
  | ok opened =>
    rw [hscan] at hlink
    cases opened using List.reverseRecOn with
    | nil => simpa using hlink
    | append_singleton opened x =>
      simp only [List.getLast?_concat] at hlink
      simp [hlink]

end Pairing

/-! ## Matching -/

/-- Whether no two pairs of brackets of a linked stream cross. -/
def NeverCross (linked : List Item) : Prop :=
  ∀ (i i' j j' : ℕ) (x x' : Item), linked[i]? = some x → linked[i']? = some x' →
    x.side? = some .opening → x'.side? = some .opening → x.target? = some (j : ℤ) →
    x'.target? = some (j' : ℤ) → i < i' → i' < j → j' < j

section Matching

variable {stream linked : List Item} {source : String} {e : Failure}

theorem Links.neverCross (h : Links stream linked) : NeverCross linked := by
  intro i i' j j' x x' hx hx' hside hside' hj hj' hlt hlt'
  have hloop : ∀ {i j : ℕ} {x : Item}, linked[i]? = some x → x.side? = some .opening →
      x.target? = some (j : ℤ) → LoopAt linked i j := by
    intro i j x hx hside hj
    obtain ⟨m, hm, hpartner⟩ := (links_iff.mp h).2 i x hx (isBracket_of_side hside)
    obtain rfl : j = m := by simpa [hj] using hm
    exact ((partners_congr h.same).mpr hpartner).loopAt hx hside
  exact (hloop hx hside hj).nested (hloop hx' hside' hj') hlt hlt'

/-- Linking a linked stream changes nothing. -/
theorem relink {source' : String} (h : link source stream = .ok linked) :
    link source' linked = .ok linked := by
  have hlinks := links_of_link h
  have hbalanced : Balanced Item.side? linked := by
    rw [← balanced_unlinked, hlinks.same, balanced_unlinked]
    exact link_isOk_iff.mp ⟨linked, h⟩
  obtain ⟨again, hagain⟩ := link_isOk_iff.mpr hbalanced
  have hself : Links linked linked := ⟨rfl, hlinks.back, hlinks.loops⟩
  rw [hagain, hself.unique (links_of_link hagain)]

/-- The fault of a stream whose brackets do not pair up, and the bracket `x` that it names: the
first that closes nothing, or else the first that is never closed. -/
inductive Unmatched (source : String) (stream : List Item) (x : Item) : Fault → Prop
  | unopened : FirstAt (Unopened Item.side?) stream x →
      Unmatched source stream x (.unopenedLoopIn source x.position)
  | unclosed : Nowhere (Unopened Item.side?) stream → FirstAt (Unclosed Item.side?) stream x →
      Unmatched source stream x (.unclosedLoopIn source x.position)

theorem Unmatched.raised {x : Item} {fault : Fault} (h : Unmatched source stream x fault) :
    fault.raised = if Text.isWritable x.position then .fault fault else .refusal .longInteger := by
  cases h <;> simp [Fault.raised_eq]

/-- A stream that does not link has a bracket without a partner, and the first one is reported. -/
theorem unmatched_of_link (h : link source stream = .error e) :
    ∃ x fault, Unmatched source stream x fault ∧ e = fault.raised := by
  have hlink := link_of_scan source stream
  have hfound := scan_spec Item.side? stream
  cases hscan : scanBrackets Item.side? [] stream with
  | error x =>
    rw [hscan] at hlink hfound
    cases h.symm.trans hlink
    exact ⟨x, _, .unopened hfound, rfl⟩
  | ok opened =>
    rw [hscan] at hlink hfound
    obtain ⟨hopened, hrest⟩ := hfound
    cases hlast : opened.getLast? with
    | none =>
      simp only [hlast] at hlink
      obtain ⟨linked, hok⟩ := hlink
      cases h.symm.trans hok
    | some x =>
      simp only [hlast] at hlink hrest
      cases h.symm.trans hlink
      exact ⟨x, _, .unclosed hopened hrest, rfl⟩

end Matching

end TapeMachine
