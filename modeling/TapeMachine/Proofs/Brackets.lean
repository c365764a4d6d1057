import Mathlib.Data.List.Induction
import TapeMachine.Proofs.Block

/-! # Unmatched brackets

A scan keeps the brackets that are still open. What it comes to is said here
without it: a closing bracket closes nothing if no opening bracket before it has
a balanced stream in between (`Unopened`), an opening bracket is never closed if
no closing bracket after it has (`Unclosed`), and the scan finds the first
bracket of either kind (`scan_spec`). -/
namespace TapeMachine

/-! ## The first item with a property -/

section First

variable {α : Type} {P : List α → α → List α → Prop} {l : List α} {x y : α}

/-- Whether `x` is the first item of a list with a property, which may depend on what stands before
the item and behind it. -/
def FirstAt (P : List α → α → List α → Prop) (l : List α) (x : α) : Prop :=
  ∃ before after, l = before ++ x :: after ∧ P before x after ∧
    ∀ before' y after', before = before' ++ y :: after' → ¬ P before' y (after' ++ x :: after)

/-- Whether no item of a list has the property. -/
def Nowhere (P : List α → α → List α → Prop) (l : List α) : Prop :=
  ∀ before x after, l = before ++ x :: after → ¬ P before x after

theorem FirstAt.mem (h : FirstAt P l x) : x ∈ l := by
  obtain ⟨before, after, rfl, -⟩ := h
  exact List.mem_append_right _ List.mem_cons_self

theorem FirstAt.not_nowhere (h : FirstAt P l x) : ¬ Nowhere P l := by
  obtain ⟨before, after, hl, hx, -⟩ := h
  exact fun hnone => hnone before x after hl hx

theorem FirstAt.unique (h : FirstAt P l x) (h' : FirstAt P l y) : x = y := by
  obtain ⟨before, after, rfl, hx, hfirst⟩ := h
  obtain ⟨before', after', hcut, hy, hfirst'⟩ := h'
  rcases List.append_eq_append_iff.mp hcut with ⟨middle, rfl, htail⟩ | ⟨middle, rfl, htail⟩
  · cases middle with
    | nil => exact (List.cons.inj htail).1
    | cons z middle =>
      obtain ⟨rfl, rfl⟩ := List.cons.inj htail
      exact absurd hx (hfirst' before x middle rfl)
  · cases middle with
    | nil => exact (List.cons.inj htail).1.symm
    | cons z middle =>
      obtain ⟨rfl, rfl⟩ := List.cons.inj htail
      exact absurd hy (hfirst before' y middle rfl)

end First

/-! ## Scans -/

section Scan

variable {α : Type} (side : α → Option Side)

/-- Takes the next item of a stream into the brackets that are open, the innermost first. A bracket
that closes none of them is reported. -/
def openAfter (opened : List α) (x : α) : Except α (List α) :=
  match side x with
  | some .opening => .ok (x :: opened)
  | some .closing =>
    match opened with
    | _ :: rest => .ok rest
    | [] => .error x
  | none => .ok opened

/-- The brackets that are open after a stream. -/
def scanBrackets (opened l : List α) : Except α (List α) := l.foldlM (openAfter side) opened

/-- Whether a closing bracket behind the given items closes nothing. -/
def Unopened (before : List α) (x : α) (_ : List α) : Prop :=
  side x = some .closing ∧
    ∀ head o body, before = head ++ o :: body → side o = some .opening → ¬ Balanced side body

/-- Whether an opening bracket in front of the given items is never closed. -/
def Unclosed (_ : List α) (x : α) (after : List α) : Prop :=
  side x = some .opening ∧
    ∀ body e tail, after = body ++ e :: tail → side e = some .closing → ¬ Balanced side body

/-! ## Steps of a scan -/

variable {side} {l l' opened opened' : List α} {x y : α}

theorem openAfter_of_none (h : side x = none) : openAfter side opened x = .ok opened := by
  simp only [openAfter, h]

theorem openAfter_of_opening (h : side x = some .opening) :
    openAfter side opened x = .ok (x :: opened) := by
  simp only [openAfter, h]

theorem openAfter_of_closing (h : side x = some .closing) :
    openAfter side (y :: opened) x = .ok opened := by
  simp only [openAfter, h]

theorem openAfter_of_unopened (h : side x = some .closing) :
    openAfter side [] x = .error x := by
  simp only [openAfter, h]

theorem scan_cons_of_ok (h : openAfter side opened x = .ok opened') :
    scanBrackets side opened (x :: l) = scanBrackets side opened' l := by
  rw [scanBrackets, List.foldlM_cons, h]
  rfl

theorem scan_cons_of_error (h : openAfter side opened x = .error y) :
    scanBrackets side opened (x :: l) = .error y := by
  rw [scanBrackets, List.foldlM_cons, h]
  rfl

theorem scan_append :
    scanBrackets side opened (l ++ l') = scanBrackets side opened l >>= (scanBrackets side · l') :=
  List.foldlM_append

theorem scan_append_of_ok (h : scanBrackets side opened l = .ok opened') :
    scanBrackets side opened (l ++ l') = scanBrackets side opened' l' := by
  rw [scan_append, h]
  rfl

/-- A balanced stream leaves the open brackets as they were. -/
theorem Balanced.scan (h : Balanced side l) : scanBrackets side opened l = .ok opened := by
  induction h generalizing opened with
  | nil => rfl
  | cons ha _ ih => rw [scan_cons_of_ok (openAfter_of_none ha), ih]
  | loop ho _ he _ ihb ih =>
    rw [scan_cons_of_ok (openAfter_of_opening ho), scan_append_of_ok ihb,
      scan_cons_of_ok (openAfter_of_closing he), ih]

theorem Balanced.append (h : Balanced side l) (h' : Balanced side l') :
    Balanced side (l ++ l') := by
  induction h with
  | nil => exact h'
  | cons ha _ ih => exact .cons ha ih
  | loop ho hbody he _ _ ih =>
    rw [List.cons_append, List.append_assoc, List.cons_append]
    exact .loop ho hbody he ih

/-! ## What is open -/

/-- A stream with open brackets: balanced before, between and behind them. -/
inductive Opened {α : Type} (side : α → Option Side) : List α → List α → Prop
  | balanced {l : List α} : Balanced side l → Opened side l []
  | opening {l opened : List α} {x : α} {l' : List α} : Opened side l opened →
      side x = some .opening → Balanced side l' → Opened side (l ++ x :: l') (x :: opened)

theorem Opened.scan (h : Opened side l opened) : scanBrackets side [] l = .ok opened := by
  induction h with
  | balanced hl => exact hl.scan
  | opening _ hx hl' ih =>
    rw [scan_append_of_ok ih, scan_cons_of_ok (openAfter_of_opening hx), hl'.scan]

theorem Opened.append (h : Opened side l opened) (h' : Balanced side l') :
    Opened side (l ++ l') opened := by
  cases h with
  | balanced hl => exact .balanced (hl.append h')
  | opening hl hx hrest =>
    rw [List.append_assoc, List.cons_append]
    exact .opening hl hx (hrest.append h')

/-- One more item keeps the form, unless it closes nothing. -/
theorem Opened.concat (h : Opened side l opened) :
    (∃ opened', openAfter side opened x = .ok opened' ∧ Opened side (l ++ [x]) opened') ∨
      (openAfter side opened x = .error x ∧ opened = [] ∧ side x = some .closing) := by
  cases hx : side x with
  | none => exact Or.inl ⟨opened, openAfter_of_none hx, h.append (.cons hx .nil)⟩
  | some which =>
    cases which with
    | opening => exact Or.inl ⟨x :: opened, openAfter_of_opening hx, .opening h hx .nil⟩
    | closing =>
      cases h with
      | balanced hl => exact Or.inr ⟨openAfter_of_unopened hx, rfl, rfl⟩
      | @opening l₁ opened o l₂ hl ho hrest =>
        refine Or.inl ⟨opened, openAfter_of_closing hx, ?_⟩
        rw [List.append_assoc, List.cons_append]
        exact hl.append (.loop ho hrest hx .nil)

/-- A scan that comes through shows which brackets are open, and one that does not has met the
first bracket that closes nothing behind a balanced stream. -/
theorem scan_cases (side : α → Option Side) (l : List α) :
    (∃ opened, scanBrackets side [] l = .ok opened ∧ Opened side l opened) ∨
      ∃ before x after, scanBrackets side [] l = .error x ∧ l = before ++ x :: after ∧
        side x = some .closing ∧ Balanced side before := by
  induction l using List.reverseRecOn with
  | nil => exact Or.inl ⟨[], rfl, .balanced .nil⟩
  | append_singleton l y ih =>
    rcases ih with ⟨opened, hscan, hopened⟩ | ⟨before, x, after, hscan, rfl, hx, hbefore⟩
    · have hlast : scanBrackets side [] (l ++ [y]) = openAfter side opened y := by
        rw [scan_append_of_ok hscan, scanBrackets, List.foldlM_cons]
        exact bind_pure _
      rcases hopened.concat (x := y) with ⟨opened', hy, hopened'⟩ | ⟨hy, rfl, hclosing⟩
      · exact Or.inl ⟨opened', hlast.trans hy, hopened'⟩
      · refine Or.inr ⟨l, y, [], hlast.trans hy, rfl, hclosing, ?_⟩
        cases hopened with
        | balanced hl => exact hl
    · refine Or.inr ⟨before, x, after ++ [y], ?_, by simp, hx, hbefore⟩
      rw [scan_append, hscan]
      rfl

/-- The outermost open bracket stands behind a balanced stream. -/
theorem Opened.outermost (h : Opened side l opened) :
    (opened = [] ∧ Balanced side l) ∨
      ∃ before x after rest, l = before ++ x :: after ∧ Balanced side before ∧
        side x = some .opening ∧ opened = rest ++ [x] ∧ Opened side after rest := by
  induction h with
  | balanced hl => exact Or.inl ⟨rfl, hl⟩
  | @opening l opened x l' _ hx hl' ih =>
    right
    rcases ih with ⟨rfl, hl⟩ | ⟨before, y, after, rest, rfl, hbefore, hy, rfl, hafter⟩
    · exact ⟨l, x, l', [], rfl, hl, hx, rfl, .balanced hl'⟩
    · exact ⟨before, y, after ++ x :: l', x :: rest, by simp, hbefore, hy, rfl,
        .opening hafter hx hl'⟩

/-! ## What a scan finds -/

/-- Behind a balanced stream a closing bracket closes nothing. -/
theorem Balanced.unopened (h : Balanced side l) (hx : side x = some .closing) (after : List α) :
    Unopened side l x after := by
  refine ⟨hx, ?_⟩
  intro head o body hl ho hbody
  subst hl
  have hscan : scanBrackets side [] (head ++ o :: body) = .ok [] := h.scan
  rw [scan_append] at hscan
  cases hhead : scanBrackets side [] head with
  | error x =>
    rw [hhead] at hscan
    cases hscan
  | ok opened =>
    rw [hhead] at hscan
    change scanBrackets side opened (o :: body) = .ok [] at hscan
    rw [scan_cons_of_ok (openAfter_of_opening ho), hbody.scan] at hscan
    cases hscan

/-- Every closing bracket of a stream that is scanned to its end closes one. -/
theorem nowhere_unopened (h : scanBrackets side [] l = .ok opened) :
    Nowhere (Unopened side) l := by
  intro before x after hl hx
  subst hl
  rcases scan_cases side before with ⟨opened', hbefore, hopened'⟩ | ⟨_, y, _, hbefore, -⟩
  · cases hopened' with
    | balanced =>
      rw [scan_append_of_ok hbefore, scan_cons_of_error (openAfter_of_unopened hx.1)] at h
      cases h
    | opening _ hy hrest => exact hx.2 _ _ _ rfl hy hrest
  · rw [scan_append, hbefore] at h
    cases h

/-- Every opening bracket of a balanced stream is closed. -/
theorem Balanced.nowhere_unclosed (h : Balanced side l) : Nowhere (Unclosed side) l := by
  induction h with
  | nil =>
    intro before x after hl
    simp at hl
  | @cons a l ha _ ih =>
    intro before x after hl hx
    cases before with
    | nil =>
      obtain ⟨rfl, -⟩ := List.cons.inj hl
      cases ha.symm.trans hx.1
    | cons b before =>
      obtain ⟨-, hl⟩ := List.cons.inj hl
      exact ih before x after hl hx
  | @loop o e body rest ho hbody he _ ihb ih =>
    intro before x after hl hx
    cases before with
    | nil =>
      obtain ⟨-, rfl⟩ := List.cons.inj hl
      exact hx.2 _ _ _ rfl he hbody
    | cons b before =>
      -- the bracket stands in the body, is the one that closes it, or stands behind
      obtain ⟨-, hcut⟩ := List.cons.inj hl
      rcases List.append_eq_append_iff.mp hcut with ⟨middle, rfl, htail⟩ | ⟨middle, rfl, htail⟩
      · cases middle with
        | nil =>
          obtain ⟨rfl, -⟩ := List.cons.inj htail
          cases he.symm.trans hx.1
        | cons c middle =>
          obtain ⟨-, hrest⟩ := List.cons.inj htail
          exact ih middle x after hrest hx
      · cases middle with
        | nil =>
          obtain ⟨rfl, -⟩ := List.cons.inj htail
          cases he.symm.trans hx.1
        | cons c middle =>
          obtain ⟨rfl, rfl⟩ := List.cons.inj htail
          refine ihb before x middle rfl ⟨hx.1, ?_⟩
          intro inner f tail hmiddle hf
          exact hx.2 inner f (tail ++ e :: rest) (by simp [hmiddle]) hf

/-- A bracket in front of a stream that is scanned to its end is never closed. -/
theorem Opened.unclosed (h : Opened side l opened) (hx : side x = some .opening)
    (before : List α) : Unclosed side before x l := by
  refine ⟨hx, ?_⟩
  intro body e tail hl he hbody
  have hscan := h.scan
  rw [hl, scan_append_of_ok hbody.scan, scan_cons_of_error (openAfter_of_unopened he)] at hscan
  cases hscan

/-- **A scan finds the first bracket without a partner.** -/
theorem scan_spec (side : α → Option Side) (l : List α) :
    match scanBrackets side [] l with
    | .error x => FirstAt (Unopened side) l x
    | .ok opened => Nowhere (Unopened side) l ∧
      match opened.getLast? with
      | some x => FirstAt (Unclosed side) l x
      | none => Nowhere (Unclosed side) l := by
  rcases scan_cases side l with
    ⟨opened, hscan, hopened⟩ | ⟨before, x, after, hscan, rfl, hx, hbefore⟩
  · rw [hscan]
    refine ⟨nowhere_unopened hscan, ?_⟩
    rcases hopened.outermost with
      ⟨rfl, hl⟩ | ⟨before, x, after, rest, rfl, hbefore, hx, rfl, hafter⟩
    · exact hl.nowhere_unclosed
    · rw [List.getLast?_concat]
      refine ⟨before, after, rfl, hafter.unclosed hx before, ?_⟩
      intro before' y after' hsplit hy
      refine hbefore.nowhere_unclosed before' y after' hsplit ⟨hy.1, ?_⟩
      intro body e tail htail he
      exact hy.2 body e (tail ++ x :: after) (by simp [htail]) he
  · rw [hscan]
    refine ⟨before, after, rfl, hbefore.unopened hx after, ?_⟩
    intro before' y after' hsplit hy
    exact nowhere_unopened hbefore.scan before' y after' hsplit hy

end Scan

/-! ## Streams made of others -/

section Map

variable {α β : Type} {side : α → Option Side} {side' : β → Option Side} {f : α → β}
  {l opened : List α} {x : α} (hside : ∀ x, side' (f x) = side x)

include hside

theorem openAfter_map : openAfter side' (opened.map f) (f x) =
    ((openAfter side opened x).map (List.map f)).mapError f := by
  cases hx : side x with
  | none =>
    rw [openAfter_of_none hx, openAfter_of_none ((hside x).trans hx)]
    rfl
  | some which =>
    cases which with
    | opening =>
      rw [openAfter_of_opening hx, openAfter_of_opening ((hside x).trans hx)]
      rfl
    | closing =>
      cases opened with
      | nil =>
        rw [openAfter_of_unopened hx, List.map_nil, openAfter_of_unopened ((hside x).trans hx)]
        rfl
      | cons y opened =>
        rw [openAfter_of_closing hx, List.map_cons, openAfter_of_closing ((hside x).trans hx)]
        rfl

/-- A scan finds the same brackets when each is made into another of its side. -/
theorem scan_map : scanBrackets side' (opened.map f) (l.map f) =
    ((scanBrackets side opened l).map (List.map f)).mapError f := by
  induction l generalizing opened with
  | nil => rfl
  | cons x l ih =>
    cases hx : openAfter side opened x with
    | ok next =>
      have hmap : openAfter side' (opened.map f) (f x) = .ok (next.map f) := by
        rw [openAfter_map hside, hx]
        rfl
      rw [List.map_cons, scan_cons_of_ok hmap, scan_cons_of_ok hx, ih]
    | error y =>
      have hmap : openAfter side' (opened.map f) (f x) = .error (f y) := by
        rw [openAfter_map hside, hx]
        rfl
      rw [List.map_cons, scan_cons_of_error hmap, scan_cons_of_error hx]
      rfl

end Map

end TapeMachine
