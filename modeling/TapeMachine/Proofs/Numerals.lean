import Mathlib.Data.Int.Notation
import Mathlib.Data.List.Basic
import Mathlib.Data.List.TakeWhile
import TapeMachine.Text.Numeral

/-! # Written numbers

A number is written with decimal digits, behind a minus sign if it is negative
(`toList_toString`). Reading gives it back, unless it has more digits than a
numeral may have (`readNumeral_toString`). -/
namespace TapeMachine.Text

/-! ## Digits -/

section Digits

variable {c : Char} {ds : List Char} {n : ℕ}

theorem digit?_of_isDigit (h : c.isDigit = true) : digit? c = some (c.toNat - 48) := by
  obtain ⟨hlow, hhigh⟩ : 48 ≤ c.toNat ∧ c.toNat ≤ 57 := Char.isDigit_iff_toNat.mp h
  have hfirst : (decide (0x30 ≤ c.toNat) && decide (c.toNat < 0x30 + 10)) = true := by
    simp only [Bool.and_eq_true, decide_eq_true_eq]
    omega
  have hfind : zeros.find? (fun z => z ≤ c.toNat && c.toNat < z + 10) = some 0x30 :=
    List.find?_cons_of_pos hfirst
  rw [digit?, hfind, Option.map_some]

theorem isBlank_of_isDigit (h : c.isDigit = true) : isBlank c = false := by
  obtain ⟨hlow, hhigh⟩ : 48 ≤ c.toNat ∧ c.toNat ≤ 57 := Char.isDigit_iff_toNat.mp h
  simp only [isBlank, Bool.or_eq_false_iff, Bool.and_eq_false_iff, decide_eq_false_iff_not,
    beq_eq_false_iff_ne]
  omega

theorem ne_of_isDigit {sign : Char} (h : c.isDigit = true) (hsign : sign.isDigit = false) :
    c ≠ sign := by
  rintro rfl
  cases h.symm.trans hsign

theorem wellSpaced_of_digits (hne : ds ≠ []) (h : ∀ c ∈ ds, c.isDigit = true) :
    wellSpaced ds = true := by
  induction ds with
  | nil => exact absurd rfl hne
  | cons c ds ih =>
    rw [List.forall_mem_cons] at h
    have hc : c ≠ '_' := ne_of_isDigit h.1 rfl
    cases ds with
    | nil => simp [wellSpaced]
    | cons d ds =>
      have hd : d ≠ '_' := ne_of_isDigit (h.2 d List.mem_cons_self) rfl
      have htail := ih (List.cons_ne_nil d ds) h.2
      simpa [wellSpaced, hc, hd] using htail

theorem numeralValue_digits (ds : List Char) :
    numeralValue (ds.map fun c => c.toNat - 48) = Nat.ofDigitChars 10 ds 0 := by
  rw [numeralValue, List.foldl_map]
  rfl

theorem digits_isDigit : ∀ c ∈ Nat.toDigits 10 n, c.isDigit = true :=
  fun _ hc => Nat.isDigit_of_mem_toDigits (by decide) (by decide) hc

/-- The written digits of a number start with a digit. -/
theorem exists_digits (n : ℕ) :
    ∃ d ds, Nat.toDigits 10 n = d :: ds ∧ d.isDigit = true ∧ ∀ c ∈ ds, c.isDigit = true := by
  cases hdigits : Nat.toDigits 10 n with
  | nil => exact absurd hdigits Nat.toDigits_ne_nil
  | cons d ds =>
    have hall := digits_isDigit (n := n)
    rw [hdigits, List.forall_mem_cons] at hall
    exact ⟨d, ds, rfl, hall⟩

end Digits

/-! ## Numbers -/

/-- What a number is written with in front of its digits. -/
def signOf (n : ℤ) : List Char := if n < 0 then ['-'] else []

/-- A number is written as its sign and its digits. -/
theorem toList_toString (n : ℤ) :
    (toString n).toList = signOf n ++ Nat.toDigits 10 n.natAbs := by
  cases n with
  | ofNat m =>
    show m.repr.toList = _
    have hsign : signOf (Int.ofNat m) = [] := if_neg (Int.not_lt.mpr (Int.natCast_nonneg m))
    rw [Nat.toList_repr, hsign]
    rfl
  | negSucc m =>
    show ("-" ++ m.succ.repr).toList = _
    rw [String.toList_append, Nat.toList_repr, signOf, if_pos (Int.negSucc_lt_zero m)]
    rfl

theorem splitSign_toString (n : ℤ) : splitSign ((toString n).toList.dropWhile isBlank) =
    (if n < 0 then -1 else 1, Nat.toDigits 10 n.natAbs) := by
  obtain ⟨d, ds, hdigits, hd, -⟩ := exists_digits n.natAbs
  rw [toList_toString, signOf, hdigits]
  by_cases hneg : n < 0
  · rw [if_pos hneg, if_pos hneg, List.singleton_append, List.dropWhile_cons_of_neg (by decide)]
    rfl
  · rw [if_neg hneg, if_neg hneg, List.nil_append,
      List.dropWhile_cons_of_neg (by simp [isBlank_of_isDigit hd])]
    have hminus : d ≠ '-' := ne_of_isDigit hd rfl
    have hplus : d ≠ '+' := ne_of_isDigit hd rfl
    simp [splitSign, hminus, hplus]

/-- **Reading a written number gives it back.** -/
theorem readNumeral_toString {n : ℤ} (h : (toString n.natAbs).length ≤ digitLimit) :
    readNumeral (toString n) = .ok n := by
  have hbody : ∀ c ∈ Nat.toDigits 10 n.natAbs, (c == '_' || (digit? c).isSome) = true :=
    fun c hc => by simp [digit?_of_isDigit (digits_isDigit c hc)]
  have hdigits : (Nat.toDigits 10 n.natAbs).filterMap digit? =
      (Nat.toDigits 10 n.natAbs).map fun c => c.toNat - 48 :=
    List.filterMap_eq_map_iff_forall_eq_some.mpr fun c hc => digit?_of_isDigit (digits_isDigit c hc)
  have hlen : (Nat.toDigits 10 n.natAbs).length ≤ digitLimit := by
    rwa [← String.length_toList, Nat.toString_eq_repr, Nat.toList_repr] at h
  have hsign : (if n < 0 then -1 else 1) * (n.natAbs : ℤ) = n := by
    split <;> omega
  have htake := List.takeWhile_eq_self_iff.mpr hbody
  have hdrop := List.dropWhile_eq_nil_iff.mpr hbody
  simp only [readNumeral, splitSign_toString, htake, hdrop, hdigits, List.length_map,
    wellSpaced_of_digits Nat.toDigits_ne_nil digits_isDigit, Nat.not_lt.mpr hlen, Bool.not_true,
    numeralValue_digits, Nat.ofDigitChars_ten_toDigits, List.all_nil, hsign, if_true, if_false]
  rfl

end TapeMachine.Text
