import TapeMachine.ByteArgument
import TapeMachine.Proofs.Linkage
import TapeMachine.Proofs.Numerals

/-! # What arguments stand for

An argument stands for a byte if it spells a number below 256 with no more digits
than a numeral may have, behind a plus sign if any and in front of a line feed if
any (`parse_eq_ok_iff`). There are three ways to miss that, each with an answer of
its own (`parse_eq_error_iff`). Arguments are read in order, so the first that
misses it gives the answer for all of them (`input_exact`). -/
namespace TapeMachine.ByteArgument

/-- Whether an argument spells some digits, with a plus sign in front of them or none and a line
feed behind them or none. -/
structure Spells (argument : String) (ds : List Char) : Prop where
  nonempty : ds ≠ []
  digits : ∀ c ∈ ds, c.isDigit = true
  chars : ∃ plus tail, (plus = [] ∨ plus = ['+']) ∧ (tail = [] ∨ tail = ['\n']) ∧
    argument.toList = plus ++ (ds ++ tail)

/-- Whether an argument stands for a byte. -/
def StandsFor (argument : String) (b : UInt8) : Prop :=
  ∃ ds, Spells argument ds ∧ ds.length ≤ Text.digitLimit ∧ Nat.ofDigitChars 10 ds 0 = b.toNat

/-- What is wrong with an argument that stands for no byte. -/
inductive Flaw (argument : String) : Failure → Prop
  | shape : (∀ ds, ¬ Spells argument ds) → Flaw argument (.fault (.badByte argument invalidDigit))
  | long {ds : List Char} : Spells argument ds → Text.digitLimit < ds.length →
      Flaw argument (.refusal (.longNumeral ds.length))
  | large {ds : List Char} : Spells argument ds → ds.length ≤ Text.digitLimit →
      255 < Nat.ofDigitChars 10 ds 0 → Flaw argument (.fault (.badByte argument tooLarge))

section Parse

variable {argument : String} {ds : List Char} {b : UInt8} {e : Failure}

/-! ## Digits -/

theorem asciiDigits_eq (h : ∀ c ∈ ds, c.isDigit = true) :
    ds.filterMap Text.asciiDigit? = ds.map fun c => c.toNat - 48 := by
  refine List.filterMap_eq_map_iff_forall_eq_some.mpr ?_
  exact fun c hc => if_pos (h c hc)

theorem exists_plus (cs : List Char) :
    ∃ plus, (plus = [] ∨ plus = ['+']) ∧ cs = plus ++ unsigned cs := by
  unfold unsigned
  split
  · exact ⟨['+'], Or.inr rfl, rfl⟩
  · exact ⟨[], Or.inl rfl, rfl⟩

/-- An argument that spells digits has the form of a byte. -/
theorem Spells.digits_eq (h : Spells argument ds) :
    digits? argument = some (ds.map fun c => c.toNat - 48) := by
  obtain ⟨hne, hdigits, plus, tail, hplus, htail, hchars⟩ := h
  have hunsigned : unsigned argument.toList = ds ++ tail := by
    rw [hchars]
    rcases hplus with rfl | rfl
    · cases ds with
      | nil => exact absurd rfl hne
      | cons d ds =>
        have hd : d ≠ '+' := Text.ne_of_isDigit (hdigits d List.mem_cons_self) rfl
        simp [unsigned, hd]
    · rfl
  have hdrop : (ds ++ tail).dropWhile Char.isDigit = tail := by
    rw [List.dropWhile_append_of_pos hdigits]
    rcases htail with rfl | rfl <;> rfl
  have hfilter : (ds ++ tail).filterMap Text.asciiDigit? = ds.map fun c => c.toNat - 48 := by
    rw [List.filterMap_append, asciiDigits_eq hdigits]
    rcases htail with rfl | rfl <;> exact List.append_nil _
  simp [digits?, hunsigned, hdrop, hfilter, hne, htail]

/-- An argument that has the form of a byte spells digits. -/
theorem exists_spells {values : List ℕ} (h : digits? argument = some values) :
    ∃ ds, Spells argument ds := by
  simp only [digits?] at h
  split at h
  · cases h
  · rename_i hne
    split at h
    · rename_i hrest
      obtain ⟨plus, hplus, hchars⟩ := exists_plus argument.toList
      refine ⟨(unsigned argument.toList).takeWhile Char.isDigit, ?_, ?_, plus, _, hplus, hrest, ?_⟩
      · intro hnil
        refine hne ?_
        rw [← List.takeWhile_append_dropWhile (p := Char.isDigit)
          (l := unsigned argument.toList), hnil]
        rcases hrest with hrest | hrest <;> rw [hrest] <;> rfl
      · exact fun c hc => List.mem_takeWhile_imp hc
      · rw [List.takeWhile_append_dropWhile, ← hchars]
    · cases h

theorem parse_of_not_spells (h : ∀ ds, ¬ Spells argument ds) :
    parse argument = .error (.fault (.badByte argument invalidDigit)) := by
  cases hdigits : digits? argument with
  | none => simp only [parse, hdigits]
  | some values =>
    obtain ⟨ds, hds⟩ := exists_spells hdigits
    exact absurd hds (h ds)

theorem Spells.parse_eq (h : Spells argument ds) : parse argument =
    if Text.digitLimit < ds.length then .error (.refusal (.longNumeral ds.length))
    else if Nat.ofDigitChars 10 ds 0 < 256 then .ok (UInt8.ofNat (Nat.ofDigitChars 10 ds 0))
    else .error (.fault (.badByte argument tooLarge)) := by
  simp only [parse, h.digits_eq, List.length_map, Text.numeralValue_digits]

/-! ## Bytes -/

/-- **Exactly the spelled bytes are accepted.** -/
theorem parse_eq_ok_iff : parse argument = .ok b ↔ StandsFor argument b := by
  have hbyte : b.toNat < 256 := b.toNat_lt
  constructor
  · intro h
    by_cases hspells : ∃ ds, Spells argument ds
    · obtain ⟨ds, hds⟩ := hspells
      rw [hds.parse_eq] at h
      split_ifs at h with hlong hsmall
      refine ⟨ds, hds, Nat.not_lt.mp hlong, ?_⟩
      rw [← Except.ok.inj h, UInt8.toNat_ofNat', Nat.mod_eq_of_lt hsmall]
    · rw [parse_of_not_spells (not_exists.mp hspells)] at h
      cases h
  · rintro ⟨ds, hds, hlength, hvalue⟩
    rw [hds.parse_eq, if_neg (Nat.not_lt.mpr hlength), hvalue, if_pos hbyte, UInt8.ofNat_toNat]

/-- **Every other argument has one flaw, which is what it is answered with.** -/
theorem parse_eq_error_iff : parse argument = .error e ↔ Flaw argument e := by
  constructor
  · intro h
    by_cases hspells : ∃ ds, Spells argument ds
    · obtain ⟨ds, hds⟩ := hspells
      rw [hds.parse_eq] at h
      split_ifs at h with hlong hsmall
      · cases h
        exact .long hds hlong
      · cases h
        exact .large hds (Nat.not_lt.mp hlong) (by omega)
    · rw [parse_of_not_spells (not_exists.mp hspells)] at h
      cases h
      exact .shape (not_exists.mp hspells)
  · intro h
    cases h with
    | shape hnone => exact parse_of_not_spells hnone
    | long hds hlong => rw [hds.parse_eq, if_pos hlong]
    | large hds hlength hlarge =>
      rw [hds.parse_eq, if_neg (Nat.not_lt.mpr hlength), if_neg (by omega)]

/-- An argument stands for some byte if it spells a number that is small enough. -/
theorem exists_standsFor_iff : (∃ b, StandsFor argument b) ↔
    ∃ ds, Spells argument ds ∧ ds.length ≤ Text.digitLimit ∧ Nat.ofDigitChars 10 ds 0 ≤ 255 := by
  constructor
  · rintro ⟨b, ds, hds, hlength, hvalue⟩
    have hbyte : b.toNat < 256 := b.toNat_lt
    exact ⟨ds, hds, hlength, by omega⟩
  · rintro ⟨ds, hds, hlength, hsmall⟩
    refine ⟨UInt8.ofNat (Nat.ofDigitChars 10 ds 0), ds, hds, hlength, ?_⟩
    rw [UInt8.toNat_ofNat', Nat.mod_eq_of_lt (by omega)]

theorem spells_ofList (hne : ds ≠ []) (h : ∀ c ∈ ds, c.isDigit = true) :
    Spells (String.ofList ds) ds :=
  ⟨hne, h, [], [], Or.inl rfl, Or.inl rfl, by simp⟩

/-- A byte is what its decimal numeral stands for. -/
theorem standsFor_toString (b : UInt8) : StandsFor (toString b.toNat) b := by
  have hbyte : b.toNat < 256 := b.toNat_lt
  have hlength : (Nat.toDigits 10 b.toNat).length ≤ 3 :=
    (Nat.length_toDigits_le_iff (by decide) (by decide)).mpr (by omega)
  have hspells := spells_ofList (Nat.toDigits_ne_nil (b := 10) (n := b.toNat)) Text.digits_isDigit
  rw [← Nat.toString_eq_ofList_toDigits] at hspells
  exact ⟨_, hspells, hlength.trans (by decide), Nat.ofDigitChars_ten_toDigits⟩

end Parse

/-! ## Lists of arguments -/

section Lists

variable {arguments : List String} {bytes : List UInt8} {e : Failure}

theorem input_of_several (h : 2 ≤ arguments.length) :
    input arguments = (arguments.mapM parse).map some := by
  match arguments with
  | _ :: _ :: _ => rfl

theorem input_eq_ok_iff (h : 2 ≤ arguments.length) : input arguments = .ok (some bytes) ↔
    List.Forall₂ StandsFor arguments bytes := by
  have hparse : StandsFor = fun a b => parse a = .ok b :=
    funext₂ fun _ _ => propext parse_eq_ok_iff.symm
  rw [input_of_several h, hparse]
  constructor
  · intro hok
    cases hbytes : arguments.mapM parse with
    | error e => rw [hbytes] at hok; cases hok
    | ok bytes' =>
      rw [hbytes] at hok
      cases hok
      exact forall₂_of_mapM hbytes
  · exact fun hall => by rw [mapM_of_forall₂ hall]; rfl

theorem input_eq_error_iff (h : 2 ≤ arguments.length) : input arguments = .error e ↔
    ∃ before a after, arguments = before ++ a :: after ∧
      (∀ x ∈ before, ∃ b, StandsFor x b) ∧ Flaw a e := by
  simp only [← parse_eq_ok_iff, ← parse_eq_error_iff, ← mapM_eq_error_iff, input_of_several h]
  cases arguments.mapM parse <;> simp [Except.map]

/-- Arguments are refused for one of several that has too many digits, behind bytes only. -/
theorem exists_long_of_refused {r : Refusal} (h : input arguments = .error (.refusal r)) :
    2 ≤ arguments.length ∧ ∃ before a after ds, arguments = before ++ a :: after ∧
      (∀ x ∈ before, ∃ b, StandsFor x b) ∧ Spells a ds ∧ Text.digitLimit < ds.length ∧
      r = .longNumeral ds.length := by
  have hseveral : 2 ≤ arguments.length := by
    match arguments, h with
    | _ :: _ :: _, _ => simp
  obtain ⟨before, a, after, hsplit, hbefore, hflaw⟩ := (input_eq_error_iff hseveral).1 h
  cases hflaw with
  | @long ds hspells hlong =>
    exact ⟨hseveral, before, a, after, ds, hsplit, hbefore, hspells, hlong, rfl⟩

theorem input_cases (h : 2 ≤ arguments.length) :
    (∃ bytes, input arguments = .ok (some bytes)) ∨ ∃ e, input arguments = .error e := by
  rw [input_of_several h]
  cases arguments.mapM parse with
  | ok bytes => exact Or.inl ⟨bytes, rfl⟩
  | error e => exact Or.inr ⟨e, rfl⟩

theorem exists_input_iff (h : 2 ≤ arguments.length) :
    (∃ bytes, input arguments = .ok (some bytes)) ↔ ∀ a ∈ arguments, ∃ b, StandsFor a b := by
  simp only [← parse_eq_ok_iff]
  constructor
  · rintro ⟨bytes, hbytes⟩ a ha
    by_contra hbad
    rw [input_of_several h] at hbytes
    cases hmap : arguments.mapM parse with
    | error e => rw [hmap] at hbytes; cases hbytes
    | ok bytes' =>
      obtain ⟨k, hk⟩ := List.mem_iff_getElem?.mp ha
      obtain ⟨b, -, hb⟩ := forall₂_getElem? (forall₂_of_mapM hmap) hk
      exact hbad ⟨b, hb⟩
  · intro hall
    obtain ⟨bytes, hbytes, -⟩ := mapM_forall₂ hall
    exact ⟨bytes, by rw [input_of_several h, hbytes]; rfl⟩

end Lists

/-- **Arguments are taken as bytes exactly by their grammar.** Several arguments give bytes if each
spells a number up to 255 with no more digits than a numeral may have, leading zeros counted; then
they give the byte of each, in order. Otherwise the first argument that does not, alone, says with
its flaw what they fail with. Numerals of bytes give back the bytes. -/
theorem input_exact :
    (∀ arguments : List String, 2 ≤ arguments.length →
      ((∃ bytes, input arguments = .ok (some bytes)) ↔ ∀ a ∈ arguments, ∃ ds, Spells a ds ∧
        ds.length ≤ Text.digitLimit ∧ Nat.ofDigitChars 10 ds 0 ≤ 255) ∧
      (∀ bytes, input arguments = .ok (some bytes) ↔ List.Forall₂ StandsFor arguments bytes) ∧
      ((∃ bytes, input arguments = .ok (some bytes)) ∨ ∃ e, input arguments = .error e) ∧
      ∀ e, input arguments = .error e ↔ ∃ before a after, arguments = before ++ a :: after ∧
        (∀ x ∈ before, ∃ b, StandsFor x b) ∧ Flaw a e) ∧
    ∀ bytes : List UInt8, 2 ≤ bytes.length →
      input (bytes.map fun b => toString b.toNat) = .ok (some bytes) := by
  constructor
  · intro arguments h
    refine ⟨?_, fun _ => input_eq_ok_iff h, input_cases h, fun _ => input_eq_error_iff h⟩
    simp only [exists_input_iff h, exists_standsFor_iff]
  · intro bytes h
    refine (input_eq_ok_iff (by rwa [List.length_map])).mpr ?_
    refine List.forall₂_map_left_iff.mpr (List.forall₂_same.mpr ?_)
    exact fun b _ => standsFor_toString b

/-- A zero with as many digits as one likes. -/
def zeroText (n : ℕ) : String := String.ofList (List.replicate n '0')

theorem zeroText_spells {n : ℕ} (h : 0 < n) : Spells (zeroText n) (List.replicate n '0') := by
  refine spells_ofList ?_ fun c hc => (List.mem_replicate.mp hc).2 ▸ rfl
  rw [Ne, List.replicate_eq_nil_iff]
  exact Nat.ne_of_gt h

theorem zeroText_flaw {n : ℕ} (h : Text.digitLimit < n) :
    Flaw (zeroText n) (.refusal (.longNumeral n)) := by
  have hflaw := Flaw.long (zeroText_spells (Nat.zero_lt_of_lt h))
    (by rwa [List.length_replicate])
  rwa [List.length_replicate] at hflaw

theorem input_exact_flaws :
    2 ≤ ["+07\n", "255"].length ∧ input ["+07\n", "255"] = .ok (some [7, 255]) ∧
      input ["1", "-1", "256"] = .error (.fault (.badByte "-1" invalidDigit)) ∧
      input ["256", "-1"] = .error (.fault (.badByte "256" tooLarge)) ∧
      input ["1", zeroText 4301, "x"] = .error (.refusal (.longNumeral 4301)) ∧
      input (([0, 99, 255] : List UInt8).map fun b => toString b.toNat) =
        .ok (some [0, 99, 255]) := by
  obtain ⟨hinput, hbytes⟩ := input_exact
  have hdigits : ∀ {ds : List Char}, ds.all Char.isDigit = true → ∀ c ∈ ds, c.isDigit = true :=
    List.all_eq_true.mp
  have hseven : StandsFor "+07\n" 7 := ⟨['0', '7'],
    ⟨by decide, hdigits rfl, ['+'], ['\n'], Or.inr rfl, Or.inr rfl, rfl⟩, by decide, rfl⟩
  have hlast : StandsFor "255" 255 :=
    ⟨['2', '5', '5'], spells_ofList (by decide) (hdigits rfl), by decide, rfl⟩
  have hone : ∀ x ∈ ["1"], ∃ b, StandsFor x b := List.forall_mem_singleton.mpr
    ⟨1, ['1'], spells_ofList (by decide) (hdigits rfl), by decide, rfl⟩
  have hminus : ∀ ds, ¬ Spells "-1" ds := by
    intro ds hds
    cases hds.digits_eq
  have hlarge : Spells "256" ['2', '5', '6'] := spells_ofList (by decide) (hdigits rfl)
  obtain ⟨-, hgood, -⟩ := hinput ["+07\n", "255"] (by decide)
  obtain ⟨-, -, -, hshape⟩ := hinput ["1", "-1", "256"] (by decide)
  obtain ⟨-, -, -, hsize⟩ := hinput ["256", "-1"] (by decide)
  obtain ⟨-, -, -, hcount⟩ := hinput ["1", zeroText 4301, "x"] (by decide)
  refine ⟨by decide, (hgood _).mpr (.cons hseven (.cons hlast .nil)), ?_, ?_, ?_,
    hbytes _ (by decide)⟩
  · exact (hshape _).mpr ⟨["1"], "-1", ["256"], rfl, hone, .shape hminus⟩
  · exact (hsize _).mpr ⟨[], "256", ["-1"], rfl, nofun, .large hlarge (by decide) (by decide)⟩
  · exact (hcount _).mpr ⟨["1"], _, ["x"], rfl, hone, zeroText_flaw (by decide)⟩

end TapeMachine.ByteArgument
