import TapeMachine.Listing
import TapeMachine.Proofs.Congruence
import TapeMachine.Proofs.Numerals
import TapeMachine.Proofs.Writing

/-! # What a listing shows

A listing shows a program up to the choice of its amounts: two programs have the
same listing exactly if they are the same once their amounts are reduced to
residues (`listing_eq_iff`). The text falls apart at its line ends, a row at the
blanks behind its numbers, and a description at the blanks and brackets in it. A
number may run over its column, but holds no blank itself. What a listing shows of
integers without a bound are positions and targets, and if all of them can be
written there is one (`listing_instructions`). -/
namespace TapeMachine

/-! ## Texts that fall apart -/

section Texts

variable {c : Char} {m n : ℤ}

/-- A text is cut in one way in front of the first separator. -/
theorem cut_unique {a a' r r' : List Char} (ha : c ∉ a) (ha' : c ∉ a')
    (hr : ∀ d ∈ r.head?, d = c) (hr' : ∀ d ∈ r'.head?, d = c) (h : a ++ r = a' ++ r') :
    a = a' ∧ r = r' := by
  rcases List.append_eq_append_iff.mp h with ⟨middle, rfl, rfl⟩ | ⟨middle, rfl, rfl⟩
  · cases middle with
    | nil => simp
    | cons d middle =>
      obtain rfl : d = c := hr d rfl
      simp at ha'
  · cases middle with
    | nil => simp
    | cons d middle =>
      obtain rfl : d = c := hr' d rfl
      simp at ha

/-- Lines that are not empty can be told from the text that they make. -/
theorem lines_unique {l l' : List String} (hl : ∀ s ∈ l, s ≠ "" ∧ '\n' ∉ s.toList)
    (hl' : ∀ s ∈ l', s ≠ "" ∧ '\n' ∉ s.toList)
    (h : "\n".intercalate l = "\n".intercalate l') : l = l' := by
  -- no lines and one empty line make the same text, which is why none may be empty
  have hsplit : ∀ k : List String, (∀ s ∈ k, s ≠ "" ∧ '\n' ∉ s.toList) →
      k.map String.toList = if "\n".intercalate k = "" then []
        else ("\n".intercalate k).toList.splitOn '\n' := by
    intro k hk
    cases k with
    | nil => rfl
    | cons s k =>
      have hlines : ("\n".intercalate (s :: k)).toList.splitOn '\n' =
          (s :: k).map String.toList := by
        rw [String.toList_intercalate]
        refine List.splitOn_intercalate '\n' ?_ (by simp)
        exact List.forall_mem_map.mpr fun t ht => (hk t ht).2
      rw [if_neg, hlines]
      intro hempty
      rw [hempty] at hlines
      have hs : [] = s.toList := (List.cons.inj hlines).1
      exact (hk s List.mem_cons_self).1 (String.toList_injective hs.symm)
  have hchars := (hsplit l hl).trans (h ▸ (hsplit l' hl').symm)
  exact List.map_injective_iff.mpr (fun _ _ => String.toList_injective) hchars

/-! ## Numbers -/

theorem not_mem_digits (hc : c.isDigit = false) (n : ℕ) : c ∉ Nat.toDigits 10 n := by
  intro hmem
  cases hc.symm.trans (Text.digits_isDigit c hmem)

theorem not_mem_toString (hc : c.isDigit = false) (hminus : c ≠ '-') (n : ℤ) :
    c ∉ (toString n).toList := by
  rw [Text.toList_toString, Text.signOf, List.mem_append, not_or]
  refine ⟨?_, not_mem_digits hc _⟩
  split <;> simp [hminus]

/-- An integer with its sign, of any length. -/
def signedForm (n : ℤ) : String := if n < 0 then toString n else "+" ++ toString n

theorem toList_signedForm (n : ℤ) : (signedForm n).toList =
    (if n < 0 then '-' else '+') :: Nat.toDigits 10 n.natAbs := by
  rw [signedForm]
  by_cases hneg : n < 0
  · rw [if_pos hneg, if_pos hneg, Text.toList_toString, Text.signOf, if_pos hneg]
    rfl
  · rw [if_neg hneg, if_neg hneg, String.toList_append, Text.toList_toString, Text.signOf,
      if_neg hneg]
    rfl

theorem not_mem_signedForm (hc : c.isDigit = false) (hminus : c ≠ '-') (hplus : c ≠ '+') (n : ℤ) :
    c ∉ (signedForm n).toList := by
  rw [toList_signedForm, List.mem_cons, not_or]
  refine ⟨?_, not_mem_digits hc _⟩
  split <;> assumption

theorem natAbs_of_digits (h : Nat.toDigits 10 m.natAbs = Nat.toDigits 10 n.natAbs) :
    m.natAbs = n.natAbs := by
  rw [← Nat.ofDigitChars_ten_toDigits (n := m.natAbs), h, Nat.ofDigitChars_ten_toDigits]

theorem toString_injective (h : toString m = toString n) : m = n := by
  have hparts := Text.splitSign_toString m
  rw [h, Text.splitSign_toString] at hparts
  obtain ⟨hsign, hdigits⟩ := Prod.mk.inj hparts
  have habs := natAbs_of_digits hdigits
  split at hsign <;> split at hsign <;> omega

theorem signedForm_injective (h : signedForm m = signedForm n) : m = n := by
  have hchars := congrArg String.toList h
  rw [toList_signedForm, toList_signedForm] at hchars
  obtain ⟨hsign, hdigits⟩ := List.cons.inj hchars
  have habs := natAbs_of_digits hdigits
  split at hsign <;> split at hsign <;> first | omega | cases hsign

end Texts

/-! ## Instructions -/

namespace Op

/-- Whether the amounts of an instruction are residues. -/
def Wrapped : Op → Prop
  | add delta => 0 ≤ delta ∧ delta ≤ 255
  | move offset => 0 ≤ offset ∧ offset ≤ 65535
  | drain step => 0 ≤ step ∧ step ≤ 255
  | transfer offset sourceDelta destDelta => (0 ≤ offset ∧ offset ≤ 65535) ∧
      (0 ≤ sourceDelta ∧ sourceDelta ≤ 255) ∧ 0 ≤ destDelta ∧ destDelta ≤ 255
  | _ => True

/-- The instruction with its amounts reduced to residues. -/
def reduced : Op → Op
  | add delta => add (Cell.wrap delta)
  | move offset => move (Offset.wrap offset)
  | drain step => drain (Cell.wrap step)
  | transfer offset sourceDelta destDelta =>
    transfer (Offset.wrap offset) (Cell.wrap sourceDelta) (Cell.wrap destDelta)
  | op => op

/-- The word that a description starts with. -/
def keyword : Op → String
  | add _ => "add"
  | move _ => "move"
  | input => "input"
  | output => "output"
  | opening _ => "open"
  | closing _ => "close"
  | clear => "clear"
  | scanLeft | scanRight => "scan"
  | drain _ => "drain"
  | transfer _ _ _ => "transfer"

/-- A target, of any length. -/
def targetForm : Option ℤ → String
  | some target => toString target
  | none => "None"

/-- What follows the first word of a description. -/
def details : Op → String
  | add delta | drain delta => " " ++ signedForm (Cell.signed delta)
  | move offset => " " ++ signedForm (Offset.signed offset)
  | input | output | clear => ""
  | opening target | closing target => " -> " ++ targetForm target
  | scanLeft => " -1"
  | scanRight => " +1"
  | transfer offset sourceDelta destDelta =>
    " [" ++ signedForm (Offset.signed offset) ++ "] src " ++
      signedForm (Cell.signed sourceDelta) ++ " dst " ++ signedForm (Cell.signed destDelta)

variable {op op' : Op} {a b : ℤ} {t t' : Option ℤ}

theorem signedText_cell (a : ℤ) :
    signedText (Cell.signed a) = .ok (signedForm (Cell.signed a)) := by
  rw [signedText_eq, Text.guarded_of_all]
  · rfl
  · have hlow := Int.le_bmod (x := a) (m := 256) (by decide)
    have hhigh := Int.bmod_lt (x := a) (m := 256) (by decide)
    simp only [List.all_cons, List.all_nil, Bool.and_true]
    exact Text.isWritable_of_word (by rw [Cell.signed]; omega)

theorem signedText_offset (a : ℤ) :
    signedText (Offset.signed a) = .ok (signedForm (Offset.signed a)) := by
  rw [signedText_eq, Text.guarded_of_all]
  · rfl
  · have hlow := Int.le_bmod (x := a) (m := 65536) (by decide)
    have hhigh := Int.bmod_lt (x := a) (m := 65536) (by decide)
    simp only [List.all_cons, List.all_nil, Bool.and_true]
    exact Text.isWritable_of_word (by rw [Offset.signed]; omega)

theorem targetText_eq (target : Option ℤ) :
    targetText target = Text.guarded target.toList (targetForm target) := by
  cases target with
  | none => rfl
  | some t => exact decimalText_eq t

/-- A description, of any length. -/
def form (op : Op) : String := op.keyword ++ op.details

/-- Of the integers in a description only a target can be too long. -/
theorem describe_eq (op : Op) : op.describe = Text.guarded op.target?.toList op.form := by
  have htarget : ∀ keyword target, (do return keyword ++ (← targetText target)) =
      Text.guarded target.toList (keyword ++ targetForm target) := by
    intro keyword target
    rw [targetText_eq, bind_pure_comp]
    exact Text.guarded_map _
  cases op with
  | opening target =>
    refine (htarget "open -> " target).trans (congrArg (Text.guarded _) ?_)
    simp [form, keyword, details, ← String.toList_inj]
  | closing target =>
    refine (htarget "close -> " target).trans (congrArg (Text.guarded _) ?_)
    simp [form, keyword, details, ← String.toList_inj]
  | add | move | drain | transfer =>
    simp only [describe, signedText_cell, signedText_offset]
    refine congrArg Except.ok ?_
    simp [form, keyword, details, ← String.toList_inj]
  | input | output | clear | scanLeft | scanRight => rfl

/-! ### Amounts -/

/-- The residue nearest to zero tells as much as the residue. -/
theorem bmod_eq_bmod_iff {n : ℕ} : a.bmod n = b.bmod n ↔ a % n = b % n := by
  constructor
  · intro h
    rw [← Int.bmod_emod, h, Int.bmod_emod]
  · intro h
    rw [← Int.emod_bmod, h, Int.emod_bmod]

theorem cellForm_eq_iff :
    signedForm (Cell.signed a) = signedForm (Cell.signed b) ↔ Cell.wrap a = Cell.wrap b :=
  ⟨fun h => bmod_eq_bmod_iff.mp (signedForm_injective h),
    fun h => congrArg signedForm (bmod_eq_bmod_iff.mpr h)⟩

theorem offsetForm_eq_iff :
    signedForm (Offset.signed a) = signedForm (Offset.signed b) ↔ Offset.wrap a = Offset.wrap b :=
  ⟨fun h => bmod_eq_bmod_iff.mp (signedForm_injective h),
    fun h => congrArg signedForm (bmod_eq_bmod_iff.mpr h)⟩

theorem targetForm_injective (h : targetForm t = targetForm t') : t = t' := by
  have hnone : ∀ n : ℤ, toString n ≠ "None" := by
    intro n hn
    exact not_mem_toString (c := 'N') rfl (by decide) n (by rw [hn]; decide)
  cases t with
  | none =>
    cases t' with
    | none => rfl
    | some n => exact absurd h.symm (hnone n)
  | some m =>
    cases t' with
    | none => exact absurd h (hnone m)
    | some n => rw [toString_injective h]

/-- The three amounts of a transfer can be told apart in its description. -/
theorem transfer_details {o o' s s' d d' : ℤ}
    (h : (transfer o s d).details = (transfer o' s' d').details) :
    (transfer o s d).reduced = (transfer o' s' d').reduced := by
  have hchars := congrArg String.toList h
  simp only [details, String.toList_append, List.append_assoc, List.append_cancel_left_eq] at hchars
  have hbracket : ∀ n, ']' ∉ (signedForm n).toList := fun n =>
    not_mem_signedForm rfl (by decide) (by decide) n
  have hblank : ∀ n, ' ' ∉ (signedForm n).toList := fun n =>
    not_mem_signedForm rfl (by decide) (by decide) n
  obtain ⟨hoffset, hrest⟩ := cut_unique (hbracket _) (hbracket _) (by simp) (by simp) hchars
  obtain ⟨hsource, hdest⟩ := cut_unique (hblank _) (hblank _) (by simp) (by simp)
    (List.append_cancel_left hrest)
  have hoffset' := offsetForm_eq_iff.mp (String.toList_injective hoffset)
  have hsource' := cellForm_eq_iff.mp (String.toList_injective hsource)
  have hdest' := cellForm_eq_iff.mp (String.toList_injective (List.append_cancel_left hdest))
  simp only [reduced, hoffset', hsource', hdest']

/-! ### Descriptions -/

theorem blank_not_mem_keyword (op : Op) : ' ' ∉ op.keyword.toList := by
  cases op <;> simp [keyword]

theorem details_head (op : Op) : ∀ c ∈ op.details.toList.head?, c = ' ' := by
  cases op <;> simp [details]

/-- A description tells the instruction, but for the choice of amounts. -/
theorem reduced_of_form (h : op.form = op'.form) : op.reduced = op'.reduced := by
  have hchars := congrArg String.toList h
  rw [form, form, String.toList_append, String.toList_append] at hchars
  obtain ⟨hkeyword, hdetails⟩ := cut_unique (blank_not_mem_keyword op)
    (blank_not_mem_keyword op') (details_head op) (details_head op') hchars
  replace hkeyword := String.toList_injective hkeyword
  replace hdetails := String.toList_injective hdetails
  cases op with
  | add delta =>
    cases op' with
    | add delta' =>
      simp only [details, String.append_right_inj, cellForm_eq_iff] at hdetails
      rw [reduced, reduced, hdetails]
    | _ => simp [keyword] at hkeyword
  | move offset =>
    cases op' with
    | move offset' =>
      simp only [details, String.append_right_inj, offsetForm_eq_iff] at hdetails
      rw [reduced, reduced, hdetails]
    | _ => simp [keyword] at hkeyword
  | opening target =>
    cases op' with
    | opening target' =>
      rw [targetForm_injective ((String.append_right_inj _).mp hdetails)]
    | _ => simp [keyword] at hkeyword
  | closing target =>
    cases op' with
    | closing target' =>
      rw [targetForm_injective ((String.append_right_inj _).mp hdetails)]
    | _ => simp [keyword] at hkeyword
  | drain step =>
    cases op' with
    | drain step' =>
      simp only [details, String.append_right_inj, cellForm_eq_iff] at hdetails
      rw [reduced, reduced, hdetails]
    | _ => simp [keyword] at hkeyword
  | transfer offset sourceDelta destDelta =>
    cases op' with
    | transfer => exact transfer_details hdetails
    | _ => simp [keyword] at hkeyword
  | input | output | clear | scanLeft | scanRight =>
    cases op' <;> first | rfl | simp [keyword, details] at hkeyword hdetails

theorem form_reduced (op : Op) : op.reduced.form = op.form := by
  have hcell : ∀ a, Cell.signed (Cell.wrap a) = Cell.signed a := fun a => Int.emod_bmod a 256
  have hoffset : ∀ a, Offset.signed (Offset.wrap a) = Offset.signed a := fun a =>
    Int.emod_bmod a 65536
  cases op <;> simp only [reduced, form, keyword, details, hcell, hoffset]

theorem Wrapped.reduced (h : op.Wrapped) : op.reduced = op := by
  have hcell : ∀ a : ℤ, 0 ≤ a ∧ a ≤ 255 → Cell.wrap a = a := fun a ha =>
    Int.emod_eq_of_lt ha.1 (by omega)
  have hoffset : ∀ a : ℤ, 0 ≤ a ∧ a ≤ 65535 → Offset.wrap a = a := fun a ha =>
    Int.emod_eq_of_lt ha.1 (by omega)
  cases op with
  | add delta | drain delta => rw [Op.reduced, hcell delta h]
  | move offset => rw [Op.reduced, hoffset offset h]
  | transfer offset sourceDelta destDelta =>
    rw [Op.reduced, hoffset offset h.1, hcell sourceDelta h.2.1, hcell destDelta h.2.2]
  | input | output | opening | closing | clear | scanLeft | scanRight => rfl

theorem Congruent.reduced (h : op.Congruent 65536 op') : op.reduced = op'.reduced := by
  cases h with
  | same => rfl
  | add h | drain h =>
    have hcell : Cell.wrap _ = Cell.wrap _ := h
    rw [Op.reduced, Op.reduced, hcell]
  | move h =>
    have hoffset : Offset.wrap _ = Offset.wrap _ := h
    rw [Op.reduced, Op.reduced, hoffset]
  | transfer ho hs hd =>
    have hoffset : Offset.wrap _ = Offset.wrap _ := ho
    have hsource : Cell.wrap _ = Cell.wrap _ := hs
    have hdest : Cell.wrap _ = Cell.wrap _ := hd
    simp only [Op.reduced, hoffset, hsource, hdest]

end Op

/-! ## Rows -/

/-- A row, of any length. -/
def Instruction.form (i : Instruction) (index : ℕ) : String :=
  padding 6 (toString index) ++ toString index ++ "  @" ++ toString i.position ++
    padding 6 (toString i.position) ++ " " ++ i.op.form

/-- The integers without a bound that a row shows. -/
def Instruction.integers (i : Instruction) : List ℤ := i.position :: i.op.target?.toList

/-- Whether the row of an instruction can be written. -/
def Instruction.isWritable (i : Instruction) : Bool := i.integers.all Text.isWritable

/-- The rows of a program that starts at an index. -/
def rowsFrom (base : ℕ) (program : List Instruction) : List String :=
  (program.zipIdx base).map fun (i, index) => i.form index

/-- The instruction with its amounts reduced to residues. -/
def Instruction.reduced (i : Instruction) : Instruction := ⟨i.op.reduced, i.position⟩

section Rows

variable {i j : Instruction} {k : ℕ} {p q : List Instruction} {l l' : List Item}

/-- Behind a number stands a blank, whether or not its column is full. -/
theorem padded_head (width : ℕ) (s t : String) :
    ∀ c ∈ (padding width s ++ (" " ++ t)).toList.head?, c = ' ' := by
  rw [String.toList_append, padding, String.toList_ofList]
  cases width - s.length with
  | zero => simp
  | succ n => simp [List.replicate_succ]

theorem row_eq (i : Instruction) (k : ℕ) : i.row k = Text.guarded i.integers (i.form k) := by
  rw [Instruction.row, decimalText_eq]
  show _ = Text.guarded ([i.position] ++ i.op.target?.toList) _
  refine Text.guarded_bind ?_
  rw [Op.describe_eq, bind_pure_comp]
  exact Text.guarded_map _

/-- Rows with one index are the same if they show the same instruction. -/
theorem form_eq_iff : i.form k = j.form k ↔ i.reduced = j.reduced := by
  constructor
  · intro h
    have htail : toString i.position ++ (padding 6 (toString i.position) ++
        (" " ++ i.op.form)) = toString j.position ++ (padding 6 (toString j.position) ++
        (" " ++ j.op.form)) := by
      simpa only [Instruction.form, String.append_assoc, String.append_right_inj] using h
    -- the position ends at the first blank, even where it runs over its column
    have hblank : ∀ n : ℤ, ' ' ∉ (toString n).toList := not_mem_toString rfl (by decide)
    have hchars := congrArg String.toList htail
    rw [String.toList_append, String.toList_append (s := toString j.position)] at hchars
    obtain ⟨hposition, -⟩ := cut_unique (hblank _) (hblank _) (padded_head _ _ _)
      (padded_head _ _ _) hchars
    have hsame : i.position = j.position := toString_injective (String.toList_injective hposition)
    rw [hsame] at htail
    simp only [String.append_right_inj] at htail
    rw [Instruction.reduced, Op.reduced_of_form htail, hsame, Instruction.reduced]
  · intro h
    obtain ⟨hop, hposition⟩ := Instruction.mk.inj h
    rw [Instruction.form, Instruction.form, hposition, ← Op.form_reduced, hop, Op.form_reduced]

theorem integers_reduced (i : Instruction) : i.reduced.integers = i.integers := by
  obtain ⟨op, position⟩ := i
  cases op <;> rfl

/-- No row holds a line end or a quote. -/
theorem not_mem_form {c : Char} (hc : c = '\n' ∨ c = '"') (i : Instruction) (k : ℕ) :
    c ∉ (i.form k).toList := by
  have hdigit : c.isDigit = false := by rcases hc with rfl | rfl <;> rfl
  have hminus : c ≠ '-' := by rcases hc with rfl | rfl <;> decide
  have hplus : c ≠ '+' := by rcases hc with rfl | rfl <;> decide
  have hpadding : ∀ width s, c ∉ (padding width s).toList := by
    intro width s
    rw [padding, String.toList_ofList, List.mem_replicate]
    rintro ⟨-, rfl⟩
    rcases hc with h | h <;> cases h
  have hnumber : ∀ n : ℤ, c ∉ (toString n).toList := not_mem_toString hdigit hminus
  have hindex : c ∉ (toString k).toList := hnumber k
  have hsigned : ∀ n : ℤ, c ∉ (signedForm n).toList := not_mem_signedForm hdigit hminus hplus
  have htarget : ∀ t, c ∉ (Op.targetForm t).toList := by
    intro t
    cases t with
    | none => rcases hc with rfl | rfl <;> decide
    | some n => exact hnumber n
  have hop : c ∉ i.op.form.toList := by
    rcases hc with rfl | rfl <;> cases i.op <;>
      simp [Op.form, Op.keyword, Op.details, hsigned, htarget]
  simp only [Instruction.form, String.toList_append, List.mem_append, hpadding, hindex, hnumber,
    hop]
  rcases hc with rfl | rfl <;> decide

theorem form_ne_empty (i : Instruction) (k : ℕ) : i.form k ≠ "" := by
  intro h
  have hchars := congrArg String.toList h
  simp [Instruction.form] at hchars

theorem rowsFrom_lines (base : ℕ) (p : List Instruction) :
    ∀ s ∈ rowsFrom base p, s ≠ "" ∧ '\n' ∉ s.toList := by
  refine List.forall_mem_map.mpr ?_
  exact fun x _ => ⟨form_ne_empty x.1 x.2, not_mem_form (Or.inl rfl) x.1 x.2⟩

theorem rowsFrom_eq_iff (base : ℕ) :
    rowsFrom base p = rowsFrom base q ↔ p.map Instruction.reduced = q.map Instruction.reduced := by
  induction p generalizing q base with
  | nil => cases q <;> simp [rowsFrom]
  | cons i p ih =>
    cases q with
    | nil => simp [rowsFrom]
    | cons j q =>
      have hcons : ∀ i p, rowsFrom base (i :: p) = i.form base :: rowsFrom (base + 1) p :=
        fun _ _ => rfl
      rw [hcons, hcons, List.map_cons, List.map_cons, List.cons_eq_cons, List.cons_eq_cons,
        form_eq_iff, ih]

/-- No quote is in a listing. -/
theorem quote_not_mem_rows (base : ℕ) (p : List Instruction) :
    '"' ∉ ("\n".intercalate (rowsFrom base p)).toList := by
  have hrows : ∀ row ∈ rowsFrom base p, '"' ∉ row.toList :=
    List.forall_mem_map.mpr fun x _ => not_mem_form (Or.inr rfl) x.1 x.2
  rw [String.toList_intercalate]
  generalize rowsFrom base p = rows at hrows
  induction rows with
  | nil => exact List.not_mem_nil
  | cons row rows ih =>
    cases rows with
    | nil => simpa using hrows
    | cons row' rows =>
      obtain ⟨hrow, hrows⟩ := List.forall_mem_cons.mp hrows
      have hrest := ih hrows
      simp only [List.map_cons, List.intercalate_cons_cons, List.mem_append, not_or] at hrest ⊢
      exact ⟨⟨hrow, by decide⟩, hrest⟩

/-- A list of instructions has a listing if its positions and targets can be written. -/
theorem listing_instructions (p : List Instruction) : listing (p.map .instr) =
    Text.guarded (p.flatMap Instruction.integers) ("\n".intercalate (rowsFrom 0 p)) := by
  have hrows : p.zipIdx.mapM (fun x => x.1.row x.2) =
      Text.guarded (p.zipIdx.flatMap fun x => x.1.integers) (rowsFrom 0 p) :=
    Text.guarded_mapM fun x _ => row_eq x.1 x.2
  have hintegers : (p.zipIdx.flatMap fun x => x.1.integers) = p.flatMap Instruction.integers := by
    conv_rhs => rw [← List.zipIdx_map_fst 0 p, List.flatMap_map]
  rw [hintegers] at hrows
  rw [listing, List.zipIdx_map, List.mapM_map]
  exact (congrArg (Except.map "\n".intercalate) hrows).trans (Text.guarded_map _)

theorem all_integers_iff :
    (p.flatMap Instruction.integers).all Text.isWritable = true ↔ ∀ i ∈ p, i.isWritable = true := by
  rw [List.all_flatMap, List.all_eq_true]
  rfl

theorem listing_of_writable (h : ∀ i ∈ p, i.isWritable = true) :
    listing (p.map .instr) = .ok ("\n".intercalate (rowsFrom 0 p)) := by
  rw [listing_instructions, Text.guarded_of_all (all_integers_iff.mpr h)]

theorem listing_of_long (h : ¬ ∀ i ∈ p, i.isWritable = true) :
    listing (p.map .instr) = .error .longInteger := by
  rw [listing_instructions, Text.guarded_of_long]
  rwa [← all_integers_iff, Bool.not_eq_true] at h

/-- **A listing shows a program but for the choice of its amounts.** -/
theorem listing_eq_iff (hp : ∀ i ∈ p, i.isWritable = true) :
    listing (p.map .instr) = listing (q.map .instr) ↔
      p.map Instruction.reduced = q.map Instruction.reduced := by
  rw [listing_of_writable hp]
  constructor
  · intro h
    by_cases hq : ∀ i ∈ q, i.isWritable = true
    · rw [listing_of_writable hq] at h
      rw [← rowsFrom_eq_iff 0]
      exact lines_unique (rowsFrom_lines 0 p) (rowsFrom_lines 0 q) (Except.ok.inj h)
    · rw [listing_of_long hq] at h
      cases h
  · intro h
    have hsame : q.flatMap Instruction.integers = p.flatMap Instruction.integers := by
      have hreduced : ∀ l : List Instruction, l.flatMap Instruction.integers =
          (l.map Instruction.reduced).flatMap Instruction.integers := by
        intro l
        rw [List.flatMap_map]
        exact congrArg l.flatMap (funext fun i => (integers_reduced i).symm)
      rw [hreduced, ← h, ← hreduced]
    have hq : ∀ i ∈ q, i.isWritable = true := by
      rwa [← all_integers_iff, hsame, all_integers_iff]
    rw [listing_of_writable hq, (rowsFrom_eq_iff 0).mpr h]

example : listing [.instr ⟨.add 128, 12345678⟩, .instr ⟨.opening none, -1⟩] =
    .ok "     0  @12345678 add -128\n     1  @-1     open -> None" := by rfl

theorem row_congr {x x' : Item} (h : x.Congruent 65536 x') (index : ℕ) :
    x.row index = x'.row index := by
  rcases h with ⟨hop, position⟩ | v
  · have hreduced : (Instruction.mk _ position).reduced = (Instruction.mk _ position).reduced :=
      congrArg (Instruction.mk · position) hop.reduced
    show Instruction.row _ index = Instruction.row _ index
    rw [row_eq, row_eq, form_eq_iff.mpr hreduced, ← integers_reduced, hreduced, integers_reduced]
  · rfl

/-- Congruent items have the same rows, or fail alike. -/
theorem rows_congr (h : List.Forall₂ (Item.Congruent 65536) l l') (base : ℕ) :
    (l.zipIdx base).map (fun x => Item.row x.1 x.2) =
      (l'.zipIdx base).map (fun x => Item.row x.1 x.2) := by
  induction h generalizing base with
  | nil => rfl
  | cons hx _ ih => rw [List.zipIdx_cons, List.zipIdx_cons, List.map_cons, List.map_cons,
      row_congr hx, ih]

theorem listing_congr (h : List.Forall₂ (Item.Congruent 65536) l l') : listing l = listing l' := by
  have hrows : ∀ k : List Item, listing k =
      (((k.zipIdx 0).map fun x => Item.row x.1 x.2).mapM id).map "\n".intercalate := by
    intro k
    rw [List.mapM_map]
    rfl
  rw [hrows, hrows, rows_congr h]

end Rows

/-- Amounts at the ends of their ranges, a position that runs over its column, and a target below
zero beside a missing one. -/
def wideRows : List Instruction :=
  [⟨.add 128, 12345678⟩, ⟨.transfer 32768 255 0, -1⟩, ⟨.opening (some (-1)), 0⟩, ⟨.opening none, 0⟩]

end TapeMachine
