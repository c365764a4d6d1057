import Mathlib.Algebra.Group.Int.Defs
import Mathlib.Algebra.Group.Nat.Defs
import TapeMachine.Fault
import TapeMachine.Value.Written

/-! # What can be written

An integer is written if it has few enough digits (`isWritable_iff`), and a text
that shows integers is there if each of them can be written, and refused for one
of them if not (`Text.guarded`, `Text.Shows`). So a fault is reported as it is or,
if a number in its message is too long, as the refusal of that number and of
nothing else (`Fault.raised_eq`). The numbers of a source are its positions, and
those of a run its cells and addresses; neither are ever too long. -/
namespace TapeMachine

namespace Text

variable {m n : ℤ}

theorem isWritable_iff : isWritable n = true ↔ n.natAbs < 10 ^ digitLimit := by
  rw [isWritable, decide_eq_true_iff, Nat.length_toDigits_le_iff (by decide) (by decide)]

theorem isWritable_of_le (h : isWritable n = true) (hle : m.natAbs ≤ n.natAbs) :
    isWritable m = true :=
  isWritable_iff.mpr (Nat.lt_of_le_of_lt hle (isWritable_iff.mp h))

/-- A number that fits in a word can be written. -/
theorem isWritable_of_word (h : n.natAbs ≤ 2 ^ 64) : isWritable n = true := by
  have hpow : 10 ^ 20 ≤ 10 ^ digitLimit := Nat.pow_le_pow_right (by decide) (by decide)
  exact isWritable_iff.mpr (by omega)

/-- The least number with more digits than a numeral may have. -/
theorem isWritable_pow : isWritable (10 ^ digitLimit) = false := by
  rw [Bool.eq_false_iff, ne_eq, isWritable_iff, Int.natAbs_pow, show Int.natAbs 10 = 10 from rfl]
  exact Nat.lt_irrefl _

/-- What shows some integers, if all of them can be written. -/
def guarded {α : Type} (numbers : List ℤ) (a : α) : Except Refusal α :=
  if numbers.all isWritable then .ok a else .error .longInteger

/-- Whether a text shows some integers and is refused for nothing but one of them. -/
def Shows {α : Type} (numbers : List ℤ) (x : Except Refusal α) : Prop := ∃ a, x = guarded numbers a

section Guarded

variable {α β : Type} {numbers numbers' : List ℤ} {a : α} {b : β} {x : Except Refusal α}

theorem guarded_of_all (h : numbers.all isWritable = true) : guarded numbers a = .ok a := if_pos h

theorem guarded_of_long (h : numbers.all isWritable = false) :
    guarded numbers a = .error .longInteger := if_neg (by simp [h])

theorem guarded_map (f : α → β) : (guarded numbers a).map f = guarded numbers (f a) := by
  cases h : numbers.all isWritable with
  | true => rw [guarded_of_all h, guarded_of_all h]; rfl
  | false => rw [guarded_of_long h, guarded_of_long h]; rfl

/-- Texts written one after the other show the integers of both. -/
theorem guarded_bind {f : α → Except Refusal β} (hf : f a = guarded numbers' b) :
    (guarded numbers a >>= f) = guarded (numbers ++ numbers') b := by
  cases h : numbers.all isWritable with
  | true =>
    rw [guarded_of_all h]
    show f a = _
    rw [hf, guarded, guarded, List.all_append, h, Bool.true_and]
  | false =>
    rw [guarded_of_long h, guarded_of_long (by simp [h])]
    rfl

theorem guarded_mapM {f : β → Except Refusal α} {numbersOf : β → List ℤ} {textOf : β → α}
    {l : List β} (h : ∀ b ∈ l, f b = guarded (numbersOf b) (textOf b)) :
    l.mapM f = guarded (l.flatMap numbersOf) (l.map textOf) := by
  induction l with
  | nil => rfl
  | cons b l ih =>
    obtain ⟨hb, hl⟩ := List.forall_mem_cons.mp h
    rw [List.mapM_cons, hb, ih hl, List.flatMap_cons, List.map_cons]
    refine guarded_bind ?_
    rw [bind_pure_comp]
    exact guarded_map _

theorem Shows.ok (a : α) : Shows [] (.ok a) := ⟨a, rfl⟩

theorem Shows.bind {f : α → Except Refusal β} (h : Shows numbers x)
    (hf : ∀ a, Shows numbers' (f a)) : Shows (numbers ++ numbers') (x >>= f) := by
  obtain ⟨a, rfl⟩ := h
  obtain ⟨b, hb⟩ := hf a
  exact ⟨b, guarded_bind hb⟩

theorem Shows.map (h : Shows numbers x) (f : α → β) : Shows numbers (x.map f) := by
  obtain ⟨a, rfl⟩ := h
  exact ⟨f a, guarded_map f⟩

theorem Shows.eq_ok (h : Shows numbers x) (hall : numbers.all isWritable = true) :
    ∃ a, x = .ok a := by
  obtain ⟨a, rfl⟩ := h
  exact ⟨a, guarded_of_all hall⟩

theorem Shows.eq_error (h : Shows numbers x) (hlong : numbers.all isWritable = false) :
    x = .error .longInteger := by
  obtain ⟨a, rfl⟩ := h
  exact guarded_of_long hlong

end Guarded

end Text

theorem decimalText_eq (n : ℤ) : decimalText n = Text.guarded [n] (toString n) := by
  rw [decimalText, Text.guarded, List.all_cons, List.all_nil, Bool.and_true]

theorem signedText_eq (n : ℤ) :
    signedText n = Text.guarded [n] (if n < 0 then toString n else "+" ++ toString n) := by
  rw [signedText, decimalText_eq, Text.guarded_map]

theorem decimalText_shows (n : ℤ) : Text.Shows [n] (decimalText n) := ⟨_, decimalText_eq n⟩

theorem signedText_shows (n : ℤ) : Text.Shows [n] (signedText n) := ⟨_, signedText_eq n⟩

/-! ## Values -/

namespace Value

mutual

/-- The integers in a value. -/
def integers : Value → List ℤ
  | .int n => [n]
  | .list values => integersAll values
  | .record fields => integersFields fields
  | .absent | .truth _ | .real _ | .text _ => []

def integersAll : List Value → List ℤ
  | [] => []
  | v :: rest => integers v ++ integersAll rest

def integersFields : List (String × Value) → List ℤ
  | [] => []
  | (_, v) :: rest => integers v ++ integersFields rest

end

/-- Whether the written form of a value is there. -/
def isWritable (v : Value) : Bool := v.integers.all Text.isWritable

mutual

theorem written_shows (v : Value) : Text.Shows v.integers v.written := by
  cases v with
  | absent | truth | real | text => exact .ok _
  | int n => exact decimalText_shows n
  | list values => exact (writtenAll_shows values).map _
  | record fields => exact (writtenFields_shows fields).map _

theorem writtenAll_shows (values : List Value) :
    Text.Shows (integersAll values) (writtenAll values) := by
  cases values with
  | nil => exact .ok _
  | cons v rest =>
    refine (written_shows v).bind fun text => ?_
    rw [bind_pure_comp]
    exact (writtenAll_shows rest).map (List.cons text)

theorem writtenFields_shows (fields : List (String × Value)) :
    Text.Shows (integersFields fields) (writtenFields fields) := by
  cases fields with
  | nil => exact .ok _
  | cons field rest =>
    obtain ⟨name, v⟩ := field
    refine (written_shows v).bind fun text => ?_
    rw [bind_pure_comp]
    exact (writtenFields_shows rest).map (List.cons (Text.quoted name ++ ": " ++ text))

end

/-- **A value where an instruction has to stand is refused as none, unless it cannot be shown.** -/
theorem unexpected_cases (v : Value) :
    (v.isWritable = true ∧ ∃ shown, v.written = .ok shown ∧ v.unexpected = .notInstruction shown) ∨
      v.isWritable = false ∧ v.unexpected = .longInteger := by
  rw [unexpected, isWritable]
  cases hall : v.integers.all Text.isWritable with
  | true =>
    obtain ⟨shown, hshown⟩ := v.written_shows.eq_ok hall
    exact Or.inl ⟨rfl, shown, hshown, by rw [hshown]⟩
  | false => exact Or.inr ⟨rfl, by rw [v.written_shows.eq_error hall]⟩

end Value

/-! ## Faults -/

namespace Fault

variable {f g : Fault} {position value pointer : ℤ} {r : Refusal}

/-- The integers that the message of a fault shows. -/
def numbers : Fault → List ℤ
  | unknownCharacter _ position _ | unclosedLoop position _ | unopenedLoop position _ => [position]
  | missingInput position | unlinkedBracket position | fullTape position => [position]
  | endlessDrain position value pointer => [position, value, pointer]
  | missedZero position step => [position, step]
  | misuse _ | noSource | badByte .. => []

/-- Whether the message of a fault can be written. -/
def isWritable (f : Fault) : Bool := f.numbers.all Text.isWritable

section Positions

variable (source char : String) (position : ℤ)

@[simp] theorem isWritable_unknownCharacterIn :
    (unknownCharacterIn source char position).isWritable = Text.isWritable position :=
  Bool.and_true _

@[simp] theorem isWritable_unopenedLoopIn :
    (unopenedLoopIn source position).isWritable = Text.isWritable position := Bool.and_true _

@[simp] theorem isWritable_unclosedLoopIn :
    (unclosedLoopIn source position).isWritable = Text.isWritable position := Bool.and_true _

@[simp] theorem isWritable_missingInput :
    (missingInput position).isWritable = Text.isWritable position := Bool.and_true _

@[simp] theorem isWritable_unlinkedBracket :
    (unlinkedBracket position).isWritable = Text.isWritable position := Bool.and_true _

@[simp] theorem isWritable_fullTape :
    (fullTape position).isWritable = Text.isWritable position := Bool.and_true _

end Positions

theorem message_shows (f : Fault) : Text.Shows f.numbers f.message := by
  cases f with
  | misuse | noSource | badByte => exact .ok _
  | endlessDrain position value pointer =>
    exact (decimalText_shows position).bind fun _ => (decimalText_shows value).bind fun _ =>
      (decimalText_shows pointer).bind fun _ => .ok _
  | missedZero position step =>
    exact (decimalText_shows position).bind fun _ => (signedText_shows step).bind fun _ => .ok _
  | unknownCharacter _ position | unclosedLoop position | unopenedLoop position
  | missingInput position | unlinkedBracket position | fullTape position =>
    exact (decimalText_shows position).bind fun _ => .ok _

/-- **A fault is reported as it is, unless its message cannot be written.** -/
theorem raised_eq (f : Fault) :
    f.raised = if f.isWritable then .fault f else .refusal .longInteger := by
  rw [raised, isWritable]
  cases hall : f.numbers.all Text.isWritable with
  | true =>
    obtain ⟨text, htext⟩ := f.message_shows.eq_ok hall
    rw [htext, if_pos rfl]
  | false =>
    rw [f.message_shows.eq_error hall]
    rfl

theorem raised_of_writable (h : f.isWritable = true) : f.raised = .fault f := by
  rw [raised_eq, if_pos h]

theorem raised_of_long (h : f.isWritable = false) : f.raised = .refusal .longInteger := by
  rw [raised_eq, if_neg (by simp [h])]

theorem raised_eq_fault : f.raised = .fault g ↔ f.isWritable = true ∧ f = g := by
  cases h : f.isWritable with
  | true => simp [raised_of_writable h]
  | false => simp [raised_of_long h]

theorem raised_eq_refusal : f.raised = .refusal r ↔ f.isWritable = false ∧ r = .longInteger := by
  cases h : f.isWritable with
  | true => simp [raised_of_writable h]
  | false => simp [raised_of_long h, eq_comm]

end Fault

end TapeMachine
