import Mathlib.Data.Nat.Notation
import TapeMachine.Source
import TapeMachine.Proofs.Brackets
import TapeMachine.Proofs.Linkage
import TapeMachine.Proofs.Steps
import TapeMachine.Proofs.Writing

/-! # Reading a source

A source over the eight characters is read character by character: each becomes
one instruction with the position and the bracket of its character. What is said
about the brackets of the instructions is said about those of the source. -/
namespace TapeMachine

namespace Source

/-- The characters that are instructions. -/
def alphabet : List Char := ['+', '-', '<', '>', ',', '.', '[', ']']

/-- The end of a loop that a character marks. -/
def side? (p : Char × ℕ) : Option Side :=
  match p.1 with
  | '[' => some .opening
  | ']' => some .closing
  | _ => none

/-- The instruction of a character at its position. A character outside the alphabet has none, and
what is made of it here is never read. -/
def instruction (p : Char × ℕ) : Instruction := ⟨(Op.ofChar? p.1).getD .input, p.2⟩

/-- The same as an item of a stream. -/
def item (p : Char × ℕ) : Item := .instr (instruction p)

/-- Whether a source has no character outside the alphabet. -/
def Clean (source : String) : Prop := ∀ p ∈ placed source, p.1 ∈ alphabet

/-- Whether the positions in a source can be written. They can in every text there is: none has
2 ^ 63 characters, and only positions from 10 ^ 4300 on are too long. -/
def Numbered (source : String) : Prop := Text.isWritable source.length = true

/-- Whether a character is outside the alphabet, wherever it stands. -/
def Strange (_ : List (Char × ℕ)) (p : Char × ℕ) (_ : List (Char × ℕ)) : Prop := p.1 ∉ alphabet

variable {source : String}

theorem mem_alphabet_iff {c : Char} : c ∈ alphabet ↔ (Op.ofChar? c).isSome := by
  constructor
  · intro h
    fin_cases h <;> rfl
  · intro h
    unfold Op.ofChar? at h
    split at h <;> first | decide | cases h

theorem instruction_side (p : Char × ℕ) : Instruction.side? (instruction p) = side? p := by
  unfold Instruction.side? instruction side? Op.ofChar?
  split <;> simp_all [Op.side?]

theorem item_side (p : Char × ℕ) : (item p).side? = side? p := instruction_side p

/-- A bracket of either side has one character. -/
theorem char_of_side {p : Char × ℕ} {side : Side} (h : (item p).side? = some side) :
    p.1 = match side with
      | .opening => '['
      | .closing => ']' := by
  rw [item_side, side?] at h
  split at h <;> cases h <;> assumption

theorem instruction_unlinked (p : Char × ℕ) : (instruction p).unlinked = instruction p := by
  unfold Instruction.unlinked instruction Op.ofChar?
  split <;> rfl

theorem unlinked_items (l : List (Char × ℕ)) : (l.map item).map .unlinked = l.map item := by
  rw [List.map_map]
  apply List.map_congr_left
  intro p _
  show (Item.instr (instruction p)).unlinked = .instr (instruction p)
  rw [item_unlinked, instruction_unlinked]

theorem instruction_fits (p : Char × ℕ) : (instruction p).op.FitsWords := by
  unfold instruction Op.ofChar?
  split <;> simp [Op.FitsWords, Op.fields]

theorem position_le {p : Char × ℕ} (h : p ∈ placed source) : p.2 ≤ source.length := by
  obtain ⟨-, hlt, -⟩ := List.mem_zipIdx h
  rw [String.length_toList] at hlt
  omega

/-- No source that fits in a memory has too many characters for its positions to be written. -/
theorem Numbered.of_length (h : source.length < 2 ^ 63) : Numbered source :=
  Text.isWritable_of_word (by omega)

theorem Numbered.position {p : Char × ℕ} (h : Numbered source) (hp : p ∈ placed source) :
    Text.isWritable p.2 = true :=
  Text.isWritable_of_le h (by simpa using position_le hp)

/-- A clean source is read to the instructions of its characters. -/
theorem read_of_clean (h : Clean source) :
    read source = .ok ((placed source).map instruction) := by
  have hstranger : stranger? source = none := by
    rw [stranger?, List.find?_eq_none]
    intro p hp
    simpa using Option.isSome_iff_ne_none.mp (mem_alphabet_iff.mp (h p hp))
  have hinstructions : instructions source = (placed source).map instruction := by
    rw [instructions, ← List.filterMap_eq_map]
    apply List.filterMap_congr
    intro p hp
    obtain ⟨op, hop⟩ := Option.isSome_iff_exists.mp (mem_alphabet_iff.mp (h p hp))
    simp [instruction, hop]
  rw [read, hstranger, hinstructions]

theorem not_clean_of_strange {p : Char × ℕ} (h : FirstAt Strange (placed source) p) :
    ¬ Clean source := by
  obtain ⟨before, after, hplaced, hp, -⟩ := h
  intro hclean
  exact hp (hclean p (by simp [hplaced]))

/-- Any other source has a first character outside the alphabet, which is reported. -/
theorem read_of_not_clean (h : ¬ Clean source) : ∃ p, FirstAt Strange (placed source) p ∧
    read source = .error (Fault.unknownCharacterIn source (String.singleton p.1) p.2).raised := by
  cases hfind : stranger? source with
  | none =>
    refine absurd ?_ h
    intro p hp
    rw [stranger?, List.find?_eq_none] at hfind
    exact mem_alphabet_iff.mpr (by simpa [Option.isSome_iff_ne_none] using hfind p hp)
  | some p =>
    obtain ⟨hp, before, after, hplaced, hbefore⟩ := List.find?_eq_some_iff_append.mp hfind
    refine ⟨p, ⟨before, after, hplaced, ?_, ?_⟩, ?_⟩
    · rw [Strange, mem_alphabet_iff]
      simpa using hp
    · intro before' q after' hsplit hq
      have hknown := hbefore q (by simp [hsplit])
      rw [Strange, mem_alphabet_iff] at hq
      simp_all
    · rw [read, hfind]

end Source

end TapeMachine
