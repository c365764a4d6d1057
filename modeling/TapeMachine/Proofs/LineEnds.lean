import TapeMachine.Proofs.Decoding
import TapeMachine.Proofs.Diagnosis

/-! # Sources in files

Making line ends uniform moves whatever stands behind a carriage return. A file
is compiled like its text all the same (`compileContent_agrees`): neither
character of a line end is an instruction, so that nothing behind the first
carriage return is looked at, and nothing before it has moved. -/
namespace TapeMachine

/-! ## Line ends -/

namespace Text

/-- A text whose line ends are made uniform behind the given character. -/
def uniformAfter (before : Char) (cs : List Char) : List Char :=
  (cs.zip (before :: cs)).filterMap fun (c, before) =>
    if c = '\r' then some '\n' else if c = '\n' ∧ before = '\r' then none else some c

variable {before c : Char} {cs : List Char}

theorem uniformAfter_return : uniformAfter before ('\r' :: cs) = '\n' :: uniformAfter '\r' cs :=
  rfl

theorem uniformAfter_plain (hbefore : before ≠ '\r') (hc : c ≠ '\r') :
    uniformAfter before (c :: cs) = c :: uniformAfter c cs := by
  rw [uniformAfter, List.zip_cons_cons, List.filterMap_cons]
  simp only [if_neg hc, if_neg (fun h : c = '\n' ∧ before = '\r' => hbefore h.2)]
  rfl

/-- Up to the first carriage return a text stays as it is. -/
theorem uniformAfter_append (hbefore : before ≠ '\r') (hcs : '\r' ∉ cs) :
    ∃ last ≠ '\r', ∀ rest, uniformAfter before (cs ++ rest) = cs ++ uniformAfter last rest := by
  induction cs generalizing before with
  | nil => exact ⟨before, hbefore, fun _ => rfl⟩
  | cons c cs ih =>
    obtain ⟨hc, hcs⟩ := not_or.mp (hcs ∘ List.mem_cons.mpr)
    obtain ⟨last, hlast, hrest⟩ := ih (Ne.symm hc) hcs
    refine ⟨last, hlast, fun rest => ?_⟩
    rw [List.cons_append, uniformAfter_plain hbefore (Ne.symm hc), hrest, List.cons_append]

theorem uniformLines_of_not_mem (hcs : '\r' ∉ cs) : uniformLines cs = cs := by
  obtain ⟨last, -, hrest⟩ := uniformAfter_append (show '\n' ≠ '\r' by decide) hcs
  have happend := hrest []
  rwa [List.append_nil, show uniformAfter last [] = [] from rfl, List.append_nil] at happend

/-- The first carriage return becomes a line feed, and moves nothing before it. -/
theorem uniformLines_of_mem (hcs : '\r' ∉ cs) (rest : List Char) :
    ∃ rest', uniformLines (cs ++ '\r' :: rest) = cs ++ '\n' :: rest' := by
  obtain ⟨last, -, hrest⟩ := uniformAfter_append (show '\n' ≠ '\r' by decide) hcs
  refine ⟨uniformAfter '\r' rest, ?_⟩
  rw [← uniformAfter_return]
  exact hrest ('\r' :: rest)

end Text

/-! ## Failures alike -/

/-- The position that a fault names. -/
def Fault.position? : Fault → Option ℤ
  | unknownCharacter _ position _ => some position
  | unclosedLoop position _ => some position
  | unopenedLoop position _ => some position
  | missingInput position => some position
  | unlinkedBracket position => some position
  | endlessDrain position _ _ => some position
  | fullTape position => some position
  | missedZero position _ => some position
  | misuse _ => none
  | noSource => none
  | badByte _ _ => none

/-- Whether two faults are of one kind and at one position. -/
structure Fault.Alike (f g : Fault) : Prop where
  name : f.name = g.name
  position : f.position? = g.position?

/-- Whether two failures are the same refusal, or faults alike. -/
inductive Failure.Alike : Failure → Failure → Prop
  | refusal (r : Refusal) : Alike (.refusal r) (.refusal r)
  | fault {f g : Fault} : f.Alike g → Alike (.fault f) (.fault g)

/-- Whether two compilations give the same program, or fail alike. -/
inductive Agree : Except Failure (List Item) → Except Failure (List Item) → Prop
  | ok (program : List Item) : Agree (.ok program) (.ok program)
  | error {e e' : Failure} : e.Alike e' → Agree (.error e) (.error e')

theorem Agree.refl (result : Except Failure (List Item)) : Agree result result := by
  cases result with
  | ok program => exact .ok program
  | error e =>
    cases e with
    | fault f => exact .error (.fault ⟨rfl, rfl⟩)
    | refusal r => exact .error (.refusal r)

/-- Faults that are alike fail alike, if both can be reported or neither. -/
theorem Fault.Alike.raised {f g : Fault} (h : f.Alike g) (hsame : f.isWritable = g.isWritable) :
    f.raised.Alike g.raised := by
  rw [Fault.raised_eq, Fault.raised_eq, hsame]
  cases g.isWritable with
  | true => exact .fault h
  | false => exact .refusal _

/-- Two unknown characters at one position fail alike, whatever they and their sources are. -/
theorem unknownCharacter_alike (source source' char char' : String) (position : ℤ) :
    (Fault.unknownCharacterIn source char position).raised.Alike
      (Fault.unknownCharacterIn source' char' position).raised :=
  Fault.Alike.raised ⟨rfl, rfl⟩ (by simp)

/-! ## Files -/

theorem fileText_encode (s : String) :
    fileText (Utf8.encode s) = .ok (String.ofList (Text.uniformLines s.toList)) := by
  rw [fileText, Utf8.decode_eq_ok_iff.2 rfl]
  rfl

theorem compileContent_encode (s : String) (request : Value) :
    compileContent (Utf8.encode s) request =
      compileAt (String.ofList (Text.uniformLines s.toList)) request := by
  rw [compileContent, fileText_encode]
  rfl

namespace Source

/-- If the character behind the first ones is no instruction, what follows it does not matter. -/
theorem stranger?_ofList {c : Char} (hc : Op.ofChar? c = none) (cs rest : List Char) :
    stranger? (String.ofList (cs ++ c :: rest)) =
      ((cs.zipIdx 1).find? fun p => (Op.ofChar? p.1).isNone).or (some (c, 1 + cs.length)) := by
  rw [stranger?, placed, String.toList_ofList, List.zipIdx_append, List.zipIdx_cons,
    List.find?_append, List.find?_cons_of_pos (by simp only [hc, Option.isNone_none])]

/-- Two sources that are the same up to a character that is no instruction fail alike. -/
theorem read_alike {c d : Char} (hc : Op.ofChar? c = none) (hd : Op.ofChar? d = none)
    (cs rest rest' : List Char) : ∃ e e' : Failure, e.Alike e' ∧
      read (String.ofList (cs ++ c :: rest)) = .error e ∧
      read (String.ofList (cs ++ d :: rest')) = .error e' := by
  rw [read, read, stranger?_ofList hc cs rest, stranger?_ofList hd cs rest']
  cases (cs.zipIdx 1).find? fun p => (Op.ofChar? p.1).isNone with
  | none =>
    refine ⟨_, _, ?_, rfl, rfl⟩
    exact unknownCharacter_alike ..
  | some p =>
    refine ⟨_, _, ?_, rfl, rfl⟩
    exact unknownCharacter_alike ..

end Source

/-- Sources that fail alike when they are read fail alike at every level. -/
theorem compileAt_alike {source other : String} {e e' : Failure} (halike : e.Alike e')
    (he : Source.read source = .error e) (he' : Source.read other = .error e') (request : Value) :
    Agree (compileAt source request) (compileAt other request) := by
  cases hlevel : Level.requested request with
  | error refusal =>
    rw [compileAt_of_refused hlevel, compileAt_of_refused hlevel]
    exact .refl _
  | ok level =>
    rw [compileAt_of_requested hlevel, compileAt_of_requested hlevel, compile_of_unread he,
      compile_of_unread he']
    exact .error halike

/-- **A file is compiled like its text.** It gives the same program, or fails alike; and without
carriage returns it fails in every detail as its text does. -/
theorem compileContent_agrees (s : String) (request : Value) :
    Agree (compileContent (Utf8.encode s) request) (compileAt s request) ∧
      ('\r' ∉ s.toList → compileContent (Utf8.encode s) request = compileAt s request) := by
  rw [compileContent_encode]
  have hplain : '\r' ∉ s.toList →
      compileAt (String.ofList (Text.uniformLines s.toList)) request = compileAt s request := by
    intro h
    rw [Text.uniformLines_of_not_mem h, String.ofList_toList]
  refine ⟨?_, hplain⟩
  by_cases h : '\r' ∈ s.toList
  · obtain ⟨cs, rest, hs, hcs⟩ := List.eq_append_cons_of_mem h
    obtain ⟨rest', huniform⟩ := Text.uniformLines_of_mem hcs rest
    have hfeed : Op.ofChar? '\n' = none := rfl
    have hreturn : Op.ofChar? '\r' = none := rfl
    obtain ⟨e, e', halike, he, he'⟩ := Source.read_alike hfeed hreturn cs rest' rest
    rw [hs, huniform, ← String.ofList_toList (s := s), hs]
    exact compileAt_alike halike he he' request
  · rw [hplain h]
    exact .refl _

/-- A bracket that closes nothing stands behind a line end, which is where both fail, and then
without one. -/
theorem compileContent_agrees_lineEnd :
    Agree (compileContent (Utf8.encode "+\r\n]") (.int 3)) (compileAt "+\r\n]" (.int 3)) ∧
      '\r' ∉ "+]".toList ∧
      compileContent (Utf8.encode "+]") (.int 3) = compileAt "+]" (.int 3) :=
  ⟨(compileContent_agrees "+\r\n]" (.int 3)).1, by decide,
    (compileContent_agrees "+]" (.int 3)).2 (by decide)⟩

end TapeMachine
