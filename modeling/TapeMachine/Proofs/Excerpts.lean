import TapeMachine.Proofs.Diagnosis

/-! # Excerpts and their carets

An excerpt is cut around one character of its source and shows that character
itself or a question mark. Nothing that it shows breaks a line, so it has two
lines, and the caret is as far into the second as the character is into the first.
The fault of a source holds an excerpt made for the character at fault, so the
caret is under that character (`excerpt_caret`). -/
namespace TapeMachine

namespace Text

/-- What a character is shown as. -/
def shown (c : Char) : Char := if isPrintable c then c else '?'

/-- Whether a text is a line above a caret alone, which stands under the given character. -/
def CaretUnder (text : String) (c : Char) : Prop :=
  ∃ (first : List Char) (column : ℕ),
    text.toList.splitOn '\n' = [first, List.replicate column ' ' ++ ['^']] ∧
      first[column]? = some c

section Lines

variable {α : Type} {l : List α} {x : α} {start index stop : ℕ}

theorem slice_of_nonneg {start stop : ℤ} (h : 0 ≤ stop) :
    slice l start stop = (l.take stop.toNat).drop start.toNat := by
  rw [slice, if_neg (Int.not_lt.mpr h)]

/-- A part of a list is cut at any element in it. -/
theorem drop_take_eq (hx : l[index]? = some x) (hstart : start ≤ index) (hstop : index < stop) :
    (l.take stop).drop start =
      (l.take index).drop start ++ x :: (l.take stop).drop (index + 1) := by
  obtain ⟨hindex, rfl⟩ := List.getElem?_eq_some_iff.mp hx
  have hin : index < (l.take stop).length := by
    rw [List.length_take]
    omega
  have hfront : (l.take stop).take index = l.take index := by
    rw [List.take_take, Nat.min_eq_left (Nat.le_of_lt hstop)]
  have hcut : l.take stop = l.take index ++ l[index] :: (l.take stop).drop (index + 1) := by
    conv_lhs => rw [← List.take_append_drop index (l.take stop), hfront]
    rw [List.drop_eq_getElem_cons hin, List.getElem_take]
  conv_lhs => rw [hcut]
  rw [List.drop_append_of_le_length (by rw [List.length_take]; omega)]

theorem isPrintable_shown (c : Char) : isPrintable (shown c) = true := by
  unfold shown
  split
  · assumption
  · rfl

theorem isPrintable_of_mem_sanitize {c : Char} {cs : List Char} (h : c ∈ sanitize cs) :
    isPrintable c = true := by
  obtain ⟨d, -, rfl⟩ := List.mem_map.mp h
  exact isPrintable_shown d

theorem splitOn_lines {first second : List Char} (hfirst : ∀ c ∈ first, isPrintable c = true)
    (hsecond : ∀ c ∈ second, isPrintable c = true) :
    (first ++ '\n' :: second).splitOn '\n' = [first, second] := by
  -- a line feed is not printable, so the only one is that between the lines
  have hbreak : ∀ line ∈ [first, second], '\n' ∉ line := by
    intro line hline hmem
    have hprintable : isPrintable '\n' = true := by
      rcases List.mem_pair.mp hline with rfl | rfl
      · exact hfirst _ hmem
      · exact hsecond _ hmem
    exact absurd hprintable (by decide)
  have hjoin : ['\n'].intercalate [first, second] = first ++ '\n' :: second := by
    simp [List.intercalate]
  rw [← hjoin]
  exact List.splitOn_intercalate '\n' hbreak (by simp)

theorem isPrintable_caretLine (column : ℕ) :
    ∀ c ∈ List.replicate column ' ' ++ ['^'], isPrintable c = true := by
  intro c hc
  rcases List.mem_append.mp hc with hblank | hcaret
  · rw [(List.mem_replicate.mp hblank).2]
    rfl
  · rw [List.mem_singleton.mp hcaret]
    rfl

end Lines

section Excerpt

variable {source : String} {position context start length stop : ℤ} {c : Char}

/-- The dots in front of what is shown from `start` on. -/
def lead (start : ℤ) : List Char := if 0 < start then "... ".toList else []

/-- The dots behind what is shown of a source of some length before `stop`. -/
def tail (length stop : ℤ) : List Char := if stop < length then " ...".toList else []

theorem isPrintable_lead (h : c ∈ lead start) : isPrintable c = true := by
  have hdots : "... ".toList.all isPrintable = true := rfl
  unfold lead at h
  split at h
  · exact List.all_eq_true.mp hdots c h
  · cases h

theorem isPrintable_tail (h : c ∈ tail length stop) : isPrintable c = true := by
  have hdots : " ...".toList.all isPrintable = true := rfl
  unfold tail at h
  split at h
  · exact List.all_eq_true.mp hdots c h
  · cases h

/-- The first line of an excerpt that shows a source from `start` on and before `stop`. -/
def shownLine (source : String) (start stop : ℤ) : List Char :=
  "  ".toList ++ lead start ++ sanitize ((source.toList.take stop.toNat).drop start.toNat) ++
    tail source.toList.length stop

/-- The column of the caret under the character with a given index. -/
def caretColumn (start index : ℤ) : ℕ := 2 + ((lead start).length + index - start).toNat

theorem isPrintable_shownLine (h : c ∈ shownLine source start stop) : isPrintable c = true := by
  have hblanks : "  ".toList.all isPrintable = true := rfl
  simp only [shownLine, List.mem_append] at h
  rcases h with ((hindent | hlead) | hpart) | htail
  · exact List.all_eq_true.mp hblanks c hindent
  · exact isPrintable_lead hlead
  · exact isPrintable_of_mem_sanitize hpart
  · exact isPrintable_tail htail

/-- What is in front of a character in the line is as long as the blanks in front of the caret. -/
theorem getElem?_shownLine {index : ℤ} (hc : source.toList[index.toNat]? = some c)
    (hlow : 0 ≤ start) (hstart : start ≤ index) (hstop : index < stop) :
    (shownLine source start stop)[caretColumn start index]? = some (shown c) := by
  have hindex : index.toNat < source.toList.length := (List.getElem?_eq_some_iff.mp hc).1
  let front := "  ".toList ++ lead start ++
    sanitize ((source.toList.take index.toNat).drop start.toNat)
  have hlength : front.length = caretColumn start index := by
    have hindent : "  ".toList.length = 2 := rfl
    simp only [front, caretColumn, sanitize, List.length_append, List.length_map,
      List.length_drop, List.length_take, hindent]
    omega
  have hline : shownLine source start stop = front ++ shown c ::
      (sanitize ((source.toList.take stop.toNat).drop (index.toNat + 1)) ++
        tail source.toList.length stop) := by
    rw [shownLine, drop_take_eq hc (by omega) (by omega)]
    simp [front, sanitize, shown]
  rw [hline, ← hlength, List.getElem?_append_right (Nat.le_refl _), Nat.sub_self]
  rfl

theorem excerpt_toList (h : source ≠ "") (hcontext : 0 ≤ context) :
    let length : ℤ := source.toList.length
    let i := min (max 1 position) length
    let start := max 0 (i - 1 - context)
    (excerpt source position context).toList =
      shownLine source start (min length (i + context)) ++
        '\n' :: (List.replicate (caretColumn start (i - 1)) ' ' ++ ['^']) := by
  intro length i start
  have hlength : 0 ≤ length := Int.natCast_nonneg _
  have hstop : 0 ≤ min length (i - 1 + context + 1) := by
    have hi : i = min (max 1 position) length := rfl
    omega
  have hlead : (if 0 < start then "... " else "").toList = lead start := by
    unfold lead
    split <;> rfl
  have htail : (if min length (i - 1 + context + 1) < length then " ..." else "").toList =
      tail length (min length (i - 1 + context + 1)) := by
    unfold tail
    split <;> rfl
  have hadd : i + context = i - 1 + context + 1 := by ring
  rw [hadd, shownLine, ← slice_of_nonneg hstop, excerpt, if_neg (by simpa using h)]
  simp only [String.toList_append, String.toList_ofList, ← String.length_toList]
  rw [hlead, htail, caretColumn, List.replicate_add]
  simp [length, i, start]

/-- **The caret is under the character at the position**, or at the end that is nearest to it. -/
theorem excerpt_lines (h : source ≠ "") (position : ℤ) (hcontext : 0 ≤ context) :
    let length : ℤ := source.toList.length
    let i := min (max 1 position) length
    let start := max 0 (i - 1 - context)
    let stop := min length (i + context)
    ∃ (first : List Char) (column : ℕ) (c : Char),
      (excerpt source position context).toList.splitOn '\n' =
        [first, List.replicate column ' ' ++ ['^']] ∧
      (∀ d ∈ first, isPrintable d = true) ∧
      source.toList[(i - 1).toNat]? = some c ∧ first[column]? = some (shown c) ∧
      first = "  ".toList ++ lead start ++
        sanitize ((source.toList.take stop.toNat).drop start.toNat) ++ tail length stop := by
  intro length i start stop
  have hpos : 0 < source.toList.length := List.length_pos_iff.mpr (by simpa using h)
  have hlength : length = source.toList.length := rfl
  have hi : i = min (max 1 position) length := rfl
  have hstart : start = max 0 (i - 1 - context) := rfl
  have hstop : stop = min length (i + context) := rfl
  have hc := List.getElem?_eq_getElem (show (i - 1).toNat < source.toList.length by omega)
  refine ⟨shownLine source start stop, caretColumn start (i - 1), _, ?_,
    fun d => isPrintable_shownLine, hc, ?_, rfl⟩
  · rw [excerpt_toList h hcontext]
    exact splitOn_lines (fun d => isPrintable_shownLine) (isPrintable_caretLine _)
  · exact getElem?_shownLine hc (by omega) (by omega) (by omega)

end Excerpt

end Text

/-! ## Faults of a source -/

/-- Whether a source is at fault as a fault says, with a caret under the character to blame. -/
def Fault.PointsAt (source : String) : Fault → Prop
  | .unknownCharacter char position excerpt => ∃ p : Char × ℕ,
    FirstAt Source.Strange (Source.placed source) p ∧ char = String.singleton p.1 ∧
      position = p.2 ∧ Text.CaretUnder excerpt (Text.shown p.1)
  | .unopenedLoop position excerpt => ∃ p : ℕ,
    FirstAt (Unopened Source.side?) (Source.placed source) (']', p) ∧
      position = p ∧ Text.CaretUnder excerpt ']'
  | .unclosedLoop position excerpt => ∃ p : ℕ,
    FirstAt (Unclosed Source.side?) (Source.placed source) ('[', p) ∧
      position = p ∧ Text.CaretUnder excerpt '['
  | _ => False

section Compile

variable {source : String} {request : Value} {fault : Fault} {p : Char × ℕ}

theorem caretUnder_of_placed (h : p ∈ Source.placed source) :
    Text.CaretUnder (Text.excerpt source p.2 Fault.excerptContext) (Text.shown p.1) := by
  obtain ⟨hlow, hp⟩ := List.mk_mem_zipIdx_iff_le_and_getElem?_sub.mp h
  obtain ⟨hhigh, -⟩ := List.getElem?_eq_some_iff.mp hp
  have hsource : source ≠ "" := by
    rintro rfl
    cases hp
  have hcontext : 0 ≤ Fault.excerptContext := by decide
  obtain ⟨first, column, c, hlines, -, hc, hcaret, -⟩ := Text.excerpt_lines hsource p.2 hcontext
  -- the position is one of the source, so it was not moved
  have hindex : (min (max 1 (p.2 : ℤ)) source.toList.length - 1).toNat = p.2 - 1 := by omega
  rw [hindex, hp] at hc
  cases hc
  exact ⟨first, column, hlines, hcaret⟩

/-- What compiling reports is what is wrong with the source. -/
theorem diagnosis_of_compileAt (h : compileAt source request = .error (.fault fault)) :
    Diagnosis source (some fault) := by
  cases hrequest : Level.requested request with
  | error refusal => cases (compileAt_of_refused hrequest).symm.trans h
  | ok level =>
    rw [compileAt_of_requested hrequest] at h
    obtain ⟨fault', hdiagnosis, hraised⟩ := diagnosis_of_compile h
    obtain ⟨-, rfl⟩ := Fault.raised_eq_fault.mp hraised.symm
    exact hdiagnosis

theorem pointsAt_of_diagnosis (h : Diagnosis source (some fault)) : fault.PointsAt source := by
  cases h with
  | stranger hp => exact ⟨_, hp, rfl, rfl, caretUnder_of_placed hp.mem⟩
  | @unopened p _ hp =>
    obtain ⟨c, n⟩ := p
    have ⟨_, _, _, ⟨hside, _⟩, _⟩ := hp
    obtain rfl : c = ']' := Source.char_of_side ((Source.item_side _).trans hside)
    exact ⟨n, hp, rfl, caretUnder_of_placed hp.mem⟩
  | @unclosed p _ _ hp =>
    obtain ⟨c, n⟩ := p
    have ⟨_, _, _, ⟨hside, _⟩, _⟩ := hp
    obtain rfl : c = '[' := Source.char_of_side ((Source.item_side _).trans hside)
    exact ⟨n, hp, rfl, caretUnder_of_placed hp.mem⟩

end Compile

/-- **The caret is under the character to blame.** An excerpt of a source has two lines of
printable characters. The first shows the source around the nearest position there is, with dots
on the sides where it is cut, and the caret in the second is under the character there. So the
caret in a fault that compiling reports is under the first character that is no instruction, or
under the first bracket that closes nothing or is never closed. -/
theorem excerpt_caret :
    (∀ (source : String) (position context : ℤ), source ≠ "" → 0 ≤ context →
      let length : ℤ := source.toList.length
      let i := min (max 1 position) length
      let start := max 0 (i - 1 - context)
      let stop := min length (i + context)
      ∃ (first : List Char) (column : ℕ) (c : Char),
        (Text.excerpt source position context).toList.splitOn '\n' =
          [first, List.replicate column ' ' ++ ['^']] ∧
        (∀ d ∈ first, Text.isPrintable d = true) ∧
        source.toList[(i - 1).toNat]? = some c ∧ first[column]? = some (Text.shown c) ∧
        first = "  ".toList ++ Text.lead start ++
          Text.sanitize ((source.toList.take stop.toNat).drop start.toNat) ++
          Text.tail length stop) ∧
    ∀ (source : String) (request : Value) (fault : Fault),
      compileAt source request = .error (.fault fault) → fault.PointsAt source := by
  constructor
  · intro source position context hsource hcontext
    exact Text.excerpt_lines hsource position hcontext
  · intro source request fault hfault
    exact pointsAt_of_diagnosis (diagnosis_of_compileAt hfault)

/-- A source with a line break in the middle, too long to be shown as a whole. -/
def brokenLine : String := "++++++++++++++++++++++++++\n--------------------------"

theorem excerpt_caret_brokenLine :
    brokenLine ≠ "" ∧ (0 : ℤ) ≤ 3 ∧
      Text.excerpt brokenLine 27 3 = "  ... +++?--- ...\n         ^" ∧
      Text.CaretUnder (Text.excerpt brokenLine 27 3) '?' ∧
      Text.CaretUnder (Text.excerpt brokenLine (-5) 3) '+' ∧
      compileAt brokenLine .absent =
        .error (.fault (.unknownCharacterIn brokenLine "\n" 27)) ∧
      (Fault.unknownCharacterIn brokenLine "\n" 27).PointsAt brokenLine := by
  obtain ⟨hexcerpt, hcompile⟩ := excerpt_caret
  have hsource : brokenLine ≠ "" := by decide
  have hfault : compileAt brokenLine .absent =
      .error (.fault (.unknownCharacterIn brokenLine "\n" 27)) := rfl
  obtain ⟨first, column, c, hlines, -, hc, hcaret, -⟩ :=
    hexcerpt brokenLine 27 3 hsource (by decide)
  obtain ⟨first', column', c', hlines', -, hc', hcaret', -⟩ :=
    hexcerpt brokenLine (-5) 3 hsource (by decide)
  cases hc
  cases hc'
  exact ⟨hsource, by decide, by decide, ⟨first, column, hlines, hcaret⟩,
    ⟨first', column', hlines', hcaret'⟩, hfault, hcompile _ _ _ hfault⟩

end TapeMachine
