import TapeMachine.Compilation
import TapeMachine.Program
import TapeMachine.Proofs.Brackets
import TapeMachine.Proofs.Collapse
import TapeMachine.Proofs.Reading

/-! # What is wrong with a source

A source is at fault with its first character that is no instruction, or else
with its first bracket that closes nothing, or else with its first bracket that
is never closed (`Diagnosis`), and compiling it says so at every level
(`compile_diagnosis`). Linking comes after condensing, but condensing leaves the
brackets that a scan finds as they were: it removes steps, which are none, and
loops, whose two brackets belong together. -/
namespace TapeMachine

/-! ## Linking -/

section Link

variable {p : Pairing} {opened : List Item} {x : Item}

/-- Whether a pairing has the given brackets open. -/
def Pairing.Keeps (p : Pairing) (opened : List Item) : Prop :=
  p.opened.map (·.2) = opened.map Item.position

/-- One item does to a pairing what it does to the open brackets. -/
theorem Pairing.Keeps.push (h : p.Keeps opened) :
    match openAfter Item.side? opened x with
    | .ok next => ∃ q, p.push x = .ok q ∧ q.Keeps next
    | .error y => p.push x = .error y.position := by
  cases hx : x.side? with
  | none =>
    rw [openAfter_of_none hx]
    exact ⟨_, pair_of_none hx, h⟩
  | some which =>
    cases which with
    | opening =>
      rw [openAfter_of_opening hx]
      refine ⟨_, pair_of_opening hx, ?_⟩
      simpa [Keeps] using h
    | closing =>
      obtain ⟨pairs, partners⟩ := p
      cases opened with
      | nil =>
        obtain rfl : pairs = [] := by simpa [Keeps] using h
        rw [openAfter_of_unopened hx]
        exact pair_of_unopened hx
      | cons y opened =>
        cases pairs with
        | nil => cases h
        | cons pair pairs =>
          rw [openAfter_of_closing hx]
          exact ⟨_, pair_of_closing hx, (List.cons.inj h).2⟩

/-- A whole stream does as well. -/
theorem Pairing.Keeps.foldlM (h : p.Keeps opened) (stream : List Item) :
    match scanBrackets Item.side? opened stream with
    | .ok next => ∃ q, stream.foldlM Pairing.push p = .ok q ∧ q.Keeps next
    | .error y => stream.foldlM Pairing.push p = .error y.position := by
  induction stream generalizing p opened with
  | nil => exact ⟨p, rfl, h⟩
  | cons x stream ih =>
    have hpush := h.push (x := x)
    cases hx : openAfter Item.side? opened x with
    | error y =>
      rw [hx] at hpush
      rw [scan_cons_of_error hx, List.foldlM_cons, hpush]
      rfl
    | ok next =>
      rw [hx] at hpush
      obtain ⟨q, hq, hkeeps⟩ := hpush
      rw [scan_cons_of_ok hx, List.foldlM_cons, hq]
      exact ih hkeeps

/-- Linking finds the brackets that a scan finds. -/
theorem link_of_scan (source : String) (stream : List Item) :
    match scanBrackets Item.side? [] stream with
    | .error x => link source stream = .error (Fault.unopenedLoopIn source x.position).raised
    | .ok opened =>
      match opened.getLast? with
      | some x => link source stream = .error (Fault.unclosedLoopIn source x.position).raised
      | none => ∃ program, link source stream = .ok program := by
  have hempty : Pairing.empty.Keeps [] := rfl
  have hpair := hempty.foldlM stream
  cases hscan : scanBrackets Item.side? [] stream with
  | error x =>
    rw [hscan] at hpair
    simp only
    rw [link, hpair]
  | ok opened =>
    rw [hscan] at hpair
    obtain ⟨q, hq, hkeeps⟩ := hpair
    have holdest : q.oldest? = opened.getLast?.map Item.position := by
      rw [Pairing.oldest?, ← List.getLast?_map, hkeeps, List.getLast?_map]
    simp only
    rw [link, hq]
    simp only [holdest]
    cases opened.getLast? with
    | some x => rfl
    | none => exact ⟨_, rfl⟩

end Link

/-! ## Condensing -/

section Condense

variable {f : Folder} {x : Item} {stream l : List Item} {opened : List Item}

/-- Items that are no brackets do not matter to a scan. -/
theorem scan_filter : scanBrackets Item.side? opened (l.filter (·.isBracket)) =
    scanBrackets Item.side? opened l := by
  induction l generalizing opened with
  | nil => rfl
  | cons x l ih =>
    cases hx : x.side? with
    | none =>
      have hplain : x.isBracket = false := by rw [Item.isBracket, hx]; rfl
      rw [List.filter_cons_of_neg (by simp [hplain]), ih, scan_cons_of_ok (openAfter_of_none hx)]
    | some which =>
      rw [List.filter_cons_of_pos (isBracket_of_side hx)]
      cases hopen : openAfter Item.side? opened x with
      | ok next => rw [scan_cons_of_ok hopen, scan_cons_of_ok hopen, ih]
      | error y => rw [scan_cons_of_error hopen, scan_cons_of_error hopen]

theorem step_not_bracket {axis : Axis} {amount position : ℤ} :
    (Item.instr ⟨axis.step amount, position⟩).isBracket = false := by
  rw [Item.isBracket, step_item_side]
  rfl

section Filter

variable {P : Item → Bool}
  (hP : ∀ axis amount position, P (.instr ⟨Axis.step axis amount, position⟩) = false)

include hP

theorem settle_filter {axis : Axis} {amount position : ℤ} {out : List Item} :
    (Folder.settle axis amount position out).out.filter P = out.filter P := by
  unfold Folder.settle
  split
  · rfl
  · rw [List.filter_cons_of_neg (by simp [hP])]

/-- Folding adds an item that it reads, unless it is a step, and keeps those it has. -/
theorem push_filter : (f.push x).out.filter P = [x].filter P ++ f.out.filter P := by
  rcases x with i | v
  · cases hstep : i.op.step? with
    | none =>
      rw [push_of_not_step hstep, ← List.filter_append]
      rfl
    | some result =>
      obtain ⟨axis, amount⟩ := result
      have hplain : P (.instr i) = false := by
        rw [show i = ⟨axis.step amount, i.position⟩ by rw [← step_eq hstep], hP]
      rw [push_of_step hstep, List.filter_cons_of_neg (by simp [hplain]), Folder.pushStep]
      cases hrun : Folder.lastRun? axis f.out with
      | none => exact settle_filter hP
      | some result =>
        obtain ⟨before, first, rest⟩ := result
        refine (settle_filter hP).trans ?_
        rw [lastRun?_eq_some hrun, List.filter_nil, List.nil_append,
          List.filter_cons_of_neg (by simp [hP])]
  · rw [← List.filter_append]
    rfl

/-- Folding keeps all items but steps. -/
theorem foldSteps_filter (stream : List Item) :
    (foldSteps stream).filter P = (stream.map Item.unlinked).filter P := by
  have hall : ∀ f : Folder, (stream.foldl (fun f x => f.push x.unlinked) f).out.reverse.filter P =
      f.out.reverse.filter P ++ (stream.map Item.unlinked).filter P := by
    induction stream with
    | nil => intro f; simp
    | cons x stream ih =>
      intro f
      rw [List.foldl_cons, ih, List.filter_reverse, push_filter hP, List.map_cons,
        List.filter_cons, List.filter_reverse]
      split <;> simp_all
  exact hall .empty

end Filter

/-- The two brackets of a loop that is replaced belong together. -/
theorem scan_replaceIdioms : scanBrackets Item.side? opened (replaceIdioms l) =
    scanBrackets Item.side? opened l := by
  induction hn : l.length using Nat.strongRecOn generalizing l opened with
  | _ n ih =>
  cases hl : idiomAt? l with
  | some result =>
    obtain ⟨i, after⟩ := result
    obtain ⟨o, body, e, hloop, rfl⟩ := idiomAt?_eq_some.mp hl
    have hbody : Balanced Item.side? body := by
      rw [← Block.flatten_ofList body]
      exact (Block.ofList_shaped (ofBody?_side hloop.body)).balanced
    have hi : (Item.instr i).side? = none := side_of_isIdiom (ofBody?_isIdiom hloop.body)
    rw [replaceIdioms_of_idiom hl, scan_cons_of_ok (openAfter_of_none hi),
      ih after.length (hn ▸ idiomAt?_length hl) rfl,
      scan_cons_of_ok (openAfter_of_opening hloop.side), scan_append_of_ok hbody.scan,
      scan_cons_of_ok (openAfter_of_closing hloop.closing)]
  | none =>
    cases l with
    | nil => rw [replaceIdioms_nil]
    | cons x rest =>
      rw [replaceIdioms_cons hl]
      have hrest : ∀ next, scanBrackets Item.side? next (replaceIdioms rest) =
          scanBrackets Item.side? next rest := fun next => ih rest.length (by simp [← hn]) rfl
      cases hx : openAfter Item.side? opened x with
      | ok next => rw [scan_cons_of_ok hx, scan_cons_of_ok hx, hrest]
      | error y => rw [scan_cons_of_error hx, scan_cons_of_error hx]

/-- **Condensing keeps what a scan finds.** -/
theorem scan_condense (level : Level) (stream : List Item) :
    scanBrackets Item.side? [] (condense level stream) =
      scanBrackets Item.side? [] (stream.map .unlinked) := by
  have hfold : scanBrackets Item.side? [] (foldSteps stream) =
      scanBrackets Item.side? [] (stream.map .unlinked) := by
    rw [← scan_filter, foldSteps_filter fun _ _ _ => step_not_bracket, scan_filter]
  cases level with
  | plain => rfl
  | folded => exact hfold
  | idiomatic => rw [condense, collapseLoops_eq, scan_replaceIdioms, hfold]

end Condense

/-! ## Compiling -/

/-- What is wrong with a source, if anything: its first character that is no instruction, or else
its first bracket that closes nothing, or else its first bracket that is never closed. -/
inductive Diagnosis (source : String) : Option Fault → Prop
  | stranger {p : Char × ℕ} : FirstAt Source.Strange (Source.placed source) p →
      Diagnosis source (some (.unknownCharacterIn source (String.singleton p.1) p.2))
  | unopened {p : Char × ℕ} : Source.Clean source →
      FirstAt (Unopened Source.side?) (Source.placed source) p →
      Diagnosis source (some (.unopenedLoopIn source p.2))
  | unclosed {p : Char × ℕ} : Source.Clean source →
      Nowhere (Unopened Source.side?) (Source.placed source) →
      FirstAt (Unclosed Source.side?) (Source.placed source) p →
      Diagnosis source (some (.unclosedLoopIn source p.2))
  | sound : Source.Clean source → Nowhere (Unopened Source.side?) (Source.placed source) →
      Nowhere (Unclosed Source.side?) (Source.placed source) → Diagnosis source none

/-- A source has one diagnosis. -/
theorem Diagnosis.unique {source : String} {verdict verdict' : Option Fault}
    (h : Diagnosis source verdict) (h' : Diagnosis source verdict') : verdict = verdict' := by
  cases h with
  | stranger hp =>
    cases h' with
    | stranger hq => rw [hp.unique hq]
    | unopened hclean | unclosed hclean | sound hclean =>
      exact absurd hclean (Source.not_clean_of_strange hp)
  | unopened hclean hp =>
    cases h' with
    | stranger hq => exact absurd hclean (Source.not_clean_of_strange hq)
    | unopened _ hq => rw [hp.unique hq]
    | unclosed _ hnone | sound _ hnone => exact absurd hnone hp.not_nowhere
  | unclosed hclean hopened hp =>
    cases h' with
    | stranger hq => exact absurd hclean (Source.not_clean_of_strange hq)
    | unopened _ hq => exact absurd hopened hq.not_nowhere
    | unclosed _ _ hq => rw [hp.unique hq]
    | sound _ _ hnone => exact absurd hnone hp.not_nowhere
  | sound hclean hopened hclosed =>
    cases h' with
    | stranger hq => exact absurd hclean (Source.not_clean_of_strange hq)
    | unopened _ hq => exact absurd hopened hq.not_nowhere
    | unclosed _ _ hq => exact absurd hclosed hq.not_nowhere
    | sound => rfl

/-- The fault of a source is reported as it is if the positions in the source can be written. -/
theorem Diagnosis.raised {source : String} {fault : Fault} (h : Diagnosis source (some fault))
    (hnumbered : Source.Numbered source) : fault.raised = .fault fault := by
  apply Fault.raised_of_writable
  cases h with
  | stranger hp | unopened _ hp | unclosed _ _ hp =>
    simpa using hnumbered.position hp.mem

/-- What compiling gives for a source of which a diagnosis was made. -/
def Diagnosed (verdict : Option Fault) (compiled : Except Failure (List Item)) : Prop :=
  match verdict with
  | some fault => compiled = .error fault.raised
  | none => ∃ program, compiled = .ok program

section Compile

variable {source : String} {level : Level} {request : Value} {e : Failure}

theorem compileAt_of_requested (h : Level.requested request = .ok level) :
    compileAt source request = compile source level := by
  rw [compileAt, h]
  rfl

theorem compileAt_of_refused {refusal : Refusal} (h : Level.requested request = .error refusal) :
    compileAt source request = .error (.refusal refusal) := by
  rw [compileAt, h]
  rfl

theorem compile_of_compileAt {program : List Item} (h : compileAt source request = .ok program) :
    ∃ level, Level.requested request = .ok level ∧ compile source level = .ok program := by
  cases hlevel : Level.requested request with
  | error refusal => cases (compileAt_of_refused hlevel).symm.trans h
  | ok level => exact ⟨level, rfl, (compileAt_of_requested hlevel).symm.trans h⟩

theorem compile_of_unread (h : Source.read source = .error e) :
    compile source level = .error e := by
  rw [compile, Compilation.ofSource, h]
  rfl

theorem compile_of_clean (h : Source.Clean source) : compile source level =
    link source (condense level ((Source.placed source).map Source.item)) := by
  rw [compile, Compilation.ofSource, Source.read_of_clean h]
  show link source (condense level (((Source.placed source).map Source.instruction).map .instr)) = _
  rw [List.map_map]
  rfl

/-- At every level the brackets of the condensed source are found as those of the source are. -/
theorem scan_condensed (source : String) (level : Level) :
    scanBrackets Item.side? [] (condense level ((Source.placed source).map Source.item)) =
      ((scanBrackets Source.side? [] (Source.placed source)).map (List.map Source.item)).mapError
        Source.item := by
  rw [scan_condense, Source.unlinked_items]
  have hnil : ([] : List (Char × ℕ)).map Source.item = [] := rfl
  rw [← hnil, scan_map Source.item_side]

/-- At every level compiling a clean source finds what a scan of the source finds. -/
theorem compile_of_scan (h : Source.Clean source) (level : Level) :
    match scanBrackets Source.side? [] (Source.placed source) with
    | .error p => compile source level = .error (Fault.unopenedLoopIn source p.2).raised
    | .ok opened =>
      match opened.getLast? with
      | some p => compile source level = .error (Fault.unclosedLoopIn source p.2).raised
      | none => ∃ program, compile source level = .ok program := by
  have hlink := link_of_scan source (condense level ((Source.placed source).map Source.item))
  rw [scan_condensed] at hlink
  rw [compile_of_clean h]
  cases hscan : scanBrackets Source.side? [] (Source.placed source) with
  | error p =>
    rw [hscan] at hlink
    exact hlink
  | ok opened =>
    rw [hscan] at hlink
    simp only [Except.map, Except.mapError, List.getLast?_map] at hlink
    cases hlast : opened.getLast? with
    | some p =>
      rw [hlast] at hlink
      simp only [hlast]
      exact hlink
    | none =>
      rw [hlast] at hlink
      simp only [hlast]
      exact hlink

/-- A clean source has the same diagnosis at every level. -/
theorem diagnosis_of_clean (h : Source.Clean source) : ∃ verdict, Diagnosis source verdict ∧
    ∀ level, Diagnosed verdict (compile source level) := by
  have hcompile := compile_of_scan h
  have hfound := scan_spec Source.side? (Source.placed source)
  cases hscan : scanBrackets Source.side? [] (Source.placed source) with
  | error p =>
    rw [hscan] at hcompile hfound
    exact ⟨_, .unopened h hfound, hcompile⟩
  | ok opened =>
    rw [hscan] at hcompile hfound
    obtain ⟨hopened, hrest⟩ := hfound
    cases hlast : opened.getLast? with
    | some p =>
      simp only [hlast] at hcompile hrest
      exact ⟨_, .unclosed h hopened hrest, hcompile⟩
    | none =>
      simp only [hlast] at hcompile hrest
      exact ⟨_, .sound h hopened hrest, hcompile⟩

/-- Every source has the same diagnosis at every level. -/
theorem exists_diagnosis (source : String) : ∃ verdict, Diagnosis source verdict ∧
    ∀ level, Diagnosed verdict (compile source level) := by
  by_cases hclean : Source.Clean source
  · exact diagnosis_of_clean hclean
  · obtain ⟨p, hp, hread⟩ := Source.read_of_not_clean hclean
    exact ⟨_, .stranger hp, fun _ => compile_of_unread hread⟩

/-- What compiling fails with comes of what is wrong with the source. -/
theorem diagnosis_of_compile (h : compile source level = .error e) :
    ∃ fault, Diagnosis source (some fault) ∧ e = fault.raised := by
  obtain ⟨verdict, hdiagnosis, hcompile⟩ := exists_diagnosis source
  have hverdict := hcompile level
  rw [h] at hverdict
  cases verdict with
  | none =>
    obtain ⟨program, hprogram⟩ := hverdict
    cases hprogram
  | some fault => exact ⟨fault, hdiagnosis, Except.error.inj hverdict⟩

/-- **What is wrong with a source is found at every level.** It is reported as it is, with all that
the diagnosis holds, in every source whose positions can be written. -/
theorem compile_diagnosis (source : String) : ∃ verdict, Diagnosis source verdict ∧
    (∀ verdict', Diagnosis source verdict' → verdict' = verdict) ∧
    (Source.Numbered source → ∀ fault, verdict = some fault → fault.raised = .fault fault) ∧
    ∀ request, match Level.requested request with
      | .ok _ => Diagnosed verdict (compileAt source request)
      | .error refusal => compileAt source request = .error (.refusal refusal) := by
  obtain ⟨verdict, hdiagnosis, hcompile⟩ := exists_diagnosis source
  refine ⟨verdict, hdiagnosis, fun _ h => h.unique hdiagnosis, ?_, ?_⟩
  · rintro hnumbered fault rfl
    exact hdiagnosis.raised hnumbered
  intro request
  cases hrequest : Level.requested request with
  | ok level =>
    show Diagnosed verdict (compileAt source request)
    rw [compileAt_of_requested hrequest]
    exact hcompile level
  | error refusal => exact compileAt_of_refused hrequest

end Compile

end TapeMachine
