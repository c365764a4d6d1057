import TapeMachine.Proofs.CommandLine
import TapeMachine.Proofs.Decoding

/-! # How commands end

A command whose words are understood ends in one of three ways (`answer_ends`).
It prints its result and has status 0; or it says on the error stream what went
wrong, prints no result and has status 1; or something is refused that no command
handles. There are four things of that kind: a file name with a NUL character in
it, a file that does not hold the bytes of a text, an argument with more digits
than a numeral may have, and a position or target with as many, which takes a
source of that length.

All this is about command lines whose words are texts. A byte that is part of no
character makes a lone surrogate of the word it is in, and such words are not
covered: as the only argument of a program one cannot be encoded, which no command
handles either. -/
namespace TapeMachine.CommandLine

/-! ## Three ways to end -/

/-- The file that a command names. An empty name is none. -/
def Options.named? (o : Options) : Option String := o.file.filter (· ≠ "")

/-- Whether a command has a source, in a file or as its first argument, and these arguments for
its input. -/
inductive Reads (files : Files) (o : Options) : String → List String → Prop
  | file {path s : String} : o.named? = some path → '\x00' ∉ path.toList →
      files (Path.normal path) = .ok (Utf8.encode s) →
      Reads files o (String.ofList (Text.uniformLines s.toList)) o.items
  | item {text : String} {items : List String} : o.named? = none → o.items = text :: items →
      Reads files o text items

/-- Whether a command compiles its source and reads its input. -/
structure Loads (files : Files) (o : Options) (text : String) (program : List Item)
    (bytes : Option (List UInt8)) : Prop where
  compiled : compile text (Level.ofInt o.level) = .ok program
  supplied : ∃ items, Reads files o text items ∧ ByteArgument.input items = .ok bytes

/-- What a command is refused and does not handle. -/
inductive Escapes (budget : ℕ) (files : Files) (o : Options) : Refusal → Prop
  | nulInName {path : String} : o.named? = some path → '\x00' ∈ path.toList →
      Escapes budget files o .nulInName
  | undecodable {path : String} {content : List UInt8} {breach : Utf8.Breach} :
      o.named? = some path → '\x00' ∉ path.toList → files (Path.normal path) = .ok content →
      Utf8.decode content = .error breach → Escapes budget files o (.undecodable breach)
  | longNumeral {text a : String} {program : List Item} {before after : List String}
      {ds : List Char} : Reads files o text (before ++ a :: after) →
      compile text (Level.ofInt o.level) = .ok program → 2 ≤ (before ++ a :: after).length →
      (∀ x ∈ before, ∃ b, ByteArgument.StandsFor x b) → ByteArgument.Spells a ds →
      Text.digitLimit < ds.length → Escapes budget files o (.longNumeral ds.length)
  | longSource {text : String} {items : List String} : Reads files o text items →
      ¬ Source.Numbered text → compile text (Level.ofInt o.level) = .error (.refusal .longInteger) →
      Escapes budget files o .longInteger
  | longListing {text : String} {program : List Item} {bytes : Option (List UInt8)} :
      Loads files o text program bytes → ¬ Source.Numbered text → o.dump = true →
      listing program = .error .longInteger → Escapes budget files o .longInteger
  | longRun {text : String} {program : List Item} {bytes : Option (List UInt8)} :
      Loads files o text program bytes → ¬ Source.Numbered text →
      runSource budget text (inputOf bytes) (.int o.level) = some (.error (.refusal .longInteger)) →
      Escapes budget files o .longInteger

/-- What a command complains of: its file, its source, its arguments or its run. -/
inductive Complaint (budget : ℕ) (files : Files) (o : Options) : String → Prop
  | unreadable {path : String} {fault : FileFault} : o.named? = some path →
      '\x00' ∉ path.toList → files (Path.normal path) = .error fault →
      Complaint budget files o ("Couldn't read file: " ++ fault.message (Path.normal path))
  | noSource {message : String} : o.named? = none → o.items = [] →
      Fault.noSource.message = .ok message → Complaint budget files o message
  | source {text message : String} {items : List String} {f : Fault} : Reads files o text items →
      compile text (Level.ofInt o.level) = .error (.fault f) → f.message = .ok message →
      Complaint budget files o message
  | argument {text message : String} {items : List String} {program : List Item} {f : Fault} :
      Reads files o text items → compile text (Level.ofInt o.level) = .ok program →
      ByteArgument.input items = .error (.fault f) → f.message = .ok message →
      Complaint budget files o message
  | run {text message : String} {program : List Item} {bytes : Option (List UInt8)} {f : Fault} :
      Loads files o text program bytes →
      runSource budget text (inputOf bytes) (.int o.level) = some (.error (.fault f)) →
      f.message = .ok message → Complaint budget files o message

/-- Whether the line of a result is somewhere in a text. -/
def ShowsResult (text : String) : Prop :=
  ∃ before result after, text = before ++ Job.resultText result ++ after

/-- How a command ends: with a result, with a complaint or with a refusal. -/
inductive Ends (budget : ℕ) (files : Files) (o : Options) : Outcome → Prop
  | result {text listed log : String} {program : List Item} {bytes : Option (List UInt8)}
      {result : Result} : Loads files o text program bytes →
      runSource budget text (inputOf bytes) (.int o.level) = some (.ok result) →
      ¬ ShowsResult listed → Ends budget files o ⟨listed ++ Job.resultText result, log, .exit 0⟩
  | complaint {message listed log : String} : Complaint budget files o message → message ≠ "" →
      ¬ ShowsResult listed → Ends budget files o ⟨listed, log ++ message ++ "\n", .exit 1⟩
  | escape {r : Refusal} {listed log : String} : Escapes budget files o r →
      ¬ ShowsResult listed → Ends budget files o ⟨listed, log, .refused r⟩

/-! ## Texts -/

/-- A result is shown between quotes. -/
theorem not_showsResult {text : String} (h : '"' ∉ text.toList) : ¬ ShowsResult text := by
  rintro ⟨before, result, after, rfl⟩
  refine h ?_
  simp [Job.resultText]

theorem not_showsResult_empty : ¬ ShowsResult "" := not_showsResult (by decide)

theorem append_ne_empty {s : String} (h : s ≠ "") (t : String) : s ++ t ≠ "" :=
  fun hempty => h (String.append_eq_empty_iff.1 hempty).1

/-- A text that is written in stages is not empty if its last stage never is. -/
theorem ne_empty_of_bind {x : Except Refusal String} {f : String → Except Refusal String}
    {text : String} (h : (x >>= f) = .ok text) (hf : ∀ s t, f s = .ok t → t ≠ "") : text ≠ "" := by
  cases x with
  | error r => cases h
  | ok s => exact hf s text h

/-- No message is empty. -/
theorem message_ne_empty {f : Fault} {text : String} (h : f.message = .ok text) : text ≠ "" := by
  cases f with
  | misuse m =>
    cases h
    cases m <;> exact of_decide_eq_true rfl
  | noSource | badByte =>
    cases h
    repeat refine append_ne_empty ?_ _
    decide
  | unknownCharacter | unclosedLoop | unopenedLoop | missingInput | unlinkedBracket | fullTape =>
    refine ne_empty_of_bind h ?_
    rintro _ _ ⟨⟩
    repeat refine append_ne_empty ?_ _
    decide
  | missedZero =>
    refine ne_empty_of_bind h fun _ _ h => ne_empty_of_bind h ?_
    rintro _ _ ⟨⟩
    repeat refine append_ne_empty ?_ _
    decide
  | endlessDrain =>
    refine ne_empty_of_bind h fun _ _ h => ne_empty_of_bind h fun _ _ h => ne_empty_of_bind h ?_
    rintro _ _ ⟨⟩
    repeat refine append_ne_empty ?_ _
    decide

/-- A failure with a message is a complaint, and any other escapes. -/
theorem ends_failed {budget : ℕ} {files : Files} {o : Options} {e : Failure} {listed : String}
    (log : String) (hlisted : ¬ ShowsResult listed)
    (hfault : ∀ f message, e = .fault f → f.message = .ok message → Complaint budget files o message)
    (hrefusal : ∀ r, e.message = .error r → Escapes budget files o r) :
    Ends budget files o (failed listed log e) := by
  rw [failed]
  cases hmessage : e.message with
  | error r => exact .escape (hrefusal r hmessage) hlisted
  | ok message =>
    cases e with
    | refusal r => cases hmessage
    | fault f => exact .complaint (hfault f message rfl hmessage) (message_ne_empty hmessage) hlisted

/-- A failure of a source that has no message is the refusal of an integer. -/
theorem Reported.refused {source : String} {e : Failure} {r : Refusal} (h : Reported source e)
    (hr : e.message = .error r) :
    r = .longInteger ∧ e = .refusal .longInteger ∧ ¬ Source.Numbered source := by
  rcases h with ⟨f, text, rfl, htext⟩ | ⟨rfl, hlong⟩
  · cases htext.symm.trans hr
  · cases hr
    exact ⟨rfl, rfl, hlong⟩

/-! ## Sources -/

section Source

variable {files : Files} {o : Options} {text path : String} {items : List String}

theorem source_of_nul (h : o.named? = some path) (hnul : '\x00' ∈ path.toList) :
    source files o = .error ⟨"", "", .refused .nulInName⟩ := by
  rw [Options.named?] at h
  have hcontains : path.contains '\x00' = true := by
    rwa [String.contains_char_eq, decide_eq_true_eq]
  simp only [source, h, if_pos hcontains]
  rfl

/-- What becomes of the file that a command names. -/
theorem source_of_path (h : o.named? = some path) (hnul : '\x00' ∉ path.toList) :
    source files o =
      match files (Path.normal path) with
      | .error f =>
        .error ⟨"", "Couldn't read file: " ++ f.message (Path.normal path) ++ "\n", .exit 1⟩
      | .ok content =>
        match Utf8.decode content with
        | .error breach => .error ⟨"", "", .refused (.undecodable breach)⟩
        | .ok s => .ok (String.ofList (Text.uniformLines s.toList), o.items) := by
  rw [Options.named?] at h
  have hcontains : ¬ path.contains '\x00' = true := by
    rwa [String.contains_char_eq, decide_eq_true_eq]
  simp only [source, h, if_neg hcontains, fileText]
  cases files (Path.normal path) with
  | error f => rfl
  | ok content =>
    simp only
    cases Utf8.decode content <;> rfl

theorem source_of_items (h : o.named? = none) : source files o =
    match o.items with
    | text :: items => .ok (text, items)
    | [] => .error (failed "" "" (.fault .noSource)) := by
  rw [Options.named?] at h
  simp only [source, h]
  cases o.items <;> rfl

theorem Reads.source_eq (h : Reads files o text items) : source files o = .ok (text, items) := by
  cases h with
  | file hnamed hnul hcontent =>
    simp only [source_of_path hnamed hnul, hcontent, Utf8.decode_eq_ok_iff.2 rfl]
  | item hnamed hitems => simp only [source_of_items hnamed, hitems]

/-- A command has a source, or it ends. -/
theorem source_spec (budget : ℕ) (files : Files) (o : Options) :
    match source files o with
    | .ok (text, items) => Reads files o text items
    | .error outcome => Ends budget files o outcome := by
  cases hnamed : o.named? with
  | none =>
    rw [source_of_items hnamed]
    cases hitems : o.items with
    | nil =>
      exact ends_failed "" not_showsResult_empty
        (fun f message he hmessage => .noSource hnamed hitems ((Failure.fault.inj he) ▸ hmessage))
        nofun
    | cons text items => exact .item hnamed hitems
  | some path =>
    by_cases hnul : '\x00' ∈ path.toList
    · rw [source_of_nul hnamed hnul]
      exact .escape (.nulInName hnamed hnul) not_showsResult_empty
    · rw [source_of_path hnamed hnul]
      cases hcontent : files (Path.normal path) with
      | error f =>
        have hmessage : "Couldn't read file: " ++ f.message (Path.normal path) ≠ "" :=
          append_ne_empty (by decide) _
        have hends : Ends budget files o ⟨"", "" ++ ("Couldn't read file: " ++
            f.message (Path.normal path)) ++ "\n", .exit 1⟩ :=
          .complaint (.unreadable hnamed hnul hcontent) hmessage not_showsResult_empty
        rwa [String.empty_append] at hends
      | ok content =>
        simp only
        cases hdecode : Utf8.decode content with
        | error breach => exact .escape (.undecodable hnamed hnul hcontent hdecode) not_showsResult_empty
        | ok s =>
          rw [Utf8.decode_eq_ok_iff.1 hdecode] at hcontent
          exact .file hnamed hnul hcontent

end Source

/-! ## Jobs -/

section Job

variable {files : Files} {o : Options} {text : String} {items : List String} {budget : ℕ}
  {job : Job} {r : Refusal} {program : List Item} {bytes : Option (List UInt8)}

/-- What a command tells of its compilation if it is to. -/
def Options.log (o : Options) (text : String) : String :=
  if o.verbose then logText (compilationEvents text (Level.ofInt o.level)) else ""

theorem Reads.prepare_eq (h : Reads files o text items) : o.prepare files = (do
    let program ← (compile text (Level.ofInt o.level)).mapError (failed "" (o.log text))
    let bytes ← (ByteArgument.input items).mapError (failed "" (o.log text))
    let listed ← (o.dumpText program).mapError fun r => failed "" (o.log text) (.refusal r)
    return ⟨o, program, bytes, listed, o.log text⟩) := by
  rw [Options.prepare, h.source_eq]
  rfl

theorem Loads.prepare_eq (h : Loads files o text program bytes) : o.prepare files =
    match o.dumpText program with
    | .error r => .error ⟨"", o.log text, .refused r⟩
    | .ok listed => .ok ⟨o, program, bytes, listed, o.log text⟩ := by
  obtain ⟨items, hreads, hinput⟩ := h.supplied
  rw [hreads.prepare_eq, h.compiled, hinput]
  show ((o.dumpText program).mapError _ >>= _) = _
  cases o.dumpText program <;> rfl

/-- What is printed before the run is a listing, if one is asked for, and has no quote in it. -/
theorem Loads.dumpText_cases (h : Loads files o text program bytes) (budget : ℕ) :
    (∃ listed, o.dumpText program = .ok listed ∧ '"' ∉ listed.toList) ∨
      o.dumpText program = .error .longInteger ∧ Escapes budget files o .longInteger := by
  cases hdump : o.dump with
  | false => exact Or.inl ⟨"", by rw [Options.dumpText, hdump]; rfl, by decide⟩
  | true =>
    have hlisted : o.dumpText program = (listing program).map (· ++ "\n") := by
      rw [Options.dumpText, if_pos hdump]
    rcases listing_of_compile h.compiled with ⟨rows, hrows, hquote⟩ | ⟨hlisting, hlong⟩
    · refine Or.inl ⟨rows ++ "\n", by rw [hlisted, hrows]; rfl, ?_⟩
      rw [String.toList_append, List.mem_append, not_or]
      exact ⟨hquote, by decide⟩
    · exact Or.inr ⟨by rw [hlisted, hlisting]; rfl, .longListing h hlong hdump hlisting⟩

/-- Arguments that cannot be read end their command. -/
theorem Reads.ends_of_input {e : Failure} (h : Reads files o text items)
    (hcompile : compile text (Level.ofInt o.level) = .ok program)
    (hinput : ByteArgument.input items = .error e) (log : String) :
    Ends budget files o (failed "" log e) := by
  refine ends_failed log not_showsResult_empty ?_ ?_
  · rintro f message rfl hmessage
    exact .argument h hcompile hinput hmessage
  · intro r hr
    rcases failure_of_input hinput with ⟨f, message, rfl, hmessage⟩ | ⟨n, -, rfl⟩
    · cases hmessage.symm.trans hr
    · cases hr
      obtain ⟨hseveral, before, a, after, ds, rfl, hbefore, hspells, hlong, hn⟩ :=
        ByteArgument.exists_long_of_refused hinput
      rw [hn]
      exact .longNumeral h hcompile hseveral hbefore hspells hlong

/-- A command has a job that runs its source on its arguments, or it ends. -/
theorem prepare_spec (budget : ℕ) (files : Files) (o : Options) :
    match o.prepare files with
    | .ok job => (∃ text, Loads files o text job.program job.bytes) ∧ '"' ∉ job.stdout.toList
    | .error outcome => Ends budget files o outcome := by
  have hsource := source_spec budget files o
  cases hread : source files o with
  | error outcome =>
    rw [hread] at hsource
    rw [Options.prepare, hread]
    exact hsource
  | ok read =>
    obtain ⟨text, items⟩ := read
    rw [hread] at hsource
    have hreads : Reads files o text items := hsource
    cases hcompile : compile text (Level.ofInt o.level) with
    | error e =>
      rw [hreads.prepare_eq, hcompile]
      refine ends_failed _ not_showsResult_empty ?_ fun r hr => ?_
      · rintro f message rfl hmessage
        exact .source hreads hcompile hmessage
      · obtain ⟨rfl, rfl, hlong⟩ := (reported_of_compile hcompile).refused hr
        exact .longSource hreads hlong hcompile
    | ok program =>
      cases hinput : ByteArgument.input items with
      | error e =>
        rw [hreads.prepare_eq, hcompile, hinput]
        exact hreads.ends_of_input hcompile hinput _
      | ok bytes =>
        have hloads : Loads files o text program bytes := ⟨hcompile, items, hreads, hinput⟩
        rw [hloads.prepare_eq]
        rcases hloads.dumpText_cases budget with ⟨listed, hlisted, hquote⟩ | ⟨hlisted, hescapes⟩
        · rw [hlisted]
          exact ⟨⟨text, hloads⟩, hquote⟩
        · rw [hlisted]
          exact .escape hescapes not_showsResult_empty

/-- A job runs as the library runs its source. -/
theorem Loads.runSource_eq (h : Loads files o text program bytes) (budget : ℕ) :
    runSource budget text (inputOf bytes) (.int o.level) =
      (runProgram budget program bytes).map (Result.ofReply program) := by
  have hat : compileAt text (.int o.level) = .ok program := by
    rw [compileAt_of_requested rfl, h.compiled]
  exact runSource_of_compile hat (inputOf_bytes bytes) budget

/-- A job that has run ends its command, with a result or with what the run failed for. -/
theorem outcome_ends (clock : Clock) (h : Loads files o text job.program job.bytes)
    (hquote : '"' ∉ job.stdout.toList) {reply : Session.Reply} (hrun : job.run budget = some reply) :
    Ends budget files o (job.outcome clock reply) := by
  have hlibrary := h.runSource_eq budget
  rw [show runProgram budget job.program job.bytes = some reply from hrun, Option.map_some]
    at hlibrary
  have hlisted := not_showsResult hquote
  rw [Job.outcome]
  cases hreply : Result.ofReply job.program reply with
  | ok result =>
    rw [hreply] at hlibrary
    exact .result h hlibrary hlisted
  | error e =>
    rw [hreply] at hlibrary
    refine ends_failed _ hlisted ?_ fun r hr => ?_
    · rintro f message rfl hmessage
      exact .run h hlibrary hmessage
    · obtain ⟨rfl, rfl, hlong⟩ := (reported_of_run h.compiled hrun hreply).refused hr
      exact .longRun h hlong hlibrary

/-- Nothing else is refused. -/
theorem Ends.escapes {outcome : Outcome} (h : Ends budget files o outcome)
    (hrefused : outcome.ending = .refused r) : Escapes budget files o r := by
  cases h with
  | result => nomatch hrefused
  | complaint => nomatch hrefused
  | escape hescapes =>
    cases hrefused
    exact hescapes

/-- What a command is refused is refused before anything runs, or else by the run. -/
theorem Escapes.cases_on_run (h : Escapes budget files o r) :
    (∃ log, o.prepare files = .error ⟨"", log, .refused r⟩) ∨
      ∃ text program bytes, Loads files o text program bytes ∧ r = .longInteger ∧
        runSource budget text (inputOf bytes) (.int o.level) = some (.error (.refusal r)) := by
  cases h with
  | nulInName hnamed hnul =>
    rw [Options.prepare, source_of_nul hnamed hnul]
    exact Or.inl ⟨"", rfl⟩
  | undecodable hnamed hnul hcontent hdecode =>
    rw [Options.prepare, source_of_path hnamed hnul, hcontent]
    simp only [hdecode]
    exact Or.inl ⟨"", rfl⟩
  | @longNumeral text a program before after ds hreads hcompile hseveral hbefore hspells hlong =>
    have hinput := (ByteArgument.input_eq_error_iff hseveral).2
      ⟨before, a, after, rfl, hbefore, .long hspells hlong⟩
    rw [hreads.prepare_eq, hcompile, hinput]
    exact Or.inl ⟨o.log text, rfl⟩
  | @longSource text items hreads hlong hcompile =>
    rw [hreads.prepare_eq, hcompile]
    exact Or.inl ⟨o.log text, rfl⟩
  | @longListing text program bytes hloads hlong hdump hlisting =>
    rw [hloads.prepare_eq, Options.dumpText, if_pos hdump, hlisting]
    exact Or.inl ⟨o.log text, rfl⟩
  | @longRun text program bytes hloads hlong hrun =>
    exact Or.inr ⟨text, program, bytes, hloads, rfl, hrun⟩

/-- What a command is refused ends it. -/
theorem Escapes.ending {clock : Clock} {words : List String} {outcome : Outcome}
    (h : Escapes budget files o r) (hparse : parse words = .options o)
    (hanswer : answer clock budget files words = some outcome) : outcome.ending = .refused r := by
  rcases h.cases_on_run with ⟨log, hearly⟩ | ⟨text, program, bytes, hloads, rfl, hrefused⟩
  · rw [answer_of_error hparse hearly] at hanswer
    cases hanswer
    rfl
  · have hprepare := hloads.prepare_eq
    rcases hloads.dumpText_cases budget with ⟨listed, hlisted, -⟩ | ⟨hlisted, -⟩
    · rw [hlisted] at hprepare
      rw [answer_of_job hparse hprepare] at hanswer
      obtain ⟨reply, hrun, rfl⟩ := Option.map_eq_some_iff.1 hanswer
      have hreply : runProgram budget program bytes = some reply := hrun
      rw [hloads.runSource_eq, hreply] at hrefused
      rw [Job.outcome, Option.some.inj hrefused]
      rfl
    · rw [hlisted] at hprepare
      rw [answer_of_error hparse hprepare] at hanswer
      cases hanswer
      rfl

end Job

/-- **A command ends with its result, with a complaint or with a refusal**, unless it goes on with
its run. Of a command line whose words are texts it is refused nothing but names with a NUL, files
that are no text, arguments that are too long and positions that are, and those it is. -/
theorem answer_ends {clock : Clock} {budget : ℕ} {files : Files} {words : List String} {o : Options}
    (hparse : parse words = .options o) :
    (∀ outcome, answer clock budget files words = some outcome →
      Ends budget files o outcome ∧
        ∀ r, outcome.ending = .refused r ↔ Escapes budget files o r) ∧
    (answer clock budget files words = none → ∃ text program bytes,
      Loads files o text program bytes ∧
      runSource budget text (inputOf bytes) (.int o.level) = none) := by
  have hprepare := prepare_spec budget files o
  cases hjob : o.prepare files with
  | error early =>
    rw [hjob] at hprepare
    have hearly := answer_of_error hparse hjob clock budget
    refine ⟨fun outcome hanswer => ?_, fun hnone => nomatch hearly.symm.trans hnone⟩
    obtain rfl : early = outcome := Option.some.inj (hearly.symm.trans hanswer)
    exact ⟨hprepare, fun r => ⟨hprepare.escapes, fun hescapes => hescapes.ending hparse hearly⟩⟩
  | ok job =>
    rw [hjob] at hprepare
    obtain ⟨⟨text, hloads⟩, hquote⟩ := hprepare
    have hstarted := answer_of_job hparse hjob clock budget
    constructor
    · intro outcome hanswer
      obtain ⟨reply, hrun, rfl⟩ := Option.map_eq_some_iff.1 (hstarted.symm.trans hanswer)
      have hends := outcome_ends clock hloads hquote hrun
      exact ⟨hends, fun r => ⟨hends.escapes, fun hescapes => hescapes.ending hparse hanswer⟩⟩
    · intro hnone
      have hrun : runProgram budget job.program job.bytes = none :=
        Option.map_eq_none_iff.1 (hstarted.symm.trans hnone)
      refine ⟨text, job.program, job.bytes, hloads, ?_⟩
      rw [hloads.runSource_eq, hrun]
      rfl

/-- A directory with one file, which holds a byte that starts no character. -/
def brokenFiles : Files := (Directory.ofFiles [("x", [0xFF])]).read

/-- A command that names that file. -/
def brokenOptions : Options := ⟨some "x", 2, false, false, false, []⟩

theorem brokenOptions_escapes (budget : ℕ) :
    Escapes budget brokenFiles brokenOptions (.undecodable ⟨0, [0xFF], .start⟩) := by
  have hnamed : brokenOptions.named? = some "x" := rfl
  have hcontent : brokenFiles (Path.normal "x") = .ok [0xFF] := rfl
  exact .undecodable hnamed (by decide) hcontent rfl

theorem exists_answer_broken (clock : Clock) (budget : ℕ) : ∃ log,
    answer clock budget brokenFiles ["--file", "x"] =
      some ⟨"", log, .refused (.undecodable ⟨0, [0xFF], .start⟩)⟩ := by
  have hparse : parse ["--file", "x"] = .options brokenOptions := rfl
  obtain ⟨log, hprepare⟩ := (brokenOptions_escapes budget).cases_on_run.resolve_right (by
    rintro ⟨-, -, -, -, hlong, -⟩
    cases hlong)
  exact ⟨log, answer_of_error hparse hprepare clock budget⟩

theorem answer_ends_broken :
    parse ["--file", "x"] = .options brokenOptions ∧
      ∃ outcome, answer ⟨"0.00", "0.00"⟩ 9 brokenFiles ["--file", "x"] = some outcome ∧
        Ends 9 brokenFiles brokenOptions outcome ∧
        ∀ r, outcome.ending = .refused r ↔ Escapes 9 brokenFiles brokenOptions r := by
  have hparse : parse ["--file", "x"] = .options brokenOptions := rfl
  obtain ⟨log, hanswer⟩ := exists_answer_broken ⟨"0.00", "0.00"⟩ 9
  exact ⟨hparse, _, hanswer, (answer_ends hparse).1 _ hanswer⟩

/-- **A command need not end with a status**, which is what the file above is for. -/
theorem exists_answer_refused :
    ¬ ∀ (clock : Clock) (budget : ℕ) (files : Files) (words : List String) (o : Options)
        (outcome : Outcome), parse words = .options o →
        answer clock budget files words = some outcome →
        outcome.ending = .exit 0 ∨ outcome.ending = .exit 1 := by
  intro h
  obtain ⟨log, hanswer⟩ := exists_answer_broken ⟨"0.00", "0.00"⟩ 9
  rcases h _ _ _ _ brokenOptions _ rfl hanswer with hend | hend <;> cases hend

end TapeMachine.CommandLine
