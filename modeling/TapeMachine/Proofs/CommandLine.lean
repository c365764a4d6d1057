import TapeMachine.CommandLine.Command
import TapeMachine.Proofs.Arguments
import TapeMachine.Proofs.Failures
import TapeMachine.Proofs.Listings
import TapeMachine.Proofs.Numerals
import TapeMachine.Proofs.Partners
import TapeMachine.Proofs.Structured

/-! # The command line and the library

A command that gives a level, and its source and arguments behind a separator,
prints what the library gives for them (`answer_agrees`). Its words are read as
they are meant, whatever the source and the arguments look like
(`parse_commandLine`). The faults then come in the order in which the library is
called: those of the source, those of the arguments and those of the run. All of
them have a message (`Reported`), and a listing that is asked for never fails
(`listing_of_compile`), unless the source is too long for its positions to be
written. -/
namespace TapeMachine.CommandLine

/-- A command line that asks for listings, gives a level, asks for more listings, and has a source
and its arguments behind the separator. -/
def commandLine (before behind : ℕ) (level : ℤ) (code : String) (arguments : List String) :
    List String :=
  List.replicate before "--dump" ++ "--level" :: toString level ::
    (List.replicate behind "--dump" ++ "--" :: code :: arguments)

/-- How the words of such a command line are sorted. -/
def sortedLine (before behind : ℕ) (level : ℤ) (code : String) (arguments : List String) :
    List Sorted :=
  List.replicate before (.option (.switch .dump) .nothing) ++
    .option (.setting .level) .nothing :: .value (toString level) ::
      (List.replicate behind (.option (.switch .dump) .nothing) ++
        .separator :: (code :: arguments).map .value)

/-! ## Sorting -/

section Sorting

variable {argument : String} {rest : List String} {one : Sorted} {sorted : List Sorted} {d : Char}
  {ds : List Char}

theorem sort_cons (hne : argument ≠ "--") (hone : sortOne argument = .ok one)
    (hrest : sort rest = .ok sorted) : sort (argument :: rest) = .ok (one :: sorted) := by
  rw [sort, if_neg hne, hone, hrest]
  rfl

theorem sort_separator (rest : List String) :
    sort ("--" :: rest) = .ok (.separator :: rest.map .value) := rfl

theorem sort_dumps (n : ℕ) (hrest : sort rest = .ok sorted) :
    sort (List.replicate n "--dump" ++ rest) =
      .ok (List.replicate n (.option (.switch .dump) .nothing) ++ sorted) := by
  induction n with
  | zero => exact hrest
  | succ n ih => exact sort_cons (by decide) rfl ih

theorem longName_dashes (flag : Flag) : ∃ cs, flag.longName.toList = '-' :: '-' :: cs := by
  rcases flag with _ | s | s
  · exact ⟨_, rfl⟩
  · cases s <;> exact ⟨_, rfl⟩
  · cases s <;> exact ⟨_, rfl⟩

/-- No option goes by a dash and digits. -/
theorem named?_number (hd : d.isDigit = true) : Flag.named? ('-' :: d :: ds) = none := by
  have hh : d ≠ 'h' := Text.ne_of_isDigit hd rfl
  have hdash : d ≠ '-' := Text.ne_of_isDigit hd rfl
  rw [Flag.named?, if_neg (by simp [hh]), List.find?_eq_none]
  intro flag _
  obtain ⟨cs, hcs⟩ := longName_dashes flag
  simp [hcs, hdash.symm]

theorem isUnsignedNumber_digits (hd : d.isDigit = true) (hds : ∀ c ∈ ds, c.isDigit = true) :
    isUnsignedNumber (d :: ds) = true := by
  have hall : ∀ c ∈ d :: ds, c.isDigit = true := List.forall_mem_cons.mpr ⟨hd, hds⟩
  have hdigits : ∀ c ∈ d :: ds, (Text.digit? c).isSome = true := by
    intro c hc
    rw [Text.digit?_of_isDigit (hall c hc)]
    rfl
  have hnone := List.dropWhile_eq_nil_iff.mpr hdigits
  simp [isUnsignedNumber, hnone, hdigits d List.mem_cons_self]

/-- A dash and digits are a value. -/
theorem sortDashed_number (h : argument.toList = '-' :: d :: ds) (hd : d.isDigit = true)
    (hds : ∀ c ∈ ds, c.isDigit = true) : sortDashed argument = .ok (.value argument) := by
  have hplain : ∀ c ∈ '-' :: d :: ds, (c != '=') = true := by
    rw [List.forall_mem_cons, List.forall_mem_cons]
    exact ⟨rfl, bne_iff_ne.mpr (Text.ne_of_isDigit hd rfl),
      fun c hc => bne_iff_ne.mpr (Text.ne_of_isDigit (hds c hc) rfl)⟩
  have hsplit : splitEquals ('-' :: d :: ds) = ('-' :: d :: ds, .nothing) := by
    rw [splitEquals, List.dropWhile_eq_nil_iff.mpr hplain]
  have hdash : d ≠ '-' := Text.ne_of_isDigit hd rfl
  have hh : d ≠ 'h' := Text.ne_of_isDigit hd rfl
  simp [sortDashed, h, hsplit, named?_number hd, candidates, hdash, hh, sortOther,
    isUnsignedNumber_digits hd hds]

/-- A written number is a value, negative or not. -/
theorem sortOne_toString (n : ℤ) : sortOne (toString n) = .ok (.value (toString n)) := by
  obtain ⟨d, ds, hdigits, hd, hds⟩ := Text.exists_digits n.natAbs
  have hlist := Text.toList_toString n
  rw [hdigits, Text.signOf] at hlist
  by_cases hneg : n < 0
  · rw [if_pos hneg, List.singleton_append] at hlist
    simp only [sortOne, hlist]
    exact sortDashed_number hlist hd hds
  · rw [if_neg hneg, List.nil_append] at hlist
    have hdash : d ≠ '-' := Text.ne_of_isDigit hd rfl
    simp only [sortOne, hlist]
    split
    · rename_i heq
      exact absurd (List.cons.inj heq).1 hdash
    · rfl

theorem toString_ne_separator (n : ℤ) : toString n ≠ "--" := by
  obtain ⟨d, ds, hdigits, hd, -⟩ := Text.exists_digits n.natAbs
  intro heq
  have hlist := Text.toList_toString n
  have hdash : d ≠ '-' := Text.ne_of_isDigit hd rfl
  rw [heq, hdigits, Text.signOf, show "--".toList = ['-', '-'] from rfl] at hlist
  split at hlist
  · exact hdash (List.cons.inj (List.cons.inj hlist).2).1.symm
  · exact hdash (List.cons.inj hlist).1.symm

theorem sort_commandLine (before behind : ℕ) (level : ℤ) (code : String)
    (arguments : List String) : sort (commandLine before behind level code arguments) =
      .ok (sortedLine before behind level code arguments) := by
  refine sort_dumps before (sort_cons (by decide) rfl ?_)
  exact sort_cons (toString_ne_separator level) (sortOne_toString level)
    (sort_dumps behind (sort_separator _))

end Sorting

/-! ## Reading -/

section Reading

variable {o : Options} {extras : List String} {level : ℤ}

/-- Asking for a listing once is enough. -/
theorem read_dumps (n : ℕ) (rest : List Sorted) :
    Reader.read ⟨o, .before, extras⟩
        (List.replicate n (.option (.switch .dump) .nothing) ++ rest) =
      Reader.read ⟨{ o with dump := o.dump || decide (0 < n) }, .before, extras⟩ rest := by
  induction n generalizing o with
  | zero => simp
  | succ n ih =>
    rw [List.replicate_succ, List.cons_append]
    show Reader.read ⟨{ o with dump := true }, .before, extras⟩ _ = _
    rw [ih]
    simp

theorem read_level (hlevel : (toString level.natAbs).length ≤ Text.digitLimit)
    (rest : List Sorted) : Reader.read ⟨o, .before, extras⟩
        (.option (.setting .level) .nothing :: .value (toString level) :: rest) =
      Reader.read ⟨{ o with level := level }, .before, extras⟩ rest := by
  have hstore : Reader.store ⟨o, .before, extras⟩ .level (toString level) =
      .ok ⟨{ o with level := level }, .before, extras⟩ := by
    simp only [Reader.store, Text.readNumeral_toString hlevel]
    rfl
  simp only [Reader.read, hstore]
  rfl

theorem read_values (texts : List String) : Reader.read ⟨o, .among, extras⟩ (texts.map .value) =
    .ok ⟨{ o with items := o.items ++ texts }, .among, extras⟩ := by
  induction texts generalizing o with
  | nil => simp [Reader.read]
  | cons text texts ih =>
    rw [List.map_cons]
    show Reader.read ⟨{ o with items := o.items ++ [text] }, .among, extras⟩ _ = _
    rw [ih]
    simp

/-- **The words of a command are read as they are meant.** -/
theorem parse_commandLine (hlevel : (toString level.natAbs).length ≤ Text.digitLimit)
    (before behind : ℕ) (code : String) (arguments : List String) :
    parse (commandLine before behind level code arguments) =
      .options ⟨none, level, decide (0 < before + behind), false, false, code :: arguments⟩ := by
  have hread : Reader.start.read (sortedLine before behind level code arguments) =
      .ok ⟨⟨none, level, decide (0 < before + behind), false, false, code :: arguments⟩,
        .among, []⟩ := by
    rw [Reader.start, sortedLine, read_dumps, read_level hlevel, read_dumps]
    show Reader.read ⟨_, .among, []⟩ ((code :: arguments).map .value) = _
    rw [read_values]
    simp [Options.standard]
  rw [parse, sort_commandLine]
  simp only [hread]
  rfl

end Reading

/-! ## Programs that were compiled -/

/-- Whether a failure of a source is a fault with a message. If it is not, it is the refusal of an
integer, and the source is too long for its positions to be written. -/
def Reported (source : String) (e : Failure) : Prop :=
  (∃ f text, e = .fault f ∧ f.message = .ok text) ∨
    e = .refusal .longInteger ∧ ¬ Source.Numbered source

section Compiled

variable {source : String} {level : Level} {program : List Item} {bytes : Option (List UInt8)}
  {budget : ℕ} {r : Session.Reply} {e : Failure} {i : Instruction}

/-- A linked block is a list of instructions. -/
theorem exists_instructions (b : Block Piece) (base : ℕ) :
    ∃ p : List Instruction, b.linked base = p.map .instr := by
  induction b generalizing base with
  | done => exact ⟨[], rfl⟩
  | act x rest ih =>
    obtain ⟨p, hp⟩ := ih (base + 1)
    exact ⟨x.instr :: p, congrArg (x.item :: ·) hp⟩
  | loop opening body closing rest ihb ih =>
    obtain ⟨p, hp⟩ := ihb (base + 1)
    obtain ⟨q, hq⟩ := ih (base + 1 + body.flatten.length + 1)
    rw [Block.linked, hp, hq]
    exact ⟨_ :: (p ++ _ :: q), by rw [List.map_cons, List.map_append, List.map_cons]; rfl⟩

/-- A bracket of a program that was compiled goes to an index of the program. -/
theorem target_of_compile (h : compile source level = .ok program) (hi : .instr i ∈ program)
    {t : ℤ} (ht : i.op.target? = some t) : ∃ m : ℕ, t = m ∧ m < program.length := by
  obtain ⟨hclean, -⟩ := sound_of_compile h
  rw [compile_of_clean hclean] at h
  obtain ⟨k, hk⟩ := List.mem_iff_getElem?.mp hi
  obtain ⟨side, hside⟩ : ∃ side, (Item.instr i).side? = some side := by
    obtain ⟨op, position⟩ := i
    cases op <;> first | exact ⟨_, rfl⟩ | cases ht
  obtain ⟨m, y, htarget, hy, -⟩ := isLinked_iff.mp (links_of_link h).back k _ side hk hside
  exact ⟨m, Option.some.inj (ht.symm.trans htarget), (List.getElem?_eq_some_iff.mp hy).1⟩

/-- The row of an instruction can be written if the positions in the source can. -/
theorem isWritable_of_compile (h : compile source level = .ok program)
    (hnumbered : Source.Numbered source) (hi : .instr i ∈ program) : i.isWritable = true := by
  have hposition : Text.isWritable i.position = true := by
    obtain ⟨p, hp, hplace⟩ := position_of_compile h hi
    rw [hplace]
    exact hnumbered.position hp
  have htarget : ∀ t ∈ i.op.target?, Text.isWritable t = true := by
    intro t ht
    obtain ⟨m, rfl, hm⟩ := target_of_compile h hi ht
    have hle : m ≤ source.length := hm.le.trans (length_of_compile h)
    exact Text.isWritable_of_le hnumbered (by simpa using hle)
  rw [Instruction.isWritable, Instruction.integers, List.all_cons, hposition, Bool.true_and,
    List.all_eq_true]
  exact fun t ht => htarget t (Option.mem_toList.mp ht)

/-- A program that was compiled can be listed, and no quote is in its listing. It cannot only if the
source is too long. -/
theorem listing_of_compile (h : compile source level = .ok program) :
    (∃ text, listing program = .ok text ∧ '"' ∉ text.toList) ∨
      listing program = .error .longInteger ∧ ¬ Source.Numbered source := by
  obtain ⟨_, c, -, -, hlinked⟩ := condenses_of_compile h
  obtain ⟨p, hp⟩ := exists_instructions c 0
  rw [hp] at hlinked
  by_cases hwritable : ∀ i ∈ p, i.isWritable = true
  · rw [hlinked]
    exact Or.inl ⟨_, listing_of_writable hwritable, quote_not_mem_rows 0 p⟩
  · refine Or.inr ⟨by rw [hlinked]; exact listing_of_long hwritable, fun hnumbered => ?_⟩
    refine hwritable fun i hi => isWritable_of_compile h hnumbered ?_
    rw [hlinked]
    exact List.mem_map_of_mem hi

/-- The failure that comes of a fault is reported, if the fault can be wherever the positions in the
source can be written. -/
theorem reported_of_raised {f : Fault} (h : Source.Numbered source → f.isWritable = true) :
    Reported source f.raised := by
  cases hwritable : f.isWritable with
  | true =>
    obtain ⟨text, htext⟩ := f.message_shows.eq_ok hwritable
    exact Or.inl ⟨f, text, Fault.raised_of_writable hwritable, htext⟩
  | false =>
    refine Or.inr ⟨Fault.raised_of_long hwritable, fun hnumbered => ?_⟩
    cases hwritable.symm.trans (h hnumbered)

theorem reported_of_compile (h : compile source level = .error e) : Reported source e := by
  obtain ⟨fault, hdiagnosis, rfl⟩ := diagnosis_of_compile h
  exact reported_of_raised fun hnumbered =>
    (Fault.raised_eq_fault.mp (hdiagnosis.raised hnumbered)).1

/-- What the run of a program that was compiled fails with is reported. -/
theorem reported_of_run (h : compile source level = .ok program)
    (hrun : runProgram budget program bytes = some r)
    (hr : Result.ofReply program r = .error e) : Reported source e := by
  obtain ⟨code, hcode⟩ := encode_of_compile h
  have hfeed := feed_queueOf bytes
  rcases Session.execute_cases hcode hrun with ⟨refusal, hrefused, -⟩ | ⟨feed, f, -, hfinish, rfl⟩
  · cases hfeed.symm.trans hrefused
  · obtain ⟨fault?, hlast⟩ := raised_of_finish hfinish
    cases fault? with
    | none =>
      rcases (Session.ready program feed).settle_cases rfl (f := f) with
        ⟨-, heq⟩ | ⟨_, hf, -⟩ | ⟨_, hf, -⟩
      · rw [heq, ofReply_of_output rfl rfl] at hr
        cases hr
      · cases hlast.symm.trans hf
      · cases hlast.symm.trans hf
    | some fault =>
      obtain ⟨hfailure, -, -, -⟩ := Session.settle_ready program feed f
      rw [hlast] at hfailure
      rw [ofReply_of_failure hfailure] at hr
      cases hr
      refine reported_of_raised fun hnumbered => ?_
      by_contra hlong
      rw [Bool.not_eq_true] at hlong
      have hrefused : f.failure = some (.refusal .longInteger) :=
        hlast.trans (congrArg some (Fault.raised_of_long hlong))
      obtain ⟨-, hposition⟩ :=
        long_of_refused hcode ⟨start_fits feed, Nat.zero_le _⟩ hfinish hrefused
      exact not_long_of_compile h hnumbered hposition

end Compiled

/-! ## Outcomes -/

/-- What a command prints for what the library gives, behind a listing if there is one: the result
in a line, or the message of the failure if it has one. -/
def report (listed : String) : Except Failure Result → Outcome
  | .ok r => ⟨listed ++ "\"" ++ r.text ++ "\" [" ++
      ", ".intercalate (r.output.toList.map fun b => toString b.toNat) ++ "]\n", "", .exit 0⟩
  | .error e =>
    match e.message with
    | .ok text => ⟨listed, text ++ "\n", .exit 1⟩
    | .error r => ⟨listed, "", .refused r⟩

/-- Decoded arguments as input for the library. -/
def inputOf : Option (List UInt8) → Input
  | none => .absent
  | some bytes => .values (bytes.map fun b => b.toNat)

section Outcomes

variable {code : String} {arguments : List String} {level : ℤ} {program : List Item}
  {bytes : Option (List UInt8)} {refusal : Refusal} {e : Failure}

theorem inputOf_bytes (bytes : Option (List UInt8)) : (inputOf bytes).bytes = .ok bytes := by
  cases bytes with
  | none => rfl
  | some bytes =>
    rw [inputOf, Input.bytes, mapM_byte]
    rfl

theorem reported_of_compileAt (h : compileAt code (.int level) = .error e) : Reported code e := by
  rw [compileAt_of_requested rfl] at h
  exact reported_of_compile h

/-- Arguments that are not read are a fault that has a message, or have a number that is too
long. -/
theorem failure_of_input (h : ByteArgument.input arguments = .error e) :
    (∃ f text, e = .fault f ∧ f.message = .ok text) ∨
      ∃ n, Text.digitLimit < n ∧ e = .refusal (.longNumeral n) := by
  have hseveral : 2 ≤ arguments.length := by
    match arguments, h with
    | _ :: _ :: _, _ => simp
  obtain ⟨-, _, -, -, -, hflaw⟩ := (ByteArgument.input_eq_error_iff hseveral).1 h
  cases hflaw with
  | long _ hlong => exact Or.inr ⟨_, hlong, rfl⟩
  | shape | large => exact Or.inl ⟨_, _, rfl, rfl⟩

/-- The options of a command with no switch but the one for a listing. -/
def plainOptions (dump : Bool) (level : ℤ) (items : List String) : Options :=
  ⟨none, level, dump, false, false, items⟩

section Jobs

variable {files : Files} {dump : Bool} {items : List String} {text : String}

theorem failed_eq (listed : String) (e : Failure) :
    failed listed "" e = report listed (.error e) := by
  rw [failed, report]
  cases e.message <;> simp

/-- A command prepares its job as the library does. -/
theorem prepare_plain : (plainOptions dump level (code :: arguments)).prepare files = (do
    let program ← (compileAt code (.int level)).mapError fun e => report "" (.error e)
    let bytes ← (ByteArgument.input arguments).mapError fun e => report "" (.error e)
    let listed ← ((plainOptions dump level (code :: arguments)).dumpText program).mapError fun r =>
      report "" (.error (.refusal r))
    return ⟨plainOptions dump level (code :: arguments), program, bytes, listed, ""⟩) := by
  have hsource : source files (plainOptions dump level (code :: arguments)) =
      .ok (code, arguments) := rfl
  rw [Options.prepare, hsource, compileAt_of_requested rfl]
  simp only [← failed_eq]
  rfl

theorem dumpText_plain (htext : listing program = .ok text) :
    (plainOptions dump level items).dumpText program = .ok (if dump then text ++ "\n" else "") := by
  cases dump with
  | false => rfl
  | true =>
    show (listing program).map (· ++ "\n") = _
    rw [htext]
    rfl

theorem prepare_of_listing (h : compileAt code (.int level) = .ok program)
    (hinput : ByteArgument.input arguments = .ok bytes) (htext : listing program = .ok text) :
    (plainOptions dump level (code :: arguments)).prepare files =
      .ok ⟨plainOptions dump level (code :: arguments), program, bytes,
        if dump then text ++ "\n" else "", ""⟩ := by
  rw [prepare_plain, h, hinput]
  show ((plainOptions dump level (code :: arguments)).dumpText program).mapError _ >>= _ = _
  rw [dumpText_plain htext]
  rfl

theorem outcome_plain (listed : String) (clock : Clock) (r : Session.Reply) :
    (Job.mk (plainOptions dump level items) program bytes listed "").outcome clock r =
      report listed (Result.ofReply program r) := by
  rw [Job.outcome]
  cases Result.ofReply program r with
  | ok result => simp [plainOptions, report, Job.resultText, Job.statsText, String.append_assoc]
  | error e => simp [plainOptions, failed_eq]

theorem answer_of_error {words : List String} {o : Options} {outcome : Outcome}
    (hparse : parse words = .options o) (h : o.prepare files = .error outcome) (clock : Clock)
    (budget : ℕ) : answer clock budget files words = some outcome := by
  simp only [answer, hparse, h]

theorem answer_of_job {words : List String} {o : Options} {job : Job}
    (hparse : parse words = .options o) (h : o.prepare files = .ok job) (clock : Clock)
    (budget : ℕ) :
    answer clock budget files words = (job.run budget).map (job.outcome clock) := by
  simp only [answer, hparse, h]

/-- A listing that cannot be written is in the way of the run, if it was asked for. -/
theorem answer_of_unlisted {words : List String}
    (hparse : parse words = .options (plainOptions dump level (code :: arguments)))
    (h : compileAt code (.int level) = .ok program)
    (hinput : ByteArgument.input arguments = .ok bytes)
    (hlisting : listing program = .error refusal) (clock : Clock) (budget : ℕ) :
    answer clock budget files words = if dump then some (report "" (.error (.refusal refusal))) else
      (runSource budget code (inputOf bytes) (.int level)).map (report "") := by
  cases dump with
  | true =>
    refine answer_of_error hparse ?_ clock budget
    rw [prepare_plain, h, hinput]
    show ((listing program).map _).mapError _ >>= _ = _
    rw [hlisting]
    rfl
  | false =>
    have hprepare : (plainOptions false level (code :: arguments)).prepare files =
        .ok ⟨plainOptions false level (code :: arguments), program, bytes, "", ""⟩ := by
      rw [prepare_plain, h, hinput]
      rfl
    rw [answer_of_job hparse hprepare, runSource_of_compile h (inputOf_bytes bytes), Option.map_map]
    exact congrArg (Option.map · _) (funext (outcome_plain "" clock))

end Jobs

/-- **A command does what the library does.** It reports the fault of the compilation, or else that
of the arguments, and otherwise the run, behind a listing if any was asked for. Only a source too
long for its positions to be written may be refused its listing, or the report of its fault. -/
theorem answer_agrees (hlevel : (toString level.natAbs).length ≤ Text.digitLimit)
    (clock : Clock) (budget : ℕ) (files : Files) (before behind : ℕ) (code : String)
    (arguments : List String) :
    (∀ e, compileAt code (.int level) = .error e → Reported code e ∧
      answer clock budget files (commandLine before behind level code arguments) =
        some (report "" (.error e))) ∧
    ∀ program, compileAt code (.int level) = .ok program →
      (∀ e, ByteArgument.input arguments = .error e →
        ((∃ f text, e = .fault f ∧ f.message = .ok text) ∨
          ∃ n, Text.digitLimit < n ∧ e = .refusal (.longNumeral n)) ∧
        answer clock budget files (commandLine before behind level code arguments) =
          some (report "" (.error e))) ∧
      ∀ bytes, ByteArgument.input arguments = .ok bytes →
        (∀ e, runSource budget code (inputOf bytes) (.int level) = some (.error e) →
          Reported code e) ∧
        ((∃ text, listing program = .ok text ∧
          answer clock budget files (commandLine before behind level code arguments) =
            (runSource budget code (inputOf bytes) (.int level)).map
              (report (if before + behind = 0 then "" else text ++ "\n"))) ∨
          ¬ Source.Numbered code ∧ listing program = .error .longInteger ∧
            answer clock budget files (commandLine before behind level code arguments) =
              if before + behind = 0 then
                (runSource budget code (inputOf bytes) (.int level)).map (report "")
              else some (report "" (.error (.refusal .longInteger)))) := by
  have hparse : parse (commandLine before behind level code arguments) =
      .options (plainOptions (decide (0 < before + behind)) level (code :: arguments)) :=
    parse_commandLine hlevel before behind code arguments
  constructor
  · intro e he
    refine ⟨reported_of_compileAt he, answer_of_error hparse ?_ clock budget⟩
    rw [prepare_plain, he]
    rfl
  · intro program hprogram
    obtain ⟨_, -, hcompile⟩ := compile_of_compileAt hprogram
    refine ⟨fun e he => ⟨failure_of_input he, answer_of_error hparse ?_ clock budget⟩,
      fun bytes hbytes => ⟨fun e he => ?_, ?_⟩⟩
    · rw [prepare_plain, hprogram, he]
      rfl
    · rw [runSource_of_compile hprogram (inputOf_bytes bytes)] at he
      obtain ⟨r, hrun, hr⟩ := Option.map_eq_some_iff.mp he
      exact reported_of_run hcompile hrun hr
    · rcases listing_of_compile hcompile with ⟨text, htext, -⟩ | ⟨hlisting, hlong⟩
      · have hlisted : (if decide (0 < before + behind) then text ++ "\n" else "") =
            if before + behind = 0 then "" else text ++ "\n" := by
          simp only [Nat.pos_iff_ne_zero, decide_eq_true_eq, ite_not]
        refine Or.inl ⟨text, htext, ?_⟩
        rw [answer_of_job hparse (prepare_of_listing hprogram hbytes htext),
          runSource_of_compile hprogram (inputOf_bytes bytes), Option.map_map, ← hlisted]
        exact congrArg (Option.map · _) (funext (outcome_plain _ clock))
      · refine Or.inr ⟨hlong, hlisting, ?_⟩
        rw [answer_of_unlisted hparse hprogram hbytes hlisting]
        simp only [Nat.pos_iff_ne_zero, decide_eq_true_eq, ite_not]

end Outcomes

/-- What `-.` compiles to. -/
def minusProgram : List Item := [.instr ⟨.add 255, 1⟩, .instr ⟨.output, 2⟩]

theorem answer_agrees_minus :
    (toString (-5 : ℤ).natAbs).length ≤ Text.digitLimit ∧
      compileAt "-." (.int (-5)) = .ok minusProgram ∧
      ByteArgument.input ["--"] = .ok (some [45, 45]) ∧
      ∃ text, listing minusProgram = .ok text ∧
        answer ⟨"0.00", "0.00"⟩ 9 (fun _ => .error .missing)
            ["--dump", "--level", "-5", "--", "-.", "--"] =
          (runSource 9 "-." (.values [45, 45]) (.int (-5))).map (report (text ++ "\n")) := by
  have hlevel : (toString (-5 : ℤ).natAbs).length ≤ Text.digitLimit := by decide
  have hcompile : compileAt "-." (.int (-5)) = .ok minusProgram := rfl
  have hinput : ByteArgument.input ["--"] = .ok (some [45, 45]) := rfl
  obtain ⟨-, hagrees⟩ := answer_agrees hlevel ⟨"0.00", "0.00"⟩ 9 (fun _ => .error .missing) 1 0 "-."
    ["--"]
  obtain ⟨-, hrun⟩ := hagrees minusProgram hcompile
  obtain ⟨-, hlisted⟩ := hrun (some [45, 45]) hinput
  have hnumbered : Source.Numbered "-." := .of_length (by decide)
  obtain ⟨text, htext, hanswer⟩ := hlisted.resolve_right fun hlong => hlong.1 hnumbered
  exact ⟨hlevel, hcompile, hinput, text, htext, hanswer⟩

end TapeMachine.CommandLine
