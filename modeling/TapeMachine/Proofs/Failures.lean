import TapeMachine.Proofs.Bounds
import TapeMachine.Proofs.Histories
import TapeMachine.Proofs.Origins

/-! # How compiled programs fail

A run ends at one instruction, and what stands there decides how. In the program
of a source every bracket leads to its partner, every instruction has a word, and
what was put in for a loop stands where the loop began. So a run can fail for two
reasons only (`compiled_fails_only`): input is asked for that was not supplied, or
an idiom is met that stands for a loop without an end, which needs the level at
which idioms are made. -/
namespace TapeMachine

/-! ## Where a whole program ends -/

section Whole

variable {n : ℕ} {g : Image} {b : Block Piece} {r : Run} {f : Finish} {x : Piece} {base i : ℕ}

/-- Every index of a block holds a linked bracket or an action. -/
theorem Image.Places.word (h : g.Places base b) (hle : base ≤ i)
    (hlt : i < base + b.flatten.length) :
    (∃ t, g.code[i]? = some (.opening (some t)) ∨ g.code[i]? = some (.closing (some t))) ∨
      ∃ x, g.Holds i x := by
  induction b generalizing base with
  | done =>
    simp only [Block.flatten, List.length_nil] at hlt
    omega
  | act x rest ih =>
    simp only [Block.flatten, List.length_cons] at hlt
    obtain ⟨hx, hrest⟩ := h
    rcases hle.eq_or_lt with rfl | hlt'
    · exact Or.inr ⟨x, hx⟩
    · exact ih hrest hlt' (by omega)
  | loop o body e rest ihb ih =>
    simp only [Block.flatten, List.length_cons, List.length_append] at hlt
    obtain ⟨hopen, hbody, hclose, hrest⟩ := h
    rcases hle.eq_or_lt with rfl | hlt'
    · exact Or.inl ⟨_, Or.inl hopen⟩
    · rcases Nat.lt_trichotomy i (base + 1 + body.flatten.length) with hin | rfl | hout
      · exact ihb hbody hlt' hin
      · exact Or.inl ⟨_, Or.inr hclose⟩
      · exact ih hrest hout (by omega)

/-- How a run ends at an action: its input is missing, or it stops with an effect that is none. -/
def Image.EndsAt (n : ℕ) (r : Run) (x : Piece) (fault : Option Fault) : Prop :=
  (x.instr.op.effect (r.state.memory n) = .error .input ∧ r.feed.next? = none ∧
      fault = some (.missingInput x.instr.position)) ∨
    ∃ why, x.instr.op.effect (r.state.memory n) = .error why ∧ why ≠ .input ∧
      fault = Run.faultOf why x.instr.position r.state.pointer

/-- **A whole program ends behind its last word or at an action.** -/
theorem Image.Whole.finished_cases [NeZero n] {k : ℕ} (hn : n = 2 ^ k)
    (hg : g.Whole b) (hr : r.state.Fits n) (h : g.turn r = .finished f) :
    f.run.state = r.state ∧ f.run.feed = r.feed ∧ ∃ fault, f.failure = fault.map Fault.raised ∧
      (fault = none ∨ ∃ x, g.Holds r.state.pc x ∧ EndsAt n r x fault) := by
  obtain ⟨why, fault, hstep, hfeed, hfailure, hcases⟩ := TapeMachine.finished_cases h
  unfold step at hstep
  cases hword : g.code[r.state.pc]? with
  | none =>
    rw [hword] at hstep
    obtain ⟨rfl, hstate⟩ := Progress.stopped.inj hstep
    obtain ⟨-, hfault⟩ := hcases.resolve_left (by simp)
    exact ⟨hstate.symm, hfeed, fault, hfailure, Or.inl hfault⟩
  | some w =>
    simp only [hword] at hstep
    have hlt : r.state.pc < 0 + b.flatten.length := by
      rw [Nat.zero_add, ← hg.size]
      exact (Array.getElem?_eq_some_iff.mp hword).1
    rcases hg.places.word (Nat.zero_le _) hlt with ⟨t, ht | ht⟩ | ⟨x, hx⟩
    · cases hword.symm.trans ht
      cases hstep
    · cases hword.symm.trans ht
      cases hstep
    · obtain ⟨items, w', hw, hw'⟩ := hx.word
      cases hword.symm.trans hw'
      have hshows := apply_effect hn hr hw hx.plain
      rw [hstep] at hshows
      cases heffect : x.instr.op.effect (r.state.memory n) with
      | ok m => rw [heffect] at hshows; exact hshows.elim
      | error stop =>
        rw [heffect] at hshows
        obtain ⟨rfl, hstate⟩ := hshows
        rw [hstate, hx.position] at hcases
        refine ⟨hstate, hfeed, fault, hfailure, Or.inr ⟨x, hx, ?_⟩⟩
        rcases hcases with ⟨rfl, hnext, hfault⟩ | ⟨hwhy, hfault⟩
        · exact Or.inl ⟨heffect, hnext, hfault⟩
        · exact Or.inr ⟨_, heffect, hwhy, hfault⟩

end Whole

/-! ## Loops without an end -/

/-- The amount that an idiom adds in each round to the cell that it empties. -/
def Op.drainStep? : Op → Option ℤ
  | .drain step => some step
  | .transfer _ sourceDelta _ => some sourceDelta
  | _ => none

/-- Whether a cell is no multiple of what a step and 256 share, so that no number of rounds takes it
to zero. -/
structure Endless (step : ℤ) (v : UInt8) : Prop where
  even : Even step
  ne_zero : v ≠ 0
  not_dvd : ¬ (Int.gcd step 256 : ℤ) ∣ v.toNat

section Stuck

variable {n : ℕ} {s : State} {op : Op} {why : Stop}

theorem State.Fits.endless_of_drain (h : s.Fits n) {step : ℤ} {emptied : ℕ → Memory n}
    (hdrain : (s.memory n).drain step emptied = .error why) :
    why = .endless (s.tape.cell s.pointer) ∧ Endless step (s.tape.cell s.pointer) := by
  have hwhy := drain_error hdrain
  rw [h.cell, ofResidue_residue] at hwhy
  refine ⟨hwhy, ?_⟩
  unfold Memory.drain at hdrain
  split at hdrain
  · cases hdrain
  · rename_i hne
    rcases firstRound?_cases fun rounds : ℕ => (s.memory n).cell + rounds * (step : ZMod 256) = 0
      with ⟨rounds, hsome, -⟩ | ⟨-, hnone⟩
    · rw [hsome] at hdrain
      cases hdrain
    · have hnot : ¬ (Int.gcd step 256 : ℤ) ∣ (s.tape.cell s.pointer).toNat := fun hdvd => by
        obtain ⟨j, hj, hzero⟩ := exists_drained hdvd
        exact hnone j hj (by rw [h.cell]; simpa [drained, residue] using hzero)
      exact ⟨even_of_not_dvd hnot, mt h.cell_eq_zero.mpr hne, hnot⟩

theorem State.Fits.full_of_scan [NeZero n] (h : s.Fits n) {step : ZMod n} (hunit : step * step = 1)
    (hscan : (s.memory n).scan step = .error why) :
    why = .fullTape ∧ ∀ v ∈ s.tape, v ≠ 0 := by
  refine ⟨scan_error hscan, ?_⟩
  unfold Memory.scan at hscan
  split at hscan
  · cases hscan
  · rcases firstRound?_cases ((s.memory n).IsGap step) with ⟨rounds, hsome, -⟩ | ⟨-, hnone⟩
    · rw [hsome] at hscan
      cases hscan
    · have hzero := h.hasZero_eq_false hunit hnone
      rw [Tape.hasZero, Array.any_eq_false'] at hzero
      simpa using hzero

/-- An instruction that has no effect stands for a loop without an end, if it is neither input nor
output. -/
theorem State.Fits.stuck_cases [NeZero n] (h : s.Fits n)
    (heffect : op.effect (s.memory n) = .error why) :
    (why = .input ∧ op = .input) ∨ (why = .output ∧ op = .output) ∨
      (∃ step, op.drainStep? = some step ∧ why = .endless (s.tape.cell s.pointer) ∧
        Endless step (s.tape.cell s.pointer)) ∨
      ((op = .scanLeft ∨ op = .scanRight) ∧ why = .fullTape ∧ ∀ v ∈ s.tape, v ≠ 0) := by
  cases op with
  | add | move | clear | opening | closing => cases heffect
  | input => exact Or.inl ⟨(Except.error.inj heffect).symm, rfl⟩
  | output => exact Or.inr (Or.inl ⟨(Except.error.inj heffect).symm, rfl⟩)
  | drain | transfer =>
    exact Or.inr (Or.inr (Or.inl ⟨_, rfl, h.endless_of_drain heffect⟩))
  | scanLeft =>
    exact Or.inr (Or.inr (Or.inr ⟨Or.inl rfl, h.full_of_scan (by simp) heffect⟩))
  | scanRight =>
    exact Or.inr (Or.inr (Or.inr ⟨Or.inr rfl, h.full_of_scan (by simp) heffect⟩))

end Stuck

/-! ## Failures -/

/-- How the program of a source fails at an instruction, with the session that it leaves. -/
inductive Fails (source : String) (level : Level) (queue : Option (List ℤ)) (s : Session) :
    Instruction → Fault → Prop
  | missingInput {p : ℕ} : queue = none → (',', p) ∈ Source.placed source →
      Fails source level queue s ⟨.input, p⟩ (.missingInput p)
  | endlessDrain {p : ℕ} {op : Op} {step : ℤ} : level = .idiomatic →
      ('[', p) ∈ Source.placed source → op.drainStep? = some step →
      Endless step (s.tape.cell s.pointer) → Fails source level queue s ⟨op, p⟩
        (.endlessDrain p (s.tape.cell s.pointer).toNat s.pointer)
  | fullTape {p : ℕ} {op : Op} : level = .idiomatic → ('[', p) ∈ Source.placed source →
      op = .scanLeft ∨ op = .scanRight → (∀ v ∈ s.tape, v ≠ 0) →
      Fails source level queue s ⟨op, p⟩ (.fullTape p)

section Fails

variable {source : String} {level : Level} {queue : Option (List ℤ)} {s : Session} {r : Run}
  {x : Piece} {i : Instruction} {fault : Fault}

/-- Without idioms nothing fails that has its input. -/
theorem Fails.not_supplied (h : Fails source level queue s i fault) (hplain : level ≠ .idiomatic) :
    ¬ queue.isSome := by
  cases h with
  | missingInput hnone => simp [hnone]
  | endlessDrain hidiomatic => exact absurd hidiomatic hplain
  | fullTape hidiomatic => exact absurd hidiomatic hplain

theorem isIdiom_of_drainStep {op : Op} {step : ℤ} (h : op.drainStep? = some step) :
    op.isIdiom = true := by
  cases op <;> first | rfl | cases h

/-- An action of the program of a source ends a run as `Fails` says. -/
theorem Image.EndsAt.fails (h : EndsAt tapeSize r x (some fault)) (hx : x.ComesFrom source level)
    (hr : r.state.Fits tapeSize) (hqueue : r.feed.unread = none → queue = none)
    (htape : s.tape = r.state.tape) (hpointer : s.pointer = r.state.pointer) :
    Fails source level queue s x.instr fault := by
  obtain ⟨⟨op, position⟩, collapsed⟩ := x
  rcases h with ⟨heffect, hnext, hfault⟩ | ⟨why, heffect, hwhy, hfault⟩
  · rcases hr.stuck_cases heffect with ⟨-, hop⟩ | ⟨hno, -⟩ | ⟨_, -, hno, -⟩ | ⟨-, hno, -⟩
    · obtain ⟨p, hp, hposition⟩ := hx.input hop
      obtain rfl : op = .input := hop
      obtain rfl : position = p := hposition
      cases hfault
      refine .missingInput (hqueue ?_) hp
      unfold Feed.next? at hnext
      split at hnext
      · assumption
      · cases hnext
      · cases hnext
    · cases hno
    · cases hno
    · cases hno
  · rcases hr.stuck_cases heffect with
      ⟨hno, -⟩ | ⟨rfl, -⟩ | ⟨step, hstep, rfl, hendless⟩ | ⟨hop, rfl, hfull⟩
    · exact absurd hno hwhy
    · cases hfault
    · obtain ⟨hlevel, p, hp, hposition⟩ := hx.idiom (isIdiom_of_drainStep hstep)
      obtain rfl : position = p := hposition
      cases hfault
      rw [← htape, ← hpointer] at hendless ⊢
      exact .endlessDrain hlevel hp hstep hendless
    · obtain ⟨hlevel, p, hp, hposition⟩ := hx.idiom (by rcases hop with rfl | rfl <;> rfl)
      obtain rfl : position = p := hposition
      cases hfault
      exact .fullTape hlevel hp hop (htape ▸ hfull)

end Fails

namespace Session

section Execute

variable {source : String} {level : Level} {program : List Item} {queue : Option (List ℤ)}
  {feed : Feed} {budget : ℕ} {code : Array Word} {f : Finish}

/-- A queue is refused if it has a value that is no byte. -/
theorem refused_of_feed {refusal : Refusal} (h : feed? queue = .error refusal) :
    refusal = .queueRange ∧ ∃ values, queue = some values ∧ ∃ v ∈ values, ¬ (0 ≤ v ∧ v < 256) := by
  cases queue with
  | none => cases h
  | some values =>
    have hmap : values.mapM (byte .queueRange) = .error refusal := by
      rw [feed?] at h
      cases hmap : values.mapM (byte .queueRange) with
      | ok bytes => rw [hmap] at h; cases h
      | error e => rw [hmap] at h; cases h; rfl
    obtain ⟨v, hv, hbyte⟩ := exists_of_mapM_error hmap
    unfold byte at hbyte
    split at hbyte
    · cases hbyte
    · rename_i hrange
      cases hbyte
      exact ⟨rfl, values, rfl, v, hv, hrange⟩

theorem settle_ready (program : List Item) (feed : Feed) (f : Finish) :
    ((ready program feed).settle f).failure = f.failure ∧
      ((ready program feed).settle f).session.fault = f.failure.bind Failure.fault? ∧
      ((ready program feed).settle f).session.tape = f.run.state.tape ∧
      ((ready program feed).settle f).session.pointer = f.run.state.pointer := by
  have hstage : (ready program feed).stage = .loaded := rfl
  rcases (ready program feed).settle_cases hstage (f := f) with
    ⟨hf, heq⟩ | ⟨_, hf, heq⟩ | ⟨_, hf, heq⟩ <;> rw [heq, hf] <;> exact ⟨rfl, rfl, rfl, rfl⟩

/-- A run of the program of a source fails as `Fails` says. -/
theorem fails_of_finish (hcompile : compile source level = .ok program)
    (hcode : encode program = .ok code) (hfeed : feed? queue = .ok feed)
    (h : Run.finish program.toArray code budget (Run.start .blank feed) = some f) {e : Failure}
    (hfailure : f.failure = some e) :
    ∃ i fault, program[f.run.state.pc]? = some (.instr i) ∧ e = Fault.raised fault ∧
      Fails source level queue ((ready program feed).settle f).session i fault := by
  obtain ⟨b, c, hb, hc, rfl⟩ := condenses_of_compile hcompile
  obtain ⟨code', hcode', hwhole⟩ := encode_linked hc.shaped hc.fits
  obtain rfl := Except.ok.inj (hcode'.symm.trans hcode)
  have hkeeps : ∀ r t : Run, r.state.Within code'.size tapeSize →
      Run.turn (c.linked 0).toArray code' r = .next t → t.state.Within code'.size tapeSize :=
    fun r t => turn_keeps (lands_of_encode hcode)
  obtain ⟨t, hwithin, hturn⟩ := finish_last hkeeps h ⟨start_fits feed, Nat.zero_le _⟩
  obtain ⟨hstate, hsame, fault?, hlast, hends⟩ :=
    hwhole.finished_cases tapeSize_eq hwithin.toFits hturn
  obtain ⟨fault, rfl, hraised⟩ := Option.map_eq_some_iff.mp (hlast.symm.trans hfailure)
  obtain ⟨x, hx, hends⟩ := hends.resolve_left (by simp)
  have hmem : x ∈ c.flatten := List.mem_of_getElem? hx.piece
  have horigin := origin_of_piece (sound_of_compile hcompile).1 hb hc hmem
  obtain ⟨-, -, htape, hpointer⟩ := settle_ready (c.linked 0) feed f
  rw [hstate] at htape hpointer ⊢
  refine ⟨x.instr, fault, getElem?_linked hc.shaped hx.piece hx.plain, hraised.symm, ?_⟩
  refine hends.fails horigin hwithin.toFits ?_ htape hpointer
  intro hnone
  rw [← hsame] at hnone
  rcases finish_feed h with hstart | ⟨-, hsome⟩
  · rw [← (queue_of_feed hfeed).2]
    simpa [Run.start, hnone] using (congrArg Feed.unread hstart).symm
  · rw [hnone] at hsome
    cases hsome

end Execute

end Session

/-- **A compiled program fails in two ways only.** It can be encoded, whatever its source and level.
Its run, on any queue of bytes, fails where the source asks for input and none was supplied, or at
the most condensed level where the source has a loop that would never end. It is refused for its
queue alone, as long as the positions in the source can be written. -/
theorem compiled_fails_only (source : String) (request : Value) (program : List Item)
    (h : compileAt source request = .ok program) :
    ∃ level code, Level.requested request = .ok level ∧ encode program = .ok code ∧
      ∀ queue budget r, Session.new.execute budget program queue = some r →
        (∀ refusal, r.failure = some (.refusal refusal) →
          (refusal = .queueRange ∧
            ∃ values, queue = some values ∧ ∃ v ∈ values, ¬ (0 ≤ v ∧ v < 256)) ∨
          refusal = .longInteger ∧ ¬ Source.Numbered source) ∧
        (∀ fault, r.failure = some (.fault fault) → ∃ index i,
          (Session.new.load program queue).session.endsAt? budget = some index ∧
          program[index]? = some (.instr i) ∧ Fails source level queue r.session i fault) ∧
        (level ≠ .idiomatic → queue.isSome → r.session.stage ≠ .failed) := by
  obtain ⟨level, hlevel, hcompile⟩ := compile_of_compileAt h
  obtain ⟨code, hcode⟩ := encode_of_compile hcompile
  refine ⟨level, code, hlevel, hcode, ?_⟩
  intro queue budget r hrun
  rcases Session.execute_cases hcode hrun with ⟨refusal, hfeed, rfl⟩ | ⟨feed, f, hfeed, hfinish, rfl⟩
  · refine ⟨?_, ?_, ?_⟩
    · intro refusal' hrefusal
      cases hrefusal
      exact Or.inl (Session.refused_of_feed hfeed)
    · intro fault hfault
      cases hfault
    · intro _ _ hstage
      cases hstage
  · obtain ⟨hfailure, hstored, -, -⟩ := Session.settle_ready program feed f
    refine ⟨?_, ?_, ?_⟩
    · intro refusal hrefusal
      rw [hfailure] at hrefusal
      obtain ⟨rfl, hlong⟩ :=
        long_of_refused hcode ⟨start_fits feed, Nat.zero_le _⟩ hfinish hrefusal
      exact Or.inr ⟨rfl, fun hnumbered => not_long_of_compile hcompile hnumbered hlong⟩
    · intro fault hfault
      rw [hfailure] at hfault
      obtain ⟨i, fault', hi, hraised, hfails⟩ :=
        Session.fails_of_finish hcompile hcode hfeed hfinish hfault
      obtain ⟨-, rfl⟩ := Fault.raised_eq_fault.mp hraised.symm
      refine ⟨_, i, ?_, hi, hfails⟩
      rw [Session.load_of_feed hfeed]
      exact Session.endsAt?_ready budget hcode hfinish
    · intro hplain hsupplied hstage
      rw [Session.stage_eq_failed, hstored] at hstage
      cases hf : f.failure with
      | none =>
        rw [hf] at hstage
        cases hstage
      | some e =>
        obtain ⟨i, fault, -, -, hfails⟩ :=
          Session.fails_of_finish hcompile hcode hfeed hfinish hf
        exact hfails.not_supplied hplain hsupplied

/-- The program of `+[--]`: the loop takes two from an odd cell for ever. -/
def endlessProgram : List Item := [.instr ⟨.add 1, 1⟩, .instr ⟨.drain 254, 2⟩]

theorem endless_finish (tape : Tape) (hsize : 0 < tape.size) (hzero : tape.cell 0 = 0) :
    Run.finish endlessProgram.toArray #[.add 1, .drain 254] 2 (.start tape .absent) =
      some ⟨⟨⟨1, 0, tape.setIfInBounds 0 1⟩, .absent, #[]⟩,
        some (.fault (.endlessDrain 2 1 0))⟩ := by
  have hsum : wordCell (cellWord 0 + 1) = 1 := rfl
  have hrounds : roundsToZero? 1 254 = none := by decide
  have hcell : Tape.cell (tape.setIfInBounds 0 1) 0 = 1 := by
    rw [State.cell_set tape hsize, if_pos rfl]
  have hraised : (Fault.endlessDrain 2 1 0).raised = .fault (.endlessDrain 2 1 0) := rfl
  simp [Run.finish, Run.turn, Run.start, step, Word.apply, State.drain, hzero, hsum, hcell, hrounds,
    Run.faultOf, positionAt, endlessProgram, hraised]

/-- What running it leaves. -/
def endlessSession : Session :=
  { Session.new with
    program := some endlessProgram
    fault := some (.endlessDrain 2 1 0)
    tape := Tape.blank.setIfInBounds 0 1 }

theorem endless_run : Session.new.execute 2 endlessProgram none =
    some ⟨endlessSession, some (.fault (.endlessDrain 2 1 0))⟩ := by
  have hfeed : Session.feed? none = .ok .absent := rfl
  have hcode : encode endlessProgram = .ok #[.add 1, .drain 254] := rfl
  have hfinish := endless_finish .blank (by simp [Tape.blank, tapeSize])
    (by simp [Tape.cell, Tape.blank, tapeSize])
  have hsettle : (Session.ready endlessProgram .absent).settle
      ⟨⟨⟨1, 0, Tape.blank.setIfInBounds 0 1⟩, .absent, #[]⟩,
        some (.fault (.endlessDrain 2 1 0))⟩ =
      ⟨endlessSession, some (.fault (.endlessDrain 2 1 0))⟩ := by
    simp [Session.settle, Session.after, Session.ready, Session.new, endlessSession,
      Failure.fault?]
  rw [Session.execute_of_feed 2 hfeed, Session.run_ready 2 hcode, hfinish, Option.map_some, hsettle]

theorem compiled_fails_only_endless :
    compileAt "+[--]" (.int 2) = .ok endlessProgram ∧
      Session.new.execute 2 endlessProgram none =
        some ⟨endlessSession, some (.fault (.endlessDrain 2 1 0))⟩ ∧
      ∃ (index : ℕ) (i : Instruction), endlessProgram[index]? = some (.instr i) ∧
        Fails "+[--]" .idiomatic none endlessSession i (.endlessDrain 2 1 0) := by
  have hcompile : compileAt "+[--]" (.int 2) = .ok endlessProgram := rfl
  obtain ⟨level, code, hlevel, -, hfails⟩ := compiled_fails_only _ _ _ hcompile
  cases hlevel
  obtain ⟨-, hfault, -⟩ := hfails _ _ _ endless_run
  obtain ⟨index, i, -, hi, hends⟩ := hfault _ rfl
  exact ⟨hcompile, endless_run, index, i, hi, hends⟩

end TapeMachine
