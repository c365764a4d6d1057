import Mathlib.Data.List.TakeWhile
import TapeMachine.Proofs.Decoding
import TapeMachine.Proofs.Lifecycle
import TapeMachine.Proofs.Structured

/-! # Echoing

`,[.,]` puts out what it reads as long as that is not zero, and past its end the
input reads as zeros. So it puts out the bytes up to the first zero
(`echo_copies`), which is all of them if they are those of a text without NUL
characters. One lap of the loop puts out a byte and reads the one behind it. -/
namespace TapeMachine

/-! ## The bytes before the first zero -/

/-- Whether the bytes `out` are the longest beginning of `bytes` that has no zero in it. -/
structure UpToZero (bytes out : List UInt8) : Prop where
  start : out <+: bytes
  clean : 0 ∉ out
  longest : ∀ other, other <+: bytes → 0 ∉ other → other <+: out

/-- The bytes before the first zero. -/
def beforeZero (bytes : List UInt8) : List UInt8 := bytes.takeWhile (· ≠ 0)

theorem beforeZero_cons {b : UInt8} (hb : b ≠ 0) (bytes : List UInt8) :
    beforeZero (b :: bytes) = b :: beforeZero bytes :=
  List.takeWhile_cons_of_pos (decide_eq_true hb)

theorem beforeZero_of_not_mem {bytes : List UInt8} (h : 0 ∉ bytes) : beforeZero bytes = bytes := by
  refine List.takeWhile_eq_self_iff.2 fun b hb => ?_
  exact decide_eq_true (ne_of_mem_of_not_mem hb h)

theorem upToZero_beforeZero (bytes : List UInt8) : UpToZero bytes (beforeZero bytes) where
  start := List.takeWhile_prefix _
  clean h := by simpa using List.mem_takeWhile_imp h
  longest := by
    rintro other ⟨rest, rfl⟩ hclean
    refine ⟨beforeZero rest, (List.takeWhile_append_of_pos fun b hb => ?_).symm⟩
    exact decide_eq_true (ne_of_mem_of_not_mem hb hclean)

/-! ## The loop -/

/-- The loop of `,[.,]`. -/
def echoLoop : Block (Char × ℕ) :=
  .loop ('[', 2) (.act ('.', 3) (.act (',', 4) .done)) (']', 5) .done

/-- Whether these bytes are still to be echoed: the first one, or zero if there is none, is in the
current cell, and the others are what is left of the input. -/
structure Course.Pending (bytes : List UInt8) (c : Course) (left : List UInt8) : Prop where
  cell : c.memory.cell = residue (left.headD 0)
  unread : bytes.drop c.reads = left.tail

/-- Reads the next byte into the current cell. -/
def Course.fetch (bytes : List UInt8) (c : Course) : Course :=
  ⟨c.memory.write (residue (bytes.getD c.reads 0)), c.reads + 1, c.output⟩

/-- Puts out the current cell. -/
def Course.put (c : Course) : Course := { c with output := c.output ++ [c.memory.cell] }

section Loop

variable {bytes left : List UInt8} {b : UInt8} {c : Course}

theorem Course.fetch_pending (h : bytes.drop c.reads = left) :
    (c.fetch bytes).Pending bytes left where
  cell := by
    rw [← h, List.headD_eq_head?_getD, List.head?_drop, ← List.getD_eq_getElem?_getD]
    exact Memory.write_cell _ _
  unread := by
    rw [← h, List.tail_drop]
    rfl

/-- **A lap puts out one byte and leaves the others.** -/
theorem Course.Pending.lap (h : c.Pending bytes (b :: left)) (hb : b ≠ 0) :
    Lap (Source.act (some bytes)) Course.Enters (.act ('.', 3) (.act (',', 4) .done)) c
        (c.put.fetch bytes) ∧
      (c.put.fetch bytes).Pending bytes left ∧
      (c.put.fetch bytes).output = c.output ++ [residue b] := by
  have henters : c.Enters := by
    rw [Course.Enters, h.cell]
    exact mt residue_eq_zero.mp hb
  refine ⟨⟨henters, .act rfl (.act rfl .done)⟩, fetch_pending h.unread, ?_⟩
  exact congrArg (c.output ++ [·]) h.cell

/-- With a zero in the current cell the loop is passed by. -/
theorem eval_echoLoop_of_zero (h : c.memory.cell = 0) :
    Eval (Source.act (some bytes)) Course.Enters echoLoop c (.ended c) :=
  .skip (fun henters => henters h) .done

/-- **The loop puts out the bytes before the first zero.** -/
theorem Course.Pending.eval_echoLoop (h : c.Pending bytes left) :
    ∃ t, Eval (Source.act (some bytes)) Course.Enters echoLoop c (.ended t) ∧
      t.output = c.output ++ (beforeZero left).map residue := by
  induction left generalizing c with
  | nil => exact ⟨c, eval_echoLoop_of_zero h.cell, (List.append_nil _).symm⟩
  | cons b left ih =>
    by_cases hb : b = 0
    · subst hb
      exact ⟨c, eval_echoLoop_of_zero h.cell, (List.append_nil _).symm⟩
    · obtain ⟨hlap, hpending, hput⟩ := h.lap hb
      obtain ⟨t, ht, hout⟩ := ih hpending
      refine ⟨t, .again hlap.1 hlap.2 ht, ?_⟩
      rw [hout, hput, beforeZero_cons hb, List.map_cons, List.append_assoc, List.singleton_append]

theorem eval_echo (bytes : List UInt8) :
    ∃ t, Eval (Source.act (some bytes)) Course.Enters echo .start (.ended t) ∧
      t.output = (beforeZero bytes).map residue := by
  have hpending : (Course.start.fetch bytes).Pending bytes bytes := Course.fetch_pending rfl
  obtain ⟨t, ht, hout⟩ := hpending.eval_echoLoop
  exact ⟨t, .act rfl ht, hout⟩

end Loop

/-! ## Running it -/

section Echo

variable {request : Value} {level : Level} {input : Input} {bytes : List UInt8}

/-- Nothing in `,[.,]` can be condensed. -/
theorem compile_echo (level : Level) : compile ",[.,]" level = .ok (echo.program.linked 0) := by
  cases level <;> rfl

/-- The program of `,[.,]` ends with the bytes before the first zero as its output. -/
theorem runProgram_echo (bytes : List UInt8) :
    ∃ budget r, runProgram budget (echo.program.linked 0) (some bytes) = some r ∧
      r.failure = none ∧ r.session.output = some (beforeZero bytes).toArray := by
  obtain ⟨t, ht, hout⟩ := eval_echo bytes
  obtain ⟨o', ho', hrel⟩ := echo_isTree.eval_program echo_clean (start_matches (some bytes)) ht
  obtain ⟨budget, r, hr, hshows⟩ :=
    execute_of_eval echo_isTree.program_shaped program_fits (feed_queueOf (some bytes)) ho'
  refine ⟨budget, r, hr, ?_⟩
  cases hrel with
  | @ended _ e hmatches =>
    obtain ⟨hfailure, houtput, -, -⟩ := hshows
    have hbytes : e.output.toList = beforeZero bytes :=
      List.map_injective_iff.2 (fun _ _ => residue_injective) (hmatches.output.trans hout)
    exact ⟨hfailure, by rw [houtput, ← hbytes, Array.toArray_toList]⟩

theorem runSource_echo (hlevel : Level.requested request = .ok level)
    (hinput : input.bytes = .ok (some bytes)) : ∃ enough, ∀ budget ≥ enough,
      runSource budget ",[.,]" input request =
        some (.ok ⟨(beforeZero bytes).toArray, Utf8.decodeLossy (beforeZero bytes), 5⟩) := by
  have hcompile : compileAt ",[.,]" request = .ok (echo.program.linked 0) := by
    rw [compileAt_of_requested hlevel, compile_echo]
  obtain ⟨enough, r, hr, hfailure, houtput⟩ := runProgram_echo bytes
  refine ⟨enough, fun budget hle => ?_⟩
  have hrun : runProgram budget (echo.program.linked 0) (some bytes) = some r :=
    Session.execute_mono hr hle
  rw [runSource_of_compile hcompile hinput, hrun, Option.map_some,
    ofReply_of_output hfailure houtput]
  rfl

/-- **`,[.,]` echoes its input.** At every level it ends, and has put out the input up to the first
zero. What it puts out for a text without NUL characters is that text. -/
theorem echo_copies (hlevel : Level.requested request = .ok level) :
    (∀ input bytes, Input.bytes input = .ok (some bytes) → ∃ out enough, UpToZero bytes out ∧
      ∀ budget ≥ enough, runSource budget ",[.,]" input request =
        some (.ok ⟨out.toArray, Utf8.decodeLossy out, 5⟩)) ∧
    (∀ s : String, '\x00' ∉ s.toList → ∃ enough,
      ∀ budget ≥ enough, runSource budget ",[.,]" (.text s) request =
        some (.ok ⟨(Utf8.encode s).toArray, s, 5⟩)) := by
  constructor
  · intro input bytes hinput
    obtain ⟨enough, hrun⟩ := runSource_echo hlevel hinput
    exact ⟨_, enough, upToZero_beforeZero bytes, hrun⟩
  · intro s hs
    obtain ⟨enough, hrun⟩ := runSource_echo hlevel (show (Input.text s).bytes = _ from rfl)
    rw [beforeZero_of_not_mem (Utf8.zero_not_mem_encode hs), Utf8.decodeLossy_encode] at hrun
    exact ⟨enough, hrun⟩

theorem echo_copies_bytes :
    Level.requested (.int 2) = .ok .idiomatic ∧
      (Input.values [104, 0, 105]).bytes = .ok (some [104, 0, 105]) ∧ '\x00' ∉ "hé".toList ∧
      (∃ out enough, UpToZero [104, 0, 105] out ∧
        ∀ budget ≥ enough, runSource budget ",[.,]" (.values [104, 0, 105]) (.int 2) =
          some (.ok ⟨out.toArray, Utf8.decodeLossy out, 5⟩)) ∧
      (∃ enough, ∀ budget ≥ enough, runSource budget ",[.,]" (.text "hé") (.int 2) =
        some (.ok ⟨(Utf8.encode "hé").toArray, "hé", 5⟩)) :=
  ⟨rfl, rfl, by decide, (echo_copies rfl).1 (.values [104, 0, 105]) [104, 0, 105] rfl,
    (echo_copies rfl).2 "hé" (by decide)⟩

end Echo

end TapeMachine
