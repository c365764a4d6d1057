import TapeMachine.Program
import TapeMachine.Proofs.Diagnosis
import TapeMachine.Proofs.Execution

/-! # Sources as trees

The brackets of a source make it a tree of loops, and the tree can be run by
itself: a loop is gone through again while the current cell is not zero, the
characters in it do what they say, and neither a program nor an index into it
comes into play. Running a source without condensing it ends exactly when its
tree does, in the same way (`run_implements_tree`). -/
namespace TapeMachine

/-- How far the run of a tree has come: the memory, how many bytes were read and the cells put out
so far, the first one first. -/
structure Course where
  memory : Memory tapeSize
  reads : ℕ
  output : List (ZMod 256)

namespace Course

/-- The start, with every cell zero. -/
def start : Course := ⟨⟨fun _ => 0, 0⟩, 0, []⟩

def Enters (c : Course) : Prop := c.memory.cell ≠ 0

end Course

namespace Source

/-- What a character does that is no bracket. Input is read from its beginning, as zeros once it is
used up, and there is a fault if there is no input. -/
def act (input : Option (List UInt8)) (p : Char × ℕ) (c : Course) : Option (Outcome Course) :=
  match p.1 with
  | '+' => some (.ended { c with memory := c.memory.write (c.memory.cell + 1) })
  | '-' => some (.ended { c with memory := c.memory.write (c.memory.cell - 1) })
  | '>' => some (.ended { c with memory := c.memory.move 1 })
  | '<' => some (.ended { c with memory := c.memory.move (-1) })
  | '.' => some (.ended { c with output := c.output ++ [c.memory.cell] })
  | ',' =>
    match input with
    | some bytes =>
      some (.ended { c with
        memory := c.memory.write (residue (bytes.getD c.reads 0)), reads := c.reads + 1 })
    | none => some (.failed (.missingInput p.2) c)
  | _ => none

/-- Whether a tree is the tree of a source. -/
structure IsTree (source : String) (tree : Block (Char × ℕ)) : Prop where
  shaped : tree.Shaped side?
  text : tree.flatten = placed source

theorem IsTree.unique {source : String} {tree tree' : Block (Char × ℕ)} (h : IsTree source tree)
    (h' : IsTree source tree') : tree = tree' :=
  Block.flatten_injective h.shaped h'.shaped (h.text.trans h'.text.symm)

end Source

/-! ## What characters do, and their instructions -/

/-- Whether a run has the memory of a course, has read as much of the input and has put out the
same. -/
structure Course.Matches (input : Option (List UInt8)) (c : Course) (e : Store tapeSize) :
    Prop where
  memory : e.memory = c.memory
  unread : e.feed.unread = input.map (·.drop c.reads)
  output : e.output.toList.map residue = c.output

section Matches

variable {input : Option (List UInt8)} {c : Course} {e : Store tapeSize} {p : Char × ℕ}

theorem Course.Matches.enters (h : c.Matches input e) : c.Enters ↔ e.Enters := by
  rw [Course.Enters, Store.Enters, h.memory]

/-- The next byte of a feed is the byte at the number of reads. -/
theorem Course.Matches.next {bytes : List UInt8} (h : c.Matches (some bytes) e) :
    ∃ feed, e.feed.next? = some (bytes.getD c.reads 0, feed) ∧
      feed.unread = some (bytes.drop (c.reads + 1)) := by
  have hunread : e.feed.unread = some (bytes.drop c.reads) := h.unread
  have hhead : bytes.getD c.reads 0 = (bytes.drop c.reads).head?.getD 0 := by
    rw [List.head?_drop, List.getD_eq_getElem?_getD]
  rw [hhead, ← List.tail_drop, Feed.next?, hunread]
  cases bytes.drop c.reads with
  | nil => exact ⟨_, rfl, rfl⟩
  | cons b rest => exact ⟨_, rfl, rfl⟩

theorem act_input_of_none {position : ℤ} (h : e.feed.next? = none) :
    (⟨.input, position⟩ : Instruction).act e = some (.failed (.missingInput position) e) := by
  rw [Instruction.act, Piece.act]
  simp only [Piece.plain, Op.effect, h]

theorem act_input_of_some {position : ℤ} {b : UInt8} {feed : Feed}
    (h : e.feed.next? = some (b, feed)) : (⟨.input, position⟩ : Instruction).act e =
      some (.ended { e with memory := e.memory.write (residue b), feed }) := by
  rw [Instruction.act, Piece.act]
  simp only [Piece.plain, Op.effect, h]

/-- **A character does what its instruction does.** -/
theorem Course.Matches.act (hp : p.1 ∈ Source.alphabet ∧ Source.side? p = none)
    (h : c.Matches input e) : Option.Rel (Outcome.Related (Course.Matches input))
      (Source.act input p c) ((Source.instruction p).act e) := by
  obtain ⟨char, position⟩ := p
  obtain ⟨hchar, hside⟩ := hp
  obtain ⟨memory, reads, output⟩ := c
  obtain ⟨m, feed, out⟩ := e
  obtain rfl : m = memory := h.memory
  simp only [Source.alphabet, List.mem_cons, List.not_mem_nil, or_false] at hchar
  rcases hchar with rfl | rfl | rfl | rfl | rfl | rfl | rfl | rfl
  · exact .some (.ended ⟨rfl, h.unread, h.output⟩)
  · refine .some (.ended ⟨?_, h.unread, h.output⟩)
    show m.write (m.cell + ((255 : ℤ) : ZMod 256)) = m.write (m.cell - 1)
    rw [sub_eq_add_neg]
    rfl
  · refine .some (.ended ⟨?_, h.unread, h.output⟩)
    show m.move ((65535 : ℤ) : ZMod tapeSize) = m.move (-1)
    rfl
  · exact .some (.ended ⟨rfl, h.unread, h.output⟩)
  · cases input with
    | none =>
      have hnext : feed.next? = none := by
        rw [Feed.next?, show feed.unread = none from h.unread]
      rw [show Source.instruction (',', position) = ⟨.input, position⟩ from rfl,
        act_input_of_none hnext]
      exact .some (.failed h)
    | some bytes =>
      obtain ⟨rest, hnext, hrest⟩ := h.next
      rw [show Source.instruction (',', position) = ⟨.input, position⟩ from rfl,
        act_input_of_some hnext]
      exact .some (.ended ⟨rfl, hrest, h.output⟩)
  · refine .some (.ended ⟨rfl, h.unread, ?_⟩)
    show (out.push (ofResidue m.cell)).toList.map residue = output ++ [m.cell]
    rw [Array.toList_push, List.map_append, show out.toList.map residue = output from h.output]
    simp
  · cases hside
  · cases hside

end Matches

/-! ## Trees, and the blocks that run them -/

/-- The block of a tree. -/
def Block.program (tree : Block (Char × ℕ)) : Block Piece :=
  tree.map fun p => .plain (Source.instruction p)

section Tree

variable {source : String} {tree : Block (Char × ℕ)} {input : Option (List UInt8)}
  {e : Store tapeSize} {c : Course} {o : Outcome Course} {o' : Outcome (Store tapeSize)}

theorem start_matches (input : Option (List UInt8)) :
    Course.start.Matches input (.start ⟨input, false⟩) where
  memory := rfl
  unread := by cases input <;> rfl
  output := rfl

theorem Source.IsTree.leaves (hclean : Source.Clean source) (h : Source.IsTree source tree) :
    tree.Leaves fun p => p.1 ∈ Source.alphabet ∧ Source.side? p = none :=
  h.shaped.leaves (h.text ▸ hclean)

theorem Source.act_failed {p : Char × ℕ} {fault : Fault} {c c' : Course}
    (h : Source.act input p c = some (.failed fault c')) : fault = .missingInput p.2 := by
  unfold Source.act at h
  split at h
  case h_6 =>
    cases input with
    | some bytes => cases h
    | none =>
      cases h
      rfl
  all_goals cases h

/-- The fault of a tree is reported as it is if the positions in its source can be written. -/
theorem Source.IsTree.raised {fault : Fault} {c' : Course} (h : Source.IsTree source tree)
    (hnumbered : Source.Numbered source)
    (ho : Eval (Source.act input) Course.Enters tree c (.failed fault c')) :
    fault.raised = .fault fault := by
  have hleaves := h.shaped.leaves fun p hp => hnumbered.position (h.text ▸ hp)
  obtain ⟨p, c, ⟨hp, -⟩, hact⟩ := ho.exists_action hleaves rfl
  obtain rfl := Source.act_failed hact
  exact Fault.raised_of_writable (by simpa using hp)

theorem Source.IsTree.program_shaped (h : Source.IsTree source tree) :
    tree.program.Shaped Piece.side? :=
  Block.shaped_map (fun p _ => Source.instruction_side p) h.shaped

theorem program_fits : ∀ x ∈ tree.program.flatten, x.instr.op.FitsWords := by
  rw [Block.program, Block.flatten_map, List.forall_mem_map]
  exact fun p _ => Source.instruction_fits p

/-- Nothing in the block of a tree stands for a loop. -/
theorem program_plain {x : Piece} (h : x ∈ tree.program.flatten) : x.collapsed = false := by
  rw [Block.program, Block.flatten_map] at h
  obtain ⟨p, -, rfl⟩ := List.mem_map.mp h
  rfl

/-- The program of a source, not condensed, is the program of its tree. -/
theorem Source.IsTree.compile_eq (hclean : Source.Clean source) (h : Source.IsTree source tree) :
    compile source .plain = .ok (tree.program.linked 0) := by
  have hitems : condense .plain ((Source.placed source).map Source.item) =
      tree.program.flatten.map Piece.item := by
    rw [condense, Source.unlinked_items, ← h.text, Block.program, Block.flatten_map, List.map_map]
    rfl
  rw [compile_of_clean hclean, hitems]
  exact link_flatten source h.program_shaped

/-- A tree has an outcome where its block has one like it. -/
theorem Source.IsTree.eval_program (hclean : Source.Clean source) (h : Source.IsTree source tree)
    (hc : c.Matches input e) (ho : Eval (Source.act input) Course.Enters tree c o) :
    ∃ o', Eval Piece.act Store.Enters tree.program e o' ∧ o.Related (Course.Matches input) o' := by
  obtain ⟨o', ho', hrel⟩ := ho.transfer (fun _ _ hst => hst.enters) (fun _ _ _ hp hst => hst.act hp)
    (h.leaves hclean) hc
  exact ⟨o', eval_map.mpr ho', hrel⟩

/-- And its block has one where the tree has. -/
theorem Source.IsTree.eval_tree (hclean : Source.Clean source) (h : Source.IsTree source tree)
    (hc : c.Matches input e) (ho : Eval Piece.act Store.Enters tree.program e o') :
    ∃ o, Eval (Source.act input) Course.Enters tree c o ∧ o.Related (Course.Matches input) o' :=
  (eval_map.mp ho).transfer_back (fun _ _ hst => hst.enters) (fun _ _ _ hp hst => hst.act hp)
    (h.leaves hclean) hc

end Tree

/-! ## Sessions -/

/-- Whether a session has the tape and the pointer of a memory. -/
structure Session.Keeps (s : Session) (m : Memory tapeSize) : Prop where
  size : s.tape.size = tapeSize
  cells : ∀ i : ZMod tapeSize, residue (s.tape.cell i.val) = m.cells i
  pointer : s.pointer = m.pointer.val

/-- Whether a session and the answer made of it tell how the run of a tree ended. -/
def Session.Tells (s : Session) (answer : Except Failure Result) : Outcome Course → Prop
  | .ended c => s.Keeps c.memory ∧
      ∃ result, answer = .ok result ∧ result.output.toList.map residue = c.output
  | .failed fault c => s.Keeps c.memory ∧ answer = .error fault.raised

section Session

variable {s : Session} {program : List Item} {e : Store tapeSize} {c : Course} {r : Session.Reply}
  {input : Option (List UInt8)} {o : Outcome Course} {o' : Outcome (Store tapeSize)}

theorem Session.Holds.keeps (h : s.Holds program e) : s.Keeps e.memory where
  size := h.fits.size
  cells i := congrFun (congrArg Memory.cells h.memory) i
  pointer := by
    rw [← h.memory]
    exact h.fits.pointer_val.symm

theorem ofReply_of_output {output : Array UInt8} (h : r.failure = none)
    (houtput : r.session.output = some output) : Result.ofReply program r =
      .ok ⟨output, Utf8.decodeLossy output.toList, program.length⟩ := by
  simp only [Result.ofReply, h, Session.readText, Session.readOutput, houtput]
  rfl

theorem ofReply_of_failure {failure : Failure} (h : r.failure = some failure) :
    Result.ofReply program r = .error failure := by
  simp only [Result.ofReply, h]
  rfl

theorem Session.Reply.Shows.tells (h : r.Shows program o')
    (hrel : o.Related (Course.Matches input) o') :
    r.session.Tells (Result.ofReply program r) o := by
  cases hrel with
  | ended hc =>
    obtain ⟨hfailure, houtput, -, hholds⟩ := h
    exact ⟨hc.memory ▸ hholds.keeps, _, ofReply_of_output hfailure houtput, hc.output⟩
  | failed hc =>
    obtain ⟨hfailure, -, -, hholds⟩ := h
    exact ⟨hc.memory ▸ hholds.keeps, ofReply_of_failure hfailure⟩

theorem mapM_byte (refusal : Refusal) (bytes : List UInt8) :
    (bytes.map fun b => (b.toNat : ℤ)).mapM (Session.byte refusal) = .ok bytes := by
  induction bytes with
  | nil => rfl
  | cons b bytes ih =>
    have hb : Session.byte refusal (b.toNat : ℤ) = .ok b := by
      have hlt : b.toNat < 256 := b.toNat_lt
      rw [Session.byte, if_pos ⟨by omega, by omega⟩, Int.toNat_natCast, UInt8.ofNat_toNat]
    rw [List.map_cons, List.mapM_cons, hb, ih]
    rfl

/-- The queue of an input becomes the feed with its bytes in reading order. -/
theorem feed_queueOf (input : Option (List UInt8)) :
    Session.feed? (input.map queueOf) = .ok ⟨input, false⟩ := by
  cases input with
  | none => rfl
  | some bytes =>
    show ((queueOf bytes).mapM (Session.byte .queueRange)).map _ = _
    rw [queueOf, mapM_byte]
    show Except.ok (⟨some bytes.reverse.reverse, false⟩ : Feed) = _
    rw [List.reverse_reverse]

end Session

/-- The answer of running a source is made of the reply of running its program. -/
theorem runSource_of_compile {source : String} {input : Input} {bytes : Option (List UInt8)}
    {request : Value} {program : List Item} (hcompile : compileAt source request = .ok program)
    (hbytes : input.bytes = .ok bytes) (budget : ℕ) : runSource budget source input request =
      (runProgram budget program bytes).map (Result.ofReply program) := by
  rw [runSource, hcompile, hbytes]
  rfl

/-- **Running a source does what its tree does.** The fault of a tree is reported as it is in every
source whose positions can be written. -/
theorem run_implements_tree (source : String) (input : Input) (bytes : Option (List UInt8))
    (hclean : Source.Clean source) (hbalanced : Balanced Source.side? (Source.placed source))
    (hbytes : input.bytes = .ok bytes) :
    ∃ tree program, Source.IsTree source tree ∧
      (∀ tree', Source.IsTree source tree' → tree' = tree) ∧
      compileAt source (.int 0) = .ok program ∧
      (Source.Numbered source → ∀ fault c,
        Eval (Source.act bytes) Course.Enters tree .start (.failed fault c) →
          fault.raised = .fault fault) ∧
      (∀ budget, runSource budget source input (.int 0) =
        (runProgram budget program bytes).map (Result.ofReply program)) ∧
      (∀ o, Eval (Source.act bytes) Course.Enters tree .start o →
        ∃ budget r, runProgram budget program bytes = some r ∧
          r.session.Tells (Result.ofReply program r) o) ∧
      (∀ budget r, runProgram budget program bytes = some r →
        ∃ o, Eval (Source.act bytes) Course.Enters tree .start o ∧
          r.session.Tells (Result.ofReply program r) o) := by
  obtain ⟨tree, hshaped, htext⟩ := hbalanced.exists_block
  have htree : Source.IsTree source tree := ⟨hshaped, htext⟩
  have hcompile : compileAt source (.int 0) = .ok (tree.program.linked 0) := by
    have hlevel : Level.requested (.int 0) = .ok .plain := rfl
    rw [compileAt_of_requested hlevel, htree.compile_eq hclean]
  have hmatches := start_matches bytes
  have hfeed := feed_queueOf bytes
  refine ⟨tree, tree.program.linked 0, htree, fun _ h => h.unique htree, hcompile,
    fun hnumbered _ _ => htree.raised hnumbered, runSource_of_compile hcompile hbytes, ?_, ?_⟩
  · intro o ho
    obtain ⟨o', ho', hrel⟩ := htree.eval_program hclean hmatches ho
    obtain ⟨budget, r, hr, hshows⟩ := execute_of_eval htree.program_shaped program_fits hfeed ho'
    exact ⟨budget, r, hr, hshows.tells hrel⟩
  · intro budget r hr
    rcases eval_of_execute htree.program_shaped program_fits hfeed hr with
      ⟨o', ho', hshows⟩ | ⟨⟨index, x, hstuck⟩, -⟩
    · obtain ⟨o, ho, hrel⟩ := htree.eval_tree hclean hmatches ho'
      exact ⟨o, ho, hshows.tells hrel⟩
    · cases hstuck.collapsed.symm.trans (program_plain (List.mem_of_getElem? hstuck.piece))

/-- The tree of `,[.,]`, which puts out its input up to the first zero. -/
def echo : Block (Char × ℕ) :=
  .act (',', 1) (.loop ('[', 2) (.act ('.', 3) (.act (',', 4) .done)) (']', 5) .done)

theorem echo_isTree : Source.IsTree ",[.,]" echo :=
  ⟨⟨rfl, rfl, ⟨rfl, rfl, trivial⟩, rfl, trivial⟩, by decide⟩

theorem echo_balanced : Balanced Source.side? (Source.placed ",[.,]") :=
  echo_isTree.text ▸ echo_isTree.shaped.balanced

theorem echo_clean : Source.Clean ",[.,]" := by
  unfold Source.Clean
  decide

theorem run_implements_tree_echo :
    (Source.Clean ",[.,]" ∧ Balanced Source.side? (Source.placed ",[.,]") ∧
      (Input.values [7, 0]).bytes = .ok (some [7, 0])) ∧
    ∃ tree program, Source.IsTree ",[.,]" tree ∧
      (∀ tree', Source.IsTree ",[.,]" tree' → tree' = tree) ∧
      compileAt ",[.,]" (.int 0) = .ok program ∧
      (∀ fault c, Eval (Source.act (some [7, 0])) Course.Enters tree .start (.failed fault c) →
        fault.raised = .fault fault) ∧
      (∀ budget, runSource budget ",[.,]" (.values [7, 0]) (.int 0) =
        (runProgram budget program (some [7, 0])).map (Result.ofReply program)) ∧
      (∀ o, Eval (Source.act (some [7, 0])) Course.Enters tree .start o →
        ∃ budget r, runProgram budget program (some [7, 0]) = some r ∧
          r.session.Tells (Result.ofReply program r) o) ∧
      (∀ budget r, runProgram budget program (some [7, 0]) = some r →
        ∃ o, Eval (Source.act (some [7, 0])) Course.Enters tree .start o ∧
          r.session.Tells (Result.ofReply program r) o) := by
  obtain ⟨tree, program, htree, hunique, hcompile, hraised, hrest⟩ :=
    run_implements_tree ",[.,]" (.values [7, 0]) (some [7, 0]) echo_clean echo_balanced rfl
  have hnumbered : Source.Numbered ",[.,]" := .of_length (by decide)
  exact ⟨⟨echo_clean, echo_balanced, rfl⟩, tree, program, htree, hunique, hcompile,
    hraised hnumbered, hrest⟩

end TapeMachine
