import TapeMachine.Proofs.Columns

/-! # Unrolled loops

An idiom by itself and the loop it stands for are two programs, and the machine
runs both. Their stops are those of their blocks (`Image.Whole.stopsAt_of_eval`),
since neither asks for input or puts anything out, and what the blocks come to is
known. So the loop ends if the idiom does, on the same tape and at the same place,
and goes round for ever where the idiom stops short of its end
(`idiom_unrolled`). -/
namespace TapeMachine

/-! ## Stops -/

/-- Whether a program that is run from a state stops for a reason, in a state. -/
def StopsAt (code : Array Word) (s : State) (why : Stop) (t : State) : Prop :=
  ∃ budget, runToStop code budget s = some (why, t)

section Stops

variable {code : Array Word} {s t t' : State} {why why' : Stop}

/-- A program stops once. -/
theorem StopsAt.unique (h : StopsAt code s why t) (h' : StopsAt code s why' t') :
    why = why' ∧ t = t' := by
  obtain ⟨budget, hrun⟩ := h
  obtain ⟨budget', hrun'⟩ := h'
  obtain ⟨n, hn, hpasses, hstop⟩ := runToStop_iff.mp hrun
  obtain ⟨n', hn', hpasses', hstop'⟩ := runToStop_iff.mp hrun'
  have hlong : runToStop code (budget + budget') s = some (why, t) :=
    runToStop_iff.mpr ⟨n, by omega, hpasses, hstop⟩
  have hlong' : runToStop code (budget + budget') s = some (why', t') :=
    runToStop_iff.mpr ⟨n', by omega, hpasses', hstop'⟩
  exact Prod.mk.inj (Option.some.inj (hlong.symm.trans hlong'))

theorem never_stops_iff :
    (∀ budget, runToStop code budget s = none) ↔ ∀ why t, ¬ StopsAt code s why t := by
  simp only [StopsAt, not_exists, Option.eq_none_iff_forall_ne_some, Prod.forall]
  exact ⟨fun h why t budget => h budget why t, fun h budget why t => h why t budget⟩

end Stops

/-! ## Programs without input and output -/

/-- Whether no word of a program asks for input or puts anything out. -/
def Quiet (code : Array Word) : Prop := ∀ w ∈ code, w ≠ .input ∧ w ≠ .output

/-- The run from a state without any input. -/
def Run.silent (s : State) : Run := ⟨s, .absent, #[]⟩

section Quiet

variable {code : Array Word} {s t : State} {why : Stop}

theorem Quiet.not_requested (h : Quiet code) (hstep : step code s = .stopped why t) :
    why ≠ .input ∧ why ≠ .output := by
  constructor
  · rintro rfl
    obtain ⟨w, hw, rfl⟩ := stopsFor_of_step (by simp) hstep
    exact (h _ (Array.mem_of_getElem? hw)).1 rfl
  · rintro rfl
    obtain ⟨w, hw, rfl⟩ := stopsFor_of_step (by simp) hstep
    exact (h _ (Array.mem_of_getElem? hw)).2 rfl

/-- The first stop of such a program is the end of its run. -/
theorem Quiet.finish_eq (h : Quiet code) (program : Array Item) (budget : ℕ) (s : State) :
    Run.finish program code budget (.silent s) = (runToStop code budget s).map fun (why, t) =>
      ⟨.silent t, (Run.faultOf why (positionAt program t.pc) t.pointer).map Fault.raised⟩ := by
  induction budget generalizing s with
  | zero => rfl
  | succ budget ih =>
    rw [Run.finish, runToStop, Run.turn, Run.silent]
    cases hstep : step code s with
    | next t => exact ih t
    | stopped why t =>
      obtain ⟨hinput, houtput⟩ := h.not_requested hstep
      cases why with
      | input => exact absurd rfl hinput
      | output => exact absurd rfl houtput
      | ended | unlinked | fullTape | missedZero | endless => rfl

end Quiet

namespace Image.Whole

variable {n k : ℕ} [NeZero n] {g : Image} {b : Block Piece} {s t : State} {e : Store n} {why : Stop}

/-- A program is quiet if its instructions are. -/
theorem quiet (hg : g.Whole b)
    (h : ∀ x ∈ g.pieces, x.instr.op ≠ .input ∧ x.instr.op ≠ .output) : Quiet g.code := by
  intro w hmem
  obtain ⟨i, hi, rfl⟩ := Array.mem_iff_getElem.mp hmem
  have hword : g.code[i]? = some g.code[i] := Array.getElem?_eq_getElem hi
  rcases hg.places.word (Nat.zero_le i) (by rw [Nat.zero_add, ← hg.size]; exact hi) with
    ⟨target, ht | ht⟩ | ⟨x, hx⟩
  · rw [Option.some.inj (hword.symm.trans ht)]
    simp
  · rw [Option.some.inj (hword.symm.trans ht)]
    simp
  · obtain ⟨items, w, hw, hat⟩ := hx.word
    obtain ⟨hinput, houtput⟩ := h x (List.mem_of_getElem? hx.piece)
    rw [Option.some.inj (hword.symm.trans hat)]
    have hop := op_of_encode hw
    rw [retarget_of_side hx.plain] at hop
    constructor
    · rintro rfl
      exact hinput hop.symm
    · rintro rfl
      exact houtput hop.symm

/-- A quiet program stops at its end where its block ends. -/
theorem stopsAt_of_eval (hn : n = 2 ^ k) (hg : g.Whole b) (hquiet : Quiet g.code)
    (hpc : s.pc = 0) (hs : s.Fits n)
    (h : Eval Piece.act Store.Enters b ((Run.silent s).store n) (.ended e)) :
    ∃ t, StopsAt g.code s .ended t ∧ t.Fits n ∧ t.memory n = e.memory := by
  obtain ⟨budget, f, hfinish, hfault, hfits, hstore⟩ :=
    hg.finish_of_eval hn (r := .silent s) hpc hs h
  rw [finish, hquiet.finish_eq] at hfinish
  obtain ⟨⟨why, t⟩, hrun, rfl⟩ := Option.map_eq_some_iff.mp hfinish
  obtain ⟨m, -, -, hstop⟩ := runToStop_iff.mp hrun
  obtain ⟨hinput, houtput⟩ := hquiet.not_requested hstop
  cases why with
  | ended => exact ⟨t, ⟨budget, hrun⟩, hfits, congrArg Store.memory hstore⟩
  | input => exact absurd rfl hinput
  | output => exact absurd rfl houtput
  | unlinked | fullTape | missedZero | endless => cases hfault

/-- A quiet program without collapsed loops has no stop that its block has no outcome for. -/
theorem exists_eval (hn : n = 2 ^ k) (hg : g.Whole b) (hquiet : Quiet g.code)
    (hplain : ∀ x ∈ g.pieces, x.collapsed = false) (hpc : s.pc = 0) (hs : s.Fits n)
    (h : StopsAt g.code s why t) :
    ∃ out, Eval Piece.act Store.Enters b ((Run.silent s).store n) out := by
  obtain ⟨budget, hrun⟩ := h
  have hfinish : g.finish budget (.silent s) = _ := hquiet.finish_eq g.program budget s
  rw [hrun] at hfinish
  rcases hg.eval_of_finish hn (r := .silent s) hpc hs hfinish with ⟨out, heval, -⟩ | ⟨x, hstuck⟩
  · exact ⟨out, heval⟩
  · have hx := hplain x (List.mem_of_getElem? hstuck.holds.piece)
    cases hx.symm.trans hstuck.collapsed

end Image.Whole

/-! ## The two programs -/

/-- The loop with a body, its brackets not linked yet. -/
def loopAround (position ending : ℤ) (body : List Item) : List Item :=
  .instr ⟨.opening none, position⟩ :: (body ++ [.instr ⟨.closing none, ending⟩])

/-- The offset of the first move of a body. -/
def firstMove? (body : List Item) : Option ℤ :=
  body.findSome? fun x =>
    match x.op? with
    | some (.move offset) => some offset
    | _ => none

/-- Whether a stop says that a loop would not end. -/
def Stop.IsEndless : Stop → Prop
  | .fullTape | .endless _ => True
  | _ => False

/-- Whether an idiom comes to the same as a loop from a state. It always stops, at its end if and
only if the loop ends, and then the two leave the same tape and pointer. It stops for an endless
loop if and only if the loop goes on for ever, and for no other reason before its end. It has
changed nothing then, and reports the current cell. -/
structure StandsForLoop (idiom loop : Array Word) (s : State) : Prop where
  stops : ∃ why t, StopsAt idiom s why t
  ends_iff : (∃ t, StopsAt loop s .ended t) ↔ ∃ t, StopsAt idiom s .ended t
  same : ∀ t u, StopsAt loop s .ended t → StopsAt idiom s .ended u →
    t.tape = u.tape ∧ t.pointer = u.pointer
  endless_iff : (∃ why t, why.IsEndless ∧ StopsAt idiom s why t) ↔
    ∀ budget, runToStop loop budget s = none
  reason : ∀ why t, StopsAt idiom s why t → why = .ended ∨ why.IsEndless
  clean : ∀ why t, why.IsEndless → StopsAt idiom s why t → t = s ∧
    ∀ value, why = .endless value → value = s.tape.cell s.pointer

section Programs

variable {idiom loop : Array Word} {s t u : State} {why : Stop}

theorem StandsForLoop.of_ended (hloop : StopsAt loop s .ended t) (hidiom : StopsAt idiom s .ended u)
    (hsame : t.tape = u.tape ∧ t.pointer = u.pointer) : StandsForLoop idiom loop s where
  stops := ⟨_, u, hidiom⟩
  ends_iff := ⟨fun _ => ⟨u, hidiom⟩, fun _ => ⟨t, hloop⟩⟩
  same t' u' ht hu := by
    rw [(ht.unique hloop).2, (hu.unique hidiom).2]
    exact hsame
  endless_iff := by
    constructor
    · rintro ⟨why, t', hendless, hstop⟩
      rw [(hstop.unique hidiom).1] at hendless
      exact hendless.elim
    · intro hforever
      exact absurd hloop (never_stops_iff.mp hforever _ t)
  reason why t' hstop := Or.inl (hstop.unique hidiom).1
  clean why t' hendless hstop := by
    rw [(hstop.unique hidiom).1] at hendless
    exact hendless.elim

theorem StandsForLoop.of_endless (hloop : ∀ why t, ¬ StopsAt loop s why t)
    (hidiom : StopsAt idiom s why s)
    (hwhy : why = .fullTape ∨ why = .endless (s.tape.cell s.pointer)) :
    StandsForLoop idiom loop s where
  stops := ⟨_, s, hidiom⟩
  ends_iff := by
    constructor
    · rintro ⟨t, ht⟩
      exact absurd ht (hloop _ t)
    · rintro ⟨t, ht⟩
      obtain ⟨rfl, -⟩ := ht.unique hidiom
      rcases hwhy with hwhy | hwhy <;> cases hwhy
  same t u ht := absurd ht (hloop _ t)
  endless_iff := by
    refine ⟨fun _ => never_stops_iff.mpr hloop, fun _ => ⟨why, s, ?_, hidiom⟩⟩
    rcases hwhy with rfl | rfl <;> trivial
  reason why' t hstop := by
    obtain ⟨rfl, -⟩ := hstop.unique hidiom
    rcases hwhy with rfl | rfl <;> exact Or.inr trivial
  clean why' t _ hstop := by
    obtain ⟨rfl, rfl⟩ := hstop.unique hidiom
    refine ⟨rfl, ?_⟩
    rintro value rfl
    rcases hwhy with hwhy | hwhy
    · cases hwhy
    · exact Stop.endless.inj hwhy

end Programs

section Loop

variable {body : List Item} {l : List Instruction} {op : Op} {position ending : ℤ} {s : State}
  {w : Word} {items : Array Item} {m : Memory tapeSize} {why : Stop}

theorem ofBody?_instructions (h : Idiom.ofBody? body = some op) :
    ∃ l : List Instruction, l.map .instr = body := by
  have hrange : body ∈ Set.range (List.map Item.instr) := by
    rw [Set.range_list_map]
    intro x hx
    obtain ⟨i, rfl, -⟩ := ofBody?_steps h x hx
    exact ⟨i, rfl⟩
  exact hrange

/-- The moves of a trip go there and back. -/
theorem moves_of_trip {there back : ℤ} (hthere : ¬ (tapeSize : ℤ) ∣ there)
    (hback : Offset.wrap (there + back) = 0)
    (h : ∀ i ∈ l, ∀ offset, i.op = .move offset → offset = there ∨ offset = back) : Moves l := by
  have hne : (there : ZMod tapeSize) ≠ 0 :=
    mt (ZMod.intCast_zmod_eq_zero_iff_dvd there tapeSize).mp hthere
  intro i hi offset hop
  rcases h i hi offset hop with rfl | rfl
  · exact hne
  · rw [cast_back hback]
    exact neg_ne_zero.mpr hne

/-- The moves of an idiom's body change the place of the pointer if the first one does. -/
theorem ofBody?_moves (h : Idiom.ofBody? (l.map .instr) = some op)
    (haway : l.length = 4 → ∀ offset, firstMove? (l.map .instr) = some offset →
      ¬ (tapeSize : ℤ) ∣ offset) : Moves l := by
  match l with
  | [i] =>
    intro j hj offset hop
    obtain rfl := List.mem_singleton.mp hj
    simp only [List.map_cons, List.map_nil, Idiom.ofBody?, hop, Idiom.ofStep?] at h
    split_ifs at h with hright hleft
    · rw [hright]
      decide
    · rw [hleft]
      decide
  | [a, b, c, d] =>
    simp only [List.map_cons, List.map_nil, Idiom.ofBody?] at h
    split at h
    · rename_i source there dest back ha hb hc hd
      obtain ⟨hback, -⟩ := ofTrip?_eq_some h
      have hthere := haway rfl there (by simp [firstMove?, Item.op?, ha, hb])
      exact moves_of_trip hthere hback (by simp [ha, hb, hc, hd])
    · rename_i there dest back source ha hb hc hd
      obtain ⟨hback, -⟩ := ofTrip?_eq_some h
      have hthere := haway rfl there (by simp [firstMove?, Item.op?, ha])
      exact moves_of_trip hthere hback (by simp [ha, hb, hc, hd])
    · cases h
  | [] | [_, _] | [_, _, _] | _ :: _ :: _ :: _ :: _ :: _ => cases h

/-- An idiom by itself stops behind it, with the memory that it leaves. -/
theorem stopsAt_of_effect (hw : op.encode items = .ok w) (hside : op.side? = none)
    (hpc : s.pc = 0) (hs : s.Fits tapeSize) (h : op.effect (s.memory tapeSize) = .ok m) :
    ∃ t, StopsAt #[w] s .ended t ∧ t.Fits tapeSize ∧ t.memory tapeSize = m := by
  have hshows := apply_effect tapeSize_eq hs hw hside
  rw [h] at hshows
  obtain ⟨t, hnext, hbehind, hfits, hmem⟩ := hshows.of_ok
  have hfirst : step #[w] s = .next t := by simp [step, hpc, hnext]
  have hlast : step #[w] t = .stopped .ended t := by simp [step, hbehind, hpc]
  refine ⟨t, ⟨2, ?_⟩, hfits, hmem⟩
  simp only [runToStop, hfirst, hlast]

theorem stopsAt_of_effect_error (hw : op.encode items = .ok w) (hside : op.side? = none)
    (hpc : s.pc = 0) (hs : s.Fits tapeSize) (h : op.effect (s.memory tapeSize) = .error why) :
    StopsAt #[w] s why s := by
  have hshows := apply_effect tapeSize_eq hs hw hside
  rw [h] at hshows
  have hstop : step #[w] s = .stopped why s := by simp [step, hpc, hshows.of_error]
  exact ⟨1, by simp only [runToStop, hstop]⟩

/-- The block of a loop. -/
def loopBlock (position ending : ℤ) (l : List Instruction) : Block Instruction :=
  .loop ⟨.opening none, position⟩ (.ofList l) ⟨.closing none, ending⟩ .done

theorem forall_mem_loopBlock {P : Piece → Prop} (hopening : P (.plain ⟨.opening none, position⟩))
    (hclosing : P (.plain ⟨.closing none, ending⟩)) (hl : ∀ i ∈ l, P (.plain i)) :
    ∀ x ∈ ((loopBlock position ending l).map Piece.plain).flatten, P x := by
  simp only [loopBlock, Block.flatten_map, Block.flatten, Block.flatten_ofList, List.map_cons,
    List.map_append, List.map_nil, List.forall_mem_cons, List.forall_mem_append,
    List.forall_mem_map]
  exact ⟨hopening, hl, hclosing, by simp⟩

/-- The loop around the body of an idiom links and encodes, and it is a quiet program. -/
theorem exists_loop (source : String) (position ending : ℤ)
    (h : Idiom.ofBody? (l.map .instr) = some op) (hfits : ∀ i ∈ l, i.op.FitsWords) :
    ∃ g : Image, link source (loopAround position ending (l.map .instr)) = .ok g.program.toList ∧
      encode g.program.toList = .ok g.code ∧ g.Whole ((loopBlock position ending l).map .plain) ∧
      (∀ x ∈ g.pieces, x.collapsed = false) ∧ Quiet g.code := by
  have hsteps : ∀ i ∈ l, i.op.step?.isSome := by
    intro i hi
    obtain ⟨j, hj, hstep⟩ := ofBody?_steps h (.instr i) (List.mem_map_of_mem hi)
    rwa [Item.instr.inj hj]
  have hsides : ∀ i ∈ l, i.side? = none := fun i hi =>
    ofBody?_side h (.instr i) (List.mem_map_of_mem hi)
  have hshaped : ((loopBlock position ending l).map Piece.plain).Shaped Piece.side? :=
    Block.shaped_map (fun _ _ => rfl) ⟨rfl, Block.ofList_shaped hsides, rfl, trivial⟩
  obtain ⟨code, hcode, hwhole⟩ := encode_linked hshaped
    (forall_mem_loopBlock (by simp [Op.FitsWords, Op.fields, Piece.plain])
      (by simp [Op.FitsWords, Op.fields, Piece.plain]) hfits)
  refine ⟨⟨_, _, code⟩, ?_, hcode, hwhole, forall_mem_loopBlock rfl rfl fun _ _ => rfl, ?_⟩
  · have hstream : ((loopBlock position ending l).map Piece.plain).flatten.map Piece.item =
        loopAround position ending (l.map .instr) := by
      simp [loopBlock, Block.flatten, loopAround, Piece.item, Piece.plain]
    rw [← hstream]
    exact link_flatten source hshaped
  · refine hwhole.quiet (forall_mem_loopBlock (by simp [Piece.plain]) (by simp [Piece.plain]) ?_)
    intro i hi
    constructor <;>
    · intro hop
      have hstep := hsteps i hi
      rw [show i.op = _ from hop] at hstep
      cases hstep

end Loop

/-- **An idiom equals its loop.** For every body that an idiom stands for, with fields that fit in
words and, if it has four steps, a first move that is no way round the whole tape, the loop around
the body links and encodes, and so does the idiom. From every tape of a session and every place on
it, with the loop run one instruction at a time, the loop ends if and only if the idiom stops at its
end, and the two leave the same tape and pointer. The idiom stops for a drain that never empties
the current cell or for a full tape, with tape and pointer as they were and the value of the
current cell, if and only if the loop goes on for ever. It stops for no other reason. -/
theorem idiom_unrolled (source : String) (body : List Item) (op : Op) (position ending : ℤ)
    (tape : Tape) (pointer : ℕ) (hidiom : Idiom.ofBody? body = some op)
    (hfits : ∀ x ∈ body, x.FitsWords)
    (haway : body.length = 4 → ∀ offset, firstMove? body = some offset →
      ¬ (tapeSize : ℤ) ∣ offset)
    (hsize : tape.size = tapeSize) (hpointer : pointer < tapeSize) :
    ∃ program loop idiom, link source (loopAround position ending body) = .ok program ∧
      encode program = .ok loop ∧ encode [.instr ⟨op, position⟩] = .ok idiom ∧
      StandsForLoop idiom loop ⟨0, pointer, tape⟩ := by
  obtain ⟨l, rfl⟩ := ofBody?_instructions hidiom
  have hwords : ∀ i ∈ l, i.op.FitsWords := fun i hi => hfits (.instr i) (List.mem_map_of_mem hi)
  have hs : State.Fits tapeSize ⟨0, pointer, tape⟩ := ⟨hsize, hpointer⟩
  obtain ⟨g, hlink, hloop, hwhole, hplain, hquiet⟩ :=
    exists_loop source position ending hidiom hwords
  obtain ⟨w, hw⟩ := (ofBody?_fits hidiom hwords).encode #[.instr ⟨op, position⟩]
  have hside : op.side? = none := side_of_isIdiom (ofBody?_isIdiom hidiom)
  have hcode : encode [.instr ⟨op, position⟩] = .ok #[w] := by
    rw [encode, List.mapM_cons, Item.encode, hw]
    rfl
  refine ⟨_, g.code, #[w], hlink, hloop, hcode, ?_⟩
  obtain ⟨lap, hdoes, hop⟩ := ofBody?_loops hidiom (ofBody?_moves hidiom (by simpa using haway))
  -- Either the idiom has an effect, which the block of the loop ends in, or it has none and the
  -- block has no outcome, so that no number of instructions takes the loop to a stop.
  rcases hop.outcome hdoes.total (.plain ⟨.opening none, position⟩)
    (.plain ⟨.closing none, ending⟩) ((Run.silent ⟨0, pointer, tape⟩).store tapeSize) with
    ⟨m, heffect, hends⟩ | ⟨hendless, hnever⟩
  · obtain ⟨t, ht, htfits, htmem⟩ :=
      hwhole.stopsAt_of_eval tapeSize_eq hquiet rfl hs ((hends _).mpr rfl)
    obtain ⟨u, hu, hufits, humem⟩ := stopsAt_of_effect hw hside rfl hs heffect
    exact .of_ended ht hu (htfits.eq_of_memory hufits (htmem.trans humem.symm))
  · have hloop : ∀ why t, ¬ StopsAt g.code ⟨0, pointer, tape⟩ why t := by
      intro why t hstop
      obtain ⟨out, heval⟩ := hwhole.exists_eval tapeSize_eq hquiet hplain rfl hs hstop
      exact hnever out heval
    have hvalue : ofResidue ((Run.silent ⟨0, pointer, tape⟩).store tapeSize).memory.cell =
        tape.cell pointer := (congrArg ofResidue hs.cell).trans (ofResidue_residue _)
    rw [hvalue] at hendless
    rcases hendless with hfull | hdrain
    · exact .of_endless hloop (stopsAt_of_effect_error hw hside rfl hs hfull) (Or.inl rfl)
    · exact .of_endless hloop (stopsAt_of_effect_error hw hside rfl hs hdrain) (Or.inr rfl)

/-- A trip that comes to its source last takes six to zero and five never. -/
theorem idiom_unrolled_sourceLast :
    let body : List Item := [.instr ⟨.move 3, 2⟩, .instr ⟨.add 300, 3⟩, .instr ⟨.move (-3), 4⟩,
      .instr ⟨.add (-2), 5⟩]
    let loop : Array Word :=
      #[.opening (some 5), .move 3, .add 300, .move (-3), .add (-2), .closing (some 0)]
    let idiom : Array Word := #[.transfer 3 (-2) 300]
    let tape : UInt8 → Tape := fun value => Tape.blank.setIfInBounds 0 value
    Idiom.ofBody? body = some (.transfer 3 (-2) 300) ∧ (∀ x ∈ body, x.FitsWords) ∧
      firstMove? body = some 3 ∧ (∀ value, StandsForLoop idiom loop ⟨0, 0, tape value⟩) ∧
      (∃ t, StopsAt loop ⟨0, 0, tape 6⟩ .ended t ∧
        t.tape = ((tape 6).setIfInBounds 3 132).setIfInBounds 0 0 ∧ t.pointer = 0) ∧
      ∀ budget, runToStop loop budget ⟨0, 0, tape 5⟩ = none := by
  intro body loop idiom tape
  have hidiom : Idiom.ofBody? body = some (.transfer 3 (-2) 300) := rfl
  have hfits : ∀ x ∈ body, x.FitsWords := by simp [body, Item.FitsWords, Op.FitsWords, Op.fields]
  have hmove : firstMove? body = some 3 := rfl
  have hsize : ∀ value, (tape value).size = tapeSize := by simp [tape, Tape.blank]
  have hstands : ∀ value, StandsForLoop idiom loop ⟨0, 0, tape value⟩ := by
    intro value
    obtain ⟨program, loop', idiom', hlink, hloop, hcode, hstands⟩ :=
      idiom_unrolled "" body _ 1 6 (tape value) 0 hidiom hfits
        (by rintro - offset hoffset; cases hmove.symm.trans hoffset; decide)
        (hsize value) (by decide)
    obtain rfl : _ = program := Except.ok.inj hlink
    obtain rfl : loop = loop' := Except.ok.inj hloop
    obtain rfl : idiom = idiom' := Except.ok.inj hcode
    exact hstands
  have hsource : ∀ value, (tape value).cell 0 = value := fun value => by
    rw [State.cell_set _ (by simp [Tape.blank, tapeSize]), if_pos rfl]
  have hdest : ∀ value, (tape value).cell 3 = 0 := fun value => by
    rw [State.cell_set _ (by simp [Tape.blank, tapeSize]), if_neg (by decide), State.cell_blank]
  -- For every tape with these cells, so that nothing unfolds all the cells of this one.
  have hsix : ∀ tape : Tape, tape.size = tapeSize → tape.cell 0 = 6 → tape.cell 3 = 0 →
      ∃ u, StopsAt idiom ⟨0, 0, tape⟩ .ended u ∧
        u.tape = (tape.setIfInBounds 3 132).setIfInBounds 0 0 ∧ u.pointer = 0 := by
    intro tape hsize hsource hdest
    have hrounds : roundsToZero? (6 : UInt8).toNat (-2 : Int64).toInt = some 3 := by decide
    have hplace : address tape.size (((0 : ℕ) : ℤ) + (3 : Int64).toInt) = 3 := by
      rw [hsize]
      rfl
    have hsum : wordCell (cellWord 0 + Int64.ofNat 3 * 300) = 132 := by decide
    have hstep : step idiom ⟨0, 0, tape⟩ =
        .next ⟨1, 0, (tape.setIfInBounds 3 132).setIfInBounds 0 0⟩ := by
      change State.transfer ⟨0, 0, tape⟩ 3 (-2) 300 = _
      rw [State.transfer, hsource, if_neg (by decide), hrounds]
      dsimp only
      rw [hplace, hdest, hsum]
    exact ⟨_, ⟨2, by rw [runToStop, hstep]; rfl⟩, rfl, rfl⟩
  have hfive : ∀ tape : Tape, tape.cell 0 = 5 →
      StopsAt idiom ⟨0, 0, tape⟩ (.endless 5) ⟨0, 0, tape⟩ := by
    intro tape hsource
    have hrounds : roundsToZero? (5 : UInt8).toNat (-2 : Int64).toInt = none := by decide
    have hstep : step idiom ⟨0, 0, tape⟩ = .stopped (.endless 5) ⟨0, 0, tape⟩ := by
      change State.transfer ⟨0, 0, tape⟩ 3 (-2) 300 = _
      rw [State.transfer, hsource, if_neg (by decide), hrounds]
    exact ⟨1, by rw [runToStop, hstep]⟩
  obtain ⟨u, hu, hutape, hupointer⟩ := hsix (tape 6) (hsize 6) (hsource 6) (hdest 6)
  obtain ⟨t, ht⟩ := (hstands 6).ends_iff.mpr ⟨u, hu⟩
  obtain ⟨htape, hpointer⟩ := (hstands 6).same t u ht hu
  exact ⟨hidiom, hfits, hmove, hstands, ⟨t, ht, htape.trans hutape, hpointer.trans hupointer⟩,
    (hstands 5).endless_iff.mp ⟨.endless 5, _, trivial, hfive (tape 5) (hsource 5)⟩⟩

end TapeMachine
