import TapeMachine.Proofs.Collapse
import TapeMachine.Proofs.Folding

/-! # Idioms and their loops

An idiom leaves the memory that its loop would leave, and has no effect exactly
where the loop would go on for ever (`ofBody?_loops`). What one lap does to the
memory is written down for each body; its powers are then known, and the idiom
asks for the first of them with an empty current cell. So a block in which loops
are collapsed has the outcomes of the block before (`collapse_same`). -/
namespace TapeMachine

/-! ## Laps -/

/-- Whether an idiom does what repeating a lap does: it comes to the first lap after which the
current cell is zero, and stops if there is none. -/
structure Op.Loops (op : Op) (lap : Memory tapeSize → Memory tapeSize) : Prop where
  skip : ∀ m : Memory tapeSize, m.cell = 0 → op.effect m = .ok m
  ends : ∀ m : Memory tapeSize, m.cell ≠ 0 → ∀ k, FirstRound (fun k => (lap^[k] m).cell = 0) k →
    op.effect m = .ok (lap^[k] m)
  endless : ∀ m : Memory tapeSize, m.cell ≠ 0 → (∀ k, 1 ≤ k → (lap^[k] m).cell ≠ 0) →
    op.effect m = .error .fullTape ∨ op.effect m = .error (.endless (ofResidue m.cell))

section Laps

variable {delta offset there source dest : ℤ} {m : Memory tapeSize} {k : ℕ}

theorem shift_cell_iterate : (Axis.cell.shift delta)^[k] m = m.write (m.cell + k * delta) := by
  induction k with
  | zero => simp
  | succ k ih =>
    rw [Function.iterate_succ_apply', ih]
    simp only [Axis.shift, Memory.write_cell, Memory.write_write]
    congr 1
    push_cast
    ring

theorem shift_pointer_iterate : (Axis.pointer.shift offset)^[k] m = m.move (k * offset) := by
  induction k with
  | zero => simp
  | succ k ih =>
    rw [Function.iterate_succ_apply', ih]
    simp only [Axis.shift, Memory.move_move]
    congr 1
    push_cast
    ring

theorem drain_loops : (Op.drain delta).Loops (Axis.cell.shift delta) where
  skip m h := by simp [Op.effect, Memory.drain, h]
  ends m h k hk := by
    simp only [shift_cell_iterate, Memory.write_cell] at hk ⊢
    rw [Op.effect, Memory.drain, if_neg h, firstRound?_eq_some hk, hk.here]
  endless m h hnone := by
    simp only [shift_cell_iterate, Memory.write_cell] at hnone
    right
    rw [Op.effect, Memory.drain, if_neg h, firstRound?_eq_none hnone]

/-- Adding one or 255 takes every cell to zero. -/
theorem clear_loops (h : delta = 1 ∨ delta = 255) : Op.clear.Loops (Axis.cell.shift delta) where
  skip m h0 := by rw [Op.effect, ← h0, Memory.write_self]
  ends m _ k hk := by
    simp only [shift_cell_iterate, Memory.write_cell] at hk ⊢
    rw [Op.effect, hk.here]
  endless m hm hnone := by
    exfalso
    simp only [shift_cell_iterate, Memory.write_cell] at hnone
    have hval : ∀ v : ZMod 256, (v.val : ZMod 256) = v := ZMod.natCast_zmod_val
    rcases h with rfl | rfl
    · refine hnone (-m.cell).val ?_ (by rw [hval]; push_cast; ring)
      exact Nat.one_le_iff_ne_zero.mpr ((ZMod.val_ne_zero _).mpr (neg_ne_zero.mpr hm))
    · have h255 : ((255 : ℤ) : ZMod 256) = -1 := rfl
      refine hnone m.cell.val ?_ (by rw [hval, h255]; ring)
      exact Nat.one_le_iff_ne_zero.mpr ((ZMod.val_ne_zero _).mpr hm)

theorem scan_loops {op : Op} {step : ZMod tapeSize}
    (hop : ∀ m : Memory tapeSize, op.effect m = m.scan step)
    (ho : (offset : ZMod tapeSize) = step) :
    op.Loops (Axis.pointer.shift offset) where
  skip m h := by simp [hop, Memory.scan, h]
  ends m h k hk := by
    simp only [shift_pointer_iterate] at hk ⊢
    rw [ho] at hk ⊢
    have hgap : FirstRound (m.IsGap step) k := hk
    rw [hop, Memory.scan, if_neg h, firstRound?_eq_some hgap]
  endless m h hnone := by
    simp only [shift_pointer_iterate] at hnone
    rw [ho] at hnone
    have hgap : ∀ j, 1 ≤ j → ¬ m.IsGap step j := hnone
    left
    rw [hop, Memory.scan, if_neg h, firstRound?_eq_none hgap]

/-- One lap of a transfer. -/
def Memory.ladle (there : ZMod tapeSize) (source dest : ZMod 256) (m : Memory tapeSize) :
    Memory tapeSize :=
  (m.writeAt there (m.cells (m.pointer + there) + dest)).write (m.cell + source)

theorem ladle_iterate {there : ZMod tapeSize} {source dest : ZMod 256} (ht : there ≠ 0) :
    (Memory.ladle there source dest)^[k] m =
      (m.writeAt there (m.cells (m.pointer + there) + k * dest)).write (m.cell + k * source) := by
  have hne : m.pointer + there ≠ m.pointer := by simpa using ht
  induction k with
  | zero =>
    ext i
    · simp [Memory.writeAt, Memory.write, Memory.cell]
    · simp
  | succ k ih =>
    rw [Function.iterate_succ_apply', ih]
    ext i
    · simp only [Memory.ladle, Memory.writeAt, Memory.write, Memory.cell, Function.update_self,
        Function.update_of_ne hne, Function.update_apply]
      push_cast
      split_ifs <;> ring
    · simp [Memory.ladle]

theorem transfer_loops (ht : (there : ZMod tapeSize) ≠ 0) :
    (Op.transfer there source dest).Loops (Memory.ladle there source dest) where
  skip m h := by simp [Op.effect, Memory.drain, h]
  ends m h k hk := by
    simp only [ladle_iterate ht, Memory.write_cell] at hk ⊢
    rw [Op.effect, Memory.drain, if_neg h, firstRound?_eq_some hk, hk.here]
    rfl
  endless m h hnone := by
    simp only [ladle_iterate ht, Memory.write_cell] at hnone
    right
    rw [Op.effect, Memory.drain, if_neg h, firstRound?_eq_none hnone]

end Laps

/-! ## Bodies -/

/-- A store after a change of its memory. -/
def Store.lift (f : Memory tapeSize → Memory tapeSize) (e : Store tapeSize) : Store tapeSize :=
  { e with memory := f e.memory }

theorem lift_iterate (f : Memory tapeSize → Memory tapeSize) (k : ℕ) (e : Store tapeSize) :
    (Store.lift f)^[k] e = Store.lift f^[k] e := by
  induction k with
  | zero => rfl
  | succ k ih =>
    rw [Function.iterate_succ_apply', ih]
    simp only [Store.lift, Function.iterate_succ_apply']

section Bodies

variable {i : Instruction} {l : List Instruction} {op : Op}

theorem does_ofList_cons (axis : Axis) {amount : ℤ} {f : Memory tapeSize → Memory tapeSize}
    (hi : i.op = axis.step amount) (hl : (Block.ofList l).Does (Store.lift f)) :
    (Block.ofList (i :: l)).Does (Store.lift (f ∘ axis.shift amount)) :=
  Total.cons (act_step (by rw [hi, step_step])) hl

theorem does_ofList_nil : (Block.ofList []).Does (Store.lift id) := Total.done

/-- Whether every move changes the place of the pointer. -/
def Moves (l : List Instruction) : Prop :=
  ∀ i ∈ l, ∀ offset, i.op = .move offset → (offset : ZMod tapeSize) ≠ 0

theorem ofStep?_loops (h : Idiom.ofStep? i.op = some op) :
    ∃ lap, (Block.ofList [i]).Does (Store.lift lap) ∧ op.Loops lap := by
  have hdoes : ∀ (axis : Axis) (amount : ℤ), i.op = axis.step amount →
      (Block.ofList [i]).Does (Store.lift (axis.shift amount)) := fun axis _ hi =>
    does_ofList_cons axis hi does_ofList_nil
  cases hi : i.op with
  | add delta =>
    refine ⟨_, hdoes .cell delta hi, ?_⟩
    rw [hi] at h
    obtain rfl := Option.some.inj h
    split
    · exact clear_loops ‹_›
    · exact drain_loops
  | move offset =>
    refine ⟨_, hdoes .pointer offset hi, ?_⟩
    rw [hi] at h
    simp only [Idiom.ofStep?] at h
    split_ifs at h with hright hleft
    · obtain rfl := Option.some.inj h
      exact scan_loops (fun _ => rfl) (by rw [hright, Int.cast_one])
    · obtain rfl := Option.some.inj h
      exact scan_loops (fun _ => rfl) (by rw [hleft]; rfl)
  | _ => rw [hi] at h; cases h

section Trip

variable {there back source dest : ℤ}

theorem ofTrip?_eq_some (h : Idiom.ofTrip? source there dest back = some op) :
    Offset.wrap (there + back) = 0 ∧ .transfer there source dest = op := by
  unfold Idiom.ofTrip? at h
  split_ifs at h with hback
  exact ⟨hback, Option.some.inj h⟩

theorem cast_back (hback : Offset.wrap (there + back) = 0) : (back : ZMod tapeSize) = -there := by
  have hcast : ((Offset.wrap (there + back) : ℤ) : ZMod tapeSize) = there + back := by
    rw [← Int.cast_add]
    exact cast_emod 65536 _
  rw [hback, Int.cast_zero] at hcast
  exact (neg_eq_of_add_eq_zero_right hcast.symm).symm

variable (ht : (there : ZMod tapeSize) ≠ 0) (hback : Offset.wrap (there + back) = 0)

include ht hback

/-- The way there and back is a lap, with the source first. -/
theorem ladle_of_source_first :
    (((id ∘ Axis.pointer.shift back) ∘ Axis.cell.shift dest) ∘ Axis.pointer.shift there) ∘
      Axis.cell.shift source = Memory.ladle there source dest := by
  funext m
  have hne : m.pointer + there ≠ m.pointer := by simpa using ht
  ext j
  · simp only [Function.comp_apply, id_eq, Axis.shift, Memory.ladle, Memory.writeAt, Memory.write,
      Memory.move, Memory.cell, Function.update_of_ne hne]
    rw [Function.update_comm hne.symm]
  · simp [Axis.shift, Memory.ladle, cast_back hback]

/-- The same with the source last. -/
theorem ladle_of_source_last :
    (((id ∘ Axis.cell.shift source) ∘ Axis.pointer.shift back) ∘ Axis.cell.shift dest) ∘
      Axis.pointer.shift there = Memory.ladle there source dest := by
  funext m
  have hne : m.pointer ≠ m.pointer + there := by simpa using ht
  have hthere : m.pointer + there + back = m.pointer := by rw [cast_back hback]; ring
  ext j
  · simp only [Function.comp_apply, id_eq, Axis.shift, Memory.ladle, Memory.writeAt, Memory.write,
      Memory.move, Memory.cell, hthere, Function.update_of_ne hne]
  · simp [Axis.shift, Memory.ladle, cast_back hback]

end Trip

/-- What an idiom with the given body does. -/
theorem ofBody?_loops (h : Idiom.ofBody? (l.map .instr) = some op) (hl : Moves l) :
    ∃ lap, (Block.ofList l).Does (Store.lift lap) ∧ op.Loops lap := by
  match l with
  | [i] => exact ofStep?_loops h
  | [a, b, c, d] =>
    simp only [List.map_cons, List.map_nil, Idiom.ofBody?] at h
    split at h
    · rename_i source there dest back ha hb hc hd
      obtain ⟨hback, rfl⟩ := ofTrip?_eq_some h
      have ht := hl b (by simp) there hb
      refine ⟨_, ?_, transfer_loops ht⟩
      rw [← ladle_of_source_first ht hback]
      exact does_ofList_cons .cell ha <| does_ofList_cons .pointer hb <|
        does_ofList_cons .cell hc <| does_ofList_cons .pointer hd does_ofList_nil
    · rename_i there dest back source ha hb hc hd
      obtain ⟨hback, rfl⟩ := ofTrip?_eq_some h
      have ht := hl a (by simp) there ha
      refine ⟨_, ?_, transfer_loops ht⟩
      rw [← ladle_of_source_last ht hback]
      exact does_ofList_cons .pointer ha <| does_ofList_cons .cell hb <|
        does_ofList_cons .pointer hc <| does_ofList_cons .cell hd does_ofList_nil
    · cases h
  | [] | [_, _] | [_, _, _] | _ :: _ :: _ :: _ :: _ :: _ => cases h

/-- The fields of an idiom are amounts of its body. -/
theorem ofBody?_fits (h : Idiom.ofBody? (l.map .instr) = some op)
    (hl : ∀ i ∈ l, i.op.FitsWords) : op.FitsWords := by
  match l with
  | [i] =>
    have hi := hl i (by simp)
    simp only [List.map_cons, List.map_nil, Idiom.ofBody?] at h
    unfold Idiom.ofStep? at h
    split at h
    · rename_i delta hop
      rw [hop] at hi
      obtain rfl := Option.some.inj h
      split
      · simp [Op.FitsWords, Op.fields]
      · exact hi
    · split_ifs at h <;> obtain rfl := Option.some.inj h <;> simp [Op.FitsWords, Op.fields]
    · cases h
  | [a, b, c, d] =>
    simp only [List.forall_mem_cons] at hl
    obtain ⟨ha, hb, hc, hd, -⟩ := hl
    simp only [List.map_cons, List.map_nil, Idiom.ofBody?] at h
    split at h
    · rename_i hopa hopb hopc hopd
      obtain ⟨-, rfl⟩ := ofTrip?_eq_some h
      rw [hopa] at ha
      rw [hopb] at hb
      rw [hopc] at hc
      simp_all [Op.FitsWords, Op.fields]
    · rename_i hopa hopb hopc hopd
      obtain ⟨-, rfl⟩ := ofTrip?_eq_some h
      rw [hopa] at ha
      rw [hopb] at hb
      rw [hopd] at hd
      simp_all [Op.FitsWords, Op.fields]
    · cases h
  | [] | [_, _] | [_, _, _] | _ :: _ :: _ :: _ :: _ :: _ => cases h

end Bodies

/-! ## Loops -/

/-- Blocks of pieces with the same outcomes on the tape of a session. -/
def Block.Alike : Block Piece → Block Piece → Prop := Same (Piece.act (n := tapeSize)) Store.Enters

section Loops

variable {x o c : Piece} {lap : Memory tapeSize → Memory tapeSize} {body rest : Block Piece}
  {e : Store tapeSize} {out : Outcome (Store tapeSize)}

/-- A loop whose body always ends counts its laps. -/
theorem eval_loop_of_total (h : Total Piece.act Store.Enters body (Store.lift lap)) :
    Eval Piece.act Store.Enters (.loop o body c rest) e out ↔
      (e.memory.cell = 0 ∧ Eval Piece.act Store.Enters rest e out) ∨
        (e.memory.cell ≠ 0 ∧ ∃ k, FirstRound (fun k => (lap^[k] e.memory).cell = 0) k ∧
          Eval Piece.act Store.Enters rest (Store.lift lap^[k] e) out) := by
  simp only [h.eval_loop_iff, lift_iterate, Store.Enters, Store.lift, not_not]
  constructor
  · intro hout
    obtain ⟨k, hlaps, hend, hrest⟩ := hout
    cases k with
    | zero => exact Or.inl ⟨hend, hrest⟩
    | succ k =>
      exact Or.inr ⟨hlaps 0 (by omega), k + 1, ⟨by omega, hend, fun j _ hj => hlaps j hj⟩, hrest⟩
  · intro hout
    rcases hout with ⟨hzero, hrest⟩ | ⟨hne, k, hk, hrest⟩
    · exact ⟨0, by simp, hzero, hrest⟩
    · refine ⟨k, ?_, hk.here, hrest⟩
      intro j hj
      cases j with
      | zero => exact hne
      | succ j => exact hk.first (j + 1) (by omega) hj

theorem act_of_ok {m : Memory tapeSize} (h : x.instr.op.effect e.memory = .ok m) :
    x.act e = some (.ended { e with memory := m }) := by
  rw [Piece.act, h]

theorem act_of_endless (hcollapsed : x.collapsed = true)
    (h : x.instr.op.effect e.memory = .error .fullTape ∨
      x.instr.op.effect e.memory = .error (.endless (ofResidue e.memory.cell))) :
    x.act e = none := by
  rcases h with h | h <;> rw [Piece.act, h] <;> simp [hcollapsed]

/-- A loop that an idiom stands for ends in the memory that the idiom leaves, or has no end and the
idiom stops. -/
theorem Op.Loops.outcome {op : Op} (hop : op.Loops lap)
    (h : Total Piece.act Store.Enters body (Store.lift lap)) (o c : Piece) (e : Store tapeSize) :
    (∃ m, op.effect e.memory = .ok m ∧ ∀ out,
        Eval Piece.act Store.Enters (.loop o body c .done) e out ↔
          out = .ended { e with memory := m }) ∨
      (op.effect e.memory = .error .fullTape ∨
          op.effect e.memory = .error (.endless (ofResidue e.memory.cell))) ∧
        ∀ out, ¬ Eval Piece.act Store.Enters (.loop o body c .done) e out := by
  simp only [eval_loop_of_total h, eval_done]
  by_cases hzero : e.memory.cell = 0
  · exact Or.inl ⟨e.memory, hop.skip _ hzero, fun out => by simp [hzero]⟩
  · rcases firstRound?_cases fun k => (lap^[k] e.memory).cell = 0 with ⟨k, -, hk⟩ | ⟨-, hnone⟩
    · refine Or.inl ⟨lap^[k] e.memory, hop.ends _ hzero k hk, fun out => ?_⟩
      constructor
      · rintro (⟨hcell, -⟩ | ⟨-, j, hj, hout⟩)
        · exact absurd hcell hzero
        · rwa [hj.unique hk] at hout
      · exact fun hout => Or.inr ⟨hzero, k, hk, hout⟩
    · refine Or.inr ⟨hop.endless _ hzero hnone, fun out => ?_⟩
      rintro (⟨hcell, -⟩ | ⟨-, j, hj, -⟩)
      · exact hzero hcell
      · exact hnone j hj.pos hj.here

/-- **An idiom in the place of its loop keeps all outcomes.** -/
theorem idiom_same (h : Total Piece.act Store.Enters body (Store.lift lap))
    (hx : x.instr.op.Loops lap) (hcollapsed : x.collapsed = true) :
    Block.Alike (.loop o body c .done) (.act x .done) := by
  intro e out
  rcases hx.outcome h o c e with ⟨m, heffect, hloop⟩ | ⟨hendless, hloop⟩
  · simp [hloop, eval_act, act_of_ok heffect]
  · simp [hloop, eval_act, act_of_endless hcollapsed hendless]

end Loops

end TapeMachine
