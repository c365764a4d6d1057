import TapeMachine.Proofs.Failures
import TapeMachine.Proofs.Partners
import TapeMachine.Proofs.Stops

/-! # Dead ends

A bracket is a dead end if its target is missing, is no index of its program, or
is the index of anything but a bracket of the other side. Encoding gives exactly
these brackets a word without a target (`unlinked_iff`), so the machine stops as
unlinked where it meets one, and nowhere else, whatever the cell is
(`step_unlinked_iff`). A linked stream has none. A run therefore fails for a
bracket if its turns lead to a dead end, with the position of the item there
(`brackets_agree`), which is refused where it is too long to be written. -/
namespace TapeMachine

/-! ## Targets of no use -/

/-- Whether a target is missing, outside of a program, or not at a bracket that is opposite to the
given side. -/
def Misses (program : List Item) (side : Side) : Option ℤ → Prop
  | none => True
  | some t => t < 0 ∨ program.length ≤ t ∨
      ∃ y, program[t.toNat]? = some y ∧ y.side? ≠ some side.opposite

/-- Whether a bracket with a target of no use stands at an index. -/
def DeadEnd (program : List Item) (k : ℕ) : Prop :=
  ∃ x side, program[k]? = some x ∧ x.side? = some side ∧ Misses program side x.target?

section Encoded

variable {program : List Item} {items : Array Item} {code : Array Word} {side : Side} {x : Item}
  {w : Word} {s t : State} {k : ℕ}

/-- Encoding keeps the targets that are of use. -/
theorem usableTarget_eq_none {target : Option ℤ} :
    usableTarget? program.toArray side target = none ↔ Misses program side target := by
  cases target with
  | none => simp [usableTarget?, Misses]
  | some t =>
    rw [usableTarget?, Option.bind_some, itemAt?, Misses]
    by_cases hneg : t < 0
    · simp [hneg]
    · rw [if_neg hneg, List.getElem?_toArray]
      cases hy : program[t.toNat]? with
      | none =>
        have hlen := List.getElem?_eq_none_iff.mp hy
        simp only [true_iff]
        exact Or.inr (Or.inl (by omega))
      | some y =>
        obtain ⟨hlt, -⟩ := List.getElem?_eq_some_iff.mp hy
        have hin : ¬ (program.length : ℤ) ≤ t := by omega
        simp [hneg, hin]

/-- The words without a target are those of the brackets with none of use. -/
theorem unlinked_iff (h : x.encode items = .ok w) : w = .opening none ∨ w = .closing none ↔
    ∃ side, x.side? = some side ∧ usableTarget? items side x.target? = none := by
  rcases x with ⟨op, position⟩ | v
  · cases op with
    | opening target | closing target =>
      cases h
      simp [Item.side?, Item.target?, Item.op?, Op.side?, Op.target?]
    | add | move | drain =>
      obtain ⟨v, -, rfl⟩ := map_word_eq_ok h
      simp [Item.side?, Item.op?, Op.side?]
    | transfer =>
      obtain ⟨u, v, x, -, -, -, rfl⟩ := @encode_transfer items _ _ _ _ h
      simp [Item.side?, Item.op?, Op.side?]
    | input | output | clear | scanLeft | scanRight =>
      cases h
      simp [Item.side?, Item.op?, Op.side?]
  · cases h

theorem item_of_word (hcode : encode program = .ok code) (hw : code[k]? = some w) :
    ∃ x, program[k]? = some x ∧ x.encode program.toArray = .ok w := by
  rw [← Array.getElem?_toList] at hw
  exact forall₂_getElem? (forall₂_of_encode hcode).flip hw

theorem word_of_item (hcode : encode program = .ok code) (hx : program[k]? = some x) :
    ∃ w, code[k]? = some w ∧ x.encode program.toArray = .ok w := by
  obtain ⟨w, hw, hencode⟩ := forall₂_getElem? (forall₂_of_encode hcode) hx
  exact ⟨w, by rw [← Array.getElem?_toList, hw], hencode⟩

theorem deadEnd_iff (hcode : encode program = .ok code) : DeadEnd program k ↔
    code[k]? = some (.opening none) ∨ code[k]? = some (.closing none) := by
  constructor
  · rintro ⟨x, side, hx, hside, hmisses⟩
    obtain ⟨w, hw, hencode⟩ := word_of_item hcode hx
    have hblind := (unlinked_iff hencode).mpr ⟨side, hside, usableTarget_eq_none.mpr hmisses⟩
    rw [hw]
    exact hblind.imp (congrArg some) (congrArg some)
  · intro h
    obtain ⟨w, hw, hblind⟩ : ∃ w, code[k]? = some w ∧ (w = .opening none ∨ w = .closing none) := by
      rcases h with h | h
      · exact ⟨_, h, Or.inl rfl⟩
      · exact ⟨_, h, Or.inr rfl⟩
    obtain ⟨x, hx, hencode⟩ := item_of_word hcode hw
    obtain ⟨side, hside, hnone⟩ := (unlinked_iff hencode).mp hblind
    exact ⟨x, side, hx, hside, usableTarget_eq_none.mp hnone⟩

/-! ## Meeting one -/

/-- The machine stops as unlinked at the dead ends of its program, whatever the cell is. -/
theorem step_unlinked_iff (hcode : encode program = .ok code) :
    step code s = .stopped .unlinked t ↔ t = s ∧ DeadEnd program s.pc := by
  rw [deadEnd_iff hcode]
  constructor
  · intro h
    obtain ⟨w, hw, hblind⟩ := stopsFor_of_step (by simp) h
    exact ⟨eq_of_stopped h, hw ▸ hblind.imp (congrArg some) (congrArg some)⟩
  · rintro ⟨rfl, hblind | hblind⟩ <;> rw [step, hblind] <;> rfl

theorem runToStop_unlinked_iff (hcode : encode program = .ok code) :
    (∃ budget, runToStop code budget s = some (.unlinked, t)) ↔
      (∃ n, Passes code n s t) ∧ DeadEnd program t.pc := by
  constructor
  · rintro ⟨budget, h⟩
    obtain ⟨n, -, hpasses, hstop⟩ := runToStop_iff.mp h
    exact ⟨⟨n, hpasses⟩, ((step_unlinked_iff hcode).mp hstop).2⟩
  · rintro ⟨⟨n, hpasses⟩, hdead⟩
    have hstop := (step_unlinked_iff hcode).mpr ⟨rfl, hdead⟩
    exact ⟨n + 1, runToStop_iff.mpr ⟨n, n.lt_succ_self, hpasses, hstop⟩⟩

/-- A linked stream has no dead end. -/
theorem not_deadEnd (h : isLinked program = true) : ¬ DeadEnd program k := by
  rintro ⟨x, side, hx, hside, hmisses⟩
  obtain ⟨m, y, htarget, hy, hopposite, -⟩ := isLinked_iff.mp h k x side hx hside
  rw [htarget] at hmisses
  have husable := usableTarget_of_side hy hopposite
  rw [usableTarget_eq_none.mpr hmisses] at husable
  cases husable

/-- Linked streams, in terms of the targets as they are. -/
theorem isLinked_iff_targets : isLinked program = true ↔
    ∀ (k : ℕ) (x : Item) (side : Side), program[k]? = some x → x.side? = some side →
      ∃ t : ℤ, x.target? = some t ∧ 0 ≤ t ∧ t < program.length ∧
        ∃ y, program[t.toNat]? = some y ∧ y.side? = some side.opposite ∧
          y.target? = some (k : ℤ) := by
  rw [isLinked_iff]
  constructor
  · intro h k x side hx hside
    obtain ⟨m, y, htarget, hy, hpartner⟩ := h k x side hx hside
    obtain ⟨hm, -⟩ := List.getElem?_eq_some_iff.mp hy
    exact ⟨m, htarget, by omega, by omega, y, hy, hpartner⟩
  · intro h k x side hx hside
    obtain ⟨t, htarget, hlow, -, y, hy, hpartner⟩ := h k x side hx hside
    exact ⟨t.toNat, y, by rw [htarget, Int.toNat_of_nonneg hlow], hy, hpartner⟩

end Encoded

/-! ## Runs -/

/-- Any number of turns of a program. -/
def Run.Reaches (program : Array Item) (code : Array Word) : Run → Run → Prop :=
  (Image.mk [] program code).Leads

section Runs

variable {program : List Item} {code : Array Word} {r : Run} {f : Finish} {position : ℤ}

theorem position_of_deadEnd {k : ℕ} (h : DeadEnd program k) :
    (program[k]?).map Item.position = some (positionAt program.toArray k) := by
  obtain ⟨x, side, hx, hside, -⟩ := h
  rcases x with i | v
  · simp [positionAt, hx, Item.position]
  · cases hside

/-- A run ends for a bracket at every dead end that its turns lead to. -/
theorem finish_of_deadEnd (hcode : encode program = .ok code) {t : Run}
    (h : Run.Reaches program.toArray code r t) (hdead : DeadEnd program t.state.pc)
    (hat : (program[t.state.pc]?).map Item.position = some position) :
    ∃ budget f, Run.finish program.toArray code budget r = some f ∧
      f.failure = some (Fault.unlinkedBracket position).raised := by
  cases (position_of_deadEnd hdead).symm.trans hat
  have hturn : Run.turn program.toArray code t = .finished
      ⟨t, some (Fault.unlinkedBracket (positionAt program.toArray t.state.pc)).raised⟩ := by
    obtain ⟨s, feed, output⟩ := t
    have hstop := (step_unlinked_iff hcode).mpr ⟨rfl, hdead⟩
    simp only [Run.turn, hstop]
    rfl
  let g : Image := ⟨[], program.toArray, code⟩
  obtain ⟨budget, hfinish⟩ := Image.Leads.finish (g := g) h (g.finish_of_finished 0 hturn)
  exact ⟨budget, _, hfinish, rfl⟩

/-- A run that ends for a bracket ends at a dead end, with a position that can be written. -/
theorem deadEnd_of_finish (hcode : encode program = .ok code) {budget : ℕ}
    (h : Run.finish program.toArray code budget r = some f)
    (hfailure : f.failure = some (.fault (.unlinkedBracket position))) :
    Text.isWritable position = true ∧ ∃ t, Run.Reaches program.toArray code r t ∧
      DeadEnd program t.state.pc ∧
      (program[t.state.pc]?).map Item.position = some position := by
  have hkeeps : ∀ t u, Run.Reaches program.toArray code r t →
      Run.turn program.toArray code t = .next u → Run.Reaches program.toArray code r u :=
    fun _ _ => Relation.ReflTransGen.tail
  obtain ⟨t, hreaches, hturn⟩ := finish_last hkeeps h .refl
  obtain ⟨why, fault?, hstep, -, hlast, hcases⟩ := finished_cases hturn
  obtain ⟨fault, rfl, hraised⟩ := Option.map_eq_some_iff.mp (hlast.symm.trans hfailure)
  obtain ⟨hwritable, rfl⟩ := Fault.raised_eq_fault.mp hraised
  refine ⟨by simpa using hwritable, t, hreaches, ?_⟩
  rcases hcases with ⟨-, -, hmissing⟩ | ⟨-, hreported⟩
  · cases hmissing
  · cases why with
    | unlinked =>
      obtain ⟨-, hdead⟩ := (step_unlinked_iff hcode).mp hstep
      rw [eq_of_stopped hstep] at hreported
      cases hreported
      exact ⟨hdead, position_of_deadEnd hdead⟩
    | ended | output | input | fullTape | missedZero | endless => cases hreported

namespace Session

variable {s : Session}

/-- A loaded session reports the dead end that its run comes to. -/
theorem run_unlinked_iff (hcode : encode program = .ok code) (hstage : s.stage = .loaded)
    (hprogram : s.program = some program) (position : ℤ) :
    (∀ t, Run.Reaches program.toArray code (.start s.tape s.feed) t →
        DeadEnd program t.state.pc →
        (program[t.state.pc]?).map Item.position = some position → ∃ budget r,
          s.run budget = some r ∧ r.failure = some (Fault.unlinkedBracket position).raised) ∧
      ((∃ budget r, s.run budget = some r ∧
          r.failure = some (.fault (.unlinkedBracket position))) ↔
        Text.isWritable position = true ∧
          ∃ t, Run.Reaches program.toArray code (.start s.tape s.feed) t ∧
            DeadEnd program t.state.pc ∧
            (program[t.state.pc]?).map Item.position = some position) := by
  obtain ⟨hfault, houtput, -⟩ := stage_eq_loaded.mp hstage
  have hrun : ∀ budget, s.run budget =
      (Run.finish program.toArray code budget (.start s.tape s.feed)).map s.settle := by
    intro budget
    simp only [run, houtput, hfault, hprogram, hcode]
  have hsettle : ∀ f, (s.settle f).failure = f.failure := by
    intro f
    rcases s.settle_cases hstage (f := f) with ⟨hf, heq⟩ | ⟨_, hf, heq⟩ | ⟨_, hf, heq⟩ <;>
      rw [heq, hf]
  have hends : ∀ t, Run.Reaches program.toArray code (.start s.tape s.feed) t →
      DeadEnd program t.state.pc → (program[t.state.pc]?).map Item.position = some position →
      ∃ budget r, s.run budget = some r ∧
        r.failure = some (Fault.unlinkedBracket position).raised := by
    intro t hreaches hdead hat
    obtain ⟨budget, f, hfinish, hf⟩ := finish_of_deadEnd hcode hreaches hdead hat
    exact ⟨budget, s.settle f, by rw [hrun, hfinish]; rfl, by rw [hsettle, hf]⟩
  refine ⟨hends, ?_, ?_⟩
  · rintro ⟨budget, r, hr, hfailure⟩
    rw [hrun] at hr
    obtain ⟨f, hfinish, rfl⟩ := Option.map_eq_some_iff.mp hr
    rw [hsettle] at hfailure
    exact deadEnd_of_finish hcode hfinish hfailure
  · rintro ⟨hwritable, t, hreaches, hdead, hat⟩
    obtain ⟨budget, r, hr, hfailure⟩ := hends t hreaches hdead hat
    rw [Fault.raised_of_writable (by simpa using hwritable)] at hfailure
    exact ⟨budget, r, hr, hfailure⟩

end Session

end Runs

/-- A program with a bracket that goes to itself. -/
def selfBracket : List Item := [.instr ⟨.add 1, 1⟩, .instr ⟨.opening (some 1), 4⟩]

end TapeMachine
