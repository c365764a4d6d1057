import TapeMachine.Proofs.Effect
import TapeMachine.Proofs.Evaluation
import TapeMachine.Run

/-! # Stores

A store is a run without the place it is at: its memory, the input not read yet
and the output so far. Actions work on stores, and one turn of a run at an
action does what the action does (`turn_act`). -/
namespace TapeMachine

variable {n : ℕ}

/-- What a run has besides the place it is at. -/
@[ext] structure Store (n : ℕ) where
  memory : Memory n
  feed : Feed
  output : Array UInt8

def Run.store (n : ℕ) (r : Run) : Store n := ⟨r.state.memory n, r.feed, r.output⟩

/-- Whether a loop that is met goes round. -/
def Store.Enters (e : Store n) : Prop := e.memory.cell ≠ 0

/-- An instruction, and whether condensing put it where a loop was. -/
structure Piece where
  instr : Instruction
  collapsed : Bool

namespace Piece

def item (x : Piece) : Item := .instr x.instr

def side? (x : Piece) : Option Side := x.instr.op.side?

/-- An instruction that stands for itself. -/
def plain (i : Instruction) : Piece := ⟨i, false⟩

/-- What an instruction does. At a stop other than for input and output it fails, unless it stands
for a loop: the loop would go on for ever. -/
noncomputable def act (x : Piece) (e : Store n) : Option (Outcome (Store n)) :=
  match x.instr.op.effect e.memory with
  | .ok m => some (.ended { e with memory := m })
  | .error .output => some (.ended { e with output := e.output.push (ofResidue e.memory.cell) })
  | .error .input =>
    match e.feed.next? with
    | none => some (.failed (.missingInput x.instr.position) e)
    | some (b, feed) => some (.ended { e with memory := e.memory.write (residue b), feed })
  | .error why =>
    if x.collapsed then none
    else (Run.faultOf why x.instr.position e.memory.pointer.val).map (.failed · e)

end Piece

/-- The faults of a loop on `n` cells that would go on for ever, found at a position. -/
def Fault.IsEndless (n : ℕ) (position : ℤ) (fault : Fault) : Prop :=
  (∃ (value : UInt8) (pointer : ℕ), pointer < n ∧
    fault = .endlessDrain position value.toNat pointer) ∨ fault = .fullTape position

/-- Whether a turn did what an action does. -/
def Turn.Shows (x : Piece) (r : Run) : Turn → Option (Outcome (Store n)) → Prop
  | .next t, some (.ended e) => t.state.pc = r.state.pc + 1 ∧ t.state.Fits n ∧ t.store n = e
  | .finished f, some (.failed fault e) => f = ⟨r, some fault.raised⟩ ∧ e = r.store n
  | .finished f, none => x.collapsed = true ∧ f.run = r ∧
      ∃ fault : Fault, f.failure = some fault.raised ∧ fault.IsEndless n x.instr.position
  | _, _ => False

theorem drain_error {m : Memory n} {step : ZMod 256} {emptied : ℕ → Memory n} {why : Stop}
    (h : m.drain step emptied = .error why) : why = .endless (ofResidue m.cell) := by
  unfold Memory.drain at h
  split at h
  · cases h
  · split at h
    · cases h
    · exact (Except.error.inj h).symm

theorem scan_error {m : Memory n} {step : ZMod n} {why : Stop} (h : m.scan step = .error why) :
    why = .fullTape := by
  unfold Memory.scan at h
  split at h
  · cases h
  · split at h
    · cases h
    · exact (Except.error.inj h).symm

/-- An instruction stops for input, for output, or because its loop would go on for ever. -/
theorem effect_error {op : Op} {m : Memory n} {why : Stop} (h : op.effect m = .error why) :
    why = .input ∨ why = .output ∨ why = .fullTape ∨ why = .endless (ofResidue m.cell) := by
  cases op with
  | add | move | clear | opening | closing => cases h
  | input => exact Or.inl (Except.error.inj h).symm
  | output => exact Or.inr (Or.inl (Except.error.inj h).symm)
  | scanLeft | scanRight => exact Or.inr (Or.inr (Or.inl (scan_error h)))
  | drain | transfer => exact Or.inr (Or.inr (Or.inr (drain_error h)))

section Turn

variable [NeZero n] {k : ℕ} {r : Run} {x : Piece} {program : Array Item} {code : Array Word}

/-- **One turn of a run at an action does what the action does.** -/
theorem turn_act (hn : n = 2 ^ k) (h : r.state.Fits n) {items : Array Item} {w : Word}
    (hcode : code[r.state.pc]? = some w) (hw : x.instr.op.encode items = .ok w)
    (hs : x.side? = none) (hp : positionAt program r.state.pc = x.instr.position) :
    (Run.turn program code r).Shows x r (x.act (r.store n)) := by
  obtain ⟨s, feed, output⟩ := r
  have hshows := apply_effect hn h hw hs
  have hstep : step code s = w.apply s := by
    unfold step
    rw [hcode]
  unfold Run.turn Piece.act
  simp only [hstep, Run.store]
  cases heffect : x.instr.op.effect (s.memory n) with
  | ok m =>
    rw [heffect] at hshows
    obtain ⟨t, hprogress, hpc, hfits, hmem⟩ := hshows.of_ok
    rw [hprogress]
    exact ⟨hpc, hfits, by rw [Run.store, hmem]⟩
  | error why =>
    rw [heffect] at hshows
    rw [hshows.of_error]
    rcases effect_error heffect with rfl | rfl | rfl | rfl
    · -- input: the byte read is written to the current cell
      cases hnext : feed.next? with
      | none =>
        simp only [Run.read, hnext, hp]
        exact ⟨rfl, rfl⟩
      | some result =>
        obtain ⟨b, rest⟩ := result
        obtain ⟨hpc, hfits, hmem⟩ := h.write_shows (v := b) rfl
        simp only [Run.read, hnext]
        exact ⟨hpc, hfits, by rw [Run.store, hmem]⟩
    · exact ⟨rfl, ⟨h.size, h.inside⟩, by simp [Run.write, Run.store, h.cell]; rfl⟩
    · cases hc : x.collapsed with
      | true => exact ⟨hc, rfl, _, rfl, Or.inr (by rw [hp])⟩
      | false => exact ⟨by simp [hp, Run.faultOf], rfl⟩
    · cases hc : x.collapsed with
      | true => exact ⟨hc, rfl, _, rfl, Or.inl ⟨_, _, h.inside, by rw [hp]⟩⟩
      | false => exact ⟨by simp [hp, h.pointer_val, Run.faultOf], rfl⟩

end Turn

end TapeMachine
