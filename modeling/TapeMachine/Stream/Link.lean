import TapeMachine.Fault
import TapeMachine.Instruction

/-!
# Linked streams

Linking sends every bracket to its partner. Each bracket that ends a loop belongs to the nearest
one before it that is still open. A stream whose brackets do not pair up is at fault: with its
first bracket that ends no loop, or else with its first that starts one that never ends.
-/
namespace TapeMachine

/-- The brackets of a stream as far as they have been paired. -/
structure Pairing where
  /-- Index and position of the loops still open, the innermost first. -/
  opened : List (Nat × Int)
  /-- The partner of each item so far. -/
  partners : Array (Option Nat)

namespace Pairing

def empty : Pairing := ⟨[], #[]⟩

/-- Takes the next item. A bracket that ends no loop is reported with its position. -/
def push (p : Pairing) (x : Item) : Except Int Pairing :=
  let index := p.partners.size
  match x with
  | .instr ⟨.opening _, position⟩ => .ok ⟨(index, position) :: p.opened, p.partners.push none⟩
  | .instr ⟨.closing _, position⟩ =>
    match p.opened with
    | (start, _) :: opened =>
      .ok ⟨opened, (p.partners.setIfInBounds start (some index)).push (some start)⟩
    | [] => .error position
  | _ => .ok ⟨p.opened, p.partners.push none⟩

/-- The first bracket whose loop never ends. -/
def oldest? (p : Pairing) : Option Int := p.opened.getLast?.map (·.2)

end Pairing

/-- The item with its bracket sent to a partner, if it has one. -/
def Item.linkTo (x : Item) (partner : Option Nat) : Item :=
  match partner with
  | some i => x.retarget (some i)
  | none => x

/-- The stream with its brackets linked. The source is shown in a fault. -/
def link (source : String) (stream : List Item) : Except Failure (List Item) :=
  match stream.foldlM Pairing.push Pairing.empty with
  | .error position => .error (Fault.unopenedLoopIn source position).raised
  | .ok pairing =>
    match pairing.oldest? with
    | some position => .error (Fault.unclosedLoopIn source position).raised
    | none => .ok (stream.zipWith Item.linkTo pairing.partners.toList)

/-- The item at an index given by a loop target. -/
def itemAt? (items : Array Item) (target : Int) : Option Item :=
  if target < 0 then none else items[target.toNat]?

/-- Whether a bracket at an index has a partner that has it for its partner. -/
def hasPartner (items : Array Item) (index : Nat) (side : Side) (target : Option Int) : Bool :=
  match target.bind (itemAt? items) with
  | some partner => partner.side? = some side.opposite && partner.target? = some (index : Int)
  | none => false

/-- Whether every bracket of the stream is linked to a bracket that is linked to it. -/
def isLinked (stream : List Item) : Bool :=
  let items := stream.toArray
  stream.zipIdx.all fun (x, index) =>
    match x.side? with
    | some side => hasPartner items index side x.target?
    | none => true

end TapeMachine
