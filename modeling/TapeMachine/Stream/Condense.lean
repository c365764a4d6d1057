import TapeMachine.Level
import TapeMachine.Stream.Fold
import TapeMachine.Stream.Idiom

/-!
# Condensed streams

A stream is condensed up to a level. Loops are collapsed while the stream is being folded: when
a bracket closes a loop whose body is an idiom, the loop is replaced on the spot. An idiom is no
step, so no fold ever reaches across one, and none is part of another idiom's body.
-/
namespace TapeMachine

/-- Replaces the loop that ends the items (the last one first), if its body has `width` items and
is an idiom. -/
def collapseWidth? (width : Nat) : List Item → Option (List Item)
  | [] => none
  | _ :: below =>
    match below.drop width with
    | .instr ⟨.opening _, position⟩ :: rest =>
      (Idiom.ofBody? (below.take width).reverse).map fun op => .instr ⟨op, position⟩ :: rest
    | _ => none

/-- Replaces the loop that ends the items by its idiom, if it has one. Idioms have bodies of one
item or of four. -/
def collapseLast (out : List Item) : List Item :=
  (collapseWidth? 1 out <|> collapseWidth? 4 out).getD out

/-- Takes the next item and collapses the loop it closes. -/
def Folder.pushLoop (f : Folder) (x : Item) : Folder :=
  let g := f.push x
  if x.side? = some .closing then { g with out := collapseLast g.out } else g

/-- The stream with its runs folded, its loop idioms collapsed and its brackets unlinked. -/
def collapseLoops (stream : List Item) : List Item :=
  (stream.foldl (fun f x => f.pushLoop x.unlinked) Folder.empty).out.reverse

/-- The stream condensed up to a level, its brackets unlinked. -/
def condense : Level → List Item → List Item
  | .plain, stream => stream.map Item.unlinked
  | .folded, stream => foldSteps stream
  | .idiomatic, stream => collapseLoops stream

end TapeMachine
