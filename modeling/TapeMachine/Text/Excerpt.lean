import TapeMachine.Text.Printable

/-!
# Excerpts

An excerpt shows part of a source with a caret under one character. Dots mark the side on
which the source was cut.
-/
namespace TapeMachine.Text

/-- The elements from index `start` on and before `stop`. A negative `stop` counts from the end. -/
def slice {α : Type} (l : List α) (start stop : Int) : List α :=
  let last := if stop < 0 then stop + l.length else stop
  (l.take last.toNat).drop start.toNat

/-- Two lines: up to `context` characters on either side of the 1-based `position`, which is
moved into the source if it lies outside, and the caret. An empty source has no excerpt. -/
def excerpt (source : String) (position : Int) (context : Int) : String :=
  let cs := source.toList
  if cs.isEmpty then ""
  else
    let index := min (max 1 position) cs.length - 1
    let start := max 0 (index - context)
    let stop := min (cs.length : Int) (index + context + 1)
    let lead := if 0 < start then "... " else ""
    let tail := if stop < cs.length then " ..." else ""
    let shown := String.ofList (sanitize (slice cs start stop))
    let indent := String.ofList (List.replicate (lead.length + index - start).toNat ' ')
    "  " ++ lead ++ shown ++ tail ++ "\n  " ++ indent ++ "^"

end TapeMachine.Text
