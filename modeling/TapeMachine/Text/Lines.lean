/-!
# Line ends

A file's text has its line ends made uniform: a carriage return becomes a line feed, and a line
feed right behind one disappears.
-/
namespace TapeMachine.Text

def uniformLines (cs : List Char) : List Char :=
  (cs.zip ('\n' :: cs)).filterMap fun (c, before) =>
    if c = '\r' then some '\n' else if c = '\n' ∧ before = '\r' then none else some c

end TapeMachine.Text
