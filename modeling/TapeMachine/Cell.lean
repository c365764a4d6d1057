/-!
# Cells and addresses as residues

Cells count modulo 256 and addresses modulo 65536. An amount in an instruction is an
integer of any size; `wrap` gives the residue it stands for and `signed` the
representative of that residue nearest to zero, the even split going to the negative side.
-/
namespace TapeMachine

/-- How many cells the tape of a session has. -/
def tapeSize : Nat := 65536

/-- The residue of a cell amount, in `0..255`. -/
def Cell.wrap (amount : Int) : Int := amount % 256

/-- The residue of a cell amount, in `-128..127`. -/
def Cell.signed (amount : Int) : Int := amount.bmod 256

/-- The residue of an offset, in `0..65535`. -/
def Offset.wrap (amount : Int) : Int := amount % 65536

/-- The residue of an offset, in `-32768..32767`. -/
def Offset.signed (amount : Int) : Int := amount.bmod 65536

end TapeMachine
