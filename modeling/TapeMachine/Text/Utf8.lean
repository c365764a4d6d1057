/-!
# UTF-8

Decoding cuts the bytes into pieces, each a character or a broken one. A broken piece is as
long as it can be: the bytes taken so far when the next one cannot go on, or one byte that
starts nothing. Strict decoding reports the first broken piece, lossy decoding puts U+FFFD in
the place of each.
-/
namespace TapeMachine.Utf8

/-- Why bytes are no character. -/
inductive Defect where
  | start
  | continuation
  | cutShort

def Defect.message : Defect → String
  | .start => "invalid start byte"
  | .continuation => "invalid continuation byte"
  | .cutShort => "unexpected end of data"

inductive Piece where
  | char (c : Char)
  | broken (bytes : List UInt8) (defect : Defect)

/-- A character of which some bytes have been read. -/
structure Reading where
  /-- The bytes read, the last one first. -/
  held : List UInt8
  /-- The code point as far as it is known. -/
  bits : Nat
  /-- How many bytes are owed after the next one. -/
  owed : Nat
  /-- The next byte lies between these two. -/
  low : UInt8
  high : UInt8

/-- Pieces cut off so far, the last one first, and the character being read. -/
structure Decoder where
  pieces : List Piece
  reading : Option Reading

/-- Takes a byte that starts a character. -/
def Decoder.begin (pieces : List Piece) (b : UInt8) : Decoder :=
  let wait (bits owed : Nat) (low high : UInt8) : Decoder := ⟨pieces, some ⟨[b], bits, owed, low, high⟩⟩
  if b < 0x80 then ⟨.char (Char.ofNat b.toNat) :: pieces, none⟩
  else if b < 0xC2 then ⟨.broken [b] .start :: pieces, none⟩
  else if b < 0xE0 then wait (b.toNat - 0xC0) 0 0x80 0xBF
  else if b < 0xF0 then
    wait (b.toNat - 0xE0) 1 (if b = 0xE0 then 0xA0 else 0x80) (if b = 0xED then 0x9F else 0xBF)
  else if b < 0xF5 then
    wait (b.toNat - 0xF0) 2 (if b = 0xF0 then 0x90 else 0x80) (if b = 0xF4 then 0x8F else 0xBF)
  else ⟨.broken [b] .start :: pieces, none⟩

def Decoder.feed (d : Decoder) (b : UInt8) : Decoder :=
  match d.reading with
  | none => begin d.pieces b
  | some p =>
    if p.low ≤ b ∧ b ≤ p.high then
      let bits := 64 * p.bits + (b.toNat - 0x80)
      match p.owed with
      | 0 => ⟨.char (Char.ofNat bits) :: d.pieces, none⟩
      | owed + 1 => ⟨d.pieces, some ⟨b :: p.held, bits, owed, 0x80, 0xBF⟩⟩
    else begin (.broken p.held.reverse .continuation :: d.pieces) b

def Decoder.finish (d : Decoder) : List Piece :=
  match d.reading with
  | none => d.pieces.reverse
  | some p => (.broken p.held.reverse .cutShort :: d.pieces).reverse

def pieces (bytes : List UInt8) : List Piece :=
  (bytes.foldl Decoder.feed ⟨[], none⟩).finish

/-- A broken piece and where it starts. -/
structure Breach where
  offset : Nat
  bytes : List UInt8
  defect : Defect

def Piece.size : Piece → Nat
  | .char c => c.utf8Size
  | .broken bytes _ => bytes.length

/-- The first broken piece, the first piece starting at `offset`. -/
def firstBreach? (offset : Nat) : List Piece → Option Breach
  | [] => none
  | .broken bytes defect :: _ => some ⟨offset, bytes, defect⟩
  | .char c :: rest => firstBreach? (offset + c.utf8Size) rest

def Piece.char? : Piece → Option Char
  | .char c => some c
  | .broken _ _ => none

def decode (bytes : List UInt8) : Except Breach String :=
  match firstBreach? 0 (pieces bytes) with
  | some breach => .error breach
  | none => .ok (String.ofList ((pieces bytes).filterMap Piece.char?))

def decodeLossy (bytes : List UInt8) : String :=
  String.ofList ((pieces bytes).map fun p => p.char?.getD '\uFFFD')

def encode (s : String) : List UInt8 := s.toList.flatMap String.utf8EncodeChar

end TapeMachine.Utf8
