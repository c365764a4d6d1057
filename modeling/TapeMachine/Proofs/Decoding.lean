import Mathlib.Data.List.Basic
import TapeMachine.Text.Utf8

/-! # Texts as bytes

Decoding cuts bytes into pieces and loses none of them (`pieces_bytes`): each
character it finds is spelled by the bytes it was read from. The bytes of a text
are cut into its characters (`pieces_encode`). So the bytes that can be decoded
are those that a text is encoded to, and what they are decoded to is that text
(`decode_eq_ok_iff`). -/
namespace TapeMachine.Utf8

/-! ## Spelling -/

/-- Whether a byte can stand behind the first one of a character. -/
def Tail (b : UInt8) : Prop := 0x80 ≤ b.toNat ∧ b.toNat ≤ 0xBF

/-- How a code point is spelled. Every byte but the first holds six bits of it, and the first one
tells how many bytes there are. No spelling is longer than it need be. -/
inductive Spells (n : ℕ) : List UInt8 → Prop
  | one {a : UInt8} : a.toNat = n → n < 0x80 → Spells n [a]
  | two {a b : UInt8} : 0xC0 ≤ a.toNat → a.toNat < 0xE0 → Tail b →
      64 * (a.toNat - 0xC0) + (b.toNat - 0x80) = n → 0x80 ≤ n → Spells n [a, b]
  | three {a b c : UInt8} : 0xE0 ≤ a.toNat → a.toNat < 0xF0 → Tail b → Tail c →
      64 * (64 * (a.toNat - 0xE0) + (b.toNat - 0x80)) + (c.toNat - 0x80) = n →
      0x800 ≤ n → n.isValidChar → Spells n [a, b, c]
  | four {a b c d : UInt8} : 0xF0 ≤ a.toNat → a.toNat < 0xF8 → Tail b → Tail c → Tail d →
      64 * (64 * (64 * (a.toNat - 0xF0) + (b.toNat - 0x80)) + (c.toNat - 0x80)) +
        (d.toNat - 0x80) = n → 0x10000 ≤ n → n < 0x110000 → Spells n [a, b, c, d]

section Spelling

variable {n : ℕ} {b : UInt8} {bytes : List UInt8}

theorem byte_toNat (h : n < 256) : (UInt8.ofNat n).toNat = n := by
  rw [UInt8.toNat_ofNat', Nat.mod_eq_of_lt h]

theorem byte_of_toNat (h : n = b.toNat) : UInt8.ofNat n = b := by
  rw [h, UInt8.ofNat_toNat]

theorem tail_ofNat (h : n < 64) : Tail (UInt8.ofNat (n + 0x80)) := by
  rw [Tail, byte_toNat (by omega)]
  omega

theorem val_ofNat (h : n.isValidChar) : (Char.ofNat n).val.toNat = n := by
  rw [Char.ofNat, dif_pos h]
  rfl

/-- **A character is encoded to its spelling.** -/
theorem spells_encodeChar (c : Char) : Spells c.toNat (String.utf8EncodeChar c) := by
  have hvalid : c.toNat.isValidChar := c.valid
  have hbound : c.toNat < 0x110000 := by rcases hvalid with h | h <;> omega
  simp only [String.utf8EncodeChar, Char.toNat_val]
  generalize c.toNat = n at hvalid hbound
  split_ifs with h1 h2 h3
  · exact .one (byte_toNat (by omega)) (by omega)
  · have ha : (UInt8.ofNat (n / 64 % 32 + 192)).toNat = n / 64 + 192 := by
      rw [byte_toNat (by omega)]
      omega
    refine .two ?_ ?_ (tail_ofNat (by omega)) ?_ (by omega) <;> rw [ha]
    · omega
    · omega
    · rw [byte_toNat (by omega)]
      omega
  · have ha : (UInt8.ofNat (n / 4096 % 16 + 224)).toNat = n / 4096 + 224 := by
      rw [byte_toNat (by omega)]
      omega
    refine .three ?_ ?_ (tail_ofNat (by omega)) (tail_ofNat (by omega)) ?_ (by omega) hvalid <;>
      rw [ha]
    · omega
    · omega
    · rw [byte_toNat (by omega), byte_toNat (by omega)]
      omega
  · have ha : (UInt8.ofNat (n / 262144 % 8 + 240)).toNat = n / 262144 + 240 := by
      rw [byte_toNat (by omega)]
      omega
    refine .four ?_ ?_ (tail_ofNat (by omega)) (tail_ofNat (by omega)) (tail_ofNat (by omega)) ?_
      (by omega) hbound <;> rw [ha]
    · omega
    · omega
    · rw [byte_toNat (by omega), byte_toNat (by omega), byte_toNat (by omega)]
      omega

/-- **A spelling is what its character is encoded to.** -/
theorem Spells.encodeChar_eq (h : Spells n bytes) :
    String.utf8EncodeChar (Char.ofNat n) = bytes := by
  cases h with
  | one ha hn =>
    rw [String.utf8EncodeChar, val_ofNat (Or.inl (by omega)), if_pos (by omega),
      byte_of_toNat ha.symm]
  | two ha ha' hb hn hlong =>
    obtain ⟨hb, hb'⟩ := hb
    rw [String.utf8EncodeChar, val_ofNat (Or.inl (by omega)), if_neg (by omega), if_pos (by omega)]
    simp only [List.cons.injEq, and_true]
    exact ⟨byte_of_toNat (by omega), byte_of_toNat (by omega)⟩
  | three ha ha' hb hc hn hlong hvalid =>
    obtain ⟨hb, hb'⟩ := hb
    obtain ⟨hc, hc'⟩ := hc
    rw [String.utf8EncodeChar, val_ofNat hvalid, if_neg (by omega), if_neg (by omega),
      if_pos (by omega)]
    simp only [List.cons.injEq, and_true]
    exact ⟨byte_of_toNat (by omega), byte_of_toNat (by omega), byte_of_toNat (by omega)⟩
  | four ha ha' hb hc hd hn hlong hbound =>
    obtain ⟨hb, hb'⟩ := hb
    obtain ⟨hc, hc'⟩ := hc
    obtain ⟨hd, hd'⟩ := hd
    rw [String.utf8EncodeChar, val_ofNat (Or.inr (by omega)), if_neg (by omega), if_neg (by omega),
      if_neg (by omega)]
    simp only [List.cons.injEq, and_true]
    exact ⟨byte_of_toNat (by omega), byte_of_toNat (by omega), byte_of_toNat (by omega),
      byte_of_toNat (by omega)⟩

/-- A byte below 128 is spelled by itself and is in no other spelling. -/
theorem Spells.eq_of_low (h : Spells n bytes) (hb : b ∈ bytes) (hlow : b.toNat < 0x80) :
    n = b.toNat := by
  cases h with
  | one ha hn => rw [List.mem_singleton.1 hb, ha]
  | two ha ha' hsecond hn hlong =>
    obtain ⟨hsecond, -⟩ := hsecond
    simp only [List.mem_cons, List.not_mem_nil, or_false] at hb
    rcases hb with rfl | rfl <;> omega
  | three ha ha' hsecond hthird hn hlong hvalid =>
    obtain ⟨hsecond, -⟩ := hsecond
    obtain ⟨hthird, -⟩ := hthird
    simp only [List.mem_cons, List.not_mem_nil, or_false] at hb
    rcases hb with rfl | rfl | rfl <;> omega
  | four ha ha' hsecond hthird hfourth hn hlong hbound =>
    obtain ⟨hsecond, -⟩ := hsecond
    obtain ⟨hthird, -⟩ := hthird
    obtain ⟨hfourth, -⟩ := hfourth
    simp only [List.mem_cons, List.not_mem_nil, or_false] at hb
    rcases hb with rfl | rfl | rfl | rfl <;> omega

/-- The bytes of a text have a zero only where it has a NUL character. -/
theorem zero_not_mem_encode {s : String} (h : '\x00' ∉ s.toList) : 0 ∉ encode s := by
  intro hzero
  obtain ⟨c, hc, hmem⟩ := List.mem_flatMap.1 hzero
  have hnul : c.toNat = ('\x00').toNat := (spells_encodeChar c).eq_of_low hmem (by decide)
  exact h (Char.toNat_inj.1 hnul ▸ hc)

end Spelling

/-! ## One byte at a time -/

/-- The bytes that a piece was cut from. -/
def Piece.bytes : Piece → List UInt8
  | .char c => String.utf8EncodeChar c
  | .broken bytes _ => bytes

/-- A character of several bytes when the first one has been read. -/
def lead (b : UInt8) : Reading :=
  if b.toNat < 0xE0 then ⟨[b], b.toNat - 0xC0, 0, 0x80, 0xBF⟩
  else if b.toNat < 0xF0 then
    ⟨[b], b.toNat - 0xE0, 1, if b = 0xE0 then 0xA0 else 0x80, if b = 0xED then 0x9F else 0xBF⟩
  else ⟨[b], b.toNat - 0xF0, 2, if b = 0xF0 then 0x90 else 0x80, if b = 0xF4 then 0x8F else 0xBF⟩

/-- Whether a reading can have a byte next. -/
def Reading.Allows (p : Reading) (b : UInt8) : Prop := p.low ≤ b ∧ b ≤ p.high

section Feed

variable {ps : List Piece} {b : UInt8} {p : Reading} {owed : ℕ}

/-- A byte is a character, or starts one, or is a broken piece of its own. -/
theorem begin_eq (ps : List Piece) (b : UInt8) : Decoder.begin ps b =
    if b.toNat < 0x80 then ⟨.char (Char.ofNat b.toNat) :: ps, none⟩
    else if 0xC2 ≤ b.toNat ∧ b.toNat < 0xF5 then ⟨ps, some (lead b)⟩
    else ⟨.broken [b] .start :: ps, none⟩ := by
  simp only [Decoder.begin, lead, UInt8.lt_iff_toNat_lt, UInt8.reduceToNat]
  split_ifs <;> first | rfl | omega

theorem feed_of_none (ps : List Piece) (b : UInt8) :
    Decoder.feed ⟨ps, none⟩ b = Decoder.begin ps b := rfl

/-- The last byte of a character. -/
theorem feed_of_last (ps : List Piece) (h : p.Allows b) (howed : p.owed = 0) :
    Decoder.feed ⟨ps, some p⟩ b =
      ⟨.char (Char.ofNat (64 * p.bits + (b.toNat - 0x80))) :: ps, none⟩ := by
  rw [Reading.Allows] at h
  simp only [Decoder.feed, if_pos h, howed]

/-- A byte in the middle of a character. -/
theorem feed_of_more (ps : List Piece) (h : p.Allows b) (howed : p.owed = owed + 1) :
    Decoder.feed ⟨ps, some p⟩ b =
      ⟨ps, some ⟨b :: p.held, 64 * p.bits + (b.toNat - 0x80), owed, 0x80, 0xBF⟩⟩ := by
  rw [Reading.Allows] at h
  simp only [Decoder.feed, if_pos h, howed]

theorem feed_of_not_allowed (ps : List Piece) (h : ¬ p.Allows b) :
    Decoder.feed ⟨ps, some p⟩ b =
      Decoder.begin (.broken p.held.reverse .continuation :: ps) b := by
  rw [Reading.Allows] at h
  simp only [Decoder.feed, if_neg h]

end Feed

/-! ## Decoding what was encoded -/

section Encoded

variable {a b c d : UInt8}

/-- A byte that starts a character of several bytes. -/
theorem begin_of_lead (ps : List Piece) (h : 0xC2 ≤ a.toNat) (h' : a.toNat < 0xF5) :
    Decoder.begin ps a = ⟨ps, some (lead a)⟩ := by
  rw [begin_eq, if_neg (by omega), if_pos ⟨h, h'⟩]

theorem lead_of_two (h : a.toNat < 0xE0) : lead a = ⟨[a], a.toNat - 0xC0, 0, 0x80, 0xBF⟩ := by
  rw [lead, if_pos h]

theorem lead_of_three (h : 0xE0 ≤ a.toNat) (h' : a.toNat < 0xF0) : lead a =
    ⟨[a], a.toNat - 0xE0, 1, if a = 0xE0 then 0xA0 else 0x80, if a = 0xED then 0x9F else 0xBF⟩ := by
  rw [lead, if_neg (by omega), if_pos h']

theorem lead_of_four (h : 0xF0 ≤ a.toNat) : lead a =
    ⟨[a], a.toNat - 0xF0, 2, if a = 0xF0 then 0x90 else 0x80, if a = 0xF4 then 0x8F else 0xBF⟩ := by
  rw [lead, if_neg (by omega), if_neg (by omega)]

/-- Behind the first two bytes of a character stands any byte of its tail. -/
theorem Tail.allows (h : Tail b) (held : List UInt8) (bits owed : ℕ) :
    (Reading.mk held bits owed 0x80 0xBF).Allows b := by
  rw [Reading.Allows, UInt8.le_iff_toNat_le, UInt8.le_iff_toNat_le]
  exact h

/-- The second of three bytes neither leaves the first one needless nor spells a surrogate. -/
theorem allows_three (ha : 0xE0 ≤ a.toNat) (ha' : a.toNat < 0xF0) : (lead a).Allows b ↔
    Tail b ∧ (a.toNat = 0xE0 → 0xA0 ≤ b.toNat) ∧ (a.toNat = 0xED → b.toNat ≤ 0x9F) := by
  have hfirst : a = 0xE0 ↔ a.toNat = 0xE0 := UInt8.toNat_inj.symm
  have hlast : a = 0xED ↔ a.toNat = 0xED := UInt8.toNat_inj.symm
  rw [lead_of_three ha ha', Reading.Allows, UInt8.le_iff_toNat_le, UInt8.le_iff_toNat_le, Tail]
  simp only [apply_ite UInt8.toNat, hfirst, hlast, UInt8.reduceToNat]
  split_ifs <;> omega

/-- The second of four bytes neither leaves the first one needless nor goes past the last
character. -/
theorem allows_four (ha : 0xF0 ≤ a.toNat) : (lead a).Allows b ↔
    Tail b ∧ (a.toNat = 0xF0 → 0x90 ≤ b.toNat) ∧ (a.toNat = 0xF4 → b.toNat ≤ 0x8F) := by
  have hfirst : a = 0xF0 ↔ a.toNat = 0xF0 := UInt8.toNat_inj.symm
  have hlast : a = 0xF4 ↔ a.toNat = 0xF4 := UInt8.toNat_inj.symm
  rw [lead_of_four ha, Reading.Allows, UInt8.le_iff_toNat_le, UInt8.le_iff_toNat_le, Tail]
  simp only [apply_ite UInt8.toNat, hfirst, hlast, UInt8.reduceToNat]
  split_ifs <;> omega

/-- The bytes of a character are cut into that character. -/
theorem feed_encodeChar (ps : List Piece) (c : Char) :
    (String.utf8EncodeChar c).foldl Decoder.feed ⟨ps, none⟩ = ⟨.char c :: ps, none⟩ := by
  have hspells := spells_encodeChar c
  generalize String.utf8EncodeChar c = bytes at hspells
  rw [← Char.ofNat_toNat c]
  generalize c.toNat = n at hspells
  cases hspells with
  | @one a ha hn =>
    rw [List.foldl_cons, feed_of_none, begin_eq, if_pos (by omega), ha]
    rfl
  | @two a b ha ha' hb hn hlong =>
    have hstart : 0xC2 ≤ a.toNat := by
      obtain ⟨hb, hb'⟩ := hb
      omega
    rw [List.foldl_cons, feed_of_none, begin_of_lead ps hstart (by omega), lead_of_two ha',
      List.foldl_cons, feed_of_last ps (hb.allows _ _ _) rfl]
    simp only [List.foldl_nil, hn]
  | @three a b c ha ha' hb hc hn hlong hvalid =>
    have hallows : (lead a).Allows b := by
      refine (allows_three ha ha').2 ⟨hb, ?_⟩
      obtain ⟨hb, hb'⟩ := hb
      obtain ⟨hc, hc'⟩ := hc
      rcases hvalid with hvalid | hvalid <;> omega
    rw [lead_of_three ha ha'] at hallows
    rw [List.foldl_cons, feed_of_none, begin_of_lead ps (by omega) (by omega),
      lead_of_three ha ha', List.foldl_cons, feed_of_more ps hallows rfl,
      List.foldl_cons, feed_of_last ps (hc.allows _ _ _) rfl]
    simp only [List.foldl_nil, hn]
  | @four a b c d ha ha' hb hc hd hn hlong hbound =>
    have hallows : (lead a).Allows b := by
      refine (allows_four ha).2 ⟨hb, ?_⟩
      obtain ⟨hb, hb'⟩ := hb
      obtain ⟨hc, hc'⟩ := hc
      obtain ⟨hd, hd'⟩ := hd
      omega
    rw [lead_of_four ha] at hallows
    have hstart : a.toNat < 0xF5 := by omega
    rw [List.foldl_cons, feed_of_none, begin_of_lead ps (by omega) hstart,
      lead_of_four ha, List.foldl_cons, feed_of_more ps hallows rfl,
      List.foldl_cons, feed_of_more ps (hc.allows _ _ _) rfl,
      List.foldl_cons, feed_of_last ps (hd.allows _ _ _) rfl]
    simp only [List.foldl_nil, hn]

end Encoded

theorem foldl_feed_encode (cs : List Char) (ps : List Piece) :
    (cs.flatMap String.utf8EncodeChar).foldl Decoder.feed ⟨ps, none⟩ =
      ⟨(cs.map Piece.char).reverse ++ ps, none⟩ := by
  induction cs generalizing ps with
  | nil => rfl
  | cons c cs ih =>
    rw [List.flatMap_cons, List.foldl_append, feed_encodeChar, ih]
    simp only [List.map_cons, List.reverse_cons, List.append_assoc, List.singleton_append]

/-- **The bytes of a text are cut into its characters.** -/
theorem pieces_encode (s : String) : pieces (encode s) = s.toList.map .char := by
  rw [pieces, encode, foldl_feed_encode, Decoder.finish, List.append_nil, List.reverse_reverse]

theorem filterMap_char? (cs : List Char) : (cs.map Piece.char).filterMap Piece.char? = cs := by
  rw [List.filterMap_map]
  exact List.filterMap_some

theorem decodeLossy_encode (s : String) : decodeLossy (encode s) = s := by
  rw [decodeLossy, pieces_encode, List.map_map]
  exact (congrArg String.ofList (List.map_id s.toList)).trans String.ofList_toList

/-! ## No byte lost -/

/-- The readings that bytes lead to. -/
inductive Begun : Reading → Prop
  | lead {a : UInt8} : 0xC2 ≤ a.toNat → a.toNat < 0xF5 → Begun (lead a)
  | more {p : Reading} {b : UInt8} {owed : ℕ} : Begun p → p.Allows b → p.owed = owed + 1 →
      Begun ⟨b :: p.held, 64 * p.bits + (b.toNat - 0x80), owed, 0x80, 0xBF⟩

section Begun

variable {p : Reading} {a b c d : UInt8}

theorem Tail.of_allows {held : List UInt8} {bits owed : ℕ}
    (h : (Reading.mk held bits owed 0x80 0xBF).Allows b) : Tail b := by
  rwa [Reading.Allows, UInt8.le_iff_toNat_le, UInt8.le_iff_toNat_le] at h

theorem lead_owed (a : UInt8) : (lead a).owed =
    if a.toNat < 0xE0 then 0 else if a.toNat < 0xF0 then 1 else 2 := by
  simp only [lead, apply_ite Reading.owed]

theorem Begun.owed_le (h : Begun p) : p.owed ≤ 2 := by
  induction h with
  | @lead a ha ha' =>
    rw [lead_owed]
    split_ifs <;> omega
  | more h hb howed ih =>
    simp only
    omega

/-- **A character that has been read is spelled by its bytes.** -/
theorem Begun.spells (h : Begun p) (howed : p.owed = 0) (hb : p.Allows b) :
    Spells (64 * p.bits + (b.toNat - 0x80)) (p.held.reverse ++ [b]) := by
  cases h with
  | @lead a ha ha' =>
    rw [lead_owed] at howed
    have htwo : a.toNat < 0xE0 := by
      split_ifs at howed
      assumption
    rw [lead_of_two htwo] at hb ⊢
    exact .two (by omega) htwo (.of_allows hb) rfl (by simp only; omega)
  | @more p c owed h hc howed' =>
    obtain rfl : owed = 0 := howed
    replace hb := Tail.of_allows hb
    cases h with
    | @lead a ha ha' =>
      rw [lead_owed] at howed'
      have hthree : 0xE0 ≤ a.toNat ∧ a.toNat < 0xF0 := by split_ifs at howed' <;> omega
      obtain ⟨hc, hfirst, hlast⟩ := (allows_three hthree.1 hthree.2).1 hc
      rw [lead_of_three hthree.1 hthree.2]
      obtain ⟨hb1, hb2⟩ := hb
      obtain ⟨hc1, hc2⟩ := hc
      refine .three hthree.1 hthree.2 ⟨hc1, hc2⟩ ⟨hb1, hb2⟩ rfl ?_ ?_
      · simp only
        omega
      · simp only [Nat.isValidChar]
        omega
    | @more p d owed h hd howed'' =>
      obtain rfl : owed = 1 := howed'
      replace hc := Tail.of_allows hc
      cases h with
      | @lead a ha ha' =>
        rw [lead_owed] at howed''
        have hfour : 0xF0 ≤ a.toNat := by split_ifs at howed'' <;> omega
        obtain ⟨hd, hfirst, hlast⟩ := (allows_four hfour).1 hd
        rw [lead_of_four hfour]
        obtain ⟨hb1, hb2⟩ := hb
        obtain ⟨hc1, hc2⟩ := hc
        obtain ⟨hd1, hd2⟩ := hd
        refine .four hfour (by omega) ⟨hd1, hd2⟩ ⟨hc1, hc2⟩ ⟨hb1, hb2⟩ rfl ?_ ?_ <;>
          simp only <;> omega
      | @more p e owed h he hmore =>
        obtain rfl : owed = 2 := howed''
        have hle := h.owed_le
        omega

end Begun

/-- The bytes of the character being read. -/
def Decoder.held (d : Decoder) : List UInt8 := d.reading.elim [] fun p => p.held.reverse

/-- A decoder and the bytes it has read. -/
structure Decoder.Holds (d : Decoder) (bytes : List UInt8) : Prop where
  bytes_eq : d.pieces.reverse.flatMap Piece.bytes ++ d.held = bytes
  begun : ∀ p ∈ d.reading, Begun p

section Holds

variable {ps : List Piece} {d : Decoder} {bytes : List UInt8}

/-- The pieces cut off so far, and then one more. -/
theorem flatMap_bytes_cons (ps : List Piece) (p : Piece) :
    (p :: ps).reverse.flatMap Piece.bytes = ps.reverse.flatMap Piece.bytes ++ p.bytes := by
  rw [List.reverse_cons, List.flatMap_append, List.flatMap_singleton]

theorem holds_begin (ps : List Piece) (b : UInt8) :
    (Decoder.begin ps b).Holds (ps.reverse.flatMap Piece.bytes ++ [b]) := by
  rw [begin_eq]
  split_ifs with h1 h2
  · refine ⟨?_, fun p hp => nomatch hp⟩
    have hspells : String.utf8EncodeChar (Char.ofNat b.toNat) = [b] :=
      (Spells.one rfl h1).encodeChar_eq
    rw [flatMap_bytes_cons, Piece.bytes, hspells]
    exact List.append_nil _
  · refine ⟨?_, ?_⟩
    · have hheld : (lead b).held = [b] := by simp only [lead, apply_ite Reading.held, ite_self]
      show _ ++ (lead b).held.reverse = _
      rw [hheld, List.reverse_singleton]
    · rintro p ⟨⟩
      exact .lead h2.1 h2.2
  · refine ⟨?_, fun p hp => nomatch hp⟩
    rw [flatMap_bytes_cons]
    exact List.append_nil _

theorem Decoder.Holds.feed (h : d.Holds bytes) (b : UInt8) : (d.feed b).Holds (bytes ++ [b]) := by
  obtain ⟨ps, reading⟩ := d
  obtain ⟨hbytes, hbegun⟩ := h
  cases reading with
  | none =>
    rw [← hbytes, feed_of_none]
    exact (List.append_nil (ps.reverse.flatMap Piece.bytes)).symm ▸ holds_begin ps b
  | some p =>
    have hp : Begun p := hbegun p rfl
    rw [← hbytes]
    by_cases hallows : p.Allows b
    · cases howed : p.owed with
      | zero =>
        rw [feed_of_last ps hallows howed]
        refine ⟨?_, fun p hp => nomatch hp⟩
        rw [flatMap_bytes_cons, Piece.bytes, (hp.spells howed hallows).encodeChar_eq]
        exact (List.append_nil _).trans (List.append_assoc _ _ _).symm
      | succ owed =>
        rw [feed_of_more ps hallows howed]
        refine ⟨?_, ?_⟩
        · show _ ++ (b :: p.held).reverse = _
          rw [List.reverse_cons, ← List.append_assoc]
          rfl
        · rintro q ⟨⟩
          exact .more hp hallows howed
    · rw [feed_of_not_allowed ps hallows]
      have hbroken := flatMap_bytes_cons ps (.broken p.held.reverse .continuation)
      exact hbroken ▸ holds_begin _ b

theorem Decoder.Holds.foldl (h : d.Holds bytes) (rest : List UInt8) :
    (rest.foldl Decoder.feed d).Holds (bytes ++ rest) := by
  induction rest generalizing d bytes with
  | nil => rwa [List.append_nil]
  | cons b rest ih =>
    rw [List.foldl_cons, ← List.singleton_append, ← List.append_assoc]
    exact ih (h.feed b)

theorem Decoder.Holds.finish (h : d.Holds bytes) : d.finish.flatMap Piece.bytes = bytes := by
  obtain ⟨ps, reading⟩ := d
  rw [← h.bytes_eq]
  cases reading with
  | none => exact (List.append_nil _).symm
  | some p => exact flatMap_bytes_cons ps _

end Holds

/-- **No byte is lost.** The pieces are made of the bytes, in their order. -/
theorem pieces_bytes (bytes : List UInt8) : (pieces bytes).flatMap Piece.bytes = bytes :=
  have hbegin : Decoder.Holds ⟨[], none⟩ [] := ⟨rfl, fun _ hp => nomatch hp⟩
  (hbegin.foldl bytes).finish

/-! ## What can be decoded -/

theorem firstBreach?_eq_none {ps : List Piece} {offset : ℕ} (h : firstBreach? offset ps = none) :
    ps = (ps.filterMap Piece.char?).map .char := by
  induction ps generalizing offset with
  | nil => rfl
  | cons p ps ih =>
    cases p with
    | char c => exact congrArg (.char c :: ·) (ih h)
    | broken bytes defect => nomatch h

theorem firstBreach?_of_chars (cs : List Char) (offset : ℕ) :
    firstBreach? offset (cs.map .char) = none := by
  induction cs generalizing offset with
  | nil => rfl
  | cons c cs ih => exact ih _

/-- **Bytes can be decoded when they are those of a text**, and are then decoded to it. -/
theorem decode_eq_ok_iff {bytes : List UInt8} {s : String} :
    decode bytes = .ok s ↔ bytes = encode s := by
  constructor
  · intro h
    rw [decode] at h
    split at h
    · nomatch h
    next hnone =>
      cases h
      have hpieces := firstBreach?_eq_none hnone
      rw [encode, String.toList_ofList]
      generalize (pieces bytes).filterMap Piece.char? = cs at hpieces
      rw [← pieces_bytes bytes, hpieces, List.flatMap_map]
      rfl
  · rintro rfl
    rw [decode, pieces_encode, firstBreach?_of_chars, filterMap_char?, String.ofList_toList]

end TapeMachine.Utf8
