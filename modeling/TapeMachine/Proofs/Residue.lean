import Mathlib.Data.ZMod.Basic
import Mathlib.Tactic.Ring
import TapeMachine.Machine

/-! # Cells and addresses as residues

Cells are residues modulo 256 and, on a tape whose size is a power of two,
addresses are residues modulo the size. The bit mask and the arithmetic on
64-bit words keep the residue of the exact integer. -/
namespace TapeMachine

/-! ## Cells -/

theorem cast_emod (n : ℕ) (a : ℤ) : ((a % (n : ℤ) : ℤ) : ZMod n) = a := by
  rw [ZMod.intCast_eq_intCast_iff]
  exact Int.mod_modEq a n

theorem cast_wrap (amount : ℤ) : ((Cell.wrap amount : ℤ) : ZMod 256) = amount :=
  cast_emod 256 amount

theorem wrap_eq_zero {amount : ℤ} : Cell.wrap amount = 0 ↔ (amount : ZMod 256) = 0 := by
  rw [ZMod.intCast_zmod_eq_zero_iff_dvd]
  exact Int.dvd_iff_emod_eq_zero.symm

/-- The residue a cell holds. -/
def residue (v : UInt8) : ZMod 256 := v.toNat

/-- The cell that holds a residue. -/
def ofResidue (v : ZMod 256) : UInt8 := UInt8.ofNat v.val

@[simp] theorem ofResidue_residue (v : UInt8) : ofResidue (residue v) = v := by
  have hv : v.toNat < 256 := v.toNat_lt
  rw [ofResidue, residue, ZMod.val_natCast_of_lt hv, UInt8.ofNat_toNat]

@[simp] theorem residue_ofResidue (v : ZMod 256) : residue (ofResidue v) = v := by
  have hv : v.val < 256 := ZMod.val_lt v
  rw [ofResidue, residue, UInt8.toNat_ofNat', Nat.mod_eq_of_lt hv, ZMod.natCast_zmod_val]

theorem residue_injective {v w : UInt8} (h : residue v = residue w) : v = w := by
  rw [← ofResidue_residue v, h, ofResidue_residue]

@[simp] theorem residue_zero : residue 0 = 0 := rfl

theorem residue_eq_zero {v : UInt8} : residue v = 0 ↔ v = 0 :=
  ⟨fun h => residue_injective (h.trans residue_zero.symm), fun h => h ▸ residue_zero⟩

/-! ## Words -/

/-- Wrapping around keeps what is left under a mask that is no wider than the words. -/
theorem bmod_modEq {k : ℕ} (hk : k ≤ 64) (a : ℤ) : a.bmod (2 ^ 64) ≡ a [ZMOD (2 ^ k : ℕ)] := by
  have hwraps : a.bmod (2 ^ 64) ≡ a [ZMOD (2 ^ 64 : ℕ)] := Int.bmod_emod
  exact hwraps.of_dvd (Int.natCast_dvd_natCast.mpr (Nat.pow_dvd_pow 2 hk))

theorem cast_bmod (a : ℤ) : ((a.bmod (2 ^ 64) : ℤ) : ZMod 256) = a :=
  (ZMod.intCast_eq_intCast_iff _ _ 256).mpr (bmod_modEq (k := 8) (by decide) a)

/-- Encoding keeps the residue of a field. -/
theorem cast_ofInt (a : ℤ) : ((Int64.ofInt a).toInt : ZMod 256) = a := by
  rw [Int64.toInt_ofInt]
  exact cast_bmod a

theorem cast_ofNat (n : ℕ) : ((Int64.ofNat n).toInt : ZMod 256) = n := by
  rw [← Int64.ofInt_eq_ofNat, cast_ofInt, Int.cast_natCast]

theorem residue_wordCell (w : Int64) : residue (wordCell w) = (w.toInt : ZMod 256) := by
  have hv : (wordCell w).toNat = w.toBitVec.toNat % 256 := rfl
  rw [residue, hv, ZMod.natCast_mod, ← Int64.toInt_toBitVec, BitVec.toInt_eq_toNat_bmod, cast_bmod,
    Int.cast_natCast]

/-- Adding in words and cutting to a cell keeps the residue of the exact sum. -/
theorem residue_sum (v : UInt8) (amount : Int64) :
    residue (wordCell (cellWord v + amount)) = residue v + (amount.toInt : ZMod 256) := by
  rw [residue_wordCell, Int64.toInt_add, cast_bmod, Int.cast_add, cellWord, cast_ofNat, residue]

theorem cast_mul_ofNat (count : ℕ) (amount : Int64) :
    ((Int64.ofNat count * amount).toInt : ZMod 256) = count * (amount.toInt : ZMod 256) := by
  rw [Int64.toInt_mul, cast_bmod, Int.cast_mul, cast_ofNat]

/-! ## Addresses -/

/-- An address is never above its mask. -/
theorem address_lt {n : ℕ} (h : 0 < n) (i : ℤ) : address n i < n := by
  have hle : address n i ≤ n - 1 := by
    cases i with
    | ofNat m => exact Nat.and_le_right
    | negSucc m => exact Nat.sub_le ..
  omega

/-- A mask one below a power of two keeps the residue of any integer. -/
theorem address_two_pow (k : ℕ) (i : ℤ) : (address (2 ^ k) i : ℤ) = i % (2 ^ k : ℕ) := by
  have hpos : 0 < 2 ^ k := Nat.two_pow_pos k
  cases i with
  | ofNat n =>
    rw [address, maskBits, Nat.and_two_pow_sub_one_eq_mod]
    rfl
  | negSucc n =>
    have hlt : n % 2 ^ k < 2 ^ k := Nat.mod_lt n hpos
    have hsub : ((2 ^ k - 1 - n % 2 ^ k : ℕ) : ℤ) = (2 ^ k : ℕ) - 1 - (n % 2 ^ k : ℕ) := by omega
    rw [address, maskBits, Nat.and_two_pow_sub_one_eq_mod,
      Int.negSucc_emod n (by exact_mod_cast hpos), hsub, Int.natCast_mod]

variable {n : ℕ}

/-- The residue of an integer as an address. -/
theorem toNat_emod [NeZero n] (i : ℤ) : (i % n).toNat = (i : ZMod n).val := by
  rw [← ZMod.val_intCast, Int.toNat_natCast]

theorem cast_address {k : ℕ} (hn : n = 2 ^ k) (i : ℤ) : (address n i : ZMod n) = i := by
  have h := address_two_pow k i
  rw [← hn] at h
  rw [← Int.cast_natCast, h, cast_emod]

end TapeMachine
