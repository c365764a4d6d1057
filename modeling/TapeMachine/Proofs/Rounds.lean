import Mathlib.Data.Nat.Prime.Basic
import Mathlib.Tactic.LinearCombination
import TapeMachine.Proofs.Residue

/-! # Rounds

A drain looks for the first multiple of its step that takes a cell to zero, and
a scan for the first one that leads to a zero cell. Both give up where the circle
closes, at the value or the address they started from. Up to there no round was
a hit, so no later one is (`no_hit_of_return`): giving up is exact. -/
namespace TapeMachine

/-- Whether `k` is the first round with a hit. Rounds count from one. -/
structure FirstRound (hit : ℕ → Prop) (k : ℕ) : Prop where
  pos : 1 ≤ k
  here : hit k
  first : ∀ j, 1 ≤ j → j < k → ¬ hit j

theorem FirstRound.unique {hit : ℕ → Prop} {j k : ℕ} (hj : FirstRound hit j)
    (hk : FirstRound hit k) : j = k := by
  rcases Nat.lt_trichotomy j k with h | h | h
  · exact absurd hj.here (hk.first j hj.pos h)
  · exact h
  · exact absurd hk.here (hj.first k hk.pos h)

theorem FirstRound.exists {hit : ℕ → Prop} {k : ℕ} (hk : 1 ≤ k) (h : hit k) :
    ∃ j, j ≤ k ∧ FirstRound hit j := by
  classical
  have hex : ∃ j, 1 ≤ j ∧ hit j := ⟨k, hk, h⟩
  refine ⟨Nat.find hex, Nat.find_min' hex ⟨hk, h⟩, (Nat.find_spec hex).1, (Nat.find_spec hex).2, ?_⟩
  intro j hj hlt hit
  exact Nat.find_min hex hlt ⟨hj, hit⟩

open Classical in
/-- The first round with a hit, if there is one. -/
noncomputable def firstRound? (hit : ℕ → Prop) : Option ℕ :=
  if h : ∃ k, FirstRound hit k then some h.choose else none

theorem firstRound?_eq_some {hit : ℕ → Prop} {k : ℕ} (h : FirstRound hit k) :
    firstRound? hit = some k := by
  have hex : ∃ k, FirstRound hit k := ⟨k, h⟩
  rw [firstRound?, dif_pos hex, hex.choose_spec.unique h]

theorem firstRound?_eq_none {hit : ℕ → Prop} (h : ∀ j, 1 ≤ j → ¬ hit j) :
    firstRound? hit = none := by
  rw [firstRound?, dif_neg]
  intro hex
  obtain ⟨k, hk⟩ := hex
  exact h k hk.pos hk.here

/-- Either some round is the first hit or no round is one. -/
theorem firstRound?_cases (hit : ℕ → Prop) :
    (∃ k, firstRound? hit = some k ∧ FirstRound hit k) ∨
      (firstRound? hit = none ∧ ∀ j, 1 ≤ j → ¬ hit j) := by
  by_cases h : ∃ j, 1 ≤ j ∧ hit j
  · obtain ⟨j, hj, hit⟩ := h
    obtain ⟨k, -, hk⟩ := FirstRound.exists hj hit
    exact Or.inl ⟨k, firstRound?_eq_some hk, hk⟩
  · have hnone : ∀ j, 1 ≤ j → ¬ hit j := fun j hj hit => h ⟨j, hj, hit⟩
    exact Or.inr ⟨firstRound?_eq_none hnone, hnone⟩

/-- A circle that came back to its start without a hit never has one. -/
theorem no_hit_of_return {G : Type} {x : ℕ → G} (zero : G → Prop) {r : ℕ} (hr : 1 ≤ r)
    (period : ∀ j, x (j + r) = x j) (clear : ∀ j, 1 ≤ j → j ≤ r → ¬ zero (x j)) :
    ∀ j, 1 ≤ j → ¬ zero (x j) := by
  intro j
  induction j using Nat.strong_induction_on with
  | _ j ih =>
    intro hj
    by_cases hle : j ≤ r
    · exact clear j hj hle
    · have := ih (j - r) (by omega) (by omega)
      rwa [← period (j - r), Nat.sub_add_cancel (by omega)] at this

/-! ## Drains -/

/-- A cell after a number of additions of a step. -/
def drained (value step : ℤ) (rounds : ℕ) : ZMod 256 := value + rounds * step

theorem drained_succ {value step current : ℤ} {count : ℕ}
    (h : (current : ZMod 256) = drained value step count) :
    ((Cell.wrap (current + step) : ℤ) : ZMod 256) = drained value step (count + 1) := by
  rw [cast_wrap, Int.cast_add, h, drained, drained]
  push_cast
  ring

theorem drained_full (value step : ℤ) (rounds : ℕ) :
    drained value step (rounds + 256) = drained value step rounds := by
  have h256 : (256 : ZMod 256) = 0 := rfl
  rw [drained, drained, Nat.cast_add, Nat.cast_ofNat, h256, add_zero]

theorem roundsFrom_some {value step : ℤ} {rounds count k : ℕ} {current : ℤ}
    (hc : (current : ZMod 256) = drained value step count)
    (h : roundsFrom value step rounds current count = some k) :
    count < k ∧ drained value step k = 0 ∧
      ∀ j, count < j → j < k → drained value step j ≠ 0 := by
  induction rounds generalizing current count with
  | zero => simp [roundsFrom] at h
  | succ rounds ih =>
    have hnext := drained_succ hc
    simp only [roundsFrom] at h
    split at h
    · rename_i hz
      cases h
      rw [hz, Int.cast_zero] at hnext
      exact ⟨Nat.lt_succ_self _, hnext.symm, fun j h₁ h₂ => by omega⟩
    · rename_i hz
      split at h
      · cases h
      · obtain ⟨hlt, hk, hbefore⟩ := ih hnext h
        refine ⟨by omega, hk, ?_⟩
        intro j h₁ h₂
        by_cases hj : j = count + 1
        · subst hj
          rw [← hnext, cast_wrap]
          exact fun h0 => hz (wrap_eq_zero.mpr h0)
        · exact hbefore j (by omega) h₂

/-- A drain gives up after its last round or when the first value comes up again. -/
theorem roundsFrom_none {value step : ℤ} {rounds count : ℕ} {current : ℤ}
    (hc : (current : ZMod 256) = drained value step count)
    (h : roundsFrom value step rounds current count = none) :
    (∀ j, count < j → j ≤ count + rounds → drained value step j ≠ 0) ∨
      ∃ last, count < last ∧ drained value step last = value ∧
        ∀ j, count < j → j ≤ last → drained value step j ≠ 0 := by
  induction rounds generalizing current count with
  | zero => exact Or.inl fun j h₁ h₂ => by omega
  | succ rounds ih =>
    have hnext := drained_succ hc
    simp only [roundsFrom] at h
    split at h
    · cases h
    · rename_i hz
      have hne : drained value step (count + 1) ≠ 0 := by
        rw [← hnext, cast_wrap]
        exact fun h0 => hz (wrap_eq_zero.mpr h0)
      have hcons : ∀ {last}, (∀ j, count + 1 < j → j ≤ last → drained value step j ≠ 0) →
          ∀ j, count < j → j ≤ last → drained value step j ≠ 0 := by
        intro last hlater j h₁ h₂
        by_cases hj : j = count + 1
        · exact hj ▸ hne
        · exact hlater j (by omega) h₂
      split at h
      · rename_i hback
        rw [hback] at hnext
        exact Or.inr ⟨count + 1, by omega, hnext.symm, hcons fun j h₁ h₂ => by omega⟩
      · rcases ih hnext h with hall | ⟨last, hlt, hlast, hlater⟩
        · exact Or.inl (hcons fun j h₁ h₂ => hall j h₁ (by omega))
        · exact Or.inr ⟨last, by omega, hlast, hcons hlater⟩

/-- The count of a drain is the first round that takes the cell to zero. -/
theorem roundsToZero?_eq_some {value step : ℤ} {k : ℕ} (h : roundsToZero? value step = some k) :
    FirstRound (fun j => drained value step j = 0) k := by
  have hc : (value : ZMod 256) = drained value step 0 := by simp [drained]
  obtain ⟨hpos, hk, hbefore⟩ := roundsFrom_some hc h
  exact ⟨hpos, hk, fun j h₁ h₂ => hbefore j h₁ h₂⟩

/-- A drain without a count never takes the cell to zero. -/
theorem roundsToZero?_eq_none {value step : ℤ} (h : roundsToZero? value step = none) :
    ∀ j, 1 ≤ j → drained value step j ≠ 0 := by
  have hc : (value : ZMod 256) = drained value step 0 := by simp [drained]
  obtain ⟨last, hpos, hback, hbefore⟩ : ∃ last, 1 ≤ last ∧ drained value step last = value ∧
      ∀ j, 1 ≤ j → j ≤ last → drained value step j ≠ 0 := by
    rcases roundsFrom_none hc h with hall | hreturn
    · refine ⟨256, by omega, ?_, fun j h₁ h₂ => hall j h₁ (by omega)⟩
      rw [hc]
      exact drained_full value step 0
    · exact hreturn
  refine no_hit_of_return (· = 0) hpos ?_ hbefore
  intro j
  simp only [drained] at hback ⊢
  push_cast
  linear_combination hback

/-- A cell is drained at some time if its value is a multiple of what the step and 256 share. -/
theorem exists_drained {value step : ℤ} (h : (Int.gcd step 256 : ℤ) ∣ value) :
    ∃ j, 1 ≤ j ∧ drained value step j = 0 := by
  obtain ⟨q, hq⟩ := h
  have hbezout := Int.gcd_eq_gcd_ab step 256
  let a := -(Int.gcdA step 256 * q)
  refine ⟨(a % 256).toNat + 256, by omega, ?_⟩
  have ha : (((a % 256).toNat : ℕ) : ZMod 256) = a := by
    rw [← Int.cast_natCast, Int.toNat_of_nonneg (Int.emod_nonneg _ (by decide))]
    exact cast_emod 256 a
  have h256 : (256 : ZMod 256) = 0 := rfl
  have hvalue : (value : ZMod 256) = step * Int.gcdA step 256 * q := by
    rw [hq, hbezout]
    push_cast
    rw [h256]
    ring
  rw [drained_full, drained, hvalue, ha]
  simp only [a]
  push_cast
  ring

/-- An odd step shares nothing with 256. -/
theorem even_of_not_dvd {value step : ℤ} (h : ¬ (Int.gcd step 256 : ℤ) ∣ value) : Even step := by
  by_contra hodd
  have hcoprime : Nat.Coprime step.natAbs (2 ^ 8) :=
    (Int.natAbs_odd.mpr (Int.not_even_iff_odd.mp hodd)).coprime_two_right.pow_right 8
  exact h (by rw [show Int.gcd step 256 = 1 from hcoprime, Nat.cast_one]; exact one_dvd value)

end TapeMachine
