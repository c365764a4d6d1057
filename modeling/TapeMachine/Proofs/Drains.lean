import TapeMachine.Proofs.Rounds

/-! # Drains

The rounds of a drain are counted in a loop without a bound, which compares the
cell it has come to with zero and with the value it started from. Its rounds are
written down one by one (`Drains`), so that ending is a fact about the loop and
not about the bound it is given: 256 additions of a step come back to the value,
and by then one of the tests has held (`exists_drains`). Where the loop ends is
told by what the step and 256 have in common (`drain_exact`). -/
namespace TapeMachine

/-- Whether the loop of a drain that has come to `current` goes a number of rounds more and then
ends, at zero or else back at the first value. -/
inductive Drains (value step : ℤ) : ℤ → ℕ → Bool → Prop
  | zero {current : ℤ} (hzero : Cell.wrap (current + step) = 0) : Drains value step current 1 true
  | back {current : ℤ} (hzero : Cell.wrap (current + step) ≠ 0)
      (hback : Cell.wrap (current + step) = value) : Drains value step current 1 false
  | more {current : ℤ} {rounds : ℕ} {emptied : Bool} (hzero : Cell.wrap (current + step) ≠ 0)
      (hback : Cell.wrap (current + step) ≠ value)
      (hrest : Drains value step (Cell.wrap (current + step)) rounds emptied) :
      Drains value step current (rounds + 1) emptied

section Loop

variable {value step current : ℤ} {rounds : ℕ}

/-- A bound that is not below the rounds of the loop does not show. -/
theorem Drains.roundsFrom_eq {emptied : Bool} (h : Drains value step current rounds emptied)
    {budget : ℕ} (hle : rounds ≤ budget) (count : ℕ) :
    roundsFrom value step budget current count = if emptied then some (count + rounds) else none := by
  induction h generalizing budget count with
  | zero hzero =>
    obtain ⟨left, rfl⟩ := Nat.exists_eq_add_of_le' hle
    simp [roundsFrom, hzero]
  | back hzero hback =>
    obtain ⟨left, rfl⟩ := Nat.exists_eq_add_of_le' hle
    simp only [roundsFrom, if_neg hzero, if_pos hback]
    rfl
  | @more current rounds emptied hzero hback _ ih =>
    obtain ⟨left, rfl⟩ := Nat.exists_eq_add_of_le' hle
    have hcount : count + 1 + rounds = count + (rounds + 1) := by omega
    rw [← Nat.add_assoc, roundsFrom, if_neg hzero, if_neg hback, ih (by omega), hcount]

theorem wrap_wrap_add (a b : ℤ) : Cell.wrap (Cell.wrap a + b) = Cell.wrap (a + b) :=
  Int.emod_add_emod a 256 b

/-- A loop that has not ended within a number of rounds has not met its first value again. -/
theorem drains_or_clear (value step current : ℤ) (bound : ℕ) :
    (∃ rounds ≤ bound, ∃ emptied, Drains value step current rounds emptied) ∨
      ∀ j : ℕ, 1 ≤ j → j ≤ bound → Cell.wrap (current + j * step) ≠ value := by
  induction bound generalizing current with
  | zero => exact Or.inr fun j h₁ h₂ => by omega
  | succ bound ih =>
    by_cases hzero : Cell.wrap (current + step) = 0
    · exact Or.inl ⟨1, by omega, true, .zero hzero⟩
    by_cases hback : Cell.wrap (current + step) = value
    · exact Or.inl ⟨1, by omega, false, .back hzero hback⟩
    rcases ih (Cell.wrap (current + step)) with ⟨rounds, hle, emptied, hrest⟩ | hclear
    · exact Or.inl ⟨rounds + 1, by omega, emptied, .more hzero hback hrest⟩
    · right
      intro j h₁ h₂
      obtain ⟨j, rfl⟩ := Nat.exists_eq_add_of_le' h₁
      have hnext : current + (j + 1 : ℕ) * step = current + step + j * step := by
        push_cast
        ring
      rw [hnext]
      cases j with
      | zero => simpa using hback
      | succ j =>
        rw [← wrap_wrap_add]
        exact hclear (j + 1) (by omega) (by omega)

/-- **The loop of a drain ends within 256 rounds.** -/
theorem exists_drains (hlow : 0 ≤ value) (hhigh : value < 256) (step : ℤ) :
    ∃ rounds ≤ 256, ∃ emptied, Drains value step value rounds emptied := by
  rcases drains_or_clear value step value 256 with hends | hclear
  · exact hends
  · have hfull : Cell.wrap (value + (256 : ℕ) * step) = value := by
      rw [Cell.wrap, Nat.cast_ofNat, Int.add_mul_emod_self_left]
      exact Int.emod_eq_of_lt hlow hhigh
    exact absurd hfull (hclear 256 (by omega) le_rfl)

end Loop

/-! ## Reachable zeros -/

section Reach

variable {value step : ℤ} {k : ℕ}

theorem drained_eq_zero_iff {j : ℕ} : drained value step j = 0 ↔ (256 : ℤ) ∣ value + j * step := by
  have hcast : drained value step j = ((value + j * step : ℤ) : ZMod 256) := by simp [drained]
  rw [hcast]
  exact ZMod.intCast_zmod_eq_zero_iff_dvd _ 256

theorem roundsToZero?_eq_none_iff :
    roundsToZero? value step = none ↔ ∀ j : ℕ, 1 ≤ j → ¬ (256 : ℤ) ∣ value + j * step := by
  simp only [← drained_eq_zero_iff]
  constructor
  · exact roundsToZero?_eq_none
  · intro hnever
    rw [Option.eq_none_iff_forall_ne_some]
    intro k hsome
    have hfirst := roundsToZero?_eq_some hsome
    exact hnever k hfirst.pos hfirst.here

theorem roundsToZero?_eq_some_iff :
    roundsToZero? value step = some k ↔ FirstRound (fun j => (256 : ℤ) ∣ value + j * step) k := by
  have hfound : ∀ {k}, roundsToZero? value step = some k →
      FirstRound (fun j => (256 : ℤ) ∣ value + j * step) k := by
    intro k h
    simpa only [drained_eq_zero_iff] using roundsToZero?_eq_some h
  refine ⟨hfound, ?_⟩
  intro hfirst
  cases h : roundsToZero? value step with
  | none => exact absurd hfirst.here (roundsToZero?_eq_none_iff.mp h k hfirst.pos)
  | some j => rw [(hfound h).unique hfirst]

/-- Zero is reached from the multiples of what the step shares with 256. -/
theorem exists_round_iff :
    (∃ j : ℕ, 1 ≤ j ∧ (256 : ℤ) ∣ value + j * step) ↔ (Int.gcd step 256 : ℤ) ∣ value := by
  constructor
  · rintro ⟨j, -, hzero⟩
    have hsum := (Int.gcd_dvd_right step 256).trans hzero
    exact (Int.dvd_add_left ((Int.gcd_dvd_left step 256).mul_left j)).mp hsum
  · intro hvalue
    obtain ⟨j, hj, hzero⟩ := exists_drained hvalue
    exact ⟨j, hj, drained_eq_zero_iff.mp hzero⟩

/-- The residues that a step goes through come again after as many rounds as 256 has parts of the
size that it shares with the step. -/
theorem dvd_mul_period (step : ℤ) : (256 : ℤ) ∣ (256 / Int.gcd step 256 : ℕ) * step := by
  have hgcd : Int.gcd step 256 ∣ 256 := Int.natCast_dvd_natCast.mp (Int.gcd_dvd_right step 256)
  obtain ⟨q, hq⟩ := Int.gcd_dvd_left step 256
  have hwhole : ((256 / Int.gcd step 256 : ℕ) : ℤ) * Int.gcd step 256 = 256 := by
    exact_mod_cast Nat.div_mul_cancel hgcd
  refine ⟨q, ?_⟩
  calc ((256 / Int.gcd step 256 : ℕ) : ℤ) * step
      = (256 / Int.gcd step 256 : ℕ) * (Int.gcd step 256 * q) := by rw [← hq]
    _ = 256 * q := by rw [← mul_assoc, hwhole]

/-- The first zero comes within one period. -/
theorem FirstRound.le_period (h : FirstRound (fun j => (256 : ℤ) ∣ value + j * step) k) :
    k ≤ 256 / Int.gcd step 256 := by
  by_contra hlt
  let period := 256 / Int.gcd step 256
  have hearlier : (256 : ℤ) ∣ value + (k - period : ℕ) * step := by
    have hsplit : value + (k - period : ℕ) * step = value + k * step - period * step := by
      rw [Nat.cast_sub (by omega)]
      ring
    rw [hsplit]
    exact Int.dvd_sub h.here (dvd_mul_period step)
  have hpos : 1 ≤ period := Nat.div_pos (Nat.le_of_dvd (by decide)
    (Int.natCast_dvd_natCast.mp (Int.gcd_dvd_right step 256)))
    (Int.gcd_pos_of_ne_zero_right step (by decide))
  exact h.first (k - period) (by omega) (by omega) hearlier

end Reach

/-- **The count of a drain tells whether zero is ever reached.** From each of the 256 values and for
every step the loop that counts the rounds ends within 256 of them, and a bound that is not below
that makes no difference. The count is the least number of rounds, from one on, that take the value
to a multiple of 256, and there is none if no number does. A value that is not zero has no count
if and only if it is no multiple of what the step shares with 256, and no count is more than 256
over that. -/
theorem drain_exact (value step : ℤ) (hlow : 0 ≤ value) (hhigh : value < 256) :
    (∃ rounds ≤ 256, ∃ emptied, Drains value step value rounds emptied ∧
      ∀ budget, rounds ≤ budget →
        roundsFrom value step budget value 0 = if emptied then some rounds else none) ∧
    (∀ k, roundsToZero? value step = some k ↔
      FirstRound (fun j => (256 : ℤ) ∣ value + j * step) k) ∧
    (roundsToZero? value step = none ↔ ∀ j : ℕ, 1 ≤ j → ¬ (256 : ℤ) ∣ value + j * step) ∧
    (0 < value → (roundsToZero? value step = none ↔ ¬ (Int.gcd step 256 : ℤ) ∣ value)) ∧
    ∀ k, roundsToZero? value step = some k → k ≤ 256 / Int.gcd step 256 := by
  refine ⟨?_, fun k => roundsToZero?_eq_some_iff, roundsToZero?_eq_none_iff, ?_, ?_⟩
  · obtain ⟨rounds, hle, emptied, hdrains⟩ := exists_drains hlow hhigh step
    refine ⟨rounds, hle, emptied, hdrains, ?_⟩
    intro budget hbudget
    rw [hdrains.roundsFrom_eq hbudget, Nat.zero_add]
  · intro _
    rw [roundsToZero?_eq_none_iff, ← exists_round_iff]
    push Not
    rfl
  · intro k hk
    exact (roundsToZero?_eq_some_iff.mp hk).le_period

/-- A step that shares 8 with 256 takes 200 to zero, and 6 never. -/
theorem drain_exact_hugeStep :
    let step : ℤ := -(2 ^ 70) - 24
    (∃ rounds ≤ 256, ∃ emptied, Drains 200 step 200 rounds emptied) ∧
      roundsToZero? 200 step = some 19 ∧
      FirstRound (fun j => (256 : ℤ) ∣ 200 + j * step) 19 ∧ 19 ≤ 256 / Int.gcd step 256 ∧
      roundsToZero? 6 step = none ∧ ¬ (Int.gcd step 256 : ℤ) ∣ 6 := by
  intro step
  obtain ⟨⟨rounds, hle, emptied, hdrains, -⟩, hcount, -, -, hbound⟩ :=
    drain_exact 200 step (by decide) (by decide)
  obtain ⟨-, -, -, hshared, -⟩ := drain_exact 6 step (by decide) (by decide)
  have hsome : roundsToZero? 200 step = some 19 := by decide +kernel
  have hnone : roundsToZero? 6 step = none := by decide +kernel
  exact ⟨⟨rounds, hle, emptied, hdrains⟩, hsome, (hcount 19).mp hsome, hbound 19 hsome, hnone,
    (hshared (by decide)).mp hnone⟩

end TapeMachine
