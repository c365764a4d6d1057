import TapeMachine.Proofs.Congruence

/-! # Wraparound

The machine adds to a pointer and counts the rounds of a drain in exact
integers. Here is one that takes every sum and product in 64-bit words, which
wrap around, and masks what comes of it. Fields go to the ends of the range, so
its words do overflow; on tapes whose size is a power of two the masks never
show it, and the two machines are one (`runInWords_eq`). -/
namespace TapeMachine

/-! ## The machine in words -/

/-- A pointer and an offset, added in words and masked. -/
def addressInWords (size pointer : ℕ) (offset : Int64) : ℕ :=
  ((Int64.ofNat pointer + offset) &&& Int64.ofNat (size - 1)).toInt.toNat

def scanFromInWords (tape : Tape) (start : ℕ) (step : Int64) : ℕ → ℕ → Option (ℕ × Bool)
  | 0, _ => none
  | rounds + 1, pointer =>
    let next := addressInWords tape.size pointer step
    if tape.cell next = 0 then some (next, true)
    else if next = start then some (start, false)
    else scanFromInWords tape start step rounds next

def roundsFromInWords (value step : Int64) : ℕ → Int64 → Int64 → Option Int64
  | 0, _, _ => none
  | rounds + 1, current, count =>
    let next := (current + step) &&& 255
    if next = 0 then some (count + 1)
    else if next = value then none
    else roundsFromInWords value step rounds next (count + 1)

namespace State

def scanByInWords (s : State) (step : Int64) : Progress :=
  if s.tape.cell s.pointer = 0 then .next s.advance
  else
    match scanFromInWords s.tape s.pointer step s.tape.size s.pointer with
    | none => .next s
    | some (pointer, true) => .next { s with pc := s.pc + 1, pointer }
    | some (_, false) => .stopped (if s.tape.hasZero then .missedZero step.toInt else .fullTape) s

def drainInWords (s : State) (step : Int64) : Progress :=
  let value := s.tape.cell s.pointer
  if value = 0 then .next s.advance
  else
    match roundsFromInWords (cellWord value) step 256 (cellWord value) 0 with
    | none => .stopped (.endless value) s
    | some _ => .next ⟨s.pc + 1, s.pointer, s.tape.setIfInBounds s.pointer 0⟩

def transferInWords (s : State) (offset sourceDelta destDelta : Int64) : Progress :=
  let value := s.tape.cell s.pointer
  if value = 0 then .next s.advance
  else
    match roundsFromInWords (cellWord value) sourceDelta 256 (cellWord value) 0 with
    | none => .stopped (.endless value) s
    | some count =>
      let dest := addressInWords s.tape.size s.pointer offset
      let sum := cellWord (s.tape.cell dest) + count * destDelta
      let filled := s.tape.setIfInBounds dest (wordCell sum)
      .next ⟨s.pc + 1, s.pointer, filled.setIfInBounds s.pointer 0⟩

end State

/-- What a word does when every sum is taken in words. -/
def Word.applyInWords (w : Word) (s : State) : Progress :=
  match w with
  | .move offset => .next ⟨s.pc + 1, addressInWords s.tape.size s.pointer offset, s.tape⟩
  | .scanLeft => s.scanByInWords (-1)
  | .scanRight => s.scanByInWords 1
  | .drain step => s.drainInWords step
  | .transfer offset sourceDelta destDelta => s.transferInWords offset sourceDelta destDelta
  | w => w.apply s

def stepInWords (code : Array Word) (s : State) : Progress :=
  match code[s.pc]? with
  | some w => w.applyInWords s
  | none => .stopped .ended s

def runInWords (code : Array Word) : ℕ → State → Option (Stop × State)
  | 0, _ => none
  | budget + 1, s =>
    match stepInWords code s with
    | .next t => runInWords code budget t
    | .stopped why t => some (why, t)

/-! ## Masked words -/

section Masks

variable {k : ℕ}

/-- A masked word is the residue of the word. -/
theorem toInt_and_mask (hk : k ≤ 63) (w : Int64) :
    (w &&& Int64.ofNat (2 ^ k - 1)).toInt = w.toInt % (2 ^ k : ℕ) := by
  have hpow : 2 ^ k ≤ 2 ^ 63 := Nat.pow_le_pow_right (by decide) hk
  have hpos : 0 < 2 ^ k := Nat.two_pow_pos k
  have hmask : (Int64.ofNat (2 ^ k - 1)).toBitVec.toNat = 2 ^ k - 1 :=
    Nat.mod_eq_of_lt (by omega)
  have hbits : (w &&& Int64.ofNat (2 ^ k - 1)).toBitVec.toNat = w.toBitVec.toNat % 2 ^ k := by
    rw [Int64.toBitVec_and, BitVec.toNat_and, hmask, Nat.and_two_pow_sub_one_eq_mod]
  have hlt : w.toBitVec.toNat % 2 ^ k < 2 ^ k := Nat.mod_lt _ hpos
  rw [← Int64.toInt_toBitVec, BitVec.toInt_eq_toNat_of_lt (by omega), hbits, ← Int64.toInt_toBitVec,
    BitVec.toInt_eq_toNat_bmod, (bmod_modEq (by omega) _).eq, Int.natCast_mod]

theorem addressInWords_eq (hk : k ≤ 63) (pointer : ℕ) (offset : Int64) :
    addressInWords (2 ^ k) pointer offset = address (2 ^ k) (pointer + offset.toInt) := by
  have hpointer : (Int64.ofNat pointer).toInt ≡ pointer [ZMOD (2 ^ k : ℕ)] := by
    rw [← Int64.ofInt_eq_ofNat, Int64.toInt_ofInt]
    exact bmod_modEq (by omega) pointer
  have hsum : (Int64.ofNat pointer + offset).toInt ≡ pointer + offset.toInt [ZMOD (2 ^ k : ℕ)] := by
    rw [Int64.toInt_add]
    exact (bmod_modEq (by omega) _).trans (hpointer.add_right _)
  rw [addressInWords, toInt_and_mask hk, hsum.eq, ← address_two_pow, Int.toNat_natCast]

theorem toInt_cellWord (v : UInt8) : (cellWord v).toInt = v.toNat := by
  have hlt : v.toNat < 2 ^ 8 := v.toNat_lt
  exact Int64.toInt_ofNat_of_lt (by omega)

theorem cellWord_inj {v w : UInt8} : cellWord v = cellWord w ↔ (v.toNat : ℤ) = w.toNat := by
  rw [← Int64.toInt_inj, toInt_cellWord, toInt_cellWord]

theorem and_255 (w : Int64) : w &&& 255 = cellWord (wordCell w) := by
  rw [← Int64.toInt_inj, toInt_and_255, toInt_cellWord]

/-- The cell a sum comes to is the residue of the exact sum. -/
theorem wrap_sum (v : UInt8) (amount : Int64) :
    Cell.wrap (v.toNat + amount.toInt) = (wordCell (cellWord v + amount)).toNat := by
  have hsum : (cellWord v + amount).toInt ≡ v.toNat + amount.toInt [ZMOD (2 ^ 8 : ℕ)] := by
    rw [Int64.toInt_add, toInt_cellWord]
    exact bmod_modEq (by decide) _
  rw [← toInt_and_255, show (255 : Int64) = Int64.ofNat (2 ^ 8 - 1) from rfl,
    toInt_and_mask (by decide), hsum.eq]
  rfl

end Masks

/-! ## One machine -/

section Machine

variable {k : ℕ} {s : State} {tape : Tape}

theorem scanFromInWords_eq (hk : k ≤ 63) (hsize : tape.size = 2 ^ k) (start : ℕ) (step : Int64)
    (rounds pointer : ℕ) : scanFromInWords tape start step rounds pointer =
      scanFrom tape start step.toInt rounds pointer := by
  induction rounds generalizing pointer with
  | zero => rfl
  | succ rounds ih =>
    have hnext := addressInWords_eq hk pointer step
    simp only [scanFromInWords, scanFrom, hsize, hnext, ih]

theorem roundsFromInWords_eq (value current : UInt8) (step : Int64) (rounds count : ℕ) :
    roundsFromInWords (cellWord value) step rounds (cellWord current) (Int64.ofNat count) =
      (roundsFrom value.toNat step.toInt rounds current.toNat count).map Int64.ofNat := by
  induction rounds generalizing current count with
  | zero => rfl
  | succ rounds ih =>
    let next := wordCell (cellWord current + step)
    have hzero : cellWord next = 0 ↔ (next.toNat : ℤ) = 0 := cellWord_inj (w := 0)
    have hcount : Int64.ofNat count + 1 = Int64.ofNat (count + 1) := (Int64.ofNat_add count 1).symm
    simp only [roundsFromInWords, roundsFrom, and_255, wrap_sum, hcount]
    by_cases hz : (next.toNat : ℤ) = 0
    · rw [if_pos (hzero.mpr hz), if_pos hz]
      rfl
    · rw [if_neg (mt hzero.mp hz), if_neg hz]
      by_cases hback : (next.toNat : ℤ) = value.toNat
      · rw [if_pos (cellWord_inj.mpr hback), if_pos hback]
        rfl
      · rw [if_neg (mt cellWord_inj.mp hback), if_neg hback]
        exact ih next (count + 1)

/-- The rounds of a drain are counted the same. -/
theorem roundsInWords_eq (value : UInt8) (step : Int64) :
    roundsFromInWords (cellWord value) step 256 (cellWord value) 0 =
      (roundsToZero? value.toNat step.toInt).map Int64.ofNat :=
  roundsFromInWords_eq value value step 256 0

theorem scanByInWords_eq (hk : k ≤ 63) (hsize : s.tape.size = 2 ^ k) (step : Int64) :
    s.scanByInWords step = s.scanBy step.toInt := by
  have hscan : scanFromInWords s.tape s.pointer step s.tape.size s.pointer =
      scan s.tape s.pointer step.toInt := scanFromInWords_eq hk hsize ..
  cases hresult : scan s.tape s.pointer step.toInt with
  | none => simp only [State.scanByInWords, State.scanBy, hscan, hresult]
  | some result =>
    obtain ⟨pointer, found⟩ := result
    cases found <;> simp only [State.scanByInWords, State.scanBy, hscan, hresult]

theorem drainInWords_eq (step : Int64) : s.drainInWords step = s.drain step := by
  simp only [State.drainInWords, State.drain, roundsInWords_eq]
  cases roundsToZero? (s.tape.cell s.pointer).toNat step.toInt <;> rfl

theorem transferInWords_eq (hk : k ≤ 63) (hsize : s.tape.size = 2 ^ k)
    (offset sourceDelta destDelta : Int64) :
    s.transferInWords offset sourceDelta destDelta = s.transfer offset sourceDelta destDelta := by
  simp only [State.transferInWords, State.transfer, roundsInWords_eq, hsize, addressInWords_eq hk]
  cases roundsToZero? (s.tape.cell s.pointer).toNat sourceDelta.toInt <;> rfl

/-- **No word overflows visibly.** On a tape whose size is a power of two, a word does the same
whether sums are exact or wrap around. -/
theorem applyInWords_eq (hk : k ≤ 63) (hsize : s.tape.size = 2 ^ k) (w : Word) :
    w.applyInWords s = w.apply s := by
  have hleft : (-1 : Int64).toInt = -1 := by decide
  have hright : (1 : Int64).toInt = 1 := by decide
  cases w with
  | move offset =>
    have hplace : addressInWords s.tape.size s.pointer offset =
        address s.tape.size (s.pointer + offset.toInt) := by rw [hsize, addressInWords_eq hk]
    exact congrArg (fun place => Progress.next ⟨s.pc + 1, place, s.tape⟩) hplace
  | scanLeft => exact (scanByInWords_eq hk hsize (-1)).trans (congrArg s.scanBy hleft)
  | scanRight => exact (scanByInWords_eq hk hsize 1).trans (congrArg s.scanBy hright)
  | drain step => exact drainInWords_eq step
  | transfer offset sourceDelta destDelta =>
    exact transferInWords_eq hk hsize offset sourceDelta destDelta
  | add | input | output | opening | closing | clear => rfl

theorem runInWords_eq (hk : k ≤ 63) (hsize : s.tape.size = 2 ^ k) (code : Array Word)
    (budget : ℕ) : runInWords code budget s = runToStop code budget s := by
  induction budget generalizing s with
  | zero => rfl
  | succ budget ih =>
    have hstep : stepInWords code s = step code s := by
      rw [stepInWords, step]
      cases code[s.pc]? with
      | none => rfl
      | some w => exact applyInWords_eq hk hsize w
    rw [runInWords, runToStop, hstep]
    cases hnext : step code s with
    | next t => exact ih ((step_size hnext).trans hsize)
    | stopped why t => rfl

end Machine

/-- **Only residues matter, and words never show.** Two programs that differ only in cell amounts
congruent modulo 256 and in offsets congruent modulo the size of the tape, a power of two, have the
same runs on it: for every budget they stop in the same state for the same reason, or neither
stops. It makes no difference that sums and products are taken in words, whose overflows the
fields reach. -/
theorem runInWords_congruent (k : ℕ) (hk : k ≤ 63) (program program' : List Item)
    (code code' : Array Word) (hcongruent : List.Forall₂ (Item.Congruent (2 ^ k)) program program')
    (hcode : encode program = .ok code) (hcode' : encode program' = .ok code') (s : State)
    (hsize : s.tape.size = 2 ^ k) (budget : ℕ) :
    runInWords code' budget s = runInWords code budget s ∧
      runToStop code' budget s = runToStop code budget s ∧
      runInWords code budget s = runToStop code budget s := by
  have hwords := runInWords_eq hk hsize code budget
  have hwords' := runInWords_eq hk hsize code' budget
  have hruns := runToStop_congruent hcongruent hcode hcode' hsize budget
  exact ⟨by rw [hwords, hwords', hruns], hruns, hwords⟩

/-- On four cells, from cell 3: with the fields of the second program the first sum, the pointer
and the product leave the range of the words. -/
theorem runInWords_congruent_overflow :
    let program : List Item :=
      [.instr ⟨.add 200, 1⟩, .instr ⟨.move 1, 2⟩, .instr ⟨.transfer (-1) (-1) 2, 3⟩]
    let program' : List Item :=
      [.instr ⟨.add (2 ^ 63 - 56), 1⟩, .instr ⟨.move (2 ^ 63 - 3), 2⟩,
        .instr ⟨.transfer (3 - 2 ^ 63) (2 ^ 63 - 1) (2 - 2 ^ 63), 3⟩]
    ∃ code', encode program' = .ok code' ∧ List.Forall₂ (Item.Congruent 4) program program' ∧
      runInWords code' 4 ⟨0, 3, #[9, 0, 0, 100]⟩ = some (.ended, ⟨3, 0, #[0, 0, 0, 62]⟩) := by
  intro program program'
  let code : Array Word := #[.add 200, .move 1, .transfer (-1) (-1) 2]
  have hcongruent : List.Forall₂ (Item.Congruent (2 ^ 2)) program program' :=
    .cons (.instr (.add (by decide)) 1) (.cons (.instr (.move (by decide)) 2)
      (.cons (.instr (.transfer (by decide) (by decide) (by decide)) 3) .nil))
  have hrun : runToStop code 4 ⟨0, 3, #[9, 0, 0, 100]⟩ =
      some (.ended, ⟨3, 0, #[0, 0, 0, 62]⟩) := by cbv
  obtain ⟨hsame, -, hwords⟩ := runInWords_congruent 2 (by decide) program program' code _ hcongruent
    rfl rfl ⟨0, 3, #[9, 0, 0, 100]⟩ rfl 4
  exact ⟨_, rfl, hcongruent, by rw [hsame, hwords, hrun]⟩

end TapeMachine
