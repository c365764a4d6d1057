import TapeMachine.Proofs.Linkage

/-! # Accesses stay inside

The machine is run once more with a log of what it touches: the index of every
word it fetches, of every cell it reads, and of every cell it writes, with the
value that is written. The log changes nothing of what the machine does
(`runLogged_value`), and on a tape of any size, from a pointer on it, every
access in the log is inside the program or the tape (`runLogged_stays`). Behind
this is that no word leads the machine away from either (`apply_keeps`): an
address is never above its mask, and encoding keeps no target that is not the
index of an item. -/
namespace TapeMachine

/-! ## Logs -/

/-- An access of the machine to its program or its tape. -/
inductive Access where
  | fetch (index : ℕ)
  | read (index : ℕ)
  | write (index : ℕ) (value : ℤ)

/-- Whether an access is inside a program of `len` words or a tape of `n` cells. What is written
has to be a byte. -/
def Access.Inside (len n : ℕ) : Access → Prop
  | fetch index => index < len
  | read index => index < n
  | write index value => index < n ∧ 0 ≤ value ∧ value ≤ 255

/-- A value, and the accesses that it took to find it, the first one first. -/
structure Logged (α : Type) where
  value : α
  log : List Access

namespace Logged

instance : Monad Logged where
  pure a := ⟨a, []⟩
  bind x f := ⟨(f x.value).value, x.log ++ (f x.value).log⟩

/-- Whether every access of a log is inside. -/
def Stays {α : Type} (len n : ℕ) (x : Logged α) : Prop := ∀ a ∈ x.log, a.Inside len n

section

variable {α β : Type} {len n : ℕ} {x : Logged α} {f : α → Logged β}

@[simp] theorem value_pure (a : α) : (pure a : Logged α).value = a := rfl

@[simp] theorem value_bind : (x >>= f).value = (f x.value).value := rfl

@[simp] theorem value_ite {p : Prop} [Decidable p] {y : Logged α} :
    (if p then x else y).value = if p then x.value else y.value := apply_ite ..

theorem stays_pure (a : α) : (pure a : Logged α).Stays len n := by
  intro access h
  cases h

theorem Stays.bind (hx : x.Stays len n) (hf : (f x.value).Stays len n) :
    (x >>= f).Stays len n :=
  List.forall_mem_append.mpr ⟨hx, hf⟩

end

end Logged

/-! ## The machine with a log -/

section Machine

variable (tape : Tape) (s : State)

/-- The word at an index, if the program goes as far. -/
def fetchWord (code : Array Word) (index : ℕ) : Logged (Option Word) :=
  if index < code.size then ⟨code[index]?, [.fetch index]⟩ else ⟨none, []⟩

def readCell (index : ℕ) : Logged UInt8 := ⟨tape.cell index, [.read index]⟩

/-- Sets a cell to the low eight bits of a word. -/
def writeCell (index : ℕ) (w : Int64) : Logged Tape :=
  ⟨tape.setIfInBounds index (wordCell w), [.write index (w &&& 255).toInt]⟩

/-- Walks on by `step` for a number of rounds. -/
def scanLogged (start : ℕ) (step : ℤ) : ℕ → ℕ → Logged (Option (ℕ × Bool))
  | 0, _ => pure none
  | rounds + 1, pointer => do
    let next := address tape.size (pointer + step)
    let v ← readCell tape next
    if v = 0 then pure (some (next, true))
    else if next = start then pure (some (start, false))
    else scanLogged start step rounds next

/-- Looks for a zero cell among a number of cells from an index on. -/
def seekZero : ℕ → ℕ → Logged Bool
  | 0, _ => pure false
  | cells + 1, index => do
    let v ← readCell tape index
    if v = 0 then pure true else seekZero cells (index + 1)

namespace State

def jumpLogged (target : Option ℕ) (onZero : Bool) : Logged Progress :=
  match target with
  | none => pure (.stopped .unlinked s)
  | some t => do
    let v ← readCell s.tape s.pointer
    pure (.next (if (v == 0) = onZero then { s with pc := t } else s.advance))

def scanByLogged (step : ℤ) : Logged Progress := do
  let v ← readCell s.tape s.pointer
  if v = 0 then pure (.next s.advance)
  else
    match ← scanLogged s.tape s.pointer step s.tape.size s.pointer with
    | none => pure (.next s)
    | some (pointer, true) => pure (.next { s with pc := s.pc + 1, pointer })
    | some (_, false) => do
      let zero ← seekZero s.tape s.tape.size 0
      pure (.stopped (if zero then .missedZero step else .fullTape) s)

def drainLogged (step : Int64) : Logged Progress := do
  let value ← readCell s.tape s.pointer
  if value = 0 then pure (.next s.advance)
  else
    match roundsToZero? value.toNat step.toInt with
    | none => pure (.stopped (.endless value) s)
    | some _ => do
      let tape ← writeCell s.tape s.pointer 0
      pure (.next ⟨s.pc + 1, s.pointer, tape⟩)

def transferLogged (offset sourceDelta destDelta : Int64) : Logged Progress := do
  let value ← readCell s.tape s.pointer
  if value = 0 then pure (.next s.advance)
  else
    match roundsToZero? value.toNat sourceDelta.toInt with
    | none => pure (.stopped (.endless value) s)
    | some count => do
      let dest := address s.tape.size (s.pointer + offset.toInt)
      let v ← readCell s.tape dest
      let filled ← writeCell s.tape dest (cellWord v + Int64.ofNat count * destDelta)
      let tape ← writeCell filled s.pointer 0
      pure (.next ⟨s.pc + 1, s.pointer, tape⟩)

end State

/-- What a word does to the state in which it is met. -/
def Word.applyLogged (w : Word) : Logged Progress :=
  match w with
  | .add delta => do
    let v ← readCell s.tape s.pointer
    let tape ← writeCell s.tape s.pointer (cellWord v + delta)
    pure (.next ⟨s.pc + 1, s.pointer, tape⟩)
  | .move offset => pure (.next ⟨s.pc + 1, address s.tape.size (s.pointer + offset.toInt), s.tape⟩)
  | .input => pure (.stopped .input s)
  | .output => pure (.stopped .output s)
  | .opening target => s.jumpLogged target true
  | .closing target => s.jumpLogged target false
  | .clear => do
    let tape ← writeCell s.tape s.pointer 0
    pure (.next ⟨s.pc + 1, s.pointer, tape⟩)
  | .scanLeft => s.scanByLogged (-1)
  | .scanRight => s.scanByLogged 1
  | .drain step => s.drainLogged step
  | .transfer offset sourceDelta destDelta => s.transferLogged offset sourceDelta destDelta

def stepLogged (code : Array Word) : Logged Progress := do
  match ← fetchWord code s.pc with
  | some w => w.applyLogged s
  | none => pure (.stopped .ended s)

/-- Runs until a stop, for at most `budget` instructions. -/
def runLogged (code : Array Word) : ℕ → State → Logged (Option (Stop × State))
  | 0, _ => pure none
  | budget + 1, s => do
    match ← stepLogged s code with
    | .next t => runLogged code budget t
    | .stopped why t => pure (some (why, t))

end Machine

/-! ## The log changes nothing -/

section Value

variable {tape : Tape} {s : State} {start index pointer rounds cells : ℕ} {delta : ℤ}

@[simp] theorem readCell_value : (readCell tape index).value = tape.cell index := rfl

theorem scanLogged_value :
    (scanLogged tape start delta rounds pointer).value =
      scanFrom tape start delta rounds pointer := by
  induction rounds generalizing pointer with
  | zero => rfl
  | succ rounds ih =>
    simp only [scanLogged, scanFrom, Logged.value_bind, Logged.value_ite, ih]
    rfl

/-- Looking at all cells from an index on finds the first zero among them. -/
theorem seekZero_value (h : index + cells = tape.size) :
    (seekZero tape cells index).value = (tape.toList.drop index).any (· == 0) := by
  induction cells generalizing index with
  | zero => simp [seekZero, List.drop_of_length_le, ← h]
  | succ cells ih =>
    have hindex : index < tape.size := by omega
    rw [List.drop_eq_getElem_cons (by simpa using hindex), List.any_cons, ← ih (by omega)]
    by_cases hzero : tape[index] = 0 <;> simp [seekZero, Tape.cell, hindex, hzero]

theorem jumpLogged_value (target : Option ℕ) (onZero : Bool) :
    (s.jumpLogged target onZero).value = s.jump target onZero := by
  cases target <;> rfl

theorem scanByLogged_value : (s.scanByLogged delta).value = s.scanBy delta := by
  have hzero : (seekZero s.tape s.tape.size 0).value = s.tape.hasZero := by
    rw [seekZero_value (Nat.zero_add _), List.drop_zero, Tape.hasZero, Array.any_toList]
  have hscan : (scanLogged s.tape s.pointer delta s.tape.size s.pointer).value =
      scan s.tape s.pointer delta := scanLogged_value
  simp only [State.scanByLogged, State.scanBy, Logged.value_bind, Logged.value_ite]
  refine if_congr Iff.rfl rfl ?_
  rw [hscan]
  rcases scan s.tape s.pointer delta with _ | ⟨pointer, _ | _⟩
  · rfl
  · show Progress.stopped _ s = _
    rw [hzero]
  · rfl

theorem drainLogged_value (step : Int64) : (s.drainLogged step).value = s.drain step := by
  simp only [State.drainLogged, State.drain, Logged.value_bind, Logged.value_ite]
  refine if_congr Iff.rfl rfl ?_
  rw [readCell_value]
  cases roundsToZero? _ _ <;> rfl

theorem transferLogged_value (offset sourceDelta destDelta : Int64) :
    (s.transferLogged offset sourceDelta destDelta).value =
      s.transfer offset sourceDelta destDelta := by
  simp only [State.transferLogged, State.transfer, Logged.value_bind, Logged.value_ite]
  refine if_congr Iff.rfl rfl ?_
  rw [readCell_value]
  cases roundsToZero? _ _ <;> rfl

theorem applyLogged_value (w : Word) : (w.applyLogged s).value = w.apply s := by
  cases w with
  | add | move | input | output | clear => rfl
  | opening target => exact jumpLogged_value target true
  | closing target => exact jumpLogged_value target false
  | scanLeft | scanRight => exact scanByLogged_value
  | drain step => exact drainLogged_value step
  | transfer offset sourceDelta destDelta => exact transferLogged_value offset sourceDelta destDelta

theorem fetchWord_value (code : Array Word) : (fetchWord code index).value = code[index]? := by
  unfold fetchWord
  split <;> simp_all

theorem stepLogged_value (code : Array Word) : (stepLogged s code).value = step code s := by
  rw [stepLogged, step, Logged.value_bind, fetchWord_value]
  cases code[s.pc]? with
  | none => rfl
  | some w => exact applyLogged_value w

/-- The machine does with a log what it does without one. -/
theorem runLogged_value (code : Array Word) (budget : ℕ) :
    (runLogged code budget s).value = runToStop code budget s := by
  induction budget generalizing s with
  | zero => rfl
  | succ budget ih =>
    rw [runLogged, runToStop, Logged.value_bind, stepLogged_value]
    cases step code s with
    | next t => exact ih
    | stopped why t => rfl

end Value

/-! ## Targets -/

/-- Whether a word that is a bracket leads to one of `len` words, if it has a target. -/
def Word.Lands (len : ℕ) : Word → Prop
  | opening (some target) | closing (some target) => target < len
  | _ => True

theorem usableTarget_lt {items : Array Item} {side : Side} {target : Option ℤ} {t : ℕ}
    (h : usableTarget? items side target = some t) : t < items.size := by
  obtain ⟨a, -, ha⟩ := Option.bind_eq_some_iff.mp h
  split at ha
  · rename_i partner hpartner
    split at ha
    · cases ha
      rw [itemAt?] at hpartner
      split at hpartner
      · cases hpartner
      · exact (Array.getElem?_eq_some_iff.mp hpartner).1
    · cases ha
  · cases ha

theorem encode_lands {items : Array Item} {x : Item} {w : Word} (h : x.encode items = .ok w) :
    w.Lands items.size := by
  rcases x with ⟨op, position⟩ | v
  · cases op with
    | add | move | drain => obtain ⟨v, -, rfl⟩ := map_word_eq_ok h; trivial
    | transfer => obtain ⟨u, v, x, -, -, -, rfl⟩ := @encode_transfer items _ _ _ _ h; trivial
    | opening target | closing target =>
      cases h
      cases ht : usableTarget? items _ target with
      | none => trivial
      | some t => exact usableTarget_lt ht
    | input | output | clear | scanLeft | scanRight => cases h; trivial
  · cases h

/-- An encoded program has no target outside of it. -/
theorem lands_of_encode {program : List Item} {code : Array Word} (h : encode program = .ok code) :
    ∀ w ∈ code, w.Lands code.size := by
  have hall := forall₂_of_encode h
  intro w hw
  obtain ⟨i, hi, rfl⟩ := List.mem_iff_getElem.mp (Array.mem_toList_iff.mpr hw)
  have hlands := encode_lands (hall.get (hall.length_eq.symm ▸ hi) hi)
  rwa [List.size_toArray, hall.length_eq] at hlands

/-! ## One instruction -/

/-- Whether a state is at one of `len` words or at their end, on a tape of `n` cells. -/
structure State.Within (len n : ℕ) (s : State) : Prop extends s.Fits n where
  pc_le : s.pc ≤ len

/-- Whether a word led to a state within bounds, or stopped where it was. -/
def Progress.Keeps (len n : ℕ) (s : State) : Progress → Prop
  | .next t => t.Within len n
  | .stopped _ t => t = s

section Keeps

variable {len n : ℕ} {s : State}

theorem State.Fits.advance_within (h : s.Fits n) (hpc : s.pc < len) : s.advance.Within len n :=
  ⟨⟨h.size, h.inside⟩, hpc⟩

/-- Setting cells leads out of neither the program nor the tape. -/
theorem State.Fits.set_within (h : s.Fits n) (hpc : s.pc < len) {tape : Tape}
    (htape : tape.size = s.tape.size) : (⟨s.pc + 1, s.pointer, tape⟩ : State).Within len n :=
  ⟨⟨htape.trans h.size, h.inside⟩, hpc⟩

theorem jump_keeps (h : s.Fits n) (hpc : s.pc < len) {target : Option ℕ}
    (ht : ∀ t, target = some t → t < len) (onZero : Bool) :
    (s.jump target onZero).Keeps len n s := by
  cases target with
  | none => rfl
  | some t =>
    rw [State.jump]
    split
    · exact ⟨⟨h.size, h.inside⟩, (ht t rfl).le⟩
    · exact h.advance_within hpc

theorem scanFrom_lt {tape : Tape} (htape : 0 < tape.size) {start rounds pointer p : ℕ} {delta : ℤ}
    (h : scanFrom tape start delta rounds pointer = some (p, true)) : p < tape.size := by
  induction rounds generalizing pointer with
  | zero => cases h
  | succ rounds ih =>
    rw [scanFrom] at h
    split at h
    · cases h
      exact address_lt htape _
    · split at h
      · cases h
      · exact ih h

theorem scanBy_keeps (h : s.Fits n) (hpc : s.pc < len) (delta : ℤ) :
    (s.scanBy delta).Keeps len n s := by
  rw [State.scanBy]
  split
  · exact h.advance_within hpc
  · cases hscan : scan s.tape s.pointer delta with
    | none => exact ⟨h, hpc.le⟩
    | some result =>
      obtain ⟨p, found⟩ := result
      cases found with
      | false => rfl
      | true =>
        have hp := scanFrom_lt (h.size.symm ▸ h.pos) hscan
        exact ⟨⟨h.size, h.size ▸ hp⟩, hpc⟩

theorem drain_keeps (h : s.Fits n) (hpc : s.pc < len) (delta : Int64) :
    (s.drain delta).Keeps len n s := by
  rw [State.drain]
  split
  · exact h.advance_within hpc
  · cases roundsToZero? _ _ with
    | none => rfl
    | some _ => exact h.set_within hpc (Array.size_setIfInBounds ..)

theorem transfer_keeps (h : s.Fits n) (hpc : s.pc < len) (offset sourceDelta destDelta : Int64) :
    (s.transfer offset sourceDelta destDelta).Keeps len n s := by
  rw [State.transfer]
  split
  · exact h.advance_within hpc
  · cases roundsToZero? _ _ with
    | none => rfl
    | some _ => exact h.set_within hpc (by simp)

/-- **No word leads out of the program or off the tape.** -/
theorem apply_keeps {w : Word} (hw : w.Lands len) (h : s.Fits n) (hpc : s.pc < len) :
    (w.apply s).Keeps len n s := by
  cases w with
  | add | clear => exact h.set_within hpc (Array.size_setIfInBounds ..)
  | move offset =>
    refine ⟨⟨h.size, ?_⟩, hpc⟩
    rw [h.size]
    exact address_lt h.pos _
  | input | output => rfl
  | opening target | closing target =>
    refine jump_keeps h hpc ?_ _
    rintro t rfl
    exact hw
  | scanLeft | scanRight => exact scanBy_keeps h hpc _
  | drain delta => exact drain_keeps h hpc delta
  | transfer offset sourceDelta destDelta => exact transfer_keeps h hpc offset sourceDelta destDelta

/-- Every word lands in a program that is long enough. -/
theorem exists_lands (w : Word) (pc : ℕ) : ∃ len, w.Lands len ∧ pc < len := by
  cases w with
  | opening target | closing target =>
    cases target with
    | none => exact ⟨pc + 1, trivial, pc.lt_succ_self⟩
    | some t =>
      have ht : t < t + pc + 1 := by omega
      exact ⟨t + pc + 1, ht, by omega⟩
  | add | move | input | output | clear | scanLeft | scanRight | drain | transfer =>
    exact ⟨pc + 1, trivial, pc.lt_succ_self⟩

/-- Wherever a word leads, the pointer stays on the tape. -/
theorem apply_fits {w : Word} {t : State} (h : s.Fits n) (hnext : w.apply s = .next t) :
    t.Fits n := by
  obtain ⟨len, hlands, hpc⟩ := exists_lands w s.pc
  have hkeeps := apply_keeps hlands h hpc
  rw [hnext] at hkeeps
  exact hkeeps.toFits

theorem step_fits {code : Array Word} {t : State} (h : s.Fits n)
    (hnext : step code s = .next t) : t.Fits n := by
  rw [step] at hnext
  cases hw : code[s.pc]? with
  | none => rw [hw] at hnext; cases hnext
  | some w =>
    rw [hw] at hnext
    exact apply_fits h hnext

end Keeps

/-! ## The accesses of one instruction -/

/-- The low eight bits of a word are a byte. -/
theorem toInt_and_255 (w : Int64) : (w &&& 255).toInt = (wordCell w).toNat := by
  have hbits : (w &&& 255).toBitVec.toNat = w.toBitVec.toNat % 256 :=
    Nat.and_two_pow_sub_one_eq_mod _ 8
  have hcell : (wordCell w).toNat = w.toBitVec.toNat % 256 := rfl
  rw [← Int64.toInt_toBitVec, BitVec.toInt_eq_toNat_of_lt (by omega), hbits, hcell]

section Stays

variable {len n : ℕ} {tape : Tape} {s : State}

theorem readCell_stays {index : ℕ} (h : index < n) : (readCell tape index).Stays len n :=
  List.forall_mem_singleton.mpr h

theorem writeCell_stays {index : ℕ} (h : index < n) (w : Int64) :
    (writeCell tape index w).Stays len n := by
  have hbyte : (wordCell w).toNat < 256 := (wordCell w).toNat_lt
  refine List.forall_mem_singleton.mpr ⟨h, ?_, ?_⟩
  · rw [toInt_and_255]
    omega
  · rw [toInt_and_255]
    omega

theorem fetchWord_stays (code : Array Word) (index : ℕ) :
    (fetchWord code index).Stays code.size n := by
  rw [fetchWord]
  split
  · rename_i h
    exact List.forall_mem_singleton.mpr h
  · exact List.forall_mem_nil _

/-- A scan stays on the tape, however many rounds it takes. -/
theorem scanLogged_stays (h : tape.size = n) (hn : 0 < n) (start : ℕ) (delta : ℤ)
    (rounds pointer : ℕ) : (scanLogged tape start delta rounds pointer).Stays len n := by
  induction rounds generalizing pointer with
  | zero => exact Logged.stays_pure none
  | succ rounds ih =>
    have hnext : address tape.size (pointer + delta) < n := by
      rw [h]
      exact address_lt hn _
    refine (readCell_stays hnext).bind ?_
    split
    · exact Logged.stays_pure _
    · split
      · exact Logged.stays_pure _
      · exact ih _

theorem seekZero_stays {cells index : ℕ} (h : index + cells ≤ n) :
    (seekZero tape cells index).Stays len n := by
  induction cells generalizing index with
  | zero => exact Logged.stays_pure _
  | succ cells ih =>
    refine (readCell_stays (by omega)).bind ?_
    split
    · exact Logged.stays_pure _
    · exact ih (by omega)

theorem jumpLogged_stays (h : s.Fits n) (target : Option ℕ) (onZero : Bool) :
    (s.jumpLogged target onZero).Stays len n := by
  cases target with
  | none => exact Logged.stays_pure _
  | some t => exact (readCell_stays h.inside).bind (Logged.stays_pure _)

theorem scanByLogged_stays (h : s.Fits n) (delta : ℤ) : (s.scanByLogged delta).Stays len n := by
  refine (readCell_stays h.inside).bind ?_
  split
  · exact Logged.stays_pure _
  · refine (scanLogged_stays h.size h.pos _ _ _ _).bind ?_
    split
    · exact Logged.stays_pure _
    · exact Logged.stays_pure _
    · exact (seekZero_stays (by rw [h.size, Nat.zero_add])).bind (Logged.stays_pure _)

theorem drainLogged_stays (h : s.Fits n) (delta : Int64) : (s.drainLogged delta).Stays len n := by
  refine (readCell_stays h.inside).bind ?_
  split
  · exact Logged.stays_pure _
  · split
    · exact Logged.stays_pure _
    · exact (writeCell_stays h.inside 0).bind (Logged.stays_pure _)

theorem transferLogged_stays (h : s.Fits n) (offset sourceDelta destDelta : Int64) :
    (s.transferLogged offset sourceDelta destDelta).Stays len n := by
  have hdest : address s.tape.size (s.pointer + offset.toInt) < n := by
    rw [h.size]
    exact address_lt h.pos _
  refine (readCell_stays h.inside).bind ?_
  split
  · exact Logged.stays_pure _
  · split
    · exact Logged.stays_pure _
    · refine (readCell_stays hdest).bind ((writeCell_stays hdest _).bind ?_)
      exact (writeCell_stays h.inside 0).bind (Logged.stays_pure _)

/-- Every access of a word from a pointer on the tape is on the tape. -/
theorem applyLogged_stays (h : s.Fits n) (w : Word) : (w.applyLogged s).Stays len n := by
  cases w with
  | add delta =>
    exact (readCell_stays h.inside).bind ((writeCell_stays h.inside _).bind (Logged.stays_pure _))
  | clear => exact (writeCell_stays h.inside 0).bind (Logged.stays_pure _)
  | move | input | output => exact Logged.stays_pure _
  | opening target | closing target => exact jumpLogged_stays h target _
  | scanLeft | scanRight => exact scanByLogged_stays h _
  | drain delta => exact drainLogged_stays h delta
  | transfer offset sourceDelta destDelta =>
    exact transferLogged_stays h offset sourceDelta destDelta

/-! ## Runs -/

variable {code : Array Word}

/-- Going on leaves the machine within bounds. It stops at a word unless it is at the end. -/
theorem step_keeps (hcode : ∀ w ∈ code, w.Lands code.size) (h : s.Within code.size n) :
    (step code s).Keeps code.size n s ∧
      ∀ why t, step code s = .stopped why t → why ≠ .ended → s.pc < code.size := by
  rw [step]
  cases hw : code[s.pc]? with
  | none => exact ⟨rfl, fun why t hstop hne => absurd (by cases hstop; rfl) hne⟩
  | some w =>
    obtain ⟨hpc, rfl⟩ := Array.getElem?_eq_some_iff.mp hw
    exact ⟨apply_keeps (hcode _ (Array.getElem_mem hpc)) h.toFits hpc, fun _ _ _ _ => hpc⟩

theorem stepLogged_stays (h : s.Fits n) : (stepLogged s code).Stays code.size n := by
  refine (fetchWord_stays code s.pc).bind ?_
  split
  · exact applyLogged_stays h _
  · exact Logged.stays_pure _

theorem runLogged_stays (hcode : ∀ w ∈ code, w.Lands code.size) (h : s.Within code.size n)
    (budget : ℕ) : (runLogged code budget s).Stays code.size n := by
  induction budget generalizing s with
  | zero => exact Logged.stays_pure none
  | succ budget ih =>
    refine (stepLogged_stays h.toFits).bind ?_
    rw [stepLogged_value]
    obtain ⟨hkeeps, -⟩ := step_keeps hcode h
    cases hstep : step code s with
    | next t =>
      rw [hstep] at hkeeps
      exact ih hkeeps
    | stopped why t => exact Logged.stays_pure _

theorem runToStop_within (hcode : ∀ w ∈ code, w.Lands code.size) (h : s.Within code.size n)
    {budget : ℕ} {why : Stop} {t : State} (hrun : runToStop code budget s = some (why, t)) :
    t.Within code.size n ∧ (why ≠ .ended → t.pc < code.size) := by
  induction budget generalizing s with
  | zero => cases hrun
  | succ budget ih =>
    obtain ⟨hkeeps, hstops⟩ := step_keeps hcode h
    rw [runToStop] at hrun
    cases hstep : step code s with
    | next u =>
      rw [hstep] at hkeeps hrun
      exact ih hkeeps hrun
    | stopped reason u =>
      rw [hstep] at hkeeps hrun
      cases hrun
      cases hkeeps
      exact ⟨h, hstops _ _ hstep⟩

end Stays

/-- **The machine stays inside its program and its tape.** From a pointer on a tape of any size and
a place in an encoded program or at its end, it fetches no word beyond the program, reads and
writes no cell beyond the tape and writes bytes only. A scan that never comes to an end stays on the
tape as well. Where the machine stops, the pointer is on the tape, and the place is in the program
unless it is the end. -/
theorem run_stays_inside {program : List Item} {code : Array Word}
    (hcode : encode program = .ok code) {s : State} (hpointer : s.pointer < s.tape.size)
    (hpc : s.pc ≤ code.size) (budget : ℕ) :
    (runLogged code budget s).value = runToStop code budget s ∧
    (runLogged code budget s).Stays code.size s.tape.size ∧
    (∀ (tape : Tape) (start : ℕ) (delta : ℤ) (rounds pointer : ℕ), tape.size = s.tape.size →
      (scanLogged tape start delta rounds pointer).value =
        scanFrom tape start delta rounds pointer ∧
      (scanLogged tape start delta rounds pointer).Stays code.size s.tape.size) ∧
    ∀ why t, runToStop code budget s = some (why, t) →
      t.tape.size = s.tape.size ∧ t.pointer < s.tape.size ∧ t.pc ≤ code.size ∧
        (why ≠ .ended → t.pc < code.size) := by
  have hlands := lands_of_encode hcode
  have hwithin : s.Within code.size s.tape.size := ⟨⟨rfl, hpointer⟩, hpc⟩
  refine ⟨runLogged_value code budget, runLogged_stays hlands hwithin budget, ?_, ?_⟩
  · intro tape start delta rounds pointer hsize
    exact ⟨scanLogged_value, scanLogged_stays hsize hwithin.pos _ _ _ _⟩
  · intro why t hrun
    obtain ⟨ht, hplace⟩ := runToStop_within hlands hwithin hrun
    exact ⟨ht.size, ht.inside, ht.pc_le, hplace⟩

/-- On a tape of five cells the mask leaves out most of them: the pointer goes from cell 3 back by
far more than the tape has, pours into a cell far away, and stops at a bracket whose target is not
in the program. -/
theorem run_stays_inside_fiveCells :
    let program : List Item := [.instr ⟨.move (-9223372036854775808), 1⟩,
      .instr ⟨.transfer 9223372036854775807 255 3, 2⟩, .instr ⟨.opening (some 99), 3⟩]
    let code : Array Word := #[.move (-9223372036854775808), .transfer 9223372036854775807 255 3,
      .opening none]
    let s : State := ⟨0, 3, #[7, 1, 1, 1, 2]⟩
    encode program = .ok code ∧ s.pointer < s.tape.size ∧ s.pc ≤ code.size ∧
      (runLogged code 4 s).Stays code.size s.tape.size ∧
      runToStop code 4 s = some (.unlinked, ⟨2, 0, #[0, 1, 1, 1, 23]⟩) ∧ 0 < s.tape.size ∧
      2 < code.size := by
  intro program code s
  have hcode : encode program = .ok code := rfl
  have hpointer : s.pointer < s.tape.size := by decide
  have hpc : s.pc ≤ code.size := by decide
  obtain ⟨-, hstays, -, hstop⟩ := run_stays_inside hcode hpointer hpc 4
  have hrun : runToStop code 4 s = some (.unlinked, ⟨2, 0, #[0, 1, 1, 1, 23]⟩) := by cbv
  obtain ⟨-, hlt, -, hplace⟩ := hstop _ _ hrun
  exact ⟨hcode, hpointer, hpc, hstays, hrun, hlt, hplace (by decide)⟩

end TapeMachine
