import TapeMachine.Proofs.DeadEnds
import TapeMachine.Proofs.Stops

/-! # Congruent programs

The amounts an instruction carries are 64-bit words, and the machine only ever
looks at what is left of them under a mask: a cell amount counts modulo 256, an
offset modulo the size of a tape whose size is a power of two. Programs that
differ only in such words do the same, from every state
(`runToStop_congruent`). -/
namespace TapeMachine

/-! ## Congruent instructions -/

/-- Whether two instructions differ at most in cell amounts that are congruent modulo 256 and in
offsets that are congruent modulo `n`. -/
inductive Op.Congruent (n : ℕ) : Op → Op → Prop
  | same (op : Op) : Congruent n op op
  | add {delta delta' : ℤ} (h : delta ≡ delta' [ZMOD 256]) : Congruent n (.add delta) (.add delta')
  | move {offset offset' : ℤ} (h : offset ≡ offset' [ZMOD n]) :
      Congruent n (.move offset) (.move offset')
  | drain {step step' : ℤ} (h : step ≡ step' [ZMOD 256]) :
      Congruent n (.drain step) (.drain step')
  | transfer {offset offset' source source' dest dest' : ℤ} (ho : offset ≡ offset' [ZMOD n])
      (hs : source ≡ source' [ZMOD 256]) (hd : dest ≡ dest' [ZMOD 256]) :
      Congruent n (.transfer offset source dest) (.transfer offset' source' dest')

inductive Item.Congruent (n : ℕ) : Item → Item → Prop
  | instr {op op' : Op} (h : op.Congruent n op') (position : ℤ) :
      Congruent n (.instr ⟨op, position⟩) (.instr ⟨op', position⟩)
  | foreign (v : Value) : Congruent n (.foreign v) (.foreign v)

/-! ## What is left under a mask -/

section Masks

variable {a b : Int64} {step step' : ℤ}

/-- A sum that is cut to a cell depends on the residues of its parts. -/
theorem wordCell_congr (v : UInt8) (h : a.toInt ≡ b.toInt [ZMOD 256]) :
    wordCell (cellWord v + a) = wordCell (cellWord v + b) := by
  apply residue_injective
  rw [residue_sum, residue_sum, (ZMod.intCast_eq_intCast_iff _ _ 256).mpr h]

theorem mul_congr (count : ℕ) (h : a.toInt ≡ b.toInt [ZMOD 256]) :
    (Int64.ofNat count * a).toInt ≡ (Int64.ofNat count * b).toInt [ZMOD 256] := by
  apply (ZMod.intCast_eq_intCast_iff _ _ 256).mp
  rw [cast_mul_ofNat, cast_mul_ofNat, (ZMod.intCast_eq_intCast_iff _ _ 256).mpr h]

theorem address_congr {k : ℕ} {i j : ℤ} (h : i ≡ j [ZMOD (2 ^ k : ℕ)]) :
    address (2 ^ k) i = address (2 ^ k) j := by
  apply Int.natCast_inj.mp
  rw [address_two_pow, address_two_pow, h]

theorem roundsFrom_congr (value : ℤ) (h : step ≡ step' [ZMOD 256]) (rounds : ℕ) (current : ℤ)
    (count : ℕ) :
    roundsFrom value step' rounds current count = roundsFrom value step rounds current count := by
  induction rounds generalizing current count with
  | zero => rfl
  | succ rounds ih =>
    have hnext : Cell.wrap (current + step') = Cell.wrap (current + step) :=
      (h.symm.add_left current).eq
    simp only [roundsFrom, hnext, ih]

theorem roundsToZero_congr (value : ℤ) (h : step ≡ step' [ZMOD 256]) :
    roundsToZero? value step' = roundsToZero? value step :=
  roundsFrom_congr value h 256 value 0

end Masks

/-! ## Congruent programs -/

section Programs

variable {n k i : ℕ} {x x' : Item} {program program' : List Item} {code code' : Array Word}
  {items items' : Array Item} {w w' : Word} {s t : State}

theorem Item.Congruent.side (h : x.Congruent n x') : x'.side? = x.side? := by
  rcases h with ⟨h, position⟩ | v
  · cases h <;> rfl
  · rfl

/-- Congruent programs have their brackets at the same places. -/
theorem side_of_congruent (h : List.Forall₂ (Item.Congruent n) program program') (i : ℕ) :
    program'.toArray[i]?.map Item.side? = program.toArray[i]?.map Item.side? := by
  simp only [List.getElem?_toArray]
  induction h generalizing i with
  | nil => rfl
  | cons hx _ ih =>
    cases i with
    | zero => exact congrArg some hx.side
    | succ i => exact ih i

/-- A target is judged by the sides of the items alone. -/
theorem usableTarget_congr (h : ∀ i : ℕ, items'[i]?.map Item.side? = items[i]?.map Item.side?)
    (side : Side) (target : Option ℤ) :
    usableTarget? items' side target = usableTarget? items side target := by
  cases target with
  | none => rfl
  | some t =>
    simp only [usableTarget?, Option.bind_some, itemAt?]
    by_cases hneg : t < 0
    · simp [hneg]
    · have hside := h t.toNat
      simp only [if_neg hneg]
      cases hx : items[t.toNat]? <;> cases hx' : items'[t.toNat]? <;> simp_all

theorem encode_congr (h : ∀ i : ℕ, items'[i]?.map Item.side? = items[i]?.map Item.side?) (op : Op) :
    op.encode items' = op.encode items := by
  cases op with
  | opening target | closing target => simp only [Op.encode, usableTarget_congr h]
  | add | move | input | output | clear | scanLeft | scanRight | drain | transfer => rfl

/-- **The words of congruent instructions do the same to every state.** -/
theorem Op.Congruent.apply {op op' : Op} (h : op.Congruent (2 ^ k) op')
    (hsides : ∀ i : ℕ, items'[i]?.map Item.side? = items[i]?.map Item.side?)
    (hsize : s.tape.size = 2 ^ k) (hw : op.encode items = .ok w)
    (hw' : op'.encode items' = .ok w') : w'.apply s = w.apply s := by
  cases h with
  | same =>
    rw [encode_congr hsides, hw] at hw'
    rw [Except.ok.inj hw']
  | add h =>
    obtain ⟨v, rfl, rfl⟩ := map_word_eq_ok hw
    obtain ⟨v', rfl, rfl⟩ := map_word_eq_ok hw'
    have hsum := wordCell_congr (s.tape.cell s.pointer) h
    simp only [Word.apply, hsum]
  | move h =>
    obtain ⟨v, rfl, rfl⟩ := map_word_eq_ok hw
    obtain ⟨v', rfl, rfl⟩ := map_word_eq_ok hw'
    have hplace := address_congr (h.add_left s.pointer)
    simp only [Word.apply, hsize, hplace]
  | drain h =>
    obtain ⟨v, rfl, rfl⟩ := map_word_eq_ok hw
    obtain ⟨v', rfl, rfl⟩ := map_word_eq_ok hw'
    simp only [Word.apply, State.drain, roundsToZero_congr _ h]
  | transfer ho hs hd =>
    obtain ⟨o, a, b, rfl, rfl, rfl, rfl⟩ := encode_transfer hw
    obtain ⟨o', a', b', rfl, rfl, rfl, rfl⟩ := encode_transfer hw'
    have hplace := address_congr (ho.add_left s.pointer)
    have hsum := fun (v : UInt8) (count : ℕ) => wordCell_congr v (mul_congr count hd)
    simp only [Word.apply, State.transfer, roundsToZero_congr _ hs, hsize, hplace, hsum]

theorem step_congruent (h : List.Forall₂ (Item.Congruent (2 ^ k)) program program')
    (hcode : encode program = .ok code) (hcode' : encode program' = .ok code')
    (hsize : s.tape.size = 2 ^ k) : step code' s = step code s := by
  have hlen : code'.size = code.size := by
    rw [← Array.length_toList, ← Array.length_toList, ← (forall₂_of_encode hcode).length_eq,
      ← (forall₂_of_encode hcode').length_eq, h.length_eq]
  rw [step, step]
  cases hw : code[s.pc]? with
  | none => rw [Array.getElem?_eq_none (hlen ▸ Array.getElem?_eq_none_iff.mp hw)]
  | some w =>
    obtain ⟨x, hx, hencode⟩ := item_of_word hcode hw
    obtain ⟨x', hx', hcongruent⟩ := forall₂_getElem? h hx
    obtain ⟨w', hw', hencode'⟩ := word_of_item hcode' hx'
    rw [hw']
    cases hcongruent with
    | instr hop => exact hop.apply (side_of_congruent h) hsize hencode hencode'
    | foreign => cases hencode

/-- No word changes the size of the tape, wherever the pointer is. -/
theorem apply_size (h : w.apply s = .next t) : t.tape.size = s.tape.size := by
  cases w with
  | add | move | clear =>
    cases h
    simp
  | input | output => cases h
  | opening target | closing target =>
    cases target with
    | none => cases h
    | some target =>
      rw [← Progress.next.inj h]
      split <;> rfl
  | scanLeft | scanRight =>
    simp only [Word.apply, State.scanBy] at h
    split at h
    · cases h
      rfl
    · split at h <;> cases h <;> rfl
  | drain | transfer =>
    simp only [Word.apply, State.drain, State.transfer] at h
    split at h
    · cases h
      rfl
    · split at h <;> cases h
      simp

theorem step_size (h : step code s = .next t) : t.tape.size = s.tape.size := by
  rw [step] at h
  cases hw : code[s.pc]? with
  | none => rw [hw] at h; cases h
  | some w =>
    rw [hw] at h
    exact apply_size h

/-- **Congruent programs have the same runs.** On a tape whose size is a power of two they stop
after the same number of instructions, in the same state and for the same reason, or never. -/
theorem runToStop_congruent (h : List.Forall₂ (Item.Congruent (2 ^ k)) program program')
    (hcode : encode program = .ok code) (hcode' : encode program' = .ok code')
    (hsize : s.tape.size = 2 ^ k) (budget : ℕ) :
    runToStop code' budget s = runToStop code budget s := by
  have hrun : runToStop code' budget (id s) = (runToStop code budget s).map (Prod.map id id) :=
    runToStop_map (fun _ _ ht hnext => (step_size hnext).trans ht)
      (fun t ht => (step_congruent h hcode hcode' ht).trans (Progress.map_id _).symm) hsize budget
  rwa [Prod.map_id, Option.map_id, id, id] at hrun

end Programs

end TapeMachine
