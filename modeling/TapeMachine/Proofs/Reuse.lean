import TapeMachine.Proofs.Diagnosis

/-! # Using a compiler again

A compiler that is used again and again gives what a new one would give for each
call, whatever the calls before it came to (`compile_reused`). What it remembers
is the last source that could be read, together with what condensing made of it
at the level of the same call. A compiler works by stages and stores the two one
after the other, but nothing can fail between them (`stages_eq`). -/
namespace TapeMachine.Compiler

/-- A call of a compiler. -/
structure Call where
  source : String
  request : Value

namespace Call

/-- The request that a call comes to: its own, or else the level of the compiler. -/
def effective (level : Level) (call : Call) : Value :=
  match call.request with
  | .absent => .int level.toNat
  | request => request

/-- Whether a call has a level, and a source that can be read to instructions. -/
structure Reads (own : Level) (call : Call) (level : Level) (instructions : List Instruction) :
    Prop where
  level : Level.requested (call.effective own) = .ok level
  source : Source.read call.source = .ok instructions

end Call

/-- The compiler that is made for a request. -/
def made (request : Value) : Except Refusal Compiler := (Level.requested request).map ofLevel

/-- What each of a number of calls gives, and the compiler it leaves. -/
def compileAll (c : Compiler) : List Call → List (Except Failure (List Item) × Compiler)
  | [] => []
  | call :: rest =>
    let result := c.compile call.source call.request
    result :: compileAll result.2 rest

/-- What a compiler gives that is made for a level and called once. -/
def once (source : String) (request : Value) : Except Failure (List Item) := do
  let c ← (made request).mapError .refusal
  (c.compile source .absent).1

/-- What a compiler remembers after a number of calls: the last one that could be read, and
nothing if there was none. -/
inductive Recalls (own : Level) (calls : List Call) : Compiler → Prop
  | nothing : (∀ call ∈ calls, ∀ level instructions, ¬ call.Reads own level instructions) →
      Recalls own calls (ofLevel own)
  | last {before after : List Call} {call : Call} {level : Level}
      {instructions : List Instruction} : calls = before ++ call :: after →
      call.Reads own level instructions →
      (∀ later ∈ after, ∀ level instructions, ¬ later.Reads own level instructions) →
      Recalls own calls ⟨own, instructions.map .instr, condense level (instructions.map .instr)⟩

section Calls

variable {c : Compiler} {own level : Level} {call : Call} {calls past : List Call}
  {instructions : List Instruction} {source : String} {request : Value}

/-! ## One call -/

theorem requested_toNat (level : Level) : Level.requested (.int level.toNat) = .ok level := by
  cases level <;> rfl

theorem levelFor_eq (c : Compiler) (call : Call) :
    c.levelFor call.request = Level.requested (call.effective c.level) := by
  obtain ⟨source, request⟩ := call
  cases request with
  | absent => exact (requested_toNat c.level).symm
  | truth | int | real | text | list | record => rfl

theorem compile_of_reads (h : call.Reads c.level level instructions) :
    c.compile call.source call.request =
      (link call.source (condense level (instructions.map .instr)),
        ⟨c.level, instructions.map .instr, condense level (instructions.map .instr)⟩) := by
  rw [compile, levelFor_eq, h.level]
  simp only [Compilation.ofSource, h.source, Except.map]

/-- Any other call fails, and leaves the compiler as it was. -/
theorem compile_of_not_reads (h : ∀ level instructions, ¬ call.Reads c.level level instructions) :
    (c.compile call.source call.request).2 = c := by
  rw [compile, levelFor_eq]
  cases hlevel : Level.requested (call.effective c.level) with
  | error refusal => rfl
  | ok level =>
    cases hread : Source.read call.source with
    | error fault => simp only [Compilation.ofSource, hread, Except.map]
    | ok instructions => exact absurd ⟨hlevel, hread⟩ (h level instructions)

/-- A call gives what its request alone would give. -/
theorem compile_answer (c : Compiler) (call : Call) : (c.compile call.source call.request).1 =
    compileAt call.source (call.effective c.level) := by
  rw [compile, levelFor_eq]
  cases hlevel : Level.requested (call.effective c.level) with
  | error refusal => exact (compileAt_of_refused hlevel).symm
  | ok level =>
    rw [compileAt_of_requested hlevel, TapeMachine.compile]
    cases hsource : Compilation.ofSource call.source level <;> simp only [hsource] <;> rfl

theorem made_eq_ok (h : made request = .ok c) :
    ∃ level, Level.requested request = .ok level ∧ c = ofLevel level := by
  rw [made] at h
  cases hlevel : Level.requested request with
  | error refusal => rw [hlevel] at h; cases h
  | ok level =>
    rw [hlevel] at h
    exact ⟨level, rfl, (Except.ok.inj h).symm⟩

theorem compileAt_eq_once : compileAt source request = once source request := by
  cases hlevel : Level.requested request with
  | error refusal =>
    rw [once, made, hlevel]
    exact compileAt_of_refused hlevel
  | ok level =>
    have hanswer := compile_answer (ofLevel level) ⟨source, .absent⟩
    rw [once, made, hlevel, compileAt_of_requested hlevel,
      ← compileAt_of_requested (requested_toNat level)]
    exact hanswer.symm

/-! ## Stages -/

/-- Compiling by stages. What a stage gives is stored at once, and stays when a later one fails. -/
def stages (source : String) (request : Value) : EStateM Failure Compiler (List Item) := do
  let level ← MonadExcept.ofExcept (((← get).levelFor request).mapError .refusal)
  let instructions ← MonadExcept.ofExcept (Source.read source)
  modify ({ · with primitives := instructions.map .instr })
  modify fun c => { c with condensed := condense level c.primitives }
  MonadExcept.ofExcept (link source (← get).condensed)

/-- A result in the form that stages give it. -/
def staged {α : Type} : Except Failure α × Compiler → EStateM.Result Failure Compiler α
  | (.ok a, c) => .ok a c
  | (.error e, c) => .error e c

theorem ofExcept_eq {α : Type} (x : Except Failure α) (c : Compiler) :
    (MonadExcept.ofExcept x : EStateM Failure Compiler α) c = staged (x, c) := by
  cases x <;> rfl

/-- **A compiler compiles by stages.** -/
theorem stages_eq (c : Compiler) :
    (stages source request).run c = staged (c.compile source request) := by
  rw [compile]
  show EStateM.bind (MonadExcept.ofExcept ((c.levelFor request).mapError Failure.refusal)) _ c = _
  rw [EStateM.bind]
  cases hlevel : c.levelFor request with
  | error refusal => rfl
  | ok level =>
    cases hread : Source.read source with
    | error fault =>
      simp only [Compilation.ofSource, hread, Except.map]
      rfl
    | ok instructions =>
      simp only [Compilation.ofSource, hread, Except.map]
      exact ofExcept_eq _ _

/-! ## Sequences of calls -/

theorem Recalls.level_eq (h : Recalls own past c) : c.level = own := by
  cases h <;> rfl

/-- **A call is remembered if it could be read, and else nothing changes.** -/
theorem Recalls.step (h : Recalls own past c) (call : Call) :
    Recalls own (past ++ [call]) (c.compile call.source call.request).2 := by
  obtain rfl := h.level_eq
  by_cases hreads : ∃ level instructions, call.Reads c.level level instructions
  · obtain ⟨level, instructions, hcall⟩ := hreads
    rw [compile_of_reads hcall]
    exact .last rfl hcall nofun
  · simp only [not_exists] at hreads
    have hlast : ∀ later ∈ [call], ∀ level instructions, ¬ later.Reads c.level level instructions :=
      List.forall_mem_singleton.mpr hreads
    rw [compile_of_not_reads hreads]
    generalize c.level = own at *
    cases h with
    | nothing hnone => exact .nothing (List.forall_mem_append.mpr ⟨hnone, hlast⟩)
    | last hpast hcall hnone =>
      have hmore := congrArg (· ++ [call]) hpast
      rw [List.append_assoc, List.cons_append] at hmore
      exact .last hmore hcall (List.forall_mem_append.mpr ⟨hnone, hlast⟩)

/-- A whole sequence of calls. -/
theorem Recalls.compileAll (h : Recalls own past c) {k : ℕ} (hk : calls[k]? = some call) :
    ∃ d, (c.compileAll calls)[k]? = some (compileAt call.source (call.effective own), d) ∧
      Recalls own (past ++ calls.take (k + 1)) d := by
  induction calls generalizing c past k with
  | nil => cases hk
  | cons first rest ih =>
    have hstep := h.step first
    cases k with
    | zero =>
      obtain rfl := Option.some.inj hk
      refine ⟨_, ?_, hstep⟩
      rw [← h.level_eq, ← compile_answer]
      rfl
    | succ k =>
      obtain ⟨d, hd, hrecalls⟩ := ih hstep hk
      refine ⟨d, hd, ?_⟩
      rwa [List.append_assoc] at hrecalls

theorem length_compileAll (c : Compiler) (calls : List Call) :
    (c.compileAll calls).length = calls.length := by
  induction calls generalizing c with
  | nil => rfl
  | cons call calls ih => rw [compileAll, List.length_cons, List.length_cons, ih]

end Calls

/-- **Calls of one compiler do not interfere.** Each gives what a compiler gives that is made for
the level of the call and called once. After each the compiler remembers what came of the last
source that could be read: its instructions, and these condensed to the level of the same call,
even if they could not be linked. This is so although every call stores the two by stages. -/
theorem compile_reused (request : Value) (c : Compiler) (hmade : made request = .ok c)
    (calls : List Call) : (c.compileAll calls).length = calls.length ∧
    ∀ k call, calls[k]? = some call → ∃ answer d,
      (c.compileAll calls)[k]? = some (answer, d) ∧
      answer = compileAt call.source (call.effective c.level) ∧
      answer = once call.source (call.effective c.level) ∧
      Recalls c.level (calls.take (k + 1)) d ∧
      ∀ d : Compiler, (stages call.source call.request).run d =
        staged (d.compile call.source call.request) := by
  obtain ⟨level, -, rfl⟩ := made_eq_ok hmade
  refine ⟨length_compileAll _ calls, fun k call hcall => ?_⟩
  have hnew : Recalls level [] (ofLevel level) := .nothing nofun
  obtain ⟨d, hd, hrecalls⟩ := hnew.compileAll hcall
  exact ⟨_, d, hd, rfl, compileAt_eq_once, hrecalls, stages_eq⟩

/-- Calls of a compiler for folded streams: one that reads but cannot link, one that cannot read and
one that asks for no level. -/
def failingCalls : List Call := [⟨"+[", .absent⟩, ⟨"+ ", .int 0⟩, ⟨"+", .text "x"⟩]

theorem compile_reused_failingCalls :
    made (.int 1) = .ok (ofLevel .folded) ∧
      ((ofLevel .folded).compileAll failingCalls).length = 3 ∧
      ∃ answer d, ((ofLevel .folded).compileAll failingCalls)[2]? = some (answer, d) ∧
        answer = compileAt "+" (.text "x") ∧ answer = once "+" (.text "x") ∧
        Recalls .folded failingCalls d ∧
        ∀ d : Compiler, (stages "+" (.text "x")).run d = staged (d.compile "+" (.text "x")) := by
  have hmade : made (.int 1) = .ok (ofLevel .folded) := rfl
  obtain ⟨hlength, hcalls⟩ := compile_reused (.int 1) _ hmade failingCalls
  exact ⟨hmade, hlength, hcalls 2 ⟨"+", .text "x"⟩ rfl⟩

end TapeMachine.Compiler
