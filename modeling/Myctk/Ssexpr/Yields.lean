import Myctk.Ssexpr.Agreement

/-! A text of the common language in both libraries: the compiled code returns the value that the interpreter gives, as
    long as no minus sign changes a number and no `?:` tests what is not a bool. -/

namespace Myctk.Ssexpr
open Ssexpr2 List Ssexpr2.Value

variable {ω : Type} {x : X3} {names : Names} {mem : Memory} {options : ExprOptions} {out : Outside ω} {h : Helpers}
  {c : Callees ω} {text : List Byte} {a : Operand} {e' : Ssexpr2.Operand} {m : Machine ω} {address : Word} {stack : List Word}
  {v : Value}

mutual

theorem initOperand_common : ∀ {e : Operand}, e.Common → initOperand options e = 0
  | .int64 _, _ | .bool _, _ | .string _, _ => rfl
  | .unary _ operand, common => initOperand_common (e := operand) common.2
  | .condExpr lhs rhsTrue rhsFalse, ⟨test, yes, no⟩ => by
    simp only [initOperand, initOperand_common test, initOperand_common yes, initOperand_common no]
    rfl
  | .expression first rest, ⟨begins, each⟩ => by
    simp only [initOperand, initOperand_common begins, initRest_common each]
    rfl

theorem initRest_common : ∀ {rest : Operations}, rest.Common → initRest options rest = 0
  | .nil, _ => rfl
  | .cons _ operand rest, ⟨first, later⟩ => by
    simp only [initRest, initOperand_common first, initRest_common later]
    rfl

end

lemma IsCommon.eval_eq (common : IsCommon x text a) (visitor : Option (List (List Byte) → Value)) :
    eval options x visitor text = interpret (options.context visitor) (.expression a .nil) := by
  have initialised : initOperand options (.expression a .nil) = 0 := initOperand_common ⟨common.2, trivial⟩
  unfold eval init
  rw [common.1]
  dsimp only
  rw [if_pos initialised]

mutual

theorem conforms_common : ∀ {e : Operand} {e' : Ssexpr2.Operand}, e.Common → Resolves names mem e e' → e'.Conforms c
  | _, _, _, .int64 _ | _, _, _, .bool _ | _, _, _, .string _ => trivial
  | .unary _ _, _, common, .unary inner =>
    have operand := conforms_common common.2 inner
    operand
  | .condExpr _ _ _, _, ⟨common₁, common₂, common₃⟩, .condExpr test yes no =>
    ⟨conforms_common common₁ test, conforms_common common₂ yes, conforms_common common₃ no⟩
  | .expression _ _, _, ⟨common₁, common₂⟩, .expression begins each =>
    ⟨conforms_common common₁ begins, conformsRest_common common₂ each⟩

theorem conformsRest_common : ∀ {rest : Operations} {rest' : Ssexpr2.Operations}, rest.Common →
    ResolvesRest names mem rest rest' → rest'.Conforms c
  | _, _, _, .nil => trivial
  | .cons _ _ _, _, ⟨common₁, common₂⟩, .cons first later =>
    ⟨conforms_common common₁ first, conformsRest_common common₂ later⟩

end

structure Assembler where
  bytes : List Ssexpr2.Instr → Nat
  size_le : ∀ code, Ssexpr2.size code ≤ bytes code

def Returned (out : Outside ω) (m : Machine ω) (address : Word) (stack : List Word) (v : Value) (s : Status ω) : Prop :=
  ∃ w m', s = .returned address m' ∧ m.Back stack w m' ∧ Same (out.memory m'.world) v w

structure JitYields (x : X3) (names : Names) (asm : Assembler) (opt : Ssexpr2.ExprOptions) (out : Outside ω) (h : Helpers)
    (text : List Byte) (e' : Ssexpr2.Operand) (m : Machine ω) (address : Word) (stack : List Word) (v : Value) : Prop where
  accepted : ∃ first rest, phraseParse x Ssexpr2.additiveOp text = .matched first rest ∧
    Resolves names (out.memory m.world) (.expression first .nil) e'
  fits : asm.bytes (Ssexpr2.compile h e') ≤ opt.jitCodeSize
  returned : Lib.Eventually (Machine.step out (Ssexpr2.compile h e')) (Returned out m address stack v)
    (.running (Ssexpr2.compile h e') m)

lemma back_unique {w w' : Ssexpr2.Value} {m' : Machine ω} (back : m.Back stack w m') (back' : m.Back stack w' m') : w = w' := by
  rw [← ofWords_second w, ← ofWords_second w', ← back.rax, ← back.rdx, ← back'.rax, ← back'.rdx]

lemma returned_iff (follows : out.Follows h c) (small : Ssexpr2.size (Ssexpr2.compile h e') < 2 ^ 64)
    (conforms : e'.Conforms c) (called : m.stack = address :: stack) {o : Ssexpr2.Outcome Ssexpr2.Value ω}
    (evaluated : Ssexpr2.eval out.memory c (m.reg .rdi) (m.reg .rsi) e' m.world = some o) :
    Lib.Eventually (Machine.step out (Ssexpr2.compile h e')) (Returned out m address stack v)
        (.running (Ssexpr2.compile h e') m) ↔ ∃ w world, o = .value w world ∧ Same (out.memory world) v w := by
  have run := Ssexpr2.run_compile follows small conforms called evaluated
  constructor
  · intro there
    obtain ⟨s, ends, w, m', rfl, back, same⟩ := run.both there
      (fun t ends => by cases ends <;> rfl) (fun t ends => by obtain ⟨_, _, rfl, -⟩ := ends; rfl)
    cases ends with
    | value back' =>
      obtain rfl := back_unique back back'
      exact ⟨w, m'.world, rfl, same⟩
    | aborted back' =>
      obtain rfl := back_unique back back'
      exact absurd rfl same.type_ne_zero
  · rintro ⟨w, world, rfl, same⟩
    refine run.mono fun t ends => ?_
    cases ends with
    | value back => exact ⟨w, _, rfl, back, same⟩

/-- Where the interpreter gives a value, no minus sign on the way having changed a number, the compiled code returns the
    same value precisely when every `?:` on the way tests a bool and the code has room. -/
theorem jit_yields_iff (follows : out.Follows h c) (asm : Assembler) (opt : Ssexpr2.ExprOptions)
    (visitor : Option (List (List Byte) → Value)) (common : IsCommon x text a)
    (resolved : Resolves names (out.memory m.world) (.expression a .nil) e') (called : m.stack = address :: stack)
    (yields : eval options x visitor text = some v) (fine : v.isError = false)
    (signs : Every (options.context visitor) (SignKept (options.context visitor)) (.expression a .nil)) :
    JitYields x names asm opt out h text e' m address stack v ↔
      Every (options.context visitor) (TestIsBool (options.context visitor)) (.expression a .nil) ∧
        asm.bytes (Ssexpr2.compile h e') ≤ opt.jitCodeSize := by
  rw [common.eval_eq visitor] at yields
  have commonTree : (Operand.expression a .nil).Common := ⟨common.2, trivial⟩
  have evaluation : Matches (out.memory m.world) m.world v
      (Every (options.context visitor) (TestIsBool (options.context visitor)) (.expression a .nil))
      (Ssexpr2.eval out.memory c (m.reg .rdi) (m.reg .rsi) e' m.world) :=
    interpret_matches rfl _ commonTree resolved signs yields fine
  have conforms : e'.Conforms c := conforms_common commonTree resolved
  have small (fits : asm.bytes (Ssexpr2.compile h e') ≤ opt.jitCodeSize) : Ssexpr2.size (Ssexpr2.compile h e') < 2 ^ 64 := by
    have := asm.size_le (Ssexpr2.compile h e')
    have := opt.jitCodeSize_lt
    omega
  generalize evaluated : Ssexpr2.eval out.memory c (m.reg .rdi) (m.reg .rsi) e' m.world = o at evaluation
  constructor
  · intro there
    refine ⟨?_, there.fits⟩
    cases evaluation with
    | value bools same => exact bools
    | aborted other =>
      obtain ⟨_, _, result, -⟩ := (returned_iff follows (small there.fits) conforms called evaluated).mp there.returned
      cases result
  · rintro ⟨bools, fits⟩
    refine ⟨⟨a, [], common.phraseParse_eq, resolved⟩, fits, ?_⟩
    cases evaluation with
    | value _ same => exact (returned_iff follows (small fits) conforms called evaluated).mpr ⟨_, _, rfl, same⟩
    | aborted other => exact absurd bools other

/-! Texts without floating point numbers, and code that takes the most bytes an instruction can have. -/

def sampleOptions : ExprOptions := ⟨fun _ => none, none, none⟩

def sampleAssembler : Assembler := ⟨fun code => 15 * Ssexpr2.size code, fun _ => by omega⟩

def sampleNames : Names := ⟨fun _ => none, fun _ => none⟩

def levels (e : Operand) : Operand :=
  .expression (.expression (.expression (.expression (.expression e .nil) .nil) .nil) .nil) .nil

def levels2 (e : Ssexpr2.Operand) : Ssexpr2.Operand :=
  .expression (.expression (.expression (.expression (.expression e .nil) .nil) .nil) .nil) .nil

lemma resolves_levels {e : Operand} (inner : Resolves names mem e e') : Resolves names mem (levels e) (levels2 e') :=
  .expression (.expression (.expression (.expression (.expression inner .nil) .nil) .nil) .nil) .nil

lemma every_levels {ctx : EvalContext} {P : Operand → Prop} (others : ∀ first rest, P (.expression first rest)) {e : Operand}
    (inner : Every ctx P e) : Every ctx P (levels e) := by
  have one {e : Operand} (inner : Every ctx P e) : Every ctx P (.expression e .nil) := by
    intro operand member
    rcases mem_append.mp member with here | here
    · rcases mem_cons.mp here with rfl | here
      · exact others _ _
      · exact inner operand here
    · split at here <;> cases here
  exact one (one (one (one (one inner))))

/-- `-(1)`. -/
def minusOneText : List Byte := ['-', '(', '1', ')'].map ch

def minusOne : Operand := levels (.unary .negative (levels (.int64 1)))

def minusOne2 : Ssexpr2.Operand := .expression (levels2 (.unary .negative (levels2 (.int64 1)))) .nil

theorem minus_sign_ignored :
    IsCommon noDoubles minusOneText minusOne ∧
      Resolves sampleNames Ssexpr2.sampleMemory (.expression minusOne .nil) minusOne2 ∧
      eval sampleOptions noDoubles none minusOneText = some (.int64 (-1)) ∧
      ¬ JitYields noDoubles sampleNames sampleAssembler ⟨8192, by decide⟩ Ssexpr2.sampleOutside Ssexpr2.sampleHelpers
        minusOneText minusOne2 Ssexpr2.sampleMachine 77 [] (.int64 (-1)) := by
  refine ⟨⟨rfl, ?_⟩, ?_, rfl, fun there => ?_⟩
  · simp [minusOne, levels, Operand.Common, Operations.Common]
  · exact .expression (resolves_levels (.unary (resolves_levels (.int64 1)))) .nil
  · have evaluated : Ssexpr2.eval Ssexpr2.sampleOutside.memory Ssexpr2.sampleCallees 0 0 minusOne2 () =
        some (.value ⟨1, Ssexpr2.vInt64Value, 0⟩ ()) := rfl
    have conforms : minusOne2.Conforms Ssexpr2.sampleCallees := by
      simp [minusOne2, levels2, Ssexpr2.Operand.Conforms, Ssexpr2.Operations.Conforms]
    obtain ⟨_, _, result, same⟩ :=
      (returned_iff Ssexpr2.sampleOutside_follows (by decide) conforms rfl evaluated).mp there.returned
    cases result
    have same : (⟨1, Ssexpr2.vInt64Value, 0⟩ : Ssexpr2.Value) = ⟨-1, Ssexpr2.vInt64Value, 0⟩ := same
    exact absurd same (by decide)

/-- `true ? -(0) : 7`. -/
def condText : List Byte :=
  ['t', 'r', 'u', 'e', ' ', '?', ' ', '-', '(', '0', ')', ' ', ':', ' ', '7'].map ch

def cond : Operand :=
  .condExpr (levels (.bool true)) (levels (.unary .negative (levels (.int64 0)))) (levels (.int64 7))

def cond2 : Ssexpr2.Operand :=
  .expression (.condExpr (levels2 (.bool true)) (levels2 (.unary .negative (levels2 (.int64 0)))) (levels2 (.int64 7))) .nil

theorem jit_yields_iff_cond :
    eval sampleOptions noDoubles none condText = some (.int64 0) ∧
      JitYields noDoubles sampleNames sampleAssembler ⟨8192, by decide⟩ Ssexpr2.sampleOutside Ssexpr2.sampleHelpers
        condText cond2 Ssexpr2.sampleMachine 77 [] (.int64 0) := by
  have yields : eval sampleOptions noDoubles none condText = some (.int64 0) := rfl
  have common : IsCommon noDoubles condText cond := by
    refine ⟨rfl, ?_⟩
    simp [cond, levels, Operand.Common, Operations.Common]
  have resolved : Resolves sampleNames Ssexpr2.sampleMemory (.expression cond .nil) cond2 :=
    .expression (.condExpr (resolves_levels (.bool true)) (resolves_levels (.unary (resolves_levels (.int64 0))))
      (resolves_levels (.int64 7))) .nil
  have every {P : Operand → Prop} (expressions : ∀ first rest, P (.expression first rest)) (numbers : ∀ n, P (.int64 n))
      (bools : ∀ b, P (.bool b)) (here : P cond) (sign : P (.unary .negative (levels (.int64 0)))) :
      Every (sampleOptions.context none) P (.expression cond .nil) := by
    refine (every_expression rfl).mpr ⟨expressions _ _, (every_condExpr (b := true) rfl).mpr ⟨here, ?_, ?_⟩,
      forall_mem_nil _⟩
    · exact every_levels expressions (forall_mem_singleton.mpr (bools true))
    · refine every_levels expressions (every_unary.mpr ⟨sign, ?_⟩)
      exact every_levels expressions (forall_mem_singleton.mpr (numbers 0))
  refine ⟨yields, (jit_yields_iff Ssexpr2.sampleOutside_follows sampleAssembler ⟨8192, by decide⟩ none common resolved rfl
    yields rfl ?_).mpr ⟨?_, by decide⟩⟩
  · refine every (fun _ _ => trivial) (fun _ => trivial) (fun _ => trivial) trivial fun n zero => ?_
    cases zero
    rfl
  · exact every (fun _ _ => trivial) (fun _ => trivial) (fun _ => trivial) ⟨true, rfl⟩ trivial

end Myctk.Ssexpr
