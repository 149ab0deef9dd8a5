import Myctk.Ssexpr2.Eval

/-! Divisions: where the evaluation of an expression ends the process. -/

namespace Myctk.Ssexpr2

open Eval Option

def NoQuotient (l r : Word) : Prop := r = 0 ∨ (l = BitVec.intMin 64 ∧ r = -1)

lemma dividing_eq_none {f : Word → Word → Word} {l r : Word} : dividing f l r = none ↔ NoQuotient l r := by
  unfold dividing NoQuotient
  split
  next bad => exact iff_of_true rfl bad
  next good => exact iff_of_false (some_ne_none _) good

def Undivided (m : Memory) (op : Optoken) (left right : Value) : Prop :=
  (op = .divide ∨ op = .modulus) ∧ (normValue m left).type = vInt64Value ∧ (normValue m right).type = vInt64Value ∧
    NoQuotient (normValue m left).val (normValue m right).val

variable {m : Memory} {left right : Value}

lemma normValue_of_error {v : Value} (error : v.type = 0) : (normValue m v).type ≠ vInt64Value := by
  simp [normValue, error]

lemma doArithmetic_eq_none {double : Float → Float → Float} {int : Word → Word → Option Word} :
    doArithmetic double int left right = none ↔
      left.type = vInt64Value ∧ right.type = vInt64Value ∧ int left.val right.val = none := by
  unfold doArithmetic
  split_ifs <;> simp_all

lemma doModulus_eq_none : doModulus left right = none ↔
      left.type = vInt64Value ∧ right.type = vInt64Value ∧ NoQuotient left.val right.val := by
  unfold doModulus
  split
  next both => simp [both, dividing_eq_none]
  next other =>
    refine iff_of_false (some_ne_none _) fun here => other ⟨here.1, here.2.1⟩

lemma calcPairValue_eq_none {op : Optoken} : calcPairValue m left right op = none ↔ Undivided m op left right := by
  unfold calcPairValue Undivided
  by_cases lerror : left.type = 0
  · rw [if_pos lerror]
    exact iff_of_false (some_ne_none _) fun bad => normValue_of_error lerror bad.2.1
  by_cases rerror : right.type = 0
  · rw [if_neg lerror, if_pos rerror]
    exact iff_of_false (some_ne_none _) fun bad => normValue_of_error rerror bad.2.2.1
  rw [if_neg lerror, if_neg rerror]
  cases op with
  | divide => simp [doDivide, doArithmetic_eq_none, dividing_eq_none]
  | modulus => simp [doModulus_eq_none]
  | plus => simp [doAdd, doArithmetic_eq_none]
  | minus => simp [doMinus, doArithmetic_eq_none]
  | times => simp [doMultiply, doArithmetic_eq_none]
  | _ => simp

variable {ω : Type}

namespace Eval
variable {α β : Type} {w : ω}

lemma bind_eq_trapped {x : Eval ω α} {f : α → Eval ω β} :
    x.bind f w = some .trapped ↔ x w = some .trapped ∨ ∃ a w', x w = some (.value a w') ∧ f a w' = some .trapped := by
  unfold bind
  rcases x w with _ | (⟨a, w'⟩ | w' | _) <;> simp

lemma ofCall_eq_trapped {f : ω → Option (α × ω)} : ofCall f w = some .trapped ↔ f w = none := by
  unfold ofCall
  rcases f w with _ | ⟨a, w'⟩ <;> simp

lemma pure_ne_trapped {a : α} : (pure a : Eval ω α) w ≠ some .trapped := by
  simp [pure]

end Eval

structure Callees.Return (c : Callees ω) : Prop where
  functions : ∀ functor args w, (c.functions functor args w).isSome
  members : ∀ address vtype obj w, (c.members address vtype obj w).isSome

section
variable (memory : ω → Memory) (c : Callees ω) (obj ctx : Word)

mutual

def Operand.Divides : Operand → ω → Prop
  | .condExpr lhs rhsTrue rhsFalse, w =>
    lhs.Divides w ∨ ∃ v w₁, eval memory c obj ctx lhs w = some (.value v w₁) ∧
      ∃ b w₂, test c v w₁ = some (.value b w₂) ∧ if b.val = 0 then rhsFalse.Divides w₂ else rhsTrue.Divides w₂
  | .funcCall _ args, w => args.Divides w
  | .unary _ operand, w => operand.Divides w
  | .expression first rest, w =>
    first.Divides w ∨ ∃ v w', eval memory c obj ctx first w = some (.value v w') ∧ rest.Divides v w'
  | _, _ => False

def Operands.Divides : Operands → ω → Prop
  | .nil, _ => False
  | .cons arg args, w => arg.Divides w ∨ ∃ v w', eval memory c obj ctx arg w = some (.value v w') ∧ args.Divides w'

/-- The right operand of `&&` and `||` counts where it is evaluated. -/
def Operations.Divides : Operations → Value → ω → Prop
  | .nil, _, _ => False
  | .cons op operand rest, v, w =>
    (if op = .and ∨ op = .or then
        ∃ left w₁, test c v w = some (.value left w₁) ∧ ¬ shortCircuits op left ∧ operand.Divides w₁
      else operand.Divides w ∨
        ∃ right w₁, eval memory c obj ctx operand w = some (.value right w₁) ∧ Undivided (memory w₁) op v right) ∨
    ∃ v' w', operate memory c op v (eval memory c obj ctx operand) w = some (.value v' w') ∧ rest.Divides v' w'

end

end

section
variable {memory : ω → Memory} {c : Callees ω} {obj ctx : Word}

lemma evalPair_eq_trapped {op : Optoken} {left right : Value} {w : ω} :
    evalPair memory op left right w = some .trapped ↔ Undivided (memory w) op left right := by
  rw [evalPair, ofCall_eq_trapped, map_eq_none_iff, calcPairValue_eq_none]

lemma evalAccesses_returns (returns : c.Return) (accesses : List Access) (v : Value) (w : ω) :
    evalAccesses memory c accesses v w ≠ some .trapped := by
  induction accesses generalizing v w with
  | nil => exact pure_ne_trapped
  | cons access rest ih =>
    rw [evalAccesses, Ne, bind_eq_trapped]
    rintro (trapped | ⟨a, w', -, trapped⟩)
    · cases access with
      | embedded vtype offset => exact pure_ne_trapped trapped
      | pointer vtype offset => simp [evalAccess] at trapped
      | function vtype address =>
        rw [evalAccess, ofCall_eq_trapped, map_eq_none_iff] at trapped
        have := returns.members address vtype v.val w
        rw [trapped] at this
        cases this
    · exact ih a w' trapped

lemma test_ne_trapped {v : Value} {w : ω} : test c v w ≠ some .trapped := by
  unfold test
  split_ifs <;> simp

lemma operate_eq_trapped {op : Optoken} {left : Value} {right : Eval ω Value} {w : ω} :
    operate memory c op left right w = some .trapped ↔ if op = .and ∨ op = .or then
        ∃ left' w₁, test c left w = some (.value left' w₁) ∧ ¬ shortCircuits op left' ∧ right w₁ = some .trapped
      else right w = some .trapped ∨ ∃ r w₁, right w = some (.value r w₁) ∧ Undivided (memory w₁) op left r := by
  unfold operate
  split
  next logical =>
    have never {m : Memory} {l r : Value} : ¬ Undivided m op l r := fun bad => by
      obtain rfl | rfl := logical <;> cases bad.1 <;> contradiction
    rw [bind_eq_trapped]
    simp only [test_ne_trapped, false_or]
    refine exists_congr fun left' => exists_congr fun w₁ => and_congr_right fun _ => ?_
    split
    next short => simp [short, pure_ne_trapped]
    next long => simp [long, bind_eq_trapped, evalPair_eq_trapped, never]
  next other => simp [bind_eq_trapped, evalPair_eq_trapped]

mutual

theorem eval_eq_trapped (returns : c.Return) (e : Operand) (w : ω) :
    eval memory c obj ctx e w = some .trapped ↔ e.Divides memory c obj ctx w := by
  match e with
  | .int64 _ | .double _ | .bool _ | .string _ =>
    simp [eval, Operand.Divides, pure_ne_trapped]
  | .variable accesses => simp [eval, Operand.Divides, evalAccesses_returns returns]
  | .dynamicVariable name => simp [eval, Operand.Divides]
  | .condExpr lhs rhsTrue rhsFalse =>
    rw [eval, bind_eq_trapped, eval_eq_trapped returns lhs, Operand.Divides]
    refine or_congr_right (exists_congr fun v => exists_congr fun w₁ => and_congr_right fun _ => ?_)
    rw [bind_eq_trapped]
    simp only [test_ne_trapped, false_or]
    refine exists_congr fun b => exists_congr fun w₂ => and_congr_right fun _ => ?_
    split
    · exact eval_eq_trapped returns rhsFalse w₂
    · exact eval_eq_trapped returns rhsTrue w₂
  | .funcCall functor args =>
    rw [eval, bind_eq_trapped, evalArgs_eq_trapped returns args, Operand.Divides]
    refine or_iff_left ?_
    rintro ⟨vs, w', -, trapped⟩
    have := returns.functions functor vs w'
    rw [ofCall_eq_trapped.mp trapped] at this
    cases this
  | .unary op operand =>
    rw [eval, bind_eq_trapped, eval_eq_trapped returns operand, Operand.Divides]
    simp [evalUnary]
  | .expression first rest =>
    rw [eval, bind_eq_trapped, eval_eq_trapped returns first, Operand.Divides]
    exact or_congr_right (exists_congr fun v => exists_congr fun w' => and_congr_right fun _ =>
      evalRest_eq_trapped returns rest v w')

theorem evalArgs_eq_trapped (returns : c.Return) (args : Operands) (w : ω) :
    evalArgs memory c obj ctx args w = some .trapped ↔ args.Divides memory c obj ctx w := by
  match args with
  | .nil => simp [evalArgs, Operands.Divides, pure_ne_trapped]
  | .cons arg args =>
    rw [evalArgs, bind_eq_trapped, eval_eq_trapped returns arg, Operands.Divides]
    refine or_congr_right (exists_congr fun v => exists_congr fun w' => and_congr_right fun _ => ?_)
    rw [bind_eq_trapped, evalArgs_eq_trapped returns args]
    simp [pure_ne_trapped]

theorem evalRest_eq_trapped (returns : c.Return) (rest : Operations) (v : Value) (w : ω) :
    evalRest memory c obj ctx rest v w = some .trapped ↔ rest.Divides memory c obj ctx v w := by
  match rest with
  | .nil => simp [evalRest, Operations.Divides, pure_ne_trapped]
  | .cons op operand rest =>
    rw [evalRest, bind_eq_trapped, operate_eq_trapped, Operations.Divides]
    simp [eval_eq_trapped returns operand, evalRest_eq_trapped returns rest]

end

end

end Myctk.Ssexpr2
