import Mathlib.Data.BitVec
import Myctk.Lib.Assembly

/-! Values of expressions (`ssexpr2/jit_struct.h`) and the functions that compiled code calls to work on them
    (`ssexpr2/spirit_jit_expression.cpp`). -/

namespace Myctk.Ssexpr2
open BitVec

abbrev Word := BitVec 64

abbrev vChar : BitVec 32 := 1
abbrev vBool : BitVec 32 := 2
abbrev vUint8 : BitVec 32 := 3
abbrev vInt16 : BitVec 32 := 4
abbrev vUint16 : BitVec 32 := 5
abbrev vInt32 : BitVec 32 := 6
abbrev vUint32 : BitVec 32 := 7
abbrev vInt64 : BitVec 32 := 8
abbrev vUint64 : BitVec 32 := 9
abbrev vFloat : BitVec 32 := 10
abbrev vDouble : BitVec 32 := 11
abbrev vStdString : BitVec 32 := 12
abbrev vStdStringView : BitVec 32 := 13
abbrev vCstring : BitVec 32 := 14
abbrev vFlatbuffersString : BitVec 32 := 15
abbrev vBoolValue : BitVec 32 := 101
abbrev vUint8Value : BitVec 32 := 102
abbrev vInt16Value : BitVec 32 := 103
abbrev vUint16Value : BitVec 32 := 104
abbrev vInt32Value : BitVec 32 := 105
abbrev vUint32Value : BitVec 32 := 106
abbrev vInt64Value : BitVec 32 := 107
abbrev vUint64Value : BitVec 32 := 108
abbrev vFloatValue : BitVec 32 := 109
abbrev vDoubleValue : BitVec 32 := 110

abbrev errInvalidOperator : Word := 10001
abbrev errInvalidOperandType : Word := 10002
abbrev errNilVar : Word := 10008

inductive Optoken where
  | plus
  | minus
  | times
  | divide
  | positive
  | negative
  | not
  | equal
  | notEqual
  | less
  | lessEqual
  | greater
  | greaterEqual
  | and
  | or
  | modulus
  deriving DecidableEq

def Optoken.number : Optoken → Nat
  | plus => 0
  | minus => 1
  | times => 2
  | divide => 3
  | positive => 4
  | negative => 5
  | not => 6
  | equal => 7
  | notEqual => 8
  | less => 9
  | lessEqual => 10
  | greater => 11
  | greaterEqual => 12
  | and => 13
  | or => 14
  | modulus => 15

structure Value where
  val : Word
  type : BitVec 32
  len : BitVec 32
  deriving DecidableEq

namespace Value

/-- The second of the two words in which a value is passed: the type in its lower half, `len` in the upper one. -/
def second (v : Value) : Word := .ofNat 64 (v.len.toNat * 2 ^ 32 + v.type.toNat)

def ofWords (first second : Word) : Value := ⟨first, second.setWidth 32, .ofNat 32 (second.toNat / 2 ^ 32)⟩

def err (code : Word) : Value := ⟨code, 0, 0⟩

def ofBool (b : Bool) : Value := ⟨if b then 1 else 0, vBoolValue, 0⟩

end Value

structure Memory where
  byte : Word → BitVec 8
  stdString : Word → List (BitVec 8)
  cString : Word → List (BitVec 8)
  flatbuffersString : Word → List (BitVec 8)

/-- Zeros and empty strings, for examples. -/
def sampleMemory : Memory := ⟨fun _ => 0, fun _ => [], fun _ => [], fun _ => []⟩

namespace Memory

/-- The number in the `n` bytes at an address. -/
def read (m : Memory) : Nat → Word → Nat
  | 0, _ => 0
  | n + 1, a => (m.byte a).toNat + 256 * m.read n (a + 1)

def get (m : Memory) (address : BitVec 32) (n : Nat) (v : Value) : BitVec (8 * n) :=
  if v.type = address then .ofNat _ (m.read n v.val) else v.val.setWidth _

def getBool (m : Memory) (v : Value) : Bool := m.get vBool 1 v ≠ 0

def getString (m : Memory) (v : Value) : List (BitVec 8) :=
  if v.val = 0 then []
  else if v.type = vStdString then m.stdString v.val
  else if v.type = vStdStringView then (List.range v.len.toNat).map fun i => m.byte (v.val + .ofNat _ i)
  else if v.type = vFlatbuffersString then m.flatbuffersString v.val
  else m.cString v.val

end Memory

def toDouble (x : Word) : Float := .ofBits ⟨x⟩

def ofDouble (x : Float) : Word := x.toBits.toBitVec

def intToDouble (x : Word) : Float := (Int64.ofBitVec x).toFloat

section
variable (m : Memory)

def notValue (v : Value) : Value :=
  if v.type ≠ vBoolValue ∧ v.type ≠ vBool then { v with type := 0, val := errInvalidOperandType }
  else if v.type = vBoolValue then { v with val := 1 - v.val }
  else { v with type := vBoolValue, val := if m.getBool v then 0 else 1 }

def negValue (v : Value) : Value := v

/-- The integers become `int64_t` and the floating point numbers `double`; a `char` by value is left as it is. -/
def normValue (v : Value) : Value :=
  if v.type = vChar then { v with type := vInt64Value, val := (m.get vChar 1 v).signExtend 64 }
  else if v.type = vBool then { v with type := vBoolValue, val := if m.getBool v then 1 else 0 }
  else if v.type = vUint8 ∨ v.type = vUint8Value then { v with type := vInt64Value, val := (m.get vUint8 1 v).setWidth 64 }
  else if v.type = vUint16 ∨ v.type = vUint16Value then
    { v with type := vInt64Value, val := (m.get vUint16 2 v).setWidth 64 }
  else if v.type = vInt16 ∨ v.type = vInt16Value then
    { v with type := vInt64Value, val := (m.get vInt16 2 v).signExtend 64 }
  else if v.type = vInt32 ∨ v.type = vInt32Value then
    { v with type := vInt64Value, val := (m.get vInt32 4 v).signExtend 64 }
  else if v.type = vUint32 ∨ v.type = vUint32Value then
    { v with type := vInt64Value, val := (m.get vUint32 4 v).setWidth 64 }
  else if v.type = vUint64 ∨ v.type = vUint64Value then { v with type := vInt64Value, val := m.get vUint64 8 v }
  else if v.type = vInt64 then { v with type := vInt64Value, val := m.get vInt64 8 v }
  else if v.type = vFloat ∨ v.type = vFloatValue then
    { v with type := vDoubleValue, val := ofDouble (Float32.ofBits ⟨m.get vFloat 4 v⟩).toFloat }
  else if v.type = vDouble then { v with type := vDoubleValue, val := m.get vDouble 8 v }
  else v

/-! ### Operators

The families `doAdd`, `doMinus`, `doMultiply`, `doDivide` and `doEq`, `doNotEq`, `doLess`, `doLessEq`, `doGt`, `doGe`
differ in the operation only. -/

/-- An arithmetical operator; the result goes into the left value and keeps its `len`. -/
def doArithmetic (double : Float → Float → Float) (int : Word → Word → Option Word) (left right : Value) : Option Value :=
  if left.type = vDoubleValue then
    if right.type = vDoubleValue then
      some { left with val := ofDouble (double (toDouble left.val) (toDouble right.val)), type := vDoubleValue }
    else if right.type = vInt64Value then
      some { left with val := ofDouble (double (toDouble left.val) (intToDouble right.val)), type := vDoubleValue }
    else some (.err errInvalidOperandType)
  else if left.type = vInt64Value then
    if right.type = vDoubleValue then
      some { left with val := ofDouble (double (intToDouble left.val) (toDouble right.val)), type := vDoubleValue }
    else if right.type = vInt64Value then
      (int left.val right.val).map fun x => { left with val := x, type := vInt64Value }
    else some (.err errInvalidOperandType)
  else some (.err errInvalidOperandType)

def dividing (f : Word → Word → Word) (l r : Word) : Option Word :=
  if r = 0 ∨ (l = intMin 64 ∧ r = -1) then none else some (f l r)

def doAdd : Value → Value → Option Value := doArithmetic (· + ·) fun l r => some (l + r)
def doMinus : Value → Value → Option Value := doArithmetic (· - ·) fun l r => some (l - r)
def doMultiply : Value → Value → Option Value := doArithmetic (· * ·) fun l r => some (l * r)
def doDivide : Value → Value → Option Value := doArithmetic (· / ·) (dividing sdiv)

def doModulus (left right : Value) : Option Value :=
  if left.type = vInt64Value ∧ right.type = vInt64Value then
    (dividing srem left.val right.val).map fun x => { left with val := x, type := vInt64Value }
  else some (.err errInvalidOperandType)

def doAnd (left right : Value) : Value :=
  if left.type = vBoolValue ∧ right.type = vBoolValue then .ofBool (m.getBool left && m.getBool right)
  else .err errInvalidOperandType

def doOr (left right : Value) : Value :=
  if left.type = vBoolValue ∧ right.type = vBoolValue then .ofBool (m.getBool left || m.getBool right)
  else .err errInvalidOperandType

def isString (type : BitVec 32) : Bool :=
  type = vStdString || type = vStdStringView || type = vFlatbuffersString || type = vCstring

def doCompare (bool : Bool → Bool → Bool) (string : List (BitVec 8) → List (BitVec 8) → Bool)
    (double : Float → Float → Bool) (int : Int → Int → Bool) (left right : Value) : Value :=
  if left.type = vBoolValue then
    if right.type = vBoolValue then .ofBool (bool (m.getBool left) (m.getBool right)) else .err errInvalidOperandType
  else if isString left.type then
    if isString right.type then .ofBool (string (m.getString left) (m.getString right)) else .err errInvalidOperandType
  else if left.type = vDoubleValue then
    if right.type = vDoubleValue then .ofBool (double (toDouble left.val) (toDouble right.val))
    else if right.type = vInt64Value then .ofBool (double (toDouble left.val) (intToDouble right.val))
    else .err errInvalidOperandType
  else if left.type = vInt64Value then
    if right.type = vDoubleValue then .ofBool (double (intToDouble left.val) (toDouble right.val))
    else if right.type = vInt64Value then .ofBool (int left.val.toInt right.val.toInt)
    else .err errInvalidOperandType
  else .err errInvalidOperandType

def doEq : Value → Value → Value := doCompare m (· == ·) (· == ·) (· == ·) (· == ·)
def doNotEq : Value → Value → Value := doCompare m (· != ·) (· != ·) (· != ·) (· != ·)

def doLess : Value → Value → Value :=
  doCompare m (fun l r => l < r) (fun l r => l < r) (fun l r => l < r) fun l r => l < r

def doLessEq : Value → Value → Value :=
  doCompare m (fun l r => l ≤ r) (fun l r => ¬ r < l) (fun l r => l ≤ r) fun l r => l ≤ r

def doGt : Value → Value → Value :=
  doCompare m (fun l r => r < l) (fun l r => r < l) (fun l r => r < l) fun l r => r < l

def doGe : Value → Value → Value :=
  doCompare m (fun l r => r ≤ l) (fun l r => ¬ l < r) (fun l r => r ≤ l) fun l r => r ≤ l

/-- An operand that is an error is the result; `none` where the processor traps. -/
def calcPairValue (left right : Value) (op : Optoken) : Option Value :=
  if left.type = 0 then some left
  else if right.type = 0 then some right
  else
    let left := normValue m left
    let right := normValue m right
    match op with
    | .plus => doAdd left right
    | .minus => doMinus left right
    | .times => doMultiply left right
    | .divide => doDivide left right
    | .modulus => doModulus left right
    | .equal => some (doEq m left right)
    | .notEqual => some (doNotEq m left right)
    | .less => some (doLess m left right)
    | .lessEqual => some (doLessEq m left right)
    | .greater => some (doGt m left right)
    | .greaterEqual => some (doGe m left right)
    | .and => some (doAnd m left right)
    | .or => some (doOr m left right)
    | .positive | .negative | .not => some (.err errInvalidOperator)

end

/-! The machine that compiled expressions run on: registers, the zero flag, a stack and what lies outside. -/

inductive Reg where
  | rax
  | rbx
  | rcx
  | rdx
  | rsi
  | rdi
  | rbp
  | r8
  | r9
  | r10
  | r11
  | r12
  | r13
  | r14
  | r15
  | xmm0
  deriving DecidableEq

def Reg.calleeSaved : Reg → Bool
  | rbx | rbp | r12 | r13 | r14 | r15 => true
  | _ => false

inductive Label where
  | condTestPtr (n : Nat)
  | condTestValue (n : Nat)
  | condTestTrue (n : Nat)
  | condTestFalse (n : Nat)
  | condTestExit (n : Nat)
  | andOrPtr (n : Nat)
  | andOr (n : Nat)
  | fastRet (n : Nat)
  | ret (n : Nat)
  | errExit
  | errExitLoop
  | finalErrExit
  | okExit
  deriving DecidableEq

/-- The instructions that the generator uses. -/
inductive Instr where
  | push (r : Reg)
  | pop (r : Reg)
  | mov (dst src : Reg)
  | movImm (dst : Reg) (imm : Word)
  /-- `mov dst, [src]`. -/
  | load (dst src : Reg)
  | add (dst : Reg) (imm : Word)
  /-- `add rsp, 8 * words`. -/
  | addRsp (words : Nat)
  | inc (r : Reg)
  | dec (r : Reg)
  | cmp (r : Reg) (imm : Word)
  | cmp32 (r : Reg) (imm : BitVec 32)
  | je (l : Label)
  | jne (l : Label)
  | jmp (l : Label)
  | label (l : Label)
  | call (r : Reg)
  | ret

def Instr.label? : Instr → Option Label
  | label l => some l
  | _ => none

structure Machine (ω : Type) where
  reg : Reg → Word
  zf : Bool
  stack : List Word
  world : ω

structure Outside (ω : Type) where
  memory : ω → Memory
  call : Word → (Reg → Word) → List Word → ω → Option ((Reg → Word) × Bool × ω)

inductive Status (ω : Type) where
  | running (code : List Instr) (m : Machine ω)
  | returned (address : Word) (m : Machine ω)
  | trapped
  | stuck

namespace Machine
variable {ω : Type}

def set (m : Machine ω) (r : Reg) (x : Word) : Machine ω := { m with reg := Function.update m.reg r x }

def setFlag (m : Machine ω) (r : Reg) (x : Word) : Machine ω := { m.set r x with zf := x = 0 }

variable (out : Outside ω) (prog : List Instr)

def jump (l : Label) (m : Machine ω) : Status ω :=
  match Lib.codeAfter Instr.label? l prog with
  | some code => .running code m
  | none => .stuck

def exec (code : List Instr) (m : Machine ω) : Instr → Status ω
  | .push r => .running code { m with stack := m.reg r :: m.stack }
  | .pop r =>
    match m.stack with
    | [] => .stuck
    | x :: stack => .running code { m.set r x with stack }
  | .mov dst src => .running code (m.set dst (m.reg src))
  | .movImm dst imm => .running code (m.set dst imm)
  | .load dst src => .running code (m.set dst (.ofNat _ ((out.memory m.world).read 8 (m.reg src))))
  | .add dst imm => .running code (m.setFlag dst (m.reg dst + imm))
  | .addRsp words => .running code { m with stack := m.stack.drop words }
  | .inc r => .running code (m.setFlag r (m.reg r + 1))
  | .dec r => .running code (m.setFlag r (m.reg r - 1))
  | .cmp r imm => .running code { m with zf := m.reg r = imm }
  | .cmp32 r imm => .running code { m with zf := (m.reg r).setWidth 32 = imm }
  | .je l => if m.zf then jump prog l m else .running code m
  | .jne l => if m.zf then .running code m else jump prog l m
  | .jmp l => jump prog l m
  | .label _ => .running code m
  | .call r =>
    match out.call (m.reg r) m.reg m.stack m.world with
    | none => .trapped
    | some (reg, zf, world) => .running code { reg, zf, stack := m.stack, world }
  | .ret =>
    match m.stack with
    | [] => .stuck
    | address :: stack => .returned address { m with stack }

def step : Status ω → Status ω
  | .running (i :: code) m => m.exec out prog code i
  | .running [] _ => .stuck
  | s => s

end Machine

/-! The code generator (`CodeGenerator` and `SpiritExpression::Init`, `ssexpr2/spirit_jit_expression.cpp`). -/

/-- One step of a path to a member: a member that is embedded or held by pointer (`DEFINE_JIT_STRUCT`), or a member
    function (`DEFINE_JIT_STRUCT_HELPER`). -/
inductive Access where
  | embedded (vtype : BitVec 32) (offset : Word)
  | pointer (vtype : BitVec 32) (offset : Word)
  | function (vtype : BitVec 32) (address : Word)

mutual

inductive Operand where
  | int64 (n : Word)
  | double (bits : Word)
  | bool (b : Bool)
  | string (address : Word)
  | variable (accesses : List Access)
  | dynamicVariable (fullName : Word)
  | condExpr (lhs rhsTrue rhsFalse : Operand)
  | funcCall (functor : Word) (args : Operands)
  | unary (op : Optoken) (operand : Operand)
  | expression (first : Operand) (rest : Operations)

inductive Operands where
  | nil
  | cons (arg : Operand) (args : Operands)

inductive Operations where
  | nil
  | cons (op : Optoken) (operand : Operand) (rest : Operations)

end

def Operands.length : Operands → Nat
  | nil => 0
  | cons _ args => args.length + 1

structure Helpers where
  calcPairValue : Word
  notValue : Word
  negValue : Word
  findVarValue : Word

def pushRegisters : List Instr := [.push .rax, .push .rdx, .inc .r13]

def popPair (second first : Reg) : List Instr := [.pop second, .pop first, .dec .r13]

def popValue : List Instr := popPair .rdx .rax

def saveRegisterValue (v : Value) : List Instr := [.movImm .rdx (v.type.setWidth 64), .movImm .rax v.val]

def Access.code : Access → List Instr
  | embedded vtype offset => [.movImm .rdx (vtype.setWidth 64), .add .rax offset, .mov .rdi .rax]
  | pointer vtype offset => [.movImm .rdx (vtype.setWidth 64), .add .rax offset, .load .rax .rax, .mov .rdi .rax]
  | function vtype address =>
    [.movImm .rax address, .call .rax, .movImm .rdx (vtype.setWidth 64)] ++
      if vtype = vDoubleValue ∨ vtype = vFloatValue then [.mov .rax .xmm0, .mov .rdi .xmm0] else [.mov .rdi .rax]

def popArgs : Nat → List Instr
  | 0 => []
  | 1 => popPair .rsi .rdi
  | 2 => popPair .rcx .rdx ++ popPair .rsi .rdi
  | _ => popPair .r9 .r8 ++ popPair .rcx .rdx ++ popPair .rsi .rdi

def callUnary (address : Word) : List Instr := [.mov .rdi .rax, .mov .rsi .rdx, .movImm .rax address, .call .rax]

/-- The test of a condition and of a left operand of `&&` and `||`: a bool given by address is loaded, and what is no
    bool is an error. -/
def testOperand (ptr value : Label) : List Instr :=
  [.cmp32 .rdx vBool, .je ptr, .cmp32 .rdx vBoolValue, .je value, .movImm .r10 errInvalidOperandType, .jmp .errExit,
    .label ptr, .movImm .rdx (vBoolValue.setWidth 64), .load .rax .rax, .label value, .cmp .rax 0]

def testAndOr (op : Optoken) (n : Nat) : List Instr :=
  testOperand (.andOrPtr n) (.andOr n) ++ [if op = .and then .je (.fastRet n) else .jne (.fastRet n)]

def fastRet (op : Optoken) : List Instr :=
  if op = .and then [.movImm .rdx (vBoolValue.setWidth 64), .movImm .rax 0]
  else if op = .or then [.movImm .rdx (vBoolValue.setWidth 64), .movImm .rax 1]
  else []

section
variable (h : Helpers)

def callPair (op : Optoken) : List Instr :=
  [.mov .r11 .rdx, .mov .r10 .rax] ++ popValue ++
    [.mov .rdi .rax, .mov .rsi .rdx, .mov .rdx .r10, .mov .rcx .r11, .movImm .r8 (.ofNat _ op.number),
      .movImm .rax h.calcPairValue, .call .rax]

mutual

def gen : Operand → Nat → List Instr × Nat
  | .int64 n, cursor => (saveRegisterValue ⟨n, vInt64Value, 0⟩, cursor)
  | .double bits, cursor => (saveRegisterValue ⟨bits, vDoubleValue, 0⟩, cursor)
  | .bool b, cursor => (saveRegisterValue (.ofBool b), cursor)
  | .string address, cursor => (saveRegisterValue ⟨address, vStdString, 0⟩, cursor)
  | .variable accesses, cursor => (.mov .rdi .r12 :: .mov .rax .rdi :: accesses.flatMap Access.code, cursor)
  | .dynamicVariable fullName, cursor =>
    ([.mov .rdi .r14, .movImm .rsi fullName, .movImm .rax h.findVarValue, .call .rax], cursor)
  | .condExpr lhs rhsTrue rhsFalse, cursor =>
    let lhs := gen lhs (cursor + 1)
    let rhsTrue := gen rhsTrue lhs.2
    let rhsFalse := gen rhsFalse rhsTrue.2
    (lhs.1 ++ testOperand (.condTestPtr cursor) (.condTestValue cursor) ++
      [.je (.condTestFalse cursor), .label (.condTestTrue cursor)] ++
      rhsTrue.1 ++ [.jmp (.condTestExit cursor), .label (.condTestFalse cursor)] ++
      rhsFalse.1 ++ [.jmp (.condTestExit cursor), .label (.condTestExit cursor)], rhsFalse.2)
  | .funcCall functor args, cursor =>
    let stackArgs := genStackArgs 3 args cursor
    let firstArgs := genArgs 3 args stackArgs.2
    (stackArgs.1 ++ firstArgs.1 ++ popArgs args.length ++ [.movImm .rax functor, .call .rax] ++
      (if 3 < args.length then [.addRsp ((args.length - 3) * 2)] else []), firstArgs.2)
  | .unary op operand, cursor =>
    let operand := gen operand cursor
    (operand.1 ++
      (if op = .not then callUnary h.notValue else if op = .negative then callUnary h.negValue else []), operand.2)
  | .expression first rest, cursor =>
    let first := gen first cursor
    let rest := genRest rest first.2
    (first.1 ++ rest.1, rest.2)

/-- The arguments after the first `skip` are pushed from the last one, without counting them. -/
def genStackArgs : Nat → Operands → Nat → List Instr × Nat
  | _, .nil, cursor => ([], cursor)
  | 0, .cons arg args, cursor =>
    let later := genStackArgs 0 args cursor
    let arg := gen arg later.2
    (later.1 ++ arg.1 ++ [.push .rdx, .push .rax], arg.2)
  | skip + 1, .cons _ args, cursor => genStackArgs skip args cursor

def genArgs : Nat → Operands → Nat → List Instr × Nat
  | _, .nil, cursor => ([], cursor)
  | 0, .cons _ _, cursor => ([], cursor)
  | n + 1, .cons arg args, cursor =>
    let arg := gen arg cursor
    let args := genArgs n args arg.2
    (arg.1 ++ pushRegisters ++ args.1, args.2)

def genRest : Operations → Nat → List Instr × Nat
  | .nil, cursor => ([], cursor)
  | .cons op operand rest, cursor =>
    let operand := gen operand (cursor + 1)
    let rest := genRest rest operand.2
    ((if op = .and ∨ op = .or then testAndOr op cursor else []) ++
      pushRegisters ++ operand.1 ++ callPair h op ++ [.jmp (.ret cursor), .label (.fastRet cursor)] ++ fastRet op ++
      [.label (.ret cursor)] ++ rest.1, rest.2)

end

def prologue : List Instr :=
  [.push .rbp, .push .r12, .push .r13, .push .r14, .push .r15, .movImm .r13 0, .mov .r12 .rdi, .mov .r14 .rsi]

def epilogue : List Instr :=
  [.pop .r15, .pop .r14, .pop .r13, .pop .r12, .pop .rbp, .ret]

def errExit : List Instr :=
  [.cmp .r13 0, .je .finalErrExit, .label .errExitLoop] ++ popValue ++
    [.jne .errExitLoop, .label .finalErrExit, .mov .rax .r10, .movImm .rdx 0]

def compile (e : Operand) : List Instr :=
  prologue ++ (gen h e 0).1 ++ [.jmp .okExit, .label .errExit] ++ errExit ++ [.label .okExit] ++ epilogue

def size (code : List Instr) : Nat := code.countP fun i => i.label?.isNone

structure ExprOptions where
  jitCodeSize : Nat
  /-- The size is an `int`. -/
  jitCodeSize_lt : jitCodeSize < 2 ^ 31

def init (opt : ExprOptions) (e : Operand) : Option (List Instr) :=
  if size (compile h e) ≤ opt.jitCodeSize then some (compile h e) else none

end

/-! The value of an expression by recursion over its syntax tree, and the calling convention that ties the functions
    it is made of to the calls of the compiled code. -/

variable {ω : Type}

inductive Outcome (α ω : Type) where
  | value (a : α) (w : ω)
  /-- The evaluation is given up with `ERR_INVALID_OPERAND_TYPE`. -/
  | aborted (w : ω)
  | trapped

/-- An evaluation reads and changes what lies outside; `none` is a case left open. -/
def Eval (ω α : Type) : Type := ω → Option (Outcome α ω)

namespace Eval
variable {α β : Type}

def pure (a : α) : Eval ω α := fun w => some (.value a w)

def ofCall (f : ω → Option (α × ω)) : Eval ω α := fun w =>
  match f w with
  | some (a, w') => some (.value a w')
  | none => some .trapped

def bind (x : Eval ω α) (f : α → Eval ω β) : Eval ω β := fun w =>
  match x w with
  | some (.value a w') => f a w'
  | some (.aborted w') => some (.aborted w')
  | some .trapped => some .trapped
  | none => none

end Eval

structure Callees (ω : Type) where
  takes : Word → Nat → Prop
  functions : Word → List Value → ω → Option (Value × ω)
  isMember : Word → BitVec 32 → Prop
  members : Word → BitVec 32 → Word → ω → Option (Word × ω)
  vars : ω → Word → Word → Option Value
  /-- A bool given by address; where this is `none`, expressions that test it are left open. -/
  deref : ω → Word → Option Word

def findVarValue (c : Callees ω) (ctx name : Word) (w : ω) : Value :=
  if ctx = 0 then .err errNilVar else (c.vars w ctx name).getD (.err errNilVar)

section
variable (memory : ω → Memory) (c : Callees ω)

def evalAccess (obj : Word) : Access → Eval ω Value
  | .embedded vtype offset => .pure ⟨obj + offset, vtype, 0⟩
  | .pointer vtype offset => fun w => some (.value ⟨.ofNat _ ((memory w).read 8 (obj + offset)), vtype, 0⟩ w)
  | .function vtype address => .ofCall fun w => (c.members address vtype obj w).map fun (x, w') => (⟨x, vtype, 0⟩, w')

def evalAccesses : List Access → Value → Eval ω Value
  | [], v => .pure v
  | access :: rest, v => (evalAccess memory c v.val access).bind (evalAccesses rest)

def test (v : Value) : Eval ω Value := fun w =>
  if v.type = vBool then (c.deref w v.val).map fun x => .value ⟨x, vBoolValue, 0⟩ w
  else if v.type = vBoolValue then some (.value v w)
  else some (.aborted w)

def evalPair (op : Optoken) (left right : Value) : Eval ω Value :=
  .ofCall fun w => (calcPairValue (memory w) left right op).map (·, w)

/-- The left operand of `&&` or `||` settles the result. -/
def shortCircuits (op : Optoken) (left : Value) : Bool := if op = .and then left.val = 0 else left.val ≠ 0

/-- An operation on the value so far; `right` is evaluated when it is needed. -/
def operate (op : Optoken) (left : Value) (right : Eval ω Value) : Eval ω Value :=
  if op = .and ∨ op = .or then
    (test c left).bind fun left =>
      if shortCircuits op left then .pure (.ofBool (op = .or)) else right.bind (evalPair memory op left)
  else right.bind (evalPair memory op left)

def evalUnary (op : Optoken) (v : Value) : Eval ω Value := fun w =>
  some (.value (if op = .not then notValue (memory w) v else if op = .negative then negValue v else v) w)

variable (obj ctx : Word)

mutual

def eval : Operand → Eval ω Value
  | .int64 n => .pure ⟨n, vInt64Value, 0⟩
  | .double bits => .pure ⟨bits, vDoubleValue, 0⟩
  | .bool b => .pure (.ofBool b)
  | .string address => .pure ⟨address, vStdString, 0⟩
  | .variable accesses => evalAccesses memory c accesses ⟨obj, 0, 0⟩
  | .dynamicVariable fullName => fun w => some (.value (findVarValue c ctx fullName w) w)
  | .condExpr lhs rhsTrue rhsFalse =>
    (eval lhs).bind fun v => (test c v).bind fun b => if b.val = 0 then eval rhsFalse else eval rhsTrue
  | .funcCall functor args => (evalArgs args).bind fun vs => .ofCall (c.functions functor vs)
  | .unary op operand => (eval operand).bind (evalUnary memory op)
  | .expression first rest => (eval first).bind (evalRest rest)

def evalArgs : Operands → Eval ω (List Value)
  | .nil => .pure []
  | .cons arg args => (eval arg).bind fun v => (evalArgs args).bind fun vs => .pure (v :: vs)

def evalRest : Operations → Value → Eval ω Value
  | .nil, v => .pure v
  | .cons op operand rest, v => (operate memory c op v (eval operand)).bind (evalRest rest)

end

end

section
variable (c : Callees ω)

def Access.Conforms : Access → Prop
  | function vtype address => c.isMember address vtype
  | _ => True

mutual

def Operand.Conforms : Operand → Prop
  | .variable accesses => accesses ≠ [] ∧ ∀ a ∈ accesses, a.Conforms c
  | .condExpr lhs rhsTrue rhsFalse => lhs.Conforms ∧ rhsTrue.Conforms ∧ rhsFalse.Conforms
  | .funcCall functor args => args.length ≤ 3 ∧ c.takes functor args.length ∧ args.Conforms
  | .unary _ operand => operand.Conforms
  | .expression first rest => first.Conforms ∧ rest.Conforms
  | _ => True

def Operands.Conforms : Operands → Prop
  | .nil => True
  | .cons arg args => arg.Conforms ∧ args.Conforms

def Operations.Conforms : Operations → Prop
  | .nil => True
  | .cons _ operand rest => operand.Conforms ∧ rest.Conforms

end

end

def Passes (reg : Reg → Word) : List Value → Prop
  | [] => True
  | [a] => reg .rdi = a.val ∧ reg .rsi = a.second
  | [a, b] => reg .rdi = a.val ∧ reg .rsi = a.second ∧ reg .rdx = b.val ∧ reg .rcx = b.second
  | [a, b, c] =>
    reg .rdi = a.val ∧ reg .rsi = a.second ∧ reg .rdx = b.val ∧ reg .rcx = b.second ∧ reg .r8 = c.val ∧ reg .r9 = c.second
  | _ => False

def Outside.returns (out : Outside ω) (address : Word) (reg : Reg → Word) (stack : List Word) (w : ω) :
    Option (Value × ω) :=
  (out.call address reg stack w).map fun (reg', _, w') => (.ofWords (reg' .rax) (reg' .rdx), w')

structure Outside.Follows (out : Outside ω) (h : Helpers) (c : Callees ω) : Prop where
  saved : ∀ address reg stack w reg' zf w', out.call address reg stack w = some (reg', zf, w') →
    ∀ r : Reg, r.calleeSaved → reg' r = reg r
  calcPairValue : ∀ reg stack w left right op, Passes reg [left, right] → reg .r8 = .ofNat _ (Optoken.number op) →
    out.returns h.calcPairValue reg stack w = (Ssexpr2.calcPairValue (out.memory w) left right op).map (·, w)
  notValue : ∀ reg stack w v, Passes reg [v] →
    out.returns h.notValue reg stack w = some (Ssexpr2.notValue (out.memory w) v, w)
  negValue : ∀ reg stack w v, Passes reg [v] → out.returns h.negValue reg stack w = some (Ssexpr2.negValue v, w)
  findVarValue : ∀ reg stack w,
    out.returns h.findVarValue reg stack w = some (Ssexpr2.findVarValue c (reg .rdi) (reg .rsi) w, w)
  functions : ∀ address args, c.takes address args.length → ∀ reg stack w, Passes reg args →
    out.returns address reg stack w = c.functions address args w
  members : ∀ address vtype, c.isMember address vtype → ∀ reg stack w,
    ((out.call address reg stack w).map fun (reg', _, w') =>
      (reg' (if vtype = vDoubleValue ∨ vtype = vFloatValue then .xmm0 else .rax), w')) =
      c.members address vtype (reg .rdi) w
  deref : ∀ w a x, c.deref w a = some x → x = .ofNat _ ((out.memory w).read 8 a)

end Myctk.Ssexpr2
