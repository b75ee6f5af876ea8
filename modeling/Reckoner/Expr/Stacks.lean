import Reckoner.Expr.Basic
import Reckoner.Token.Item

/-!
# Building an expression from left to right

Two stacks hold what has been read of a line: the operators that wait for an operand, each with the
bracket layer and the order it was read with, and the expressions that are finished. An operator
that arrives first applies the waiting ones that bind before it. A closing bracket only lowers the
layer; what was opened inside it is applied when the next operator arrives or the line ends, and so
brackets that are still open at the end close there.

Where two values stand side by side the vocabulary's operator for that place is put between them,
as an operator of no width.

An expression may be limited in height. Its height is not looked for in the expression: beside each
finished one its depth is kept, which is counted on from the depths of its operands.
-/

namespace Reckoner

/-- The greatest height of an expression on a line. -/
def heightLimit : Nat := 500

/-- What was read last, and for an operator that needs an operand also where. -/
inductive Last where
  | nothing
  | opening
  | between (span : Span)
  | before (span : Span)
  | value
deriving DecidableEq, Repr

/-- An operator between two operands or before one that waits for what follows it. -/
structure Waiting where
  op : Operator
  /-- The number of brackets that were open around it. -/
  layer : Nat
  /-- How tightly it binds. -/
  order : Nat
  span : Span

/-- Whether an operator that arrives at a layer, and yields to the orders given, finds this one to
be applied first. -/
def Waiting.isDue (layer : Nat) (yields : Nat → Bool) (waiting : Waiting) : Bool :=
  layer < waiting.layer || (waiting.layer == layer && yields waiting.order)

/-- A finished expression. -/
structure Completed where
  expr : Expr
  /-- How many levels it was put together in. -/
  depth : Nat

/-- The failure of building an expression. -/
abbrev Building := Except (Located ReadingFault)

/-- The fault of an operator that cannot be applied. -/
def misplaced {α : Type} (span : Span) : Building α := .error ⟨.invalidOperation, span⟩

/-- The finished expressions with one more over operands of which the deepest is so deep, if it is
not too deep itself. -/
def addExpr (limit : Option Nat) (expr : Expr) (below : Nat) (done : List Completed) :
    Building (List Completed) :=
  if limit.all (below + 1 ≤ ·) then .ok (⟨expr, below + 1⟩ :: done) else misplaced expr.span

/-- Apply a waiting operator to the last finished expressions. -/
def Waiting.apply (limit : Option Nat) (waiting : Waiting) (done : List Completed) :
    Building (List Completed) :=
  match waiting.op, done with
  | .between op, ⟨right, rightDepth⟩ :: ⟨left, leftDepth⟩ :: rest =>
    if left.span.stop ≤ right.span.start then
      addExpr limit (.binary op left right (left.span.hull right.span)) (max leftDepth rightDepth)
        rest
    else misplaced right.span
  | .beside op, ⟨operand, depth⟩ :: rest =>
    if waiting.span.start ≤ operand.span.start then
      addExpr limit (.unary op operand ⟨waiting.span.start, operand.span.stop⟩) depth rest
    else misplaced operand.span
  | _, _ => misplaced waiting.span

/-- Apply waiting operators for as long as they are due. -/
def applyDue (limit : Option Nat) (isDue : Waiting → Bool) :
    List Waiting → List Completed → Building (List Waiting × List Completed)
  | [], done => .ok ([], done)
  | waiting :: others, done =>
    if isDue waiting then do
      let done ← waiting.apply limit done
      applyDue limit isDue others done
    else .ok (waiting :: others, done)

/-- What has been read of a line. -/
structure Stacks where
  /-- The waiting operators, the latest first. -/
  waiting : List Waiting
  /-- The finished expressions, the latest first. -/
  done : List Completed
  /-- The number of open brackets. -/
  layer : Nat
  last : Last

namespace Stacks

/-- Nothing has been read. -/
def start : Stacks := ⟨[], [], 0, .nothing⟩

/-- Apply the waiting operators that bind before one which yields to the orders given. -/
def yield (limit : Option Nat) (yields : Nat → Bool) (s : Stacks) : Building Stacks := do
  let (waiting, done) ← applyDue limit (Waiting.isDue s.layer yields) s.waiting s.done
  return { s with waiting, done }

/-- Read a finished value. -/
def pushValue (value : Float) (span : Span) (s : Stacks) : Stacks :=
  { s with done := ⟨.literal value span, 1⟩ :: s.done, last := .value }

/-- Read an operator between two operands. -/
def between (limit : Option Nat) (op : BinaryOperator) (span : Span) (s : Stacks) :
    Building Stacks :=
  match s.last with
  | .value => do
    let s ← s.yield limit op.yieldsTo
    return { s with
      waiting := ⟨.between op, s.layer, op.order, span⟩ :: s.waiting, last := .between span }
  | .nothing | .opening => .error ⟨.emptyOperation, span⟩
  | .between _ | .before _ => misplaced span

/-- Put an operator that is not written behind a value, if one was read last. -/
def join (limit : Option Nat) (op : BinaryOperator) (index : Nat) (s : Stacks) :
    Building Stacks :=
  if s.last = .value then s.between limit op (.before index) else .ok s

/-- Read an operator before its operand. -/
def before (limit : Option Nat) (connector : BinaryOperator) (op : UnaryOperator) (span : Span)
    (s : Stacks) : Building Stacks := do
  let s ← s.join limit connector span.start
  return { s with
    waiting := ⟨.beside op, s.layer, op.order, span⟩ :: s.waiting, last := .before span }

/-- Read an operator after its operand. -/
def after (limit : Option Nat) (op : UnaryOperator) (span : Span) (s : Stacks) :
    Building Stacks :=
  if s.last = .value then do
    let s ← s.yield limit op.yieldsTo
    match s.done with
    | ⟨operand, depth⟩ :: rest =>
      if operand.span.stop ≤ span.start then do
        let done ← addExpr limit (.unary op operand ⟨operand.span.start, span.stop⟩) depth rest
        return { s with done }
      else misplaced span
    | [] => misplaced span
  else misplaced span

/-- The waiting operators after a bracket opens: a named operator in front of the bracket binds
what is in it before any other operator does. -/
def promote : List Waiting → List Waiting
  | [] => []
  | waiting :: others =>
    match waiting.op with
    | .beside op =>
      (if op.isInstant then waiting else { waiting with order := bracketOrder }) :: others
    | .between _ => waiting :: others

/-- Read an opening bracket. -/
def opening (limit : Option Nat) (connector : BinaryOperator) (index : Nat) (s : Stacks) :
    Building Stacks := do
  let s ← s.join limit connector index
  let waiting := match s.last with
    | .before _ => promote s.waiting
    | _ => s.waiting
  return { s with waiting, layer := s.layer + 1, last := .opening }

/-- Read a closing bracket. -/
def closing (span : Span) (s : Stacks) : Building Stacks :=
  if s.layer = 0 then .error ⟨.extraClosingBracket, span⟩
  else match s.last with
    | .value => .ok { s with layer := s.layer - 1 }
    | .opening => .error ⟨.emptyOperation, span⟩
    | .nothing | .between _ | .before _ => misplaced span

/-- Read an item. -/
def step (voc : Vocabulary) (limit : Option Nat) (item : Item) (span : Span) (s : Stacks) :
    Building Stacks :=
  match item with
  | .number value =>
    if s.last = .value then .error ⟨.missingBinaryOperator, span⟩ else .ok (s.pushValue value span)
  | .value value => do
    let s ← s.join limit voc.multiplication span.start
    return s.pushValue value span
  | .operator (.between op) => s.between limit op span
  | .operator (.beside op) =>
    match op.side with
    | .before => s.before limit (voc.connectorFor op) op span
    | .after => s.after limit op span
  | .opening => s.opening limit voc.multiplication span.start
  | .closing => s.closing span

/-- The expression that has been read at the end of a line of so many characters. -/
def finish (limit : Option Nat) (length : Nat) (s : Stacks) : Building Expr :=
  match s.last with
  | .between span | .before span => misplaced span
  | .nothing | .opening => misplaced ⟨length - 1, length⟩
  | .value => do
    let (_, done) ← applyDue limit (fun _ ↦ true) s.waiting s.done
    match done with
    | [⟨expr, _⟩] => return expr
    | _ => misplaced ⟨length - 1, length⟩

end Stacks

end Reckoner
