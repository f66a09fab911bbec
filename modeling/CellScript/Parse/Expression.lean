import CellScript.Parse.Basic

/-!
# Parsing expressions

From the loosest to the tightest binding: `&&`, `||`, one comparison, sums, products, prefixes, and
selectors behind a primary. Each level is defined from the level below; only prefixes and primaries
lead back to the top, so `unary` is the one recursive parser. Its bound falls with every token that
opens a nested expression.
-/

namespace CellScript

namespace Parser

/-! ## Repetition -/

/-- Operands joined by operators of one level, grouped to the left. -/
def chain {O : Type} (op? : TokenKind → Option O) (build : O → Expr → Expr → Nat → Expr)
    (next : Parser Expr) : Nat → Expr → Parser Expr
  | 0, _ => throw .outOfFuel
  | n + 1, lhs => do
    match op? (← current) with
    | none => return lhs
    | some op =>
      let l ← line
      advance
      let rhs ← next
      chain op? build next n (build op lhs.asOperand rhs.asOperand l)

/-- More items, each behind a comma. -/
def moreItems (item : Parser Expr) : Nat → Parser (List Expr)
  | 0 => throw .outOfFuel
  | n + 1 => do
    if ← atMark .comma then
      advance
      let e ← item
      let es ← moreItems item n
      return e.asOperand :: es
    else return []

/-- Items with commas between them up to a closing mark. -/
def itemsUntil (close : Mark) (item : Parser Expr) (n : Nat) : Parser (List Expr) := do
  if ← atMark close then
    advance
    return []
  else
    let e ← item
    let es ← moreItems item n
    expect close
    return e.asOperand :: es

/-! ## Levels of binding -/

/-- Operators of products. -/
def productOp? : TokenKind → Option ArithmeticOp
  | .mark .mul => some .mul
  | .mark .div => some .div
  | .mark .mod => some .mod
  | _ => none

/-- Operators of sums. -/
def sumOp? : TokenKind → Option ArithmeticOp
  | .mark .add => some .add
  | .mark .sub => some .sub
  | _ => none

/-- Comparisons. -/
def relationalOp? : TokenKind → Option RelationalOp
  | .mark .equal => some .equal
  | .mark .notEqual => some .notEqual
  | .mark .less => some .less
  | .mark .lessEqual => some .lessEqual
  | .mark .greater => some .greater
  | .mark .greaterEqual => some .greaterEqual
  | _ => none

/-- The operator `||`. -/
def orOp? : TokenKind → Option LogicalOp
  | .mark .or => some .or
  | _ => none

/-- The operator `&&`. -/
def andOp? : TokenKind → Option LogicalOp
  | .mark .and => some .and
  | _ => none

/-- A product of unary expressions. -/
def productOf (unary : Parser Expr) (n : Nat) : Parser Expr := do
  chain productOp? .arithmetic unary n (← unary)

/-- A sum of products. -/
def sumOf (unary : Parser Expr) (n : Nat) : Parser Expr := do
  chain sumOp? .arithmetic (productOf unary n) n (← productOf unary n)

/-- A sum, or two sums compared. -/
def relationOf (unary : Parser Expr) (n : Nat) : Parser Expr := do
  let lhs ← sumOf unary n
  match relationalOp? (← current) with
  | none => return lhs
  | some op =>
    let l ← line
    advance
    let rhs ← sumOf unary n
    return .relational op lhs.asOperand rhs.asOperand l

/-- Comparisons joined by `||`. -/
def disjunctionOf (unary : Parser Expr) (n : Nat) : Parser Expr := do
  chain orOp? .logical (relationOf unary n) n (← relationOf unary n)

/-- An expression: disjunctions joined by `&&`. -/
def expressionOf (unary : Parser Expr) (n : Nat) : Parser Expr := do
  chain andOp? .logical (disjunctionOf unary n) n (← disjunctionOf unary n)

/-! ## Primaries and selectors -/

/-- A color: a packed number, or three or four components, between bars. -/
def colorOf (unary : Parser Expr) (n : Nat) : Parser Expr := do
  let l ← line
  advance
  let first ← sumOf unary n
  let more ← do
    if ← atMark .comma then
      advance
      let second ← sumOf unary n
      expect .comma
      let third ← sumOf unary n
      if ← atMark .comma then
        advance
        let fourth ← sumOf unary n
        pure [second, third, fourth]
      else pure [second, third]
    else pure []
  expect .bar
  return .color ((first :: more).map Expr.asOperand) l

/-- A vector: two components between angles. -/
def vectorOf (unary : Parser Expr) (n : Nat) : Parser Expr := do
  let l ← line
  advance
  let x ← sumOf unary n
  expect .comma
  let y ← sumOf unary n
  expect .greater
  return .vector x.asOperand y.asOperand l

/-- A literal, a name, an object creation or an expression in brackets. -/
def primaryOf (unary : Parser Expr) (n : Nat) : Parser Expr := do
  let t ← token
  let l := t.line
  match t.kind with
  | .integer =>
    match t.integerValue with
    | .error f => throw (.notAnInteger t.value f)
    | .ok v =>
      advance
      return .integer v l
  | .real =>
    match t.realValue? with
    | none => throw (.notAReal t.value)
    | some v =>
      advance
      return .real v l
  | .string =>
    advance
    return .string t.value l
  | .keyword .true =>
    advance
    return .boolean true l
  | .keyword .false =>
    advance
    return .boolean false l
  | .keyword .undefined =>
    advance
    return .undefined l
  | .ident =>
    advance
    return .name t.value .location l
  | .keyword .new =>
    advance
    let typeName ← expectName .identifierExpected
    if ← atMark .leftParen then
      advance
      return .new typeName (← itemsUntil .rightParen (expressionOf unary n) n) l
    else return .new typeName [] l
  | .mark .bar => colorOf unary n
  | .mark .less => vectorOf unary n
  | .mark .leftBracket =>
    advance
    return .list (← itemsUntil .rightBracket (expressionOf unary n) n) l
  | .mark .leftParen =>
    advance
    let e ← expressionOf unary n
    expect .rightParen
    return e
  | _ => fail .syntaxError

/-- The selectors behind an expression: members, list elements and calls. -/
def selectors (expression : Parser Expr) (bound : Nat) : Nat → Expr → Parser Expr
  | 0, _ => throw .outOfFuel
  | n + 1, e => do
    let l ← line
    match ← current with
    | .mark .dot =>
      advance
      let name ← expectName .fieldNameExpected
      selectors expression bound n (.member e.asOperand name .location l)
    | .mark .leftBracket =>
      advance
      let position ← expression
      expect .rightBracket
      selectors expression bound n (.index e.asOperand position.asOperand .location l)
    | .mark .leftParen =>
      advance
      let arguments ← itemsUntil .rightParen expression bound
      selectors expression bound n (.call e.asOperand arguments l)
    | _ => return e

/-- The direction of an increment mark. -/
def direction? : TokenKind → Option Direction
  | .mark .increment => some .up
  | .mark .decrement => some .down
  | _ => none

/-- A primary with its selectors, and an increment behind a place. -/
def suffixedOf (unary : Parser Expr) (n : Nat) : Parser Expr := do
  let e ← selectors (expressionOf unary n) n n (← primaryOf unary n)
  match direction? (← current) with
  | some d =>
    if e.isLocation then
      let l ← line
      advance
      return .postIncrement e d l
    else return e
  | none => return e

/-- An expression with its prefixes. -/
def unary : Nat → Parser Expr
  | 0 => throw .outOfFuel
  | n + 1 => do
    let l ← line
    match ← current with
    | .mark .add =>
      advance
      unary n
    | .mark .sub =>
      advance
      let e ← unary n
      return .negate e.asOperand l
    | .mark .not =>
      advance
      let e ← unary n
      return .not e.asOperand l
    | kind =>
      match direction? kind with
      | some d =>
        advance
        let e ← suffixedOf (unary n) n
        if e.isLocation then return .preIncrement e d l else fail .incrementTarget
      | none => suffixedOf (unary n) n

/-- An expression, with a bound on its nesting. -/
def expression (n : Nat) : Parser Expr := expressionOf (unary n) n

end Parser

end CellScript
