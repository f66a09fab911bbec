import CellScript.Parse.Expression

/-!
# Parsing statements

`statement` is the one recursive parser: every kind of statement is defined from the parser of the
statements inside it and from a way to read included files. The empty statement `;` gives no node.
-/

namespace CellScript

namespace Parser

/-- Whether a statement can begin with a token. Colors and vectors cannot begin one. -/
def startsStatement : TokenKind → Bool
  | .ident | .integer | .real | .string => true
  | .keyword .else => false
  | .keyword _ => true
  | .mark .increment | .mark .decrement | .mark .leftParen | .mark .leftBracket | .mark .add
  | .mark .sub | .mark .not | .mark .leftBrace | .mark .semicolon => true
  | _ => false

/-- Statements as long as one begins. -/
def statementsOf (inner : Parser (Option Stmt)) : Nat → Parser (List Stmt)
  | 0 => throw .outOfFuel
  | n + 1 => do
    if startsStatement (← current) then
      let s ← inner
      let ss ← statementsOf inner n
      return s.toList ++ ss
    else return []

/-- Statements in braces. -/
def bracedOf (inner : Parser (Option Stmt)) (n : Nat) : Parser (List Stmt) := do
  expect .leftBrace
  let ss ← statementsOf inner n
  expect .rightBrace
  return ss

/-- One statement that has to stand here; an empty one becomes a node. -/
def bodyOf (inner : Parser (Option Stmt)) : Parser Stmt := do
  if startsStatement (← current) then
    match ← inner with
    | some s => return s
    | none => return .nop (← line)
  else fail .syntaxError

/-! ## Simple statements -/

/-- The operator of a compound assignment. -/
def updateOp? : TokenKind → Option ArithmeticOp
  | .mark .addAssign => some .add
  | .mark .subAssign => some .sub
  | .mark .mulAssign => some .mul
  | .mark .divAssign => some .div
  | .mark .modAssign => some .mod
  | _ => none

/-- An expression, or an assignment to a place. -/
def simpleStatement (n : Nat) : Parser Stmt := do
  let target ← expression n
  let kind ← current
  match updateOp? kind with
  | some op =>
    let l ← line
    if !target.isLocation then fail .assignmentTarget
    advance
    let value ← expression n
    return .update op target value.asOperand l
  | none =>
    if kind == .mark .assign then
      let l ← line
      if !target.isLocation then fail .assignmentTarget
      advance
      let value ← expression n
      return .assign target value.asOperand l
    else return .expression target

/-- A `return` with or without a value. -/
def returnStatement (n : Nat) : Parser Stmt := do
  let l ← line
  advance
  let value ← do
    if ← atMark .semicolon then pure none
    else
      let e ← expression n
      pure (some e.asOperand)
  expect .semicolon
  return .return value l

/-- A declaration that a name is global. -/
def globalStatement : Parser Stmt := do
  let l ← line
  advance
  let name ← expectName .identifierExpected
  expect .semicolon
  return .global name l

/-- A `break` or `continue`, which needs a loop. -/
def jumpStatement (outside : ParseCause) (node : Nat → Stmt) : Parser Stmt := do
  if !(← read).inLoop then fail outside
  let l ← line
  advance
  expect .semicolon
  return node l

/-! ## Branches and loops -/

/-- A condition in parentheses. -/
def conditionOf (n : Nat) : Parser Expr := do
  expect .leftParen
  let e ← expression n
  expect .rightParen
  return e.asOperand

/-- An `if` with or without an `else`. -/
def ifStatement (inner : Parser (Option Stmt)) (n : Nat) : Parser Stmt := do
  let l ← line
  advance
  let condition ← conditionOf n
  let positive ← bodyOf inner
  if (← current) == .keyword .else then
    advance
    let negative ← bodyOf inner
    return .branch condition positive (some negative) l
  else return .branch condition positive none l

/-- The body of a loop. -/
def loopBodyOf (inner : Parser (Option Stmt)) : Parser Stmt := withLoop true (bodyOf inner)

/-- A `while` loop. -/
def whileStatement (inner : Parser (Option Stmt)) (n : Nat) : Parser Stmt := do
  let l ← line
  advance
  let condition ← conditionOf n
  return .whileLoop condition (← loopBodyOf inner) l

/-- A `do` loop; the semicolon behind its condition may be missing. -/
def doStatement (inner : Parser (Option Stmt)) (n : Nat) : Parser Stmt := do
  let l ← line
  advance
  let body ← loopBodyOf inner
  if (← current) != .keyword .while then fail (.expected "while")
  advance
  let condition ← conditionOf n
  if ← atMark .semicolon then advance
  return .doWhile condition body l

/-- A loop without a condition. -/
def loopStatement (inner : Parser (Option Stmt)) : Parser Stmt := do
  let l ← line
  advance
  return .loop (← loopBodyOf inner) l

/-- The first or last part of a `for` up to a mark; a missing one does nothing. -/
def forPart (close : Mark) (l n : Nat) : Parser Stmt := do
  if ← atMark close then return .nop l else simpleStatement n

/-- The condition of a `for`; a missing one holds. -/
def forCondition (l n : Nat) : Parser Expr := do
  if ← atMark .semicolon then return .boolean true l
  else
    let e ← expression n
    return e.asOperand

/-- A `for` loop. -/
def forStatement (inner : Parser (Option Stmt)) (n : Nat) : Parser Stmt := do
  let l ← line
  advance
  expect .leftParen
  let init ← forPart .semicolon l n
  expect .semicolon
  let condition ← forCondition l n
  expect .semicolon
  let step ← forPart .rightParen l n
  expect .rightParen
  return .forLoop init condition step (← loopBodyOf inner) l

/-! ## Definitions -/

/-- The spelling of an operator that a method can define. -/
def overloadable? : TokenKind → Option String
  | .mark .add => some "+"
  | .mark .sub => some "-"
  | .mark .mul => some "*"
  | .mark .div => some "/"
  | .mark .mod => some "%"
  | .mark .equal => some "=="
  | .mark .notEqual => some "!="
  | .mark .less => some "<"
  | .mark .lessEqual => some "<="
  | .mark .greater => some ">"
  | .mark .greaterEqual => some ">="
  | _ => none

/-- The name of a function: behind `operator` it takes an operator in. -/
def functionName : Parser String := do
  let name ← expectName .functionNameExpected
  if name == "operator" then
    match overloadable? (← current) with
    | some symbol =>
      advance
      return name ++ symbol
    | none => return name
  else return name

/-- More parameters, each behind a comma and different from those before it. -/
def moreParameters : Nat → List String → Parser (List String)
  | 0, _ => throw .outOfFuel
  | n + 1, before => do
    if ← atMark .comma then
      advance
      let name ← expectName .parameterNameExpected
      if before.contains name then fail (.duplicateParameter name)
      moreParameters n (before ++ [name])
    else return before

/-- The parameters of a function. -/
def parameters (n : Nat) : Parser (List String) := do
  if (← current) == .ident then
    let name ← expectName .parameterNameExpected
    moreParameters n [name]
  else return []

/-- A function definition. Loops around it are not loops of its body. -/
def functionOf (inner : Parser (Option Stmt)) (n : Nat) : Parser (FunctionDef Stmt) := do
  let l ← line
  advance
  let name ← functionName
  expect .leftParen
  let ps ← parameters n
  expect .rightParen
  let bodyLine ← line
  let body ← withLoop false (bracedOf inner n)
  let id ← freshId
  return ⟨name, ps, body, bodyLine, id, l⟩

/-- The methods of a class, with names different from each other. -/
def methodsOf (inner : Parser (Option Stmt)) (bound : Nat) :
    Nat → List (FunctionDef Stmt) → Parser (List (FunctionDef Stmt))
  | 0, _ => throw .outOfFuel
  | n + 1, before => do
    if (← current) == .keyword .function then
      let f ← functionOf inner bound
      if before.any (·.name == f.name) then failAt (.ambiguousFunction f.name) f.line
      methodsOf inner bound n (before ++ [f])
    else return before

/-- A class or instant. -/
def classOf (inner : Parser (Option Stmt)) (n : Nat) : Parser Stmt := do
  let l ← line
  let isInstant := (← current) == .keyword .instant
  advance
  let name ← expectName .identifierExpected
  expect .leftBrace
  let methods ← methodsOf inner n n []
  if !(← atMark .rightBrace) then fail .functionDefinitionExpected
  advance
  return .classDef isInstant name methods (← freshId) l

/-- An object made from a type and statements. Loops around it are not loops of its body. -/
def realizationOf (inner : Parser (Option Stmt)) (n : Nat) : Parser Stmt := do
  let l ← line
  let name ← expectName .identifierExpected
  return .realize name (← withLoop false (bracedOf inner n)) l

/-! ## Includes -/

/-- Note an included file. -/
def noteInclude (path : String) : Parser Unit := fun _ s =>
  .ok () { s with included := path :: s.included }

/-- An include: the statements of the file that its name leads to. A file cannot include itself,
not even through others. -/
def includeStatement (load : String → Parser (List Stmt)) : Parser Stmt := do
  let l ← line
  advance
  let t ← token
  if t.kind != .string then fail .invalidInclude
  advance
  expect .semicolon
  let env ← read
  match env.sources.resolve? env.path t.value with
  | none => failAt (.cannotOpenInclude t.value) l
  | some path =>
    if env.including.contains path then failAt (.recursiveInclude t.value) l
    noteInclude path
    return .include path (← load path) l

/-! ## Statements -/

/-- A statement made of the statements that `inner` reads; `none` for the empty one. -/
def statementOf (load : String → Parser (List Stmt)) (inner : Parser (Option Stmt)) (n : Nat) :
    Parser (Option Stmt) := do
  match ← current with
  | .mark .semicolon =>
    advance
    return none
  | .mark .leftBrace =>
    let l ← line
    return some (.block (← bracedOf inner n) l)
  | .keyword .function => return some (.function (← functionOf inner n))
  | .keyword .return => return some (← returnStatement n)
  | .keyword .global => return some (← globalStatement)
  | .keyword .if => return some (← ifStatement inner n)
  | .keyword .while => return some (← whileStatement inner n)
  | .keyword .do => return some (← doStatement inner n)
  | .keyword .for => return some (← forStatement inner n)
  | .keyword .loop => return some (← loopStatement inner)
  | .keyword .break => return some (← jumpStatement .breakOutsideLoop .break)
  | .keyword .continue => return some (← jumpStatement .continueOutsideLoop .continue)
  | .keyword .classDef => return some (← classOf inner n)
  | .keyword .instant => return some (← classOf inner n)
  | .keyword .include => return some (← includeStatement load)
  | kind =>
    if kind == .ident then
      if ← ofReader Reader.isBlockStartAhead then
        return some (← realizationOf inner n)
    let s ← simpleStatement n
    expect .semicolon
    return some s

/-- A statement, with a bound on its nesting. -/
def statement (load : String → Parser (List Stmt)) : Nat → Parser (Option Stmt)
  | 0 => throw .outOfFuel
  | n + 1 => statementOf load (statement load n) n

/-- All statements up to the end of the source. -/
def program (load : String → Parser (List Stmt)) : Parser (List Stmt) := do
  let n ← tokensLeft
  let ss ← statementsOf (statement load n) n
  if (← current) != .endOfSource then fail .syntaxError
  return ss

end Parser

end CellScript
