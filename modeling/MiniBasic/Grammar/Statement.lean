import MiniBasic.Grammar.Expression

/-!
# Parsing statements

As with expressions, one rule is recursive, `statement`; the others take the parsers of the
expressions and statements inside them as arguments.
-/

namespace MiniBasic.Parser

variable {α : Type}

/-- Statements up to the end of the input or a keyword that closes the block. -/
def block (stmt : Parser Stmt) (closing : List Keyword) : Nat → Parser (List Stmt)
  | 0 => throw .tooDeep
  | fuel + 1 => do
    skipSeparators
    let kind ← peekKind
    if kind == .eof || closing.any (kind == .keyword ·) then
      return []
    else
      let first ← stmt
      return first :: (← block stmt closing fuel)

/-- Whether `End If` comes next. -/
def atEndIf : Parser Bool := do
  return (← peekKind) = .keyword .endKw ∧ (← secondKind) = .keyword .ifKw

/-- Whether the statements on the line of a `Then` or `Else` end here. -/
def atInlineEnd : Parser Bool := do
  match ← peekKind with
  | .newline | .eof | .keyword .elseKw => return true
  | _ => atEndIf

/-- The statements on the line of a `Then` or `Else`. -/
def inlineBlock (stmt : Parser Stmt) : Nat → Parser (List Stmt)
  | 0 => throw .tooDeep
  | fuel + 1 => do
    skipColons
    if ← atInlineEnd then
      return []
    else
      let first ← stmt
      return first :: (← inlineBlock stmt fuel)

/-- `parser` behind a token of the given kind, if that comes next. -/
def optionally (kind : Kind) (parser : Parser α) : Parser (Option α) := do
  if ← accept kind then
    return some (← parser)
  else
    return none

/-- A type annotation, which has no effect. -/
def annotation : Parser Unit :=
  discard (optionally (.keyword .asKw) typeName)

/-- The name that may stand behind `Next`. -/
def closingName : Parser (Option String) := do
  let t ← peek
  if t.kind = .identifier then
    advance
    return some t.text
  else
    return none

def forLoop (expr : Parser Expr) (stmt : Parser Stmt) (fuel : Nat) : Parser Stmt := do
  advance
  let counter ← expectName .loopVariable
  expectSymbol .eq .equalsAfterLoopVariable
  let start ← expr
  expectKeyword .toKw .toInFor
  let stop ← expr
  let step ← optionally (.keyword .stepKw) expr
  let body ← block stmt [.nextKw] fuel
  expectKeyword .nextKw .nextToCloseFor
  let closing ← closingName
  return .forLoop counter start stop step body closing

/-- The `End If` that may close the statements on one line. -/
def skipEndIf : Parser Unit := do
  if ← atEndIf then
    advance
    advance

/-- What stands behind an `If` or `ElseIf`. If the line ends behind `Then`, blocks follow and one
`End If` closes them all; else the statements stand on that line, and `End If` may follow them. -/
def conditional (expr : Parser Expr) (stmt : Parser Stmt) :
    Nat → Parser (Expr × List Stmt × Alternative)
  | 0 => throw .tooDeep
  | fuel + 1 => do
    advance
    let condition ← expr
    expectKeyword .thenKw .thenAfterCondition
    let kind ← peekKind
    if kind = .newline ∨ kind = .eof then
      let body ← block stmt [.endKw, .elseKw, .elseIfKw] fuel
      match ← peekKind with
      | .keyword .elseIfKw =>
        let (next, nextBody, alternative) ← conditional expr stmt fuel
        return (condition, body, .elseIf next nextBody alternative)
      | .keyword .elseKw =>
        advance
        let otherwise ← block stmt [.endKw] fuel
        expectEnd .ifKw
        return (condition, body, .block otherwise)
      | _ =>
        expectEnd .ifKw
        return (condition, body, .none)
    else
      let body ← inlineBlock stmt fuel
      let otherwise ← optionally (.keyword .elseKw) (inlineBlock stmt fuel)
      skipEndIf
      match otherwise with
      | some otherwise => return (condition, body, .block otherwise)
      | none => return (condition, body, .none)

def ifThen (expr : Parser Expr) (stmt : Parser Stmt) (fuel : Nat) : Parser Stmt := do
  let (condition, body, alternative) ← conditional expr stmt fuel
  return .ifThen condition body alternative

def doWhile (expr : Parser Expr) (stmt : Parser Stmt) (fuel : Nat) : Parser Stmt := do
  advance
  expectKeyword .whileKw .whileAfterDo
  let condition ← expr
  let body ← block stmt [.loopKw] fuel
  expectKeyword .loopKw .loopToCloseDo
  return .doWhile condition body

/-- `ByVal` or `ByRef`, which may be left out and means the latter then. -/
def passing : Parser Bool := do
  if ← acceptKeyword .byValKw then
    return true
  else
    discard (acceptKeyword .byRefKw)
    return false

/-- The empty parentheses of an array parameter. -/
def arrayMark : Parser Unit :=
  discard (optionally (.symbol .leftParen) (expectSymbol .rightParen .closeArrayParameter))

def param (expr : Parser Expr) : Parser Param := do
  discard (acceptWord "optional")
  let byValue ← passing
  let name ← expectName .parameterName
  arrayMark
  annotation
  let fallback ← optionally (.symbol .eq) expr
  return ⟨name, byValue, fallback⟩

/-- The parameters of a procedure, which may be left out together with their parentheses. -/
def params (expr : Parser Expr) (fuel : Nat) : Parser (List Param) := do
  if ← acceptSymbol .leftParen then
    if ← acceptSymbol .rightParen then
      return []
    else
      let params ← commaList (param expr) fuel
      expectSymbol .rightParen .closeParameters
      return params
  else
    return []

def procedure (expr : Parser Expr) (stmt : Parser Stmt) (fuel : Nat) (kind : ProcedureKind) :
    Parser Stmt := do
  advance
  let name ← expectName (.procedureName kind)
  let params ← params expr fuel
  annotation
  let body ← block stmt [.endKw] fuel
  expectEnd kind.keyword
  return .procedure kind name params body

/-- One upper bound. Of `lower To upper` the lower bound is dropped. -/
def bound (expr : Parser Expr) : Parser Expr := do
  let first ← expr
  return (← optionally (.keyword .toKw) expr).getD first

/-- Array bounds behind an opening parenthesis, and the closing one. -/
def bounds (expr : Parser Expr) (fuel : Nat) : Parser (List Expr) := do
  if ← acceptSymbol .rightParen then
    return []
  else
    let bounds ← commaList (bound expr) fuel
    expectSymbol .rightParen .closeBounds
    return bounds

/-- The type behind `As New`. A type behind `As` alone has no effect. -/
def newObject : Parser (Option String) := do
  if ← acceptKeyword .asKw then
    let isNew ← acceptKeyword .newKw
    let type ← typeName
    return if isNew then some type else none
  else
    return none

def declarator (expr : Parser Expr) (fuel : Nat) : Parser Declarator := do
  let name ← expectName .variableName
  let bounds ← optionally (.symbol .leftParen) (bounds expr fuel)
  let newObject ← newObject
  return ⟨name, bounds, newObject⟩

/-- The variables of a `Dim`, behind the keyword. -/
def dim (expr : Parser Expr) (fuel : Nat) : Parser Stmt :=
  return .dim (← commaList (declarator expr fuel) fuel)

/-- The constant of a `Const`, behind the keyword. -/
def const (expr : Parser Expr) : Parser Stmt := do
  let name ← expectName .constantName
  annotation
  expectSymbol .eq .equalsAfterConstant
  return .const name (← expr)

def set (expr : Parser Expr) (fuel : Nat) : Parser Stmt := do
  advance
  let target ← chain expr fuel
  expectSymbol .eq .equalsInSet
  return .set target (← expr)

def onError : Parser Stmt := do
  advance
  expectKeyword .errorKw .errorAfterOn
  if ← acceptKeyword .goToKw then
    let t ← peek
    if t.kind = .identifier ∨ t.kind = .number then
      advance
      return .onError (.goTo t.text)
    else
      throw (.unexpected .afterGoTo)
  else if ← acceptWord "resume" then
    expectKeyword .nextKw .nextAfterResume
    return .onError .resumeNext
  else
    throw (.unexpected .afterOnError)

def exit : Parser Stmt := do
  advance
  match ← peekKind with
  | .keyword .forKw =>
    advance
    return .exit .forLoop
  | .keyword .doKw =>
    advance
    return .exit .doLoop
  | .keyword .subKw =>
    advance
    return .exit .sub
  | .keyword .functionKw =>
    advance
    return .exit .function
  | _ => throw (.unexpected .afterExit)

/-- The names behind the first one of an `Erase`. -/
def moreNames : Nat → Parser (List String)
  | 0 => throw .tooDeep
  | fuel + 1 => do
    if ← acceptSymbol .comma then
      let name ← expectName .arrayAfterComma
      return name :: (← moreNames fuel)
    else
      return []

def erase (fuel : Nat) : Parser Stmt := do
  advance
  let first ← expectName .arrayAfterErase
  return .erase (first :: (← moreNames fuel))

def reDim (expr : Parser Expr) (fuel : Nat) : Parser Stmt := do
  advance
  let preserve ← acceptWord "preserve"
  let name ← expectName .arrayAfterReDim
  expectSymbol .leftParen .openBounds
  let bounds ← bounds expr fuel
  annotation
  return .reDim name bounds preserve

def option : Parser Stmt := do
  advance
  if ← acceptKeyword .explicitKw then
    return .option .explicit
  else if ← acceptWord "base" then
    let t ← peek
    if t.kind = .number then
      match literal? t.text with
      | some x =>
        advance
        return .option (.base (Number.toWord Number.wholePart x))
      | none => throw .invalidNumber
    else
      throw (.expected .numberAfterBase)
  else if ← acceptWord "compare" then
    return .option (.compare (← expectName .modeAfterCompare))
  else
    throw (.unexpected .afterOption)

/-- A declaration behind `Public` or `Private`, which have no effect. -/
def withAccess (expr : Parser Expr) (stmt : Parser Stmt) (fuel : Nat) : Parser Stmt := do
  advance
  match ← peekKind with
  | .keyword .subKw => procedure expr stmt fuel .sub
  | .keyword .functionKw => procedure expr stmt fuel .function
  | .keyword .constKw =>
    advance
    const expr
  | .keyword .dimKw =>
    advance
    dim expr fuel
  | .identifier => dim expr fuel
  | _ => throw (.unexpected .afterAccess)

/-- Whether a call without parentheses has no arguments before a token of this kind. -/
def endsCall : Kind → Bool
  | .newline | .eof | .symbol .colon => true
  | .keyword .elseKw | .keyword .elseIfKw | .keyword .endKw => true
  | .keyword .nextKw | .keyword .loopKw => true
  | _ => false

/-- The callee and the first argument of a call without parentheses around its arguments, if what
has been read looks like a call: in `F (x), y` the parenthesis is the first argument. -/
def openCall? : Expr → Kind → Option (Expr × Expr)
  | .call callee [first], .symbol .comma => some (callee, first)
  | _, _ => none

/-- An assignment, or a call whose arguments may stand without parentheses. -/
def assignmentOrCall (expr : Parser Expr) (fuel : Nat) : Parser Stmt := do
  let target ← chain expr fuel
  if ← acceptSymbol .eq then
    return .assign target (← expr)
  else
    let kind ← peekKind
    match openCall? target kind with
    | some (callee, first) =>
      advance
      return .call (.call callee (first :: (← commaList expr fuel)))
    | none =>
      if endsCall kind then
        return .call target.asCall
      else
        return .call (.call target (← commaList expr fuel))

/-- One statement. -/
def statement : Nat → Parser Stmt
  | 0 => throw .tooDeep
  | fuel + 1 => do
    let expr := expression fuel 1
    let stmt := statement fuel
    let t ← peek
    match t.kind with
    | .keyword .forKw => forLoop expr stmt fuel
    | .keyword .ifKw => ifThen expr stmt fuel
    | .keyword .doKw => doWhile expr stmt fuel
    | .keyword .subKw => procedure expr stmt fuel .sub
    | .keyword .functionKw => procedure expr stmt fuel .function
    | .keyword .dimKw =>
      advance
      dim expr fuel
    | .keyword .constKw =>
      advance
      const expr
    | .keyword .setKw => set expr fuel
    | .keyword .onKw => onError
    | .keyword .exitKw => exit
    | .keyword .eraseKw => erase fuel
    | .keyword .reDimKw => reDim expr fuel
    | .keyword .optionKw => option
    | .keyword .publicKw | .keyword .privateKw => withAccess expr stmt fuel
    | .keyword .callKw =>
      advance
      return .call (← chain expr fuel).asCall
    | .identifier =>
      if (← secondKind) = .symbol .colon then
        advance
        advance
        return .label t.text
      else
        assignmentOrCall expr fuel
    | .unknown => throw .unknownToken
    | _ => throw (.unexpected .startOfStatement)

/-- A bound on nesting that no parse of the tokens reaches. -/
def nestingBound (tokens : List Token) : Nat :=
  tokens.length + 2

/-- An expression, with line ends and colons around it, up to the end of the input. -/
def wholeExpression (fuel : Nat) : Parser Expr := do
  skipSeparators
  let e ← expression fuel 1
  skipSeparators
  if (← peekKind) = .eof then
    return e
  else
    throw .trailingToken

end MiniBasic.Parser

namespace MiniBasic

/-- The program that a token list spells. Parsing stops at the first error. -/
def parse (tokens : List Token) : Except SyntaxError Program :=
  let fuel := Parser.nestingBound tokens
  (Parser.block (Parser.statement fuel) [] fuel).run tokens

/-- The expression that a whole token list spells. -/
def parseExpression (tokens : List Token) : Except SyntaxError Expr :=
  (Parser.wholeExpression (Parser.nestingBound tokens)).run tokens

end MiniBasic
