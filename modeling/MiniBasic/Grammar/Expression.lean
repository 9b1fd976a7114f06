import MiniBasic.Grammar.Cursor
import MiniBasic.Number.Numeral
import MiniBasic.Token.Scan

/-!
# Parsing expressions

Expressions are read by climbing operator levels: at a level, operators of lower levels end the
expression. The only recursive rule is `expression`; the other rules take the parser of the
expressions inside them as an argument. It is called only after a token has been read, so a bound on
nesting above the number of tokens is never reached.
-/

namespace MiniBasic.Parser

/-- The number that a literal stands for: its text without type marks at the end. -/
def literal? (text : String) : Option Float :=
  Number.read? (text.toList.reverse.dropWhile Token.isTypeMark).reverse

/-- The further words of a type name such as `Scripting.Dictionary`, each behind a dot. -/
def dottedName (name : String) : List Token → String × List Token
  | dot :: word :: rest =>
    if dot.kind = .symbol .dot ∧ word.isWord then dottedName (name ++ "." ++ word.text) rest
    else (name, dot :: word :: rest)
  | rest => (name, rest)

/-- A type name; empty parentheses behind it are dropped. -/
def typeName : Parser String := do
  let t ← peek
  if t.isWord then
    advance
    let name ← modifyGet fun c ↦
      let (name, rest) := dottedName t.text c.rest
      (name, { c with rest })
    if (← peekKind) = .symbol .leftParen ∧ (← secondKind) = .symbol .rightParen then
      advance
      advance
    return name
  else
    throw (.unexpected .typeName)

/-- The arguments behind an opening parenthesis, and the closing one. -/
def arguments (expr : Parser Expr) (fuel : Nat) : Parser (List Expr) := do
  if ← acceptSymbol .rightParen then
    return []
  else
    let args ← commaList expr fuel
    expectSymbol .rightParen .closeArguments
    return args

/-- An operand without operators and suffixes. -/
def primary (expr : Parser Expr) : Parser Expr := do
  let t ← peek
  match t.kind with
  | .number =>
    match literal? t.text with
    | some x =>
      advance
      return .number x
    | none => throw .invalidNumber
  | .text =>
    advance
    return .text t.text
  | .identifier | .keyword .emptyKw =>
    advance
    return .name t.text
  | .symbol .leftParen =>
    advance
    let e ← expr
    expectSymbol .rightParen .closeExpression
    return e
  | .keyword .newKw =>
    advance
    return .new (← typeName)
  | .unknown => throw .unknownToken
  | _ => throw (.unexpected .inExpression)

/-- Any number of suffixes `.member` and `(arguments)` behind an expression. -/
def suffixes (expr : Parser Expr) : Nat → Expr → Parser Expr
  | 0, _ => throw .tooDeep
  | fuel + 1, e => do
    if ← acceptSymbol .dot then
      let t ← peek
      if t.isWord then
        advance
        suffixes expr fuel (.member e t.text)
      else
        throw (.unexpected .afterDot)
    else if ← acceptSymbol .leftParen then
      let args ← arguments expr fuel
      suffixes expr fuel (.call e args)
    else
      return e

/-- A primary with its suffixes. -/
def chain (expr : Parser Expr) (fuel : Nat) : Parser Expr := do
  suffixes expr fuel (← primary expr)

/-- A chain, or a prefix operator with its operand. The operand reaches at least as far as the
operator's own level asks, and no further than the surrounding level allows. -/
def operand (sub : Nat → Parser Expr) (fuel level : Nat) : Parser Expr := do
  match UnaryOp.ofKind? (← peekKind) with
  | some op =>
    advance
    return .unary op (← sub (max op.level level))
  | none => chain (sub 1) fuel

/-- The binary operators of at least the given level behind an expression, with their right
operands. -/
def operators (sub : Nat → Parser Expr) (level : Nat) : Nat → Expr → Parser Expr
  | 0, _ => throw .tooDeep
  | fuel + 1, left => do
    match BinaryOp.ofKind? (← peekKind) with
    | some op =>
      if op.level < level then
        return left
      else
        advance
        let right ← sub (op.level + 1)
        operators sub level fuel (.binary op left right)
    | none => return left

/-- An expression whose operators outside parentheses are of at least the given level. -/
def expression : Nat → Nat → Parser Expr
  | 0, _ => throw .tooDeep
  | fuel + 1, level => do
    let left ← operand (expression fuel) fuel level
    operators (expression fuel) level fuel left

end MiniBasic.Parser
