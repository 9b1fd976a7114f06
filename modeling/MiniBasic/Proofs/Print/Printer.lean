import MiniBasic.Proofs.Print.Layout

/-!
# Canonical program texts

`print` writes a program with one statement on a line. Conditionals are written as blocks, calls
behind `Call`, and parameters with the way they are passed. An expression with an operator stands in
parentheses, and so does a number or a `New` that something is selected from or that is called; no
other parentheses are written but those of calls.
-/

namespace MiniBasic

/-! ## Tokens without a place -/

namespace Token

/-- The token that a word is. -/
def word (w : String) : Token :=
  ⟨.ofWord w, w, 0, 0, 0⟩

def keyword (k : Keyword) : Token :=
  ⟨.keyword k, k.spelling, 0, 0, 0⟩

def symbol (s : Symbol) : Token :=
  ⟨.symbol s, s.spelling, 0, 0, 0⟩

def number (text : String) : Token :=
  ⟨.number, text, 0, 0, 0⟩

/-- A string literal with the given characters between the quotes. -/
def quoted (s : String) : Token :=
  ⟨.text, s, 0, 0, 0⟩

def lineEnd : Token :=
  ⟨.newline, "\n", 0, 0, 0⟩

/-- A label may be a number. -/
def label (l : String) : Token :=
  if l.toList.head?.any Char.isDigit then number l else word l

end Token

open Token (word keyword symbol lineEnd)

/-! ## Expressions -/

def parens (ts : List Token) : List Token :=
  symbol .leftParen :: (ts ++ [symbol .rightParen])

def commas (items : List (List Token)) : List Token :=
  [symbol .comma].intercalate items

/-- A type name such as `Scripting.Dictionary` is written as words with dots between them. -/
def typeTokens (name : String) : List Token :=
  [symbol .dot].intercalate ((name.toList.splitOn '.').map fun w ↦ [word (String.ofList w)])

def UnaryOp.token : UnaryOp → Token
  | neg => symbol .minus
  | plus => symbol .plus
  | not => keyword .notKw

def BinaryOp.token : BinaryOp → Token
  | or => keyword .orKw
  | and => keyword .andKw
  | eq => symbol .eq
  | notEq => symbol .notEq
  | lt => symbol .lt
  | ltEq => symbol .ltEq
  | gt => symbol .gt
  | gtEq => symbol .gtEq
  | concat => symbol .ampersand
  | add => symbol .plus
  | sub => symbol .minus
  | mod => keyword .modKw
  | intDiv => symbol .backslash
  | mul => symbol .star
  | div => symbol .slash
  | pow => symbol .caret

namespace Expr

/-- The tokens `ts` of an expression that something is selected from or that is called. -/
def asObject (e : Expr) (ts : List Token) : List Token :=
  match e with
  | number _ | new _ => parens ts
  | _ => ts

def tokens : Expr → List Token
  | number x => [.number (Number.write .subscript x)]
  | text s => [.quoted s]
  | name n => [word n]
  | unary op e => parens (op.token :: e.tokens)
  | binary op l r => parens (l.tokens ++ op.token :: r.tokens)
  | call callee args => callee.asObject callee.tokens ++ parens (commas (args.map tokens))
  | member object property => object.asObject object.tokens ++ [symbol .dot, word property]
  | new typeName => keyword .newKw :: typeTokens typeName

/-- An optional expression behind a token. -/
def tokensBehind (t : Token) : Option Expr → List Token
  | some e => t :: e.tokens
  | none => []

end Expr

/-! ## Statements -/

def Param.tokens (p : Param) : List Token :=
  keyword (if p.byValue then .byValKw else .byRefKw) :: word p.name ::
    Expr.tokensBehind (symbol .eq) p.fallback

def Declarator.tokens (d : Declarator) : List Token :=
  word d.name :: (d.bounds.elim [] fun bounds ↦ parens (commas (bounds.map Expr.tokens))) ++
    d.newObject.elim [] fun type ↦ keyword .asKw :: keyword .newKw :: typeTokens type

def OptionSetting.tokens : OptionSetting → List Token
  | explicit => [keyword .explicitKw]
  | base n => [word "Base", .number n.repr]
  | compare mode => [word "Compare", word mode]

def ErrorPolicy.tokens : ErrorPolicy → List Token
  | goTo label => [keyword .goToKw, .label label]
  | resumeNext => [word "Resume", keyword .nextKw]

def ExitTarget.keyword : ExitTarget → Keyword
  | forLoop => .forKw
  | doLoop => .doKw
  | sub => .subKw
  | function => .functionKw

mutual

/-- The lines of a statement, without the end of the last one. -/
def Stmt.tokens : Stmt → List Token
  | .forLoop counter start stop step body closing =>
    keyword .forKw :: word counter :: symbol .eq :: start.tokens ++
      keyword .toKw :: stop.tokens ++ Expr.tokensBehind (keyword .stepKw) step ++
      lineEnd :: body.flatMap (fun s ↦ s.tokens ++ [lineEnd]) ++
      keyword .nextKw :: (closing.map word).toList
  | .ifThen condition body alternative =>
    keyword .ifKw :: condition.tokens ++ keyword .thenKw :: lineEnd ::
      body.flatMap (fun s ↦ s.tokens ++ [lineEnd]) ++ alternative.tokens ++
      [keyword .endKw, keyword .ifKw]
  | .doWhile condition body =>
    keyword .doKw :: keyword .whileKw :: condition.tokens ++
      lineEnd :: body.flatMap (fun s ↦ s.tokens ++ [lineEnd]) ++ [keyword .loopKw]
  | .procedure kind name params body =>
    keyword kind.keyword :: word name :: parens (commas (params.map Param.tokens)) ++
      lineEnd :: body.flatMap (fun s ↦ s.tokens ++ [lineEnd]) ++ [keyword .endKw,
        keyword kind.keyword]
  | .dim declarators => keyword .dimKw :: commas (declarators.map Declarator.tokens)
  | .const name value => keyword .constKw :: word name :: symbol .eq :: value.tokens
  | .set target value => keyword .setKw :: target.tokens ++ symbol .eq :: value.tokens
  | .assign target value => target.tokens ++ symbol .eq :: value.tokens
  | .onError policy => keyword .onKw :: keyword .errorKw :: policy.tokens
  | .erase names => keyword .eraseKw :: commas (names.map fun n ↦ [word n])
  | .reDim name bounds preserve =>
    keyword .reDimKw :: (if preserve then [word "Preserve"] else []) ++
      word name :: parens (commas (bounds.map Expr.tokens))
  | .exit target => [keyword .exitKw, keyword target.keyword]
  | .label name => [word name, symbol .colon]
  | .option setting => keyword .optionKw :: setting.tokens
  | .call e => keyword .callKw :: e.tokens

def Alternative.tokens : Alternative → List Token
  | .none => []
  | .block body => keyword .elseKw :: lineEnd :: body.flatMap fun s ↦ s.tokens ++ [lineEnd]
  | .elseIf condition body alternative =>
    keyword .elseIfKw :: condition.tokens ++ keyword .thenKw :: lineEnd ::
      body.flatMap (fun s ↦ s.tokens ++ [lineEnd]) ++ alternative.tokens

end

/-- The lines of a block. -/
def lines (body : List Stmt) : List Token :=
  body.flatMap fun s ↦ s.tokens ++ [lineEnd]

/-- The canonical text of a program. -/
def print (p : Program) : String :=
  String.ofList (Token.layout (lines p))

end MiniBasic
