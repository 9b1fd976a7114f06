import MiniBasic.Grammar.SyntaxError

/-!
# Reading tokens one by one

A parser moves a cursor along a token list. Behind the last token the cursor sees an `eof` token, as
often as it is asked. A parser that fails leaves the cursor at the token it complains about.
-/

namespace MiniBasic

structure Cursor where
  rest : List Token
  /-- What is seen behind the last token. -/
  eof : Token
  deriving DecidableEq

namespace Cursor

/-- The cursor before the first token. The end of the input is on the line of the last token, behind
it. -/
def ofTokens (tokens : List Token) : Cursor where
  rest := tokens
  eof :=
    match tokens.getLast? with
    | some last => ⟨.eof, "", last.line, last.stop, last.stop⟩
    | none => ⟨.eof, "", 1, 0, 0⟩

def peek (c : Cursor) : Token :=
  c.rest.headD c.eof

/-- The token behind the next one. -/
def peekSecond (c : Cursor) : Token :=
  c.rest.tail.headD c.eof

def advance (c : Cursor) : Cursor :=
  { c with rest := c.rest.tail }

end Cursor

abbrev Parser := EStateM Complaint Cursor

namespace Parser

variable {α : Type}

def peek : Parser Token :=
  return (← get).peek

def peekKind : Parser Kind :=
  return (← get).peek.kind

def secondKind : Parser Kind :=
  return (← get).peekSecond.kind

def advance : Parser Unit :=
  modify Cursor.advance

/-- Moves past the next token if it is of the given kind, and tells whether it was. -/
def accept (kind : Kind) : Parser Bool := do
  if (← peekKind) = kind then
    advance
    return true
  else
    return false

def acceptKeyword (k : Keyword) : Parser Bool :=
  accept (.keyword k)

def acceptSymbol (s : Symbol) : Parser Bool :=
  accept (.symbol s)

/-- Words such as `Preserve` and `Resume` are identifiers with a meaning in their place only. -/
def acceptWord (word : String) : Parser Bool := do
  let t ← peek
  if t.kind = .identifier ∧ Text.sameWord t.text word then
    advance
    return true
  else
    return false

/-- Moves past a token of the given kind and returns it. -/
def expect (kind : Kind) (what : Expected) : Parser Token := do
  let t ← peek
  if t.kind = kind then
    advance
    return t
  else
    throw (.expected what)

def expectKeyword (k : Keyword) (what : Expected) : Parser Unit :=
  discard (expect (.keyword k) what)

def expectSymbol (s : Symbol) (what : Expected) : Parser Unit :=
  discard (expect (.symbol s) what)

def expectName (what : Expected) : Parser String :=
  return (← expect .identifier what).text

/-- `End` and the keyword of the block that it closes. -/
def expectEnd (k : Keyword) : Parser Unit := do
  expectKeyword .endKw (.blockEnd k)
  expectKeyword k (.blockEnd k)

def isSeparator (t : Token) : Bool :=
  t.kind == .newline || t.kind == .symbol .colon

def skipSeparators : Parser Unit :=
  modify fun c ↦ { c with rest := c.rest.dropWhile isSeparator }

def skipColons : Parser Unit :=
  modify fun c ↦ { c with rest := c.rest.dropWhile (·.kind == .symbol .colon) }

/-- One item or more, with commas between them. -/
def commaList (item : Parser α) : Nat → Parser (List α)
  | 0 => throw .tooDeep
  | fuel + 1 => do
    let first ← item
    if ← acceptSymbol .comma then
      return first :: (← commaList item fuel)
    else
      return [first]

/-- Runs a parser on a token list. A complaint becomes an error about the token under the cursor. -/
def run (p : Parser α) (tokens : List Token) : Except SyntaxError α :=
  match p (.ofTokens tokens) with
  | .ok a _ => .ok a
  | .error complaint c => .error ⟨complaint, c.peek⟩

end Parser

end MiniBasic
