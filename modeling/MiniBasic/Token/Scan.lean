import MiniBasic.Token

/-!
# Scanning

`tokenize` cuts source text into tokens. It never fails: a character that starts no token becomes a
token of kind `unknown`. Each step looks at the rest of the text, decides by `classify` how many
characters the next piece takes and whether it is a token or trivia (blanks and comments), and goes
on behind it. So no character is lost: the pieces, in order, are the text.
-/

namespace MiniBasic.Token

def isBlank (c : Char) : Bool :=
  c == ' ' || c == '\t' || c == '\r'

def isWordStart (c : Char) : Bool :=
  c.isAlpha || c == '_'

def isWordRest (c : Char) : Bool :=
  c.isAlphanum || c == '_'

/-- The marks that may follow a number literal to give its type. -/
def isTypeMark (c : Char) : Bool :=
  c == '%' || c == '&' || c == '@' || c == '!' || c == '#'

/-- The number of characters before the end of the line. -/
def lineExtent (cs : List Char) : Nat :=
  (cs.takeWhile (· != '\n')).length

/-- The characters of a string literal behind its opening quote: all up to the next quote and that
quote too. A literal that is not closed runs to the end of the text. -/
def textExtent (cs : List Char) : Nat :=
  min ((cs.takeWhile (· != '"')).length + 1) cs.length

/-- A point and the digits after it. -/
def fractionExtent : List Char → Nat
  | c :: cs => if c == '.' then 1 + (cs.takeWhile Char.isDigit).length else 0
  | [] => 0

def markExtent : List Char → Nat
  | c :: _ => if isTypeMark c then 1 else 0
  | [] => 0

/-- The characters of a number literal behind its first digit: further digits, a point with any
digits after it, and a type mark. -/
def numberExtent (cs : List Char) : Nat :=
  let whole := (cs.takeWhile Char.isDigit).length
  let fraction := fractionExtent (cs.drop whole)
  whole + fraction + markExtent (cs.drop (whole + fraction))

/-- The symbol that starts with `c`, and how many characters it takes behind `c`. -/
def symbol? (c : Char) (next : Option Char) : Option (Symbol × Nat) :=
  match c with
  | '<' =>
    if next = some '>' then some (.notEq, 1)
    else if next = some '=' then some (.ltEq, 1)
    else some (.lt, 0)
  | '>' => if next = some '=' then some (.gtEq, 1) else some (.gt, 0)
  | '=' => some (.eq, 0)
  | '+' => some (.plus, 0)
  | '-' => some (.minus, 0)
  | '*' => some (.star, 0)
  | '/' => some (.slash, 0)
  | '\\' => some (.backslash, 0)
  | '^' => some (.caret, 0)
  | '&' => some (.ampersand, 0)
  | ',' => some (.comma, 0)
  | '.' => some (.dot, 0)
  | ':' => some (.colon, 0)
  | '(' => some (.leftParen, 0)
  | ')' => some (.rightParen, 0)
  | _ => none

/-- The piece that a text starting with `c` begins with: its kind, or `none` for trivia, and the
number of characters it takes behind `c`. The word `Rem` opens a comment, as an apostrophe does. -/
def classify (c : Char) (cs : List Char) : Option Kind × Nat :=
  if isBlank c then (none, (cs.takeWhile isBlank).length)
  else if c == '\x27' then (none, lineExtent cs)
  else if c == '\n' then (some .newline, 0)
  else if c == '"' then (some .text, textExtent cs)
  else if c.isDigit then (some .number, numberExtent cs)
  else if isWordStart c then
    let n := (cs.takeWhile isWordRest).length
    let word := String.ofList (c :: cs.take n)
    if Text.sameWord word "rem" then (none, n + lineExtent (cs.drop n))
    else (some (.ofWord word), n)
  else
    match symbol? c cs.head? with
    | some (s, n) => (some (.symbol s), n)
    | none => (some .unknown, 0)

def byteLength (cs : List Char) : Nat :=
  cs.foldr (fun c n ↦ c.utf8Size + n) 0

/-- The text kept in a token of the given kind that takes `n` characters behind `c`. -/
def pieceText (kind : Kind) (c : Char) (cs : List Char) (n : Nat) : String :=
  match kind with
  | .text => String.ofList (cs.takeWhile (· != '"'))
  | _ => String.ofList (c :: cs.take n)

/-- The tokens of a text that starts on the given line at the given byte offset. -/
def scan (line offset : Nat) : List Char → List Token
  | [] => [⟨.eof, "", line, offset, offset⟩]
  | c :: cs =>
    let piece := classify c cs
    let consumed := c :: cs.take piece.2
    let stop := offset + byteLength consumed
    let rest := scan (line + consumed.count '\n') stop (cs.drop piece.2)
    match piece.1 with
    | none => rest
    | some kind => ⟨kind, pieceText kind c cs piece.2, line, offset, stop⟩ :: rest
termination_by cs => cs.length

/-- The tokens of a source text. The last one, and only that, is of kind `eof`. -/
def tokenize (source : String) : List Token :=
  scan 1 0 source.toList

end MiniBasic.Token
