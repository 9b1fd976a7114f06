import MiniBasic.Text.Case

/-!
# Tokens

A token is a classified piece of source text with its place: the line it starts on, counted from
one, and the byte offsets of its two ends.
-/

namespace MiniBasic

/-- The reserved words. -/
inductive Keyword where
  | forKw | toKw | nextKw | ifKw | thenKw | elseIfKw | elseKw | endKw | doKw | whileKw | loopKw
  | subKw | functionKw | dimKw | asKw | newKw | collectionKw | andKw | orKw | notKw | optionKw
  | explicitKw | constKw | setKw | onKw | errorKw | goToKw | eraseKw | reDimKw | stepKw | emptyKw
  | exitKw | byRefKw | byValKw | modKw | callKw | publicKw | privateKw
  deriving DecidableEq

namespace Keyword

def all : List Keyword :=
  [forKw, toKw, nextKw, ifKw, thenKw, elseIfKw, elseKw, endKw, doKw, whileKw, loopKw, subKw,
    functionKw, dimKw, asKw, newKw, collectionKw, andKw, orKw, notKw, optionKw, explicitKw, constKw,
    setKw, onKw, errorKw, goToKw, eraseKw, reDimKw, stepKw, emptyKw, exitKw, byRefKw, byValKw,
    modKw, callKw, publicKw, privateKw]

/-- The customary spelling. -/
def spelling : Keyword → String
  | forKw => "For"
  | toKw => "To"
  | nextKw => "Next"
  | ifKw => "If"
  | thenKw => "Then"
  | elseIfKw => "ElseIf"
  | elseKw => "Else"
  | endKw => "End"
  | doKw => "Do"
  | whileKw => "While"
  | loopKw => "Loop"
  | subKw => "Sub"
  | functionKw => "Function"
  | dimKw => "Dim"
  | asKw => "As"
  | newKw => "New"
  | collectionKw => "Collection"
  | andKw => "And"
  | orKw => "Or"
  | notKw => "Not"
  | optionKw => "Option"
  | explicitKw => "Explicit"
  | constKw => "Const"
  | setKw => "Set"
  | onKw => "On"
  | errorKw => "Error"
  | goToKw => "GoTo"
  | eraseKw => "Erase"
  | reDimKw => "ReDim"
  | stepKw => "Step"
  | emptyKw => "Empty"
  | exitKw => "Exit"
  | byRefKw => "ByRef"
  | byValKw => "ByVal"
  | modKw => "Mod"
  | callKw => "Call"
  | publicKw => "Public"
  | privateKw => "Private"

/-- The keyword that `word` spells, in any case. -/
def ofWord? (word : String) : Option Keyword :=
  let folded := Text.foldCase word
  all.find? fun k ↦ Text.foldCase k.spelling == folded

end Keyword

/-- Operators and punctuation. -/
inductive Symbol where
  | eq | notEq | lt | ltEq | gt | gtEq
  | plus | minus | star | slash | backslash | caret | ampersand
  | comma | dot | colon | leftParen | rightParen
  deriving DecidableEq

namespace Symbol

def spelling : Symbol → String
  | eq => "="
  | notEq => "<>"
  | lt => "<"
  | ltEq => "<="
  | gt => ">"
  | gtEq => ">="
  | plus => "+"
  | minus => "-"
  | star => "*"
  | slash => "/"
  | backslash => "\\"
  | caret => "^"
  | ampersand => "&"
  | comma => ","
  | dot => "."
  | colon => ":"
  | leftParen => "("
  | rightParen => ")"

/-- The name that token listings show. -/
def name : Symbol → String
  | eq => "Eq"
  | notEq => "NotEq"
  | lt => "Lt"
  | ltEq => "LtEq"
  | gt => "Gt"
  | gtEq => "GtEq"
  | plus => "Plus"
  | minus => "Minus"
  | star => "Star"
  | slash => "Slash"
  | backslash => "Backslash"
  | caret => "Caret"
  | ampersand => "Ampersand"
  | comma => "Comma"
  | dot => "Dot"
  | colon => "Colon"
  | leftParen => "LParen"
  | rightParen => "RParen"

end Symbol

/-- The class of a token. -/
inductive Kind where
  | identifier
  | number
  | text
  | keyword (k : Keyword)
  | symbol (s : Symbol)
  | newline
  /-- A character that starts no token of the language. -/
  | unknown
  | eof
  deriving DecidableEq

namespace Kind

/-- The class of a word: a keyword if it spells one, else an identifier. -/
def ofWord (word : String) : Kind :=
  match Keyword.ofWord? word with
  | some k => .keyword k
  | none => .identifier

def isKeyword : Kind → Bool
  | keyword _ => true
  | _ => false

/-- Identifiers and keywords are both words: after a dot or `As`, either may stand. -/
def isWord : Kind → Bool
  | identifier => true
  | keyword _ => true
  | _ => false

/-- The name that token listings show. -/
def name : Kind → String
  | identifier => "Identifier"
  | number => "Number"
  | text => "String"
  | keyword k => k.spelling
  | symbol s => s.name
  | newline => "Newline"
  | unknown => "Unknown"
  | eof => "Eof"

/-- What messages call a token of this class. -/
def description : Kind → String
  | identifier => "identifier"
  | number => "number"
  | text => "string"
  | keyword k => k.spelling
  | symbol s => s.spelling
  | newline => "end of line"
  | unknown => "unknown character"
  | eof => "end of input"

end Kind

structure Token where
  kind : Kind
  /-- The source text; of a string literal, what stands between the quotes. -/
  text : String
  /-- The line the token starts on, counted from one. -/
  line : Nat
  /-- Byte offset of the first character. -/
  start : Nat
  /-- Byte offset just past the last character. -/
  stop : Nat
  deriving DecidableEq

namespace Token

def isWord (t : Token) : Bool :=
  t.kind.isWord

/-- How messages refer to a token that stands where it should not. -/
def describe (t : Token) : String :=
  match t.kind with
  | .newline | .eof => t.kind.description
  | .text => "string \"" ++ t.text ++ "\""
  | _ => "'" ++ t.text ++ "'"

end Token

end MiniBasic
