import MiniBasic.Text.PlainTable

/-!
# Quoted texts

A quoted text stands between double quotes on one line. Quotes, backslashes, line ends, tabs and the
null character have short escapes; any other character that is not plain is written as its code
point in hexadecimal.
-/

namespace MiniBasic.Text

def isPlain (c : Char) : Bool :=
  inRanges plainEnds c.toNat

def escapeChar (c : Char) : List Char :=
  if c == '\x00' then ['\\', '0']
  else if c == '\t' then ['\\', 't']
  else if c == '\r' then ['\\', 'r']
  else if c == '\n' then ['\\', 'n']
  else if c == '"' then ['\\', '"']
  else if c == '\\' then ['\\', '\\']
  else if isPlain c then [c]
  else ['\\', 'u', '\x7b'] ++ Nat.toDigits 16 c.toNat ++ ['\x7d']

def quoted (text : String) : String :=
  String.ofList ('"' :: text.toList.flatMap escapeChar ++ ['"'])

end MiniBasic.Text
