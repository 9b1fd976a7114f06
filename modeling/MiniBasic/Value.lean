import MiniBasic.Number.Decimal
import MiniBasic.Number.Numeral

/-!
# Values

Arrays, dictionaries and collections are objects: a value only names one, and the heap holds its
contents. So two values that name the same object share it, and containers are equal only to
themselves.
-/

namespace MiniBasic

/-- The built-in functions. -/
inductive Native where
  | isEmpty | isNumeric | cDbl | cLng | int | uCase | lCase | trim | len | cStr | uBound
  | createObject | array | lBound
  deriving DecidableEq

namespace Native

def all : List Native :=
  [isEmpty, isNumeric, cDbl, cLng, int, uCase, lCase, trim, len, cStr, uBound, createObject, array,
    lBound]

def name : Native → String
  | isEmpty => "IsEmpty"
  | isNumeric => "IsNumeric"
  | cDbl => "CDbl"
  | cLng => "CLng"
  | int => "Int"
  | uCase => "UCase"
  | lCase => "LCase"
  | trim => "Trim"
  | len => "Len"
  | cStr => "CStr"
  | uBound => "UBound"
  | createObject => "CreateObject"
  | array => "Array"
  | lBound => "LBound"

end Native

inductive Value where
  | empty
  | number (x : Float)
  | text (s : String)
  | boolean (b : Bool)
  | array (id : Nat)
  | dictionary (id : Nat)
  | collection (id : Nat)
  | native (f : Native)
  /-- The object whose method `Print` writes a line of output. -/
  | debug
  deriving DecidableEq, Inhabited

/-- The types that messages distinguish. -/
inductive ValueType where
  | empty | number | text | boolean | array | dictionary | collection | function | object
  deriving DecidableEq

namespace ValueType

def name : ValueType → String
  | empty => "Empty"
  | number => "Number"
  | text => "String"
  | boolean => "Boolean"
  | array => "Array"
  | dictionary => "Dictionary"
  | collection => "Collection"
  | function => "Function"
  | object => "Object"

end ValueType

namespace Value

def type : Value → ValueType
  | empty => .empty
  | number _ => .number
  | text _ => .text
  | boolean _ => .boolean
  | array _ => .array
  | dictionary _ => .dictionary
  | collection _ => .collection
  | native _ => .function
  | debug => .object

/-- Whether a condition with this value holds. -/
def isTrue : Value → Bool
  | empty => false
  | number x => x != 0 && !x.isNaN
  | text s => !s.isEmpty
  | boolean b => b
  | _ => true

/-- The number that arithmetic and ordering see. A container is no number. -/
def toNumber : Value → Float
  | empty => Number.ofNat 0
  | number x => x
  | text s => Number.ofText s
  | boolean b => Number.ofNat b.toNat
  | _ => Number.nan

/-- Equality as programs see it: values of different types differ, numbers compare as numbers, and
an object is equal only to itself. -/
def same : Value → Value → Bool
  | number x, number y => x == y
  | a, b => a == b

/-- Whether the value has members. -/
def hasMembers : Value → Bool
  | dictionary _ | collection _ | debug => true
  | _ => false

end Value

end MiniBasic
