import MiniBasic.Stmt

/-!
# Syntax errors

A syntax error is a complaint about one token of the source. The wording is in `Complaint.detail`.
-/

namespace MiniBasic

/-- What the grammar asks for at a place where only one kind of token may stand. -/
inductive Expected where
  | loopVariable | equalsAfterLoopVariable | toInFor | nextToCloseFor
  | thenAfterCondition | whileAfterDo | loopToCloseDo
  | procedureName (kind : ProcedureKind)
  | parameterName | closeArrayParameter | closeParameters
  | variableName | closeBounds
  | constantName | equalsAfterConstant | equalsInSet
  | errorAfterOn | nextAfterResume
  | arrayAfterErase | arrayAfterComma | arrayAfterReDim | openBounds
  | numberAfterBase | modeAfterCompare
  | closeArguments | closeExpression
  | blockEnd (k : Keyword)
  deriving DecidableEq

namespace Expected

def text : Expected → String
  | loopVariable => "Expected loop variable after 'For'"
  | equalsAfterLoopVariable => "Expected '=' after loop variable"
  | toInFor => "Expected 'To' in 'For' statement"
  | nextToCloseFor => "Expected 'Next' to close 'For' loop"
  | thenAfterCondition => "Expected 'Then' after condition"
  | whileAfterDo => "Expected 'While' after 'Do'"
  | loopToCloseDo => "Expected 'Loop' to close 'Do While'"
  | procedureName kind => "Expected name after '" ++ kind.keyword.spelling ++ "'"
  | parameterName => "Expected parameter name"
  | closeArrayParameter => "Expected ')' after array parameter"
  | closeParameters => "Expected ')' after parameters"
  | variableName => "Expected variable name"
  | closeBounds => "Expected ')' after array bounds"
  | constantName => "Expected constant name after 'Const'"
  | equalsAfterConstant => "Expected '=' after constant name"
  | equalsInSet => "Expected '=' in 'Set' statement"
  | errorAfterOn => "Expected 'Error' after 'On'"
  | nextAfterResume => "Expected 'Next' after 'On Error Resume'"
  | arrayAfterErase => "Expected array name after 'Erase'"
  | arrayAfterComma => "Expected array name after ','"
  | arrayAfterReDim => "Expected array name after 'ReDim'"
  | openBounds => "Expected '(' after array name"
  | numberAfterBase => "Expected number after 'Option Base'"
  | modeAfterCompare => "Expected mode after 'Option Compare'"
  | closeArguments => "Expected ')' after arguments"
  | closeExpression => "Expected ')' after expression"
  | blockEnd k => "Expected 'End " ++ k.spelling ++ "'"

end Expected

/-- A place where several kinds of token may stand. -/
inductive Place where
  | startOfStatement | afterGoTo | afterOnError | afterExit | afterOption | afterAccess
  | typeName | afterDot | inExpression
  deriving DecidableEq

namespace Place

def text : Place → String
  | startOfStatement => "at start of statement"
  | afterGoTo => "after 'On Error GoTo'"
  | afterOnError => "after 'On Error'"
  | afterExit => "after 'Exit'"
  | afterOption => "after 'Option'"
  | afterAccess => "after access modifier"
  | typeName => "where a type name was expected"
  | afterDot => "after '.'"
  | inExpression => "in expression"

/-- Advice on what may stand there. -/
def help : Place → Option String
  | afterOnError => some "Use 'On Error GoTo <label>' or 'On Error Resume Next'"
  | afterExit => some "Exit takes For, Do, Sub or Function"
  | _ => none

end Place

inductive Complaint where
  | expected (what : Expected)
  | unexpected (place : Place)
  | unknownToken
  | invalidNumber
  | trailingToken
  /-- The tree is nested deeper than the bound on nesting. The bound that parsing sets is larger
  than the number of tokens, so no token list leads here. -/
  | tooDeep
  deriving DecidableEq

namespace Complaint

/-- The complaint in words, about the token it was raised at. -/
def detail (token : Token) : Complaint → String
  | expected what => what.text ++ ", found " ++ token.describe
  | unexpected place => "Unexpected " ++ token.describe ++ " " ++ place.text
  | unknownToken => "Unknown token '" ++ token.text ++ "'"
  | invalidNumber => "Invalid number '" ++ token.text ++ "'"
  | trailingToken => "Unexpected token '" ++ token.text ++ "' after expression"
  | tooDeep => "Nesting too deep"

def help : Complaint → Option String
  | unexpected place => place.help
  | _ => none

end Complaint

structure SyntaxError where
  complaint : Complaint
  token : Token
  deriving DecidableEq

namespace SyntaxError

def detail (e : SyntaxError) : String :=
  e.complaint.detail e.token

def help (e : SyntaxError) : Option String :=
  e.complaint.help

def line (e : SyntaxError) : Nat :=
  e.token.line

def message (e : SyntaxError) : String :=
  "Parse error: " ++ e.detail ++ " at line " ++ toString e.line

/-- Byte offset and length of the offending token. -/
def span (e : SyntaxError) : Nat × Nat :=
  (e.token.start, e.token.stop - e.token.start)

end SyntaxError

end MiniBasic
