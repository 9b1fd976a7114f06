import MiniBasic.Value

/-!
# The command line

A command names what to do, the source file to do it with, and what else the command needs. The
arguments are checked from left to right, and the extension of the file last.
-/

namespace MiniBasic

inductive Command where
  /-- Run the file and then, if an entry is named, call that procedure with the arguments. -/
  | run (entry : Option String) (args : List String)
  | check
  | tokens
  /-- Run the file and then print the value of the expression. -/
  | eval (expression : String)
  deriving DecidableEq

structure Config where
  command : Command
  path : String
  warnings : Bool
  deriving DecidableEq

inductive UsageError where
  | missingCommand
  | unknownCommand (command : String)
  | missingFile
  | invalidExtension (file : String)
  | missingExpression
  | unexpectedArgument (argument : String)
  deriving DecidableEq

namespace UsageError

def message : UsageError → String
  | missingCommand => "missing command"
  | unknownCommand command => "unknown command \x60" ++ command ++ "\x60"
  | missingFile => "missing source file"
  | invalidExtension file =>
    "invalid file extension for \x60" ++ file ++ "\x60: only .vba and .bas files are allowed"
  | missingExpression => "\x60eval\x60 needs an expression"
  | unexpectedArgument argument => "unexpected argument \x60" ++ argument ++ "\x60"

end UsageError

namespace Command

/-- The command of the given name with the arguments behind the file. -/
def ofArgs (name : String) (rest : List String) : Except UsageError Command :=
  match name, rest with
  | "run", [] => .ok (run none [])
  | "run", entry :: args => .ok (run (some entry) args)
  | "check", [] => .ok check
  | "tokens", [] => .ok tokens
  | "check", extra :: _ => .error (.unexpectedArgument extra)
  | "tokens", extra :: _ => .error (.unexpectedArgument extra)
  | "eval", [] => .error .missingExpression
  | "eval", words => .ok (eval (" ".intercalate words))
  | _, _ => .error (.unknownCommand name)

end Command

namespace Config

def usage : String :=
  "Usage: vbalite <run|check|tokens|eval> <file.vba|file.bas> [procedure [args...] | expression]"

/-- The variable of the process environment that turns warnings off. -/
def warningsVariable : String :=
  "VBALITE_NO_WARNINGS"

/-- The last component of a path, the parts that stand for no step of their own left out. -/
def fileName? (path : String) : Option String :=
  ((path.splitOn "/").filter fun part ↦ part != "" && part != ".").getLast?

/-- What stands behind the last dot of a file name. A name whose only dot comes first has no
extension, and neither has the name of the parent directory. -/
def extension? (name : String) : Option String :=
  if name == ".." then none
  else
    let cs := name.toList
    let extension := (cs.reverse.takeWhile (· != '.')).reverse
    let stem := cs.take (cs.length - extension.length - 1)
    if extension.length < cs.length && !stem.isEmpty then some (String.ofList extension) else none

/-- Whether a path names a source file. -/
def isSourcePath (path : String) : Bool :=
  ((fileName? path).bind extension?).any fun e ↦ Text.sameWord e "vba" || Text.sameWord e "bas"

/-- Reads the arguments of the program, without its own name. -/
def ofArgs (args : List String) (warnings : Bool) : Except UsageError Config :=
  match args with
  | [] => .error .missingCommand
  | [_] => .error .missingFile
  | name :: file :: rest => do
    let command ← Command.ofArgs name rest
    if isSourcePath file then
      return ⟨command, file, warnings⟩
    else
      throw (.invalidExtension file)

end Config

/-- An argument for a procedure: a number if the text reads as one, else the text. -/
def Value.ofArgument (text : String) : Value :=
  match Number.read? (Text.trim text.toList) with
  | some x => .number x
  | none => .text text

end MiniBasic
