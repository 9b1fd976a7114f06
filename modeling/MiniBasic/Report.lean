import MiniBasic.CommandLine
import MiniBasic.Session
import MiniBasic.Text.Quoted

/-!
# Carrying out a command

A report holds the lines that a command writes and the reason why it failed, if it did.
-/

namespace MiniBasic

/-- Why a source file could not be read. -/
inductive AccessError where
  | missing
  | notText
  | other (reason : String)
  deriving DecidableEq

namespace AccessError

def message : AccessError → String
  | missing => "No such file or directory (os error 2)"
  | notText => "stream did not contain valid UTF-8"
  | other reason => reason

end AccessError

inductive Failure where
  | usage (e : UsageError)
  | access (path : String) (e : AccessError)
  | malformed (e : SyntaxError)
  | runtime (e : RuntimeError)
  | unfinished
  deriving DecidableEq

namespace Failure

def lines : Failure → List String
  | usage e => [e.message, Config.usage]
  | access path e => ["Failed to access " ++ path ++ ": " ++ e.message]
  | malformed e => e.message :: e.help.toList.map ("help: " ++ ·)
  | runtime e => ["Runtime error: " ++ e.message]
  | unfinished => ["Run stopped before its end"]

end Failure

structure Report where
  /-- The lines for standard output. -/
  output : List String
  warnings : List String
  failure : Option Failure
  deriving DecidableEq

namespace Report

def ofFailure (f : Failure) : Report :=
  ⟨[], [], some f⟩

/-- The lines for standard error. -/
def errorLines (r : Report) : List String :=
  r.warnings ++ (r.failure.map Failure.lines).getD []

end Report

/-- The text in front of which spaces stand up to the given width. -/
def padLeft (width : Nat) (text : String) : String :=
  String.ofList (List.replicate (width - text.length) ' ') ++ text

/-- The text behind which spaces stand up to the given width. -/
def padRight (width : Nat) (text : String) : String :=
  text ++ String.ofList (List.replicate (width - text.length) ' ')

/-- The line of a token listing. -/
def Token.listing (t : Token) : String :=
  padLeft 4 (toString t.line) ++ "  " ++ padRight 12 t.kind.name ++ " " ++ Text.quoted t.text

namespace Command

/-- What is left to do after the program of the file has run: the lines to print. -/
def followUp (fuel : Nat) : Command → Machine (List String)
  | run (some entry) args => do
    let value ← Machine.callProcedure fuel entry (args.map Value.ofArgument)
    if value == .empty then return [] else return [(← get).heap.text value]
  | eval expression => do
    let value ← Machine.evalText fuel expression
    return [(← get).heap.text value]
  | _ => return []

end Command

namespace Config

/-- Runs the program and what the command asks for after it. -/
def runReport (fuel : Nat) (config : Config) (program : Program) : Report :=
  let (outcome, s) := (do
    Machine.runProgram fuel program
    config.command.followUp fuel).finish .initial
  let warnings := if config.warnings then s.notices.map Notice.message else []
  match outcome with
  | .done lines => ⟨s.output.toList ++ lines, warnings, none⟩
  | .failed e => ⟨s.output.toList, warnings, some (.runtime e)⟩
  | .unfinished => ⟨s.output.toList, warnings, some .unfinished⟩

/-- Carries out a command on the source text of its file. -/
def execute (fuel : Nat) (config : Config) (source : String) : Report :=
  let tokens := Token.tokenize source
  if config.command = .tokens then ⟨tokens.map Token.listing, [], none⟩
  else
    match parse tokens with
    | .error e => .ofFailure (.malformed e)
    | .ok program =>
      if config.command = .check then
        ⟨[config.path ++ ": parsed " ++ toString program.length ++ " top-level statements"],
          [], none⟩
      else config.runReport fuel program

/-- The whole program: reads the arguments, gets the file by `readFile` and carries out the
command. -/
def main {m : Type → Type} [Monad m] (fuel : Nat) (args : List String) (warnings : Bool)
    (readFile : String → m (Except AccessError String)) : m Report := do
  match ofArgs args warnings with
  | .error e => return .ofFailure (.usage e)
  | .ok config =>
    match ← readFile config.path with
    | .error e => return .ofFailure (.access config.path e)
    | .ok source => return config.execute fuel source

/-- A bound that no run reaches in practice. -/
def unlimited : Nat :=
  4000000000000000000

end Config

end MiniBasic
