import MiniBasic.Report

/-!
# The program

Reads the source file, carries out the command and writes the report.
-/

namespace MiniBasic

def readSource (path : String) : IO (Except AccessError String) := do
  try
    match String.fromUTF8? (← IO.FS.readBinFile path) with
    | some source => return .ok source
    | none => return .error .notText
  catch
    | .noFileOrDirectory .. => return .error .missing
    | e => return .error (.other (toString e))

end MiniBasic

def main (args : List String) : IO UInt32 := do
  let silenced ← IO.getEnv MiniBasic.Config.warningsVariable
  let report ← MiniBasic.Config.main MiniBasic.Config.unlimited args silenced.isNone
    MiniBasic.readSource
  for line in report.output do
    IO.println line
  for line in report.errorLines do
    IO.eprintln line
  return if report.failure.isSome then 1 else 0
