import Marginalia.CommandLine.Report

/-! # The program

Reads the arguments, the environment and the files, runs the command line, and prints what it
reports.
-/

namespace Marginalia.CommandLine

/-- The contents of a file, if it can be read. -/
def readFile (path : String) : IO (Option Bytes) := do
  try return some (← IO.FS.readBinFile path).toList
  catch _ => return none

/-- Writes a file, and tells whether that was possible. -/
def writeFile (path : String) (text : Text) : IO Bool := do
  try
    IO.FS.writeFile path (String.ofList text)
    return true
  catch _ => return false

/-- Tells a failure. -/
def fail (failure : Failure) : IO UInt32 := do
  IO.eprintln ("error: " ++ failure.message)
  return failure.status.toUInt32

/-- What the files and the environment hold of what a run looks for. -/
def look (environment : List (String × String)) (files : List (String × Option Bytes)) :
    Surroundings where
  contents := fun path => (files.lookup path).join
  variableValue := fun name => environment.lookup name

/-- The variables that the program knows, where they are set. -/
def readEnvironment : IO (List (String × String)) := do
  let names := [settingsVariable, converterVariable, timeoutVariable]
  let values ← names.mapM fun name => do return (name, ← IO.getEnv name)
  return values.filterMap fun (name, value) => value.map (name, ·)

/-- Prints a report and writes its file. -/
def publish (report : Report) : IO UInt32 := do
  IO.print (String.ofList report.output)
  IO.eprint (String.ofList report.notes)
  match report.file with
  | none => return 0
  | some (path, text) =>
    if ← writeFile path text then
      IO.eprint (String.ofList report.closing)
      return 0
    else fail (.unwritable path)

end Marginalia.CommandLine

open Marginalia.CommandLine

/-- The command line. -/
def main (arguments : List String) : IO UInt32 := do
  let environment ← readEnvironment
  match request (look environment []) arguments with
  | .error failure => fail failure
  | .ok asked =>
    let paths := match asked with
      | .invocation invocation => invocation.files
      | _ => []
    let files ← paths.mapM fun path => do return (path, ← readFile path)
    match asked.run (look environment files) with
    | .error failure => fail failure
    | .ok report => publish report
