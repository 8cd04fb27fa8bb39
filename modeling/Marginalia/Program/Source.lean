import Marginalia.Program.Escape

/-! # Sources

An operand names what a program reads instead of its input.  The input itself goes by a dash; of
other names only the empty and the endless source are known, and a few directories, which cannot be
read.
-/
namespace Marginalia.Program

open Text

/-- What is read from: bytes, or zeros without end. -/
inductive Source where
  | finite (content : Bytes)
  | zeros

/-- So many bytes are shown of a source without end. -/
def endlessLength : Nat := 1 <<< 17

/-- The source that an operand names, and what is then left of the input. -/
def source? (operand : String) (input : Bytes) : Option (Source × Bytes) :=
  match operand with
  | "-" | "/dev/stdin" => some (.finite input, [])
  | "/dev/null" => some (.finite [], input)
  | "/dev/zero" => some (.zeros, input)
  | _ => none

/-- The names of directories. -/
def directories : List String :=
  [".", "..", "./", "../", "/", "/bin", "/dev", "/etc", "/tmp", "/usr", "/usr/bin", "/var"]

/-- Why an operand that names no source cannot be opened. -/
def notFound : String :=
  "No such file or directory"

/-- Why an operand that names no source cannot be read. -/
def unreadable (operand : String) : String :=
  if directories.contains operand then "Is a directory" else notFound

/-- Why a file of the given name cannot be created, if it cannot. -/
def creationFault? (name : String) : Option String :=
  let folder := (name.toList.reverse.dropWhile (· ≠ '/')).reverse
  if directories.contains name then some "Is a directory"
  else if name = "" then some "Directory nonexistent"
  else if folder.isEmpty || directories.contains (String.ofList folder) ||
      directories.contains (String.ofList folder.dropLast) then none
  else some "Directory nonexistent"

end Marginalia.Program
