/-! # Diagnostics

What is told of an error: a message, and where there are any, a code, a hint and labelled places
of the text that is at fault.
-/
namespace Marginalia

/-- A labelled place of a text: a byte offset, a length in bytes and what is there. -/
structure Label where
  offset : Nat
  length : Nat
  text : String
  deriving DecidableEq, Repr

/-- What is told of an error. -/
structure Diagnostic where
  message : String
  code : String
  help : Option String
  labels : Option (List Label)
  deriving DecidableEq, Repr

/-- A diagnostic with a message and a code alone. -/
def Diagnostic.plain (message code : String) : Diagnostic :=
  ⟨message, code, none, none⟩

end Marginalia
