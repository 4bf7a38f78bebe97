import TagScript.Program.Parsed
import TagScript.Token.Lexer

/-!
# Errors

What can go wrong when a program is read and run, as causes, and the message for each.
-/

namespace TagScript

/-- What a file system or a console refuses. -/
inductive DeviceError where
  | notFound
  | notDirectory
  | isDirectory
  | nameTooLong
  /-- A path holds the character that ends texts for the system. -/
  | badPath
  /-- Bytes that are no text. -/
  | badText
  | full
  | flushFailed
  | other (text : String)
deriving DecidableEq, Repr

namespace DeviceError

def message : DeviceError → String
  | notFound => "No such file or directory (os error 2)"
  | notDirectory => "Not a directory (os error 20)"
  | isDirectory => "Is a directory (os error 21)"
  | nameTooLong => "File name too long (os error 36)"
  | badPath => "file name contained an unexpected NUL byte"
  | badText => "stream did not contain valid UTF-8"
  | full => "sink is full"
  | flushFailed => "flush failed"
  | other text => text

end DeviceError

/-- The cause of a failure at run time. -/
inductive Fault where
  | undefinedVariable (name : String)
  | undeclaredVariable (name : String)
  | invalidVariable (name : String)
  | unknownFunction (name : String)
  | arity (name : String) (expected found : Nat)
  | moduleNotFound (name : String)
  | moduleRead (path : String) (reason : DeviceError)
  | unknownExport (name : String)
  | unknownOperator (op : Operator)
  | undefinedGlobal (name : String)
  | invalidArgument (function details : String)
  | device (reason : DeviceError)
deriving DecidableEq, Repr

namespace Fault

def message : Fault → String
  | undefinedVariable name => s!"Undefined variable '{name}'."
  | undeclaredVariable name => s!"Cannot set undeclared variable '{name}'."
  | invalidVariable name => s!"'{name}' is not a valid DAV variable."
  | unknownFunction name => s!"Unknown function '{name}'."
  | arity name expected found =>
    s!"Function '{name}' expects {expected} arguments, but got {found}."
  | moduleNotFound name => s!"Module '{name}' not found in registry."
  | moduleRead path reason => s!"Cannot read module '{path}': {reason.message}."
  | unknownExport name => s!"Cannot export unknown identifier '{name}'."
  | unknownOperator op => s!"Unknown operator '{op.symbol}'."
  | undefinedGlobal name => s!"Undefined global variable '{name}'."
  | invalidArgument function details => s!"Invalid argument to '{function}': {details}."
  | device reason => s!"I/O failure: {reason.message}."

end Fault

inductive Error where
  | lex (cause : LexError)
  | parse (cause : ParseError)
  | run (line : Nat) (fault : Fault)
  /-- An error in a module, met where the module is fetched. -/
  | inModule (path : String) (line : Nat) (cause : Error)
  /-- The program ended itself. -/
  | exit (status : Int32)
deriving DecidableEq

namespace Error

def message : Error → String
  | lex cause => cause.message
  | parse cause => cause.message
  | run line fault => s!"Error on line {line}: {fault.message}"
  | inModule path line cause => s!"Error on line {line}: In module '{path}': {cause.message}"
  | exit status => s!"Program exited with status {status.toInt}."

end Error

end TagScript
