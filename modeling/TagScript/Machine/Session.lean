import TagScript.Machine.Eval

/-!
# Working with a machine

What a host does with a machine: run programs and files, evaluate single expressions, statements and
blocks. Each takes the depth of nested calls and imports that it allows.
-/

namespace TagScript

/-- Stops with an error. -/
def stop {α : Type} (e : Error) : Run α :=
  throw (.error e)

/-- Runs a program. -/
def runProgram (depth : Nat) (p : Program) : Run Unit :=
  p.exec (invoke depth) (fetch depth)

/-- Reads a source text and runs it. -/
def runSource (depth : Nat) (source : String) : Run Unit :=
  match Program.parse source with
  | .error e => stop e
  | .ok program => runProgram depth program

/-- Runs the entry script at a path, which is loading and the current module until the run ends. -/
def asEntry (path : String) (run : Run Unit) : Run Unit :=
  whileLoading path fun m =>
    match run { m with current := some path } with
    | .ok _ m' => .ok () { m' with current := m.current }
    | .error h m' => .error h { m' with current := m.current }

/-- Runs the script in a file. -/
def runFile (depth : Nat) (path : String) : Run Unit := do
  let disk := (← get).disk
  match disk.resolve path with
  | .error reason => fail 0 (.moduleRead path reason)
  | .ok resolved =>
    match disk.readText resolved with
    | .error reason => fail 0 (.moduleRead path reason)
    | .ok source =>
      match Program.parse source with
      | .error e => stop e
      | .ok program => asEntry resolved (runProgram depth program)

/-- Reads a node off the front of a source text; what follows it does not matter. -/
def readFront {α : Type} (read : (ts : List Lexeme) → Parsed α ts.length) (source : String) :
    Run α :=
  match lex source with
  | .error cause => stop (.lex cause)
  | .ok lexemes =>
    match (read lexemes).toExcept with
    | .error cause => stop (.parse cause)
    | .ok node => pure node

/-- Evaluates the expression at the front of a source text. -/
def evalSource (depth : Nat) (source : String) : Run Value := do
  (← readFront readExpression source).eval (invoke depth)

/-- Runs the statement at the front of a source text. -/
def execStatement (depth : Nat) (source : String) : Run Flow := do
  (← readFront readStatement source).exec (invoke depth) (fetch depth)

/-- Runs the block at the front of a source text. -/
def execBlock (depth : Nat) (source : String) : Run Flow := do
  (← readFront readBlock source).exec (invoke depth) (fetch depth)

end TagScript
