import TagScript.Machine.Builtin
import TagScript.Program.Statement

/-!
# Running programs

Expressions and statements run by recursion on their own structure. Two steps leave that structure:
the call of a declared function and the import of a module. Both are parameters of `Expr.eval` and
`Stmt.exec`, and `invoke` and `fetch` supply them, each level of nesting with a depth that is one
smaller. A run that needs more than its depth stops with `Halt.tooDeep` and nothing else does.
-/

namespace TagScript

/-- Runs the body of a declared function in scopes of its own. -/
abbrev Invoke := FunctionDecl → List Binding → Run Value

/-- Imports the module that a text names, for the statement on a line. -/
abbrev Fetch := String → Nat → Run Unit

/-- What a statement leaves the statements after it to do. -/
inductive Flow where
  | normal
  | returned (value : Value)
deriving DecidableEq

/-! ### Expressions -/

/-- The tag that an argument passes on: that of the variable, if the argument is just a name. -/
def Machine.passedTag (m : Machine) : Expr → Option Tag
  | .name id _ => (m.lookup id).bind Binding.tag
  | _ => none

mutual

def Expr.eval (invoke : Invoke) : Expr → Run Value
  | .literal value _ => pure (.ofLiteral value)
  | .name id line => do
    match (← get).lookup id with
    | some binding => pure binding.value
    | none => fail line (.undefinedVariable id)
  | .unary op operand line => do
    let v ← operand.eval invoke
    match v.unary op with
    | some result => pure result
    | none => fail line (.unknownOperator op)
  | .binary left op right line => do
    let a ← left.eval invoke
    let b ← right.eval invoke
    match a.binary op b with
    | some result => pure result
    | none => fail line (.unknownOperator op)
  | .call callee arguments line => do
    match (← get).functions.get? callee with
    | none => fail line (.unknownFunction callee)
    | some (.builtin b) =>
      let args ← Expr.evalAll invoke arguments
      b.call (args.map Binding.value) line
    | some (.user f) =>
      if arguments.length = f.params.length then
        let args ← Expr.evalAll invoke arguments
        invoke f args
      else fail line (.arity f.name f.params.length arguments.length)

/-- Evaluates arguments from left to right, each to the slot that a parameter gets. -/
def Expr.evalAll (invoke : Invoke) : List Expr → Run (List Binding)
  | [] => pure []
  | e :: rest => do
    let value ← e.eval invoke
    let tag := (← get).passedTag e
    let more ← Expr.evalAll invoke rest
    pure (.slot value tag :: more)

end

/-! ### Statements -/

/-- Runs in a fresh innermost scope, and drops it at the end however the run ends. -/
def inBlock {α : Type} (run : Run α) : Run α := fun m =>
  match run { m with scopes := ∅ :: m.scopes } with
  | .ok a m => .ok a { m with scopes := m.scopes.tail }
  | .error h m => .error h { m with scopes := m.scopes.tail }

/-- Adds names to the exports. Names before one that is unknown stay added. -/
def launchNames (line : Nat) : List String → Run Unit
  | [] => pure ()
  | name :: rest => do
    match (← get).export? name with
    | some item =>
      modify fun m => { m with exports := m.exports.insert name item }
      launchNames line rest
    | none => fail line (.unknownExport name)

/-- Stores a value in the binding that a name means. -/
def store (name : String) (value : Value) (line : Nat) : Run Unit := do
  match (← get).assign name value with
  | .error fault => fail line fault
  | .ok m => set m

/-- Assigns to a name, which is checked before the value is computed and again after. -/
def setVariable (name : String) (value : Run Value) (line : Nat) : Run Unit := do
  match (← get).checkAssignable name with
  | .error fault => fail line fault
  | .ok _ =>
    let v ← value
    store name v line

mutual

def Stmt.exec (invoke : Invoke) (fetch : Fetch) : Stmt → Run Flow
  | .declare type name init _ => do
    let value ← init.eval invoke
    modify (·.declare name (.slot value (some (Tag.ofType type))))
    pure .normal
  | .set name value line => do
    setVariable name (value.eval invoke) line
    pure .normal
  | .define name result params body line => do
    modify fun m =>
      { m with functions := m.functions.insert name (.user ⟨name, result, params, body, line⟩) }
    pure .normal
  | .when test body alternate _ => do
    let holds ← test.eval invoke
    if holds.isTruthy then body.exec invoke fetch
    else match alternate with
      | some block => block.exec invoke fetch
      | none => pure .normal
  | .otherwise body _ => body.exec invoke fetch
  | .giveBack value _ => do
    let v ← value.eval invoke
    pure (.returned v)
  | .expression value _ => do
    let _ ← value.eval invoke
    pure .normal
  | .fetch path line => do
    fetch path line
    pure .normal
  | .launch names line => do
    launchNames line names
    pure .normal

def Block.exec (invoke : Invoke) (fetch : Fetch) : Block → Run Flow
  | .mk statements _ => inBlock (Stmt.execAll invoke fetch statements)

/-- Runs statements in order, up to the first that returns. -/
def Stmt.execAll (invoke : Invoke) (fetch : Fetch) : List Stmt → Run Flow
  | [] => pure .normal
  | s :: rest => do
    match ← s.exec invoke fetch with
    | .normal => Stmt.execAll invoke fetch rest
    | .returned v => pure (.returned v)

end

/-- Runs a program. What it returns at its top level is dropped. -/
def Program.exec (invoke : Invoke) (fetch : Fetch) (p : Program) : Run Unit := do
  let _ ← Stmt.execAll invoke fetch p.body

/-! ### Calls -/

/-- The scope of a call: each parameter bound to its argument. -/
def frame (params : List Param) (args : List Binding) : Scope :=
  (params.zip args).foldl (fun s (param, arg) => s.insert param.name arg) ∅

/-- Runs with only the given scope, and puts the caller's scopes back however the run ends. A called
function has a scope without a parent, so it sees none of the caller's scopes; the machine holds the
scopes of the code that runs, and to put the caller's aside and back stands for that. -/
def inFrame (s : Scope) (run : Run Flow) : Run Value := fun m =>
  match run { m with scopes := [s] } with
  | .ok (.returned v) m' => .ok v { m' with scopes := m.scopes }
  | .ok .normal m' => .ok .null { m' with scopes := m.scopes }
  | .error h m' => .error h { m' with scopes := m.scopes }

/-! ### Modules -/

/-- Reads a source text as a program. -/
def Program.parse (source : String) : Except Error Program :=
  match lex source with
  | .error cause => .error (.lex cause)
  | .ok lexemes =>
    match readProgram lexemes with
    | .error cause => .error (.parse cause)
    | .ok program => .ok program

namespace Machine

/-- The path that a fetch asks for: a text with a slash or backslash is one, any other text is a
name in the registry. -/
def locate (m : Machine) (requested : String) : Except Fault String :=
  if requested.any fun c => c == '/' || c == '\\' then .ok requested
  else match m.registry.get? requested with
    | some path => .ok path
    | none => .error (.moduleNotFound requested)

/-- The path of the module that a fetch asks for. -/
def target (m : Machine) (requested : String) : Except Fault String :=
  match m.locate requested with
  | .error fault => .error fault
  | .ok location =>
    match m.disk.resolve location with
    | .error reason => .error (.moduleRead location reason)
    | .ok path => .ok path

/-- Whether the module at a path is running already. -/
def isRunning (m : Machine) (path : String) : Bool :=
  m.current == some path || m.loading.contains path

theorem isRunning_iff {m : Machine} {path : String} :
    m.isRunning path = true ↔ m.current = some path ∨ path ∈ m.loading := by
  rw [isRunning, Bool.or_eq_true, beq_iff_eq, List.contains_iff_mem]

/-- Marks a path as loading. -/
def mark (m : Machine) (path : String) : Machine :=
  { m with loading := m.loading.insert path }

/-- Takes the mark of a path away. -/
def unmark (m : Machine) (path : String) : Machine :=
  { m with loading := m.loading.erase path }

@[simp] theorem mark_disk (m : Machine) (path : String) : (m.mark path).disk = m.disk :=
  rfl

/-- The machine that a module starts in: nothing that the importer has bound is in it. -/
def forModule (m : Machine) (path : String) : Machine :=
  { m with
    globals := ∅
    functions := Function.builtins
    exports := ∅
    scopes := []
    current := some path }

/-- The machine in which the importer goes on after a module: all that `forModule` put aside is put
back, the rest stays as the module left it. -/
def resume (importer module : Machine) : Machine :=
  { module with
    globals := importer.globals
    functions := importer.functions
    exports := importer.exports
    scopes := importer.scopes
    current := importer.current }

end Machine

/-- An early stop inside a module, as the importer sees it. A program that ends itself does so from
any depth. -/
def Halt.fromModule (path : String) (line : Nat) : Halt → Halt
  | .error (.exit status) => .error (.exit status)
  | .error e => .error (.inModule path line e)
  | .tooDeep => .tooDeep

/-- Runs the module at a resolved path and gives what it exports. -/
def runModule (run : Program → Run Unit) (path : String) (line : Nat) :
    Run (Table Export) := fun m =>
  match m.disk.readText path with
  | .error reason => .error (.error (.run line (.moduleRead path reason))) m
  | .ok source =>
    match Program.parse source with
    | .error e => .error (.error (.inModule path line e)) m
    | .ok program =>
      match run program (m.forModule path) with
      | .ok _ m' => .ok m'.exports (m.resume m')
      | .error h m' => .error (h.fromModule path line) (m.resume m')

/-- Runs with a path marked as loading, and takes the mark away however the run ends. -/
def whileLoading {α : Type} (path : String) (run : Run α) : Run α := fun m =>
  match run (m.mark path) with
  | .ok a m => .ok a (m.unmark path)
  | .error h m => .error h (m.unmark path)

/-- Imports a module, unless it is running already. -/
def importModule (run : Program → Run Unit) (requested : String) (line : Nat) : Run Unit := do
  let m ← get
  match m.target requested with
  | .error fault => fail line fault
  | .ok path =>
    if m.isRunning path then pure ()
    else
      let exports ← whileLoading path (runModule run path line)
      modify (·.merge exports)

/-! ### The knot -/

mutual

/-- Calls a declared function, with `depth` levels of calls and imports to go. -/
def invoke (depth : Nat) (f : FunctionDecl) (args : List Binding) : Run Value :=
  match depth with
  | 0 => throw .tooDeep
  | d + 1 => inFrame (frame f.params args) (f.body.exec (invoke d) (fetch d))

/-- Imports a module, with `depth` levels of calls and imports to go. -/
def fetch (depth : Nat) (requested : String) (line : Nat) : Run Unit :=
  match depth with
  | 0 => throw .tooDeep
  | d + 1 => importModule (Program.exec (invoke d) (fetch d)) requested line

end

end TagScript
