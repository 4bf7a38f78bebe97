import TagScript.Machine.Basic
import TagScript.Value.Operation

/-!
# Built-in functions

What the built-in functions do. They see only globals, never a scope. A numeric argument that is
missing is no number.
-/

namespace TagScript

/-! ### Console -/

/-- Prints a text. -/
def printText (line : Nat) (text : String) : Run Unit := fun m =>
  match m.console.write text with
  | (.ok _, console) => .ok () { m with console }
  | (.error reason, console) => .error (.error (.run line (.device reason))) { m with console }

def flushOutput (line : Nat) : Run Unit := do
  match (← get).console.flush with
  | .ok _ => pure ()
  | .error reason => fail line (.device reason)

/-- Reads a line of input. -/
def inputLine (line : Nat) : Run String := fun m =>
  match m.console.readLine with
  | (.ok text, console) => .ok text { m with console }
  | (.error reason, console) => .error (.error (.run line (.device reason))) { m with console }

/-- Values as `write` and `writeln` print them. -/
def displayAll (args : List Value) : String :=
  " ".intercalate (args.map Value.display)

/-- A text without the line breaks at its end. -/
def dropLineEnd (text : String) : String :=
  String.ofList (text.toList.reverse.dropWhile fun c => c == '\n' || c == '\r').reverse

/-- Asks for a line and binds it globally. -/
def promptFor (args : List Value) (line : Nat) : Run Value := do
  match args[1]? with
  | none => fail line (.invalidArgument Builtin.prompt.name "missing variable name")
  | some target =>
    printText line ((args.head?.map Value.display).getD "" ++ " ")
    flushOutput line
    let answer ← inputLine line
    let tag := match args[2]? with
      | none => some (Tag.named "Text")
      | some type => if type.isTruthy then some (Tag.named type.display) else none
    modify fun m =>
      { m with
        globals := m.globals.insert target.display (.slot (.text (dropLineEnd answer)) tag) }
    pure .null

/-- The control sequence that clears a screen and moves the cursor to its first place. -/
def clearScreen : String := "\x1b[2J\x1b[1;1H"

/-! ### Numbers -/

def numberArg (args : List Value) (index : Nat) : Float :=
  (args[index]?.map Value.number).getD nan

/-- The functions of one real. -/
def Builtin.real? : Builtin → Option (Float → Float)
  | sqrt => some Float.sqrt
  | abs => some Float.abs
  | round => some fun x => (x + 0.5).floor
  | ceil => some Float.ceil
  | floor => some Float.floor
  | log => some Float.log
  | log2 => some Float.log2
  | log10 => some Float.log10
  | sin => some Float.sin
  | cos => some Float.cos
  | tan => some Float.tan
  | atan => some Float.atan
  | acos => some Float.acos
  | asin => some Float.asin
  | exp => some Float.exp
  | _ => none

/-- The larger of two reals, if both are numbers. -/
def larger (x y : Float) : Float :=
  if x.isNaN || y.isNaN then nan else if x < y then y else x

/-- The smaller of two reals, if both are numbers. -/
def smaller (x y : Float) : Float :=
  if x.isNaN || y.isNaN then nan else if y < x then y else x

/-- The product of two reals and a third one added to it, rounded once: the product is exact. -/
def mulAdd (x y z : Float) : Float :=
  let sum : Float.Model.UnpackedFloat :=
    match x.toModel.unpack, y.toModel.unpack, z.toModel.unpack with
    | .finite s m e hm, .finite t n f hn, .finite u k g hk =>
      .add .binary64 (.finite (s * t) (m * n) (e + f) (Nat.mul_pos hm hn)) (.finite u k g hk)
    | .finite s m e hm, .finite t n f hn, .zero _ =>
      .mul .binary64 (.finite s m e hm) (.finite t n f hn)
    -- only a finite product of finite factors is ever rounded
    | a, b, c => .add .binary64 (.mul .binary64 a b) c
  .ofModel (.pack sum)

example : mulAdd 0.1 10.0 (-1.0) ≠ 0.1 * 10.0 + -1.0 := by decide +kernel

def draw : Run Float :=
  modifyGet fun m => let (x, draws) := m.draws.next; (x, { m with draws })

/-! ### Calls -/

/-- Runs a built-in function. -/
def Builtin.call (b : Builtin) (args : List Value) (line : Nat) : Run Value :=
  let x := numberArg args 0
  let y := numberArg args 1
  match b with
  | write => do
    printText line (displayAll args ++ "\n")
    pure .null
  | writeln => do
    let shown := displayAll args
    printText line ((if shown.isEmpty then "\n" else "\n " ++ shown) ++ "\n")
    pure .null
  | prompt => promptFor args line
  | clear => do
    printText line clearScreen
    flushOutput line
    pure .null
  | length =>
    match args.head? with
    | some (.text content) => pure (.integer (Int64.ofNat content.length))
    | _ => pure .null
  | getType => do
    let name := (args.head?.map Value.display).getD ""
    match (← get).globals.get? name with
    | some binding => pure ((binding.tag.map fun tag => Value.text tag.text).getD .null)
    | none => fail line (.undefinedGlobal name)
  | exit => throw (.error (.exit ((args.head?.map fun v => exitStatus v.number).getD 0)))
  | delete => do
    match args.head? with
    | some name => modify fun m => { m with globals := m.globals.erase name.display }
    | none => pure ()
    pure .null
  | pow => pure (.real (Value.realPower x y))
  | max => pure (.real (larger x y))
  | min => pure (.real (smaller x y))
  | rand | randFloat => do
    let unit ← draw
    pure (.real (mulAdd unit (y - x) x))
  | randInt => do
    let unit ← draw
    pure (.real ((unit * (y - x + 1.0)).floor + x))
  | isNaN => pure (.bool x.isNaN)
  | isFinite => pure (.bool x.isFinite)
  | other => pure (.real (((other.real?).map (· x)).getD nan))

end TagScript
