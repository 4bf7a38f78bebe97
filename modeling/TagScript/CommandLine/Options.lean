import TagScript.Value.Basic

/-!
# Command-line options

Reading the arguments of the command. Options may be written in their short and long forms, with the
value attached or in the next argument. An option's value is only checked when the next option or
file turns up or the arguments end; an argument that is unknown is refused before that.
-/

namespace TagScript

structure Options where
  file : String
  registry : Option String := none
  /-- The constants to define, in order. -/
  defines : List (String × Value) := []
  tokens : Bool := false
  ast : Bool := false
  dumpGlobals : Bool := false

/-- What the arguments ask for. -/
inductive Request where
  | run (options : Options)
  | version
  | help
  /-- The arguments are refused; the message is empty unless a definition is at fault. -/
  | refuse (message : String)

/-- The whole number that a text of an optional sign and digits stands for, if a word holds it. -/
def readWord? (text : List Char) : Option Int64 :=
  let (negative, digits) := splitSign text
  if digits.isEmpty || !digits.all Char.isDigit then none
  else
    let n : Int := Nat.ofDigitChars 10 digits 0
    wordOf? (if negative then -n else n)

/-- The real that a text stands for. Beside numerals these are `inf`, `infinity` and `nan` in any
case. -/
def readConstantReal? (text : List Char) : Option Float :=
  let (negative, unsigned) := splitSign text
  let word := String.ofList (unsigned.map Char.toLower)
  if word == "inf" || word == "infinity" then some (if negative then -infinity else infinity)
  else if word == "nan" then some nan
  else readReal? text

/-- The value of a constant given on the command line. -/
def constantValue (text : String) : Value :=
  match readWord? text.toList, readConstantReal? text.toList with
  | some n, _ => .integer n
  | none, some x => .real x
  | none, none => .text text

/-- Reads `NAME=VALUE`. -/
def readDefine (definition : String) : Except String (String × Value) :=
  let cs := definition.toList
  let name := cs.takeWhile (· != '=')
  match cs.dropWhile (· != '=') with
  | [] => .error s!"expected NAME=VALUE, found '{definition}'"
  | _ :: value =>
    if name.isEmpty then .error "constant name is empty"
    else .ok (String.ofList name, constantValue (String.ofList value))

namespace Options

/-- The options that take a value, and the file, which stands without a name. -/
inductive Slot where
  | file
  | registry
  | define

/-- Options that stand alone. -/
inductive Switch where
  | tokens
  | ast
  | dumpGlobals
  | version
  | help

/-- Arguments read so far. -/
structure Draft where
  file : Option String := none
  registry : Option String := none
  defines : List (String × Value) := []
  tokens : Bool := false
  ast : Bool := false
  dumpGlobals : Bool := false
  /-- A value that is still to be checked; an option may be waiting for it. -/
  pending : Option (Slot × Option String) := none

namespace Draft

/-- Checks a value and stores it. -/
def store (d : Draft) : Slot → String → Except String Draft
  | .file, value => if value.isEmpty then .error "" else .ok { d with file := some value }
  | .registry, value =>
    if value.isEmpty || d.registry.isSome then .error "" else .ok { d with registry := some value }
  | .define, value =>
    (readDefine value).map fun define => { d with defines := d.defines ++ [define] }

/-- Checks what is pending. -/
def settle (d : Draft) : Except String Draft :=
  match d.pending with
  | none => .ok d
  | some (_, none) => .error ""
  | some (slot, some value) => { d with pending := none }.store slot value

/-- Turns a switch on; none may be given twice. -/
def turnOn (d : Draft) : Switch → Except Request Draft
  | .tokens => if d.tokens then .error (.refuse "") else .ok { d with tokens := true }
  | .ast => if d.ast then .error (.refuse "") else .ok { d with ast := true }
  | .dumpGlobals =>
    if d.dumpGlobals then .error (.refuse "") else .ok { d with dumpGlobals := true }
  | .version => .error .version
  | .help => .error .help

/-- An option with or without an attached value. -/
def addOption (d : Draft) (slot : Slot) (value : Option String) : Except Request Draft :=
  match d.settle with
  | .error message => .error (.refuse message)
  | .ok d =>
    match value with
    | none => .ok { d with pending := some (slot, none) }
    | some value =>
      match d.store slot value with
      | .error message => .error (.refuse message)
      | .ok d => .ok d

/-- A switch, which takes no value. -/
def addSwitch (d : Draft) (switch : Switch) (value : Option String) : Except Request Draft :=
  match value, d.settle with
  | some _, _ => .error (.refuse "")
  | none, .error message => .error (.refuse message)
  | none, .ok d => d.turnOn switch

/-- The file. There is only one. -/
def addFile (d : Draft) (value : String) : Except Request Draft :=
  let taken := match d.pending with
    | some (.file, _) => true
    | _ => d.file.isSome
  if taken then .error (.refuse "")
  else match d.settle with
    | .error message => .error (.refuse message)
    | .ok d => .ok { d with pending := some (.file, some value) }

/-- The option or switch of a long name. -/
def long? : String → Option (Slot ⊕ Switch)
  | "registry" => some (.inl .registry)
  | "define" => some (.inl .define)
  | "tokens" => some (.inr .tokens)
  | "ast" => some (.inr .ast)
  | "dump-globals" => some (.inr .dumpGlobals)
  | "version" => some (.inr .version)
  | "help" => some (.inr .help)
  | _ => none

/-- The option or switch of a short name. -/
def short? : Char → Option (Slot ⊕ Switch)
  | 'r' => some (.inl .registry)
  | 'd' => some (.inl .define)
  | 'V' => some (.inr .version)
  | 'h' => some (.inr .help)
  | _ => none

/-- An argument that starts with two dashes, given without them. -/
def addLong (d : Draft) (text : List Char) : Except Request Draft :=
  let name := String.ofList (text.takeWhile (· != '='))
  let value := match text.dropWhile (· != '=') with
    | [] => none
    | _ :: value => some (String.ofList value)
  match long? name with
  | none => .error (.refuse "")
  | some (.inl slot) => d.addOption slot value
  | some (.inr switch) => d.addSwitch switch value

/-- An argument that starts with one dash, given without it: a name and, after it, the value. -/
def addShort (d : Draft) (name : Char) (rest : List Char) : Except Request Draft :=
  let value := match rest with
    | [] => none
    | '=' :: value => some (String.ofList value)
    | value => some (String.ofList value)
  match short? name with
  | none => .error (.refuse "")
  | some (.inl slot) => d.addOption slot value
  | some (.inr switch) => d.addSwitch switch none

/-- A plain argument: the value that an option waits for, or the file. -/
def addPlain (d : Draft) (value : String) : Except Request Draft :=
  match d.pending with
  | some (slot, none) => .ok { d with pending := some (slot, some value) }
  | _ => d.addFile value

/-- Reads arguments from left to right. After a lone double dash all are files. -/
def addAll (d : Draft) : List String → Except Request Draft
  | [] => .ok d
  | arg :: rest =>
    match arg.toList with
    | ['-', '-'] => rest.foldlM addFile d
    | '-' :: '-' :: text => (d.addLong text).bind (addAll · rest)
    | '-' :: name :: text => (d.addShort name text).bind (addAll · rest)
    | _ => (d.addPlain arg).bind (addAll · rest)

/-- The options, once all arguments are read. -/
def finish (d : Draft) : Request :=
  match d.settle with
  | .error message => .refuse message
  | .ok d =>
    match d.file with
    | none => .refuse ""
    | some file =>
      .run ⟨file, d.registry, d.defines, d.tokens, d.ast, d.dumpGlobals⟩

end Draft

end Options

namespace Request

/-- Reads the arguments of the command. -/
def ofArguments (args : List String) : Request :=
  match ({} : Options.Draft).addAll args with
  | .error request => request
  | .ok draft => draft.finish

end Request

end TagScript
