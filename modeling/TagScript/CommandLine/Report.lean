import TagScript.CommandLine.Options
import TagScript.Machine.Session
import TagScript.Program.Outline
import TagScript.Registry.Basic

/-!
# The command

What the command prints and the status it ends with, as a function of its arguments, the disk, the
input and the draws. The draws of the executable are those of a seed.
-/

namespace TagScript

/-- Evenly spread reals from zero up to but not including one, by the generator SplitMix64. -/
def RealSequence.seeded (seed : UInt64) : RealSequence := fun (position : Nat) =>
  let z := seed + 0x9E3779B97F4A7C15 * (position + 1).toUInt64
  let z := (z ^^^ (z >>> 30)) * 0xBF58476D1CE4E5B9
  let z := (z ^^^ (z >>> 27)) * 0x94D049BB133111EB
  let z := z ^^^ (z >>> 31)
  (z >>> 11).toFloat / 9007199254740992.0

/-- A numeral stands for the sequence of that seed. -/
instance (seed : Nat) : OfNat RealSequence seed :=
  ⟨.seeded seed.toUInt64⟩

/-- What a run of the command shows. -/
structure Report where
  /-- From 0 to 255. -/
  status : Nat
  output : ByteArray
  errors : String

namespace Report

/-- A report of printed text. -/
def printed (text : String) : Report :=
  ⟨0, text.toUTF8, ""⟩

/-- A report of a failure. -/
def failed (output : ByteArray) (message : String) : Report :=
  ⟨1, output, "Error: " ++ message ++ "\n"⟩

end Report

/-- The registry that is read when no other is named, if it is there. -/
def defaultRegistry : String := "dav_modules.json"

def versionText : String := "dav 0.1.0\n"

def helpText : String :=
  "A small imperative scripting language with typed variables and a module system\n" ++
  "\n" ++
  "Usage: dav [OPTIONS] <FILE>\n" ++
  "\n" ++
  "Arguments:\n" ++
  "  <FILE>  The script to run\n" ++
  "\n" ++
  "Options:\n" ++
  "  -r, --registry <REGISTRY>  JSON file mapping module names to paths, " ++
    "used by `fetch \"name\"`\n" ++
  "  -d, --define <NAME=VALUE>  Injects a read-only global, e.g. `--define LIMIT=10`. " ++
    "May be repeated\n" ++
  "      --tokens               Prints the token stream before running\n" ++
  "      --ast                  Prints the syntax tree before running\n" ++
  "      --dump-globals         Prints every global and its type tag after the run\n" ++
  "  -h, --help                 Print help\n" ++
  "  -V, --version              Print version\n"

namespace Options

def loadRegistry (o : Options) (disk : Disk) : Except RegistryError Registry :=
  match o.registry with
  | some path => Registry.load disk path
  | none =>
    match disk.resolve defaultRegistry with
    | .ok _ => Registry.load disk defaultRegistry
    | .error _ => .ok ∅

/-- One line of the token view: the line number in four columns, and the token. -/
def tokenLine (l : Lexeme) : String :=
  let number := toString l.line
  String.ofList (List.replicate (4 - number.length) ' ') ++ number ++ "  " ++ l.token.describe ++
    "\n"

/-- The debug views that were asked for, up to the first error. -/
def views (o : Options) (disk : Disk) : String × Option Error :=
  if !o.tokens && !o.ast then ("", none)
  else match disk.openText o.file with
    | .error reason => ("", some (.run 0 (.moduleRead o.file reason)))
    | .ok source =>
      let tokens := if o.tokens then
          (lex source).map fun lexemes => String.join (lexemes.map tokenLine)
        else .ok ""
      match tokens with
      | .error cause => ("", some (.lex cause))
      | .ok shown =>
        if o.ast then
          match Program.parse source with
          | .error e => (shown, some e)
          | .ok program => (shown ++ program.outline.render 0 ++ "\n", none)
        else (shown, none)

/-- Every global with its tag and value, in the order of the names. -/
def globalsText (m : Machine) : String :=
  String.join (m.globals.entries.map fun (name, binding) =>
    match binding.tag with
    | some tag => s!"{name}: {tag.text} = {binding.value.display}\n"
    | none => s!"{name} = {binding.value.display}\n")

/-- Runs the script. -/
def report (o : Options) (depth : Nat) (disk : Disk) (input : List UInt8) (draws : Draws) :
    Report :=
  match o.loadRegistry disk with
  | .error e => .failed .empty e.message
  | .ok registry =>
    let start : Machine := { registry, disk, draws, console := { input } }
    let start := o.defines.foldl (fun m (name, value) => m.defineConstant name value) start
    let (shown, error) := o.views disk
    let (halt, m) := match error with
      | some e => (some (Halt.error e), start)
      | none =>
        match runFile depth o.file start with
        | .ok _ m => (none, m)
        | .error h m => (some h, m)
    let dumped := if o.dumpGlobals then globalsText m else ""
    let output := shown.toUTF8 ++ m.console.output ++ dumped.toUTF8
    match halt with
    | none => ⟨0, output, ""⟩
    | some (.error (.exit status)) => ⟨(status.toInt % 256).toNat, output, ""⟩
    | some (.error e) => .failed output e.message
    | some .tooDeep => ⟨134, output, "Error: Calls are nested too deeply.\n"⟩

end Options

end TagScript
