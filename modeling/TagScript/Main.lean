import TagScript.CommandLine.Report
import TagScript.Device.Snapshot

/-!
# The executable

Reads the files that the run may open, and the input if the run may ask for it, and prints what the
command reports.
-/

namespace TagScript

/-- How deeply calls and imports may be nested. -/
def maxDepth : Nat := 1000000

/-- A failure of the system by its number, which some calls give with the sign turned. -/
def DeviceError.ofCode (code : UInt32) (details : String) : DeviceError :=
  match min code.toNat (-code).toNat with
  | 2 => .notFound
  | 20 => .notDirectory
  | 21 => .isDirectory
  | 36 => .nameTooLong
  | n => .other s!"{details} (os error {n})"

/-- A failure of the system in the words of the language. -/
def deviceError : IO.Error → DeviceError
  | .noFileOrDirectory _ _ _ => .notFound
  | .inappropriateType _ code details
  | .permissionDenied _ code details
  | .invalidArgument _ code details
  | .resourceExhausted _ code details
  | .otherError code details => .ofCode code details
  | e => .other (toString e)

/-- The outcome of an action on files. -/
def attempt {α : Type} (action : IO α) : IO (Except DeviceError α) := do
  match ← action.toBaseIO with
  | .ok a => return .ok a
  | .error e => return .error (deviceError e)

/-- The resolved form of a path. Opening a file tells more failures apart than resolving its path
does, so the failure of a path is that of opening it. -/
def resolvePath (path : String) : IO (Except DeviceError String) := do
  if path.toList.contains '\x00' then return .error .badPath
  match ← attempt do return (← IO.FS.realPath path).toString with
  | .ok target => return .ok target
  | .error reason =>
    match ← attempt (IO.FS.readBinFile path) with
    | .ok _ => return .error reason
    | .error opening => return .error opening

/-- Looks up what a text names, and reads the file there. -/
def Snapshot.visit (s : Snapshot) (path : String) : IO Snapshot := do
  let target ← resolvePath path
  let s := { s with resolved := s.resolved.insert path target }
  match target with
  | .error _ => return s
  | .ok target =>
    return { s with contents := s.contents.insert target (← attempt (IO.FS.readBinFile target)) }

/-- Visits paths and all that the programs there may fetch. -/
partial def Snapshot.visitAll (s : Snapshot) (registry : Registry) : List String → IO Snapshot
  | [] => return s
  | path :: rest => do
    if s.resolved.contains path then s.visitAll registry rest
    else
      let s ← s.visit path
      s.visitAll registry (s.wanted registry path ++ rest)

/-- All bytes of the input. -/
partial def readInput (input : IO.FS.Stream) (read : ByteArray) : IO (List UInt8) := do
  let more ← input.read 65536
  if more.isEmpty then return read.toList else readInput input (read ++ more)

/-- Draws that differ from run to run. -/
def freshDraws : IO Draws := do
  let bytes ← IO.getRandomBytes 8
  return ⟨.seeded (bytes.foldl (fun n b => 256 * n + b.toUInt64) 0)⟩

/-- Runs a script. -/
def Options.perform (o : Options) : IO Report := do
  let s ← Snapshot.visit {} (o.registry.getD defaultRegistry)
  let registry := match o.loadRegistry s.disk with
    | .ok registry => registry
    | .error _ => ∅
  let s ← s.visitAll registry [o.file]
  let input ← if s.readsInput then readInput (← IO.getStdin) .empty else pure []
  return o.report maxDepth s.disk input (← freshDraws)

/-- What the command shows for its arguments. -/
def Request.perform : Request → IO Report
  | .run options => options.perform
  | .version => return .printed versionText
  | .help => return .printed helpText
  | .refuse message =>
    let reason := if message.isEmpty then "invalid arguments" else message
    return ⟨2, .empty, "error: " ++ reason ++ "\n\n" ++ helpText⟩

end TagScript

open TagScript in
def main (args : List String) : IO UInt32 := do
  let report ← (Request.ofArguments args).perform
  let output ← IO.getStdout
  output.write report.output
  output.flush
  (← IO.getStderr).putStr report.errors
  return report.status.toUInt32
