import TagScript.Machine.Eval
import TagScript.Program.Mentions

/-!
# Snapshots of files

The part of a file system that a run can look at. A program names the modules it fetches in its
text, so the files that a run may open can be found, and read, before it starts.
-/

namespace TagScript

structure Snapshot where
  /-- What the texts for paths name. -/
  resolved : Table (Except DeviceError String) := ∅
  /-- What the files at resolved paths hold. -/
  contents : Table (Except DeviceError ByteArray) := ∅

namespace Snapshot

def disk (s : Snapshot) : Disk where
  resolve path := (s.resolved.get? path).getD (.error .notFound)
  read path := (s.contents.get? path).getD (.error .notFound)

/-- The program in the file that a text names, if there is one. -/
def program? (s : Snapshot) (path : String) : Option Program :=
  match s.disk.openText path with
  | .error _ => none
  | .ok source => (Program.parse source).toOption

/-- The texts for paths that the program in a file may ask for. -/
def wanted (s : Snapshot) (registry : Registry) (path : String) : List String :=
  match s.program? path with
  | none => []
  | some program =>
    program.fetched.filterMap fun text => (({ registry } : Machine).locate text).toOption

/-- Whether a program in one of the files reads input. -/
def readsInput (s : Snapshot) : Bool :=
  s.resolved.entries.any fun (path, _) =>
    match s.program? path with
    | none => false
    | some program => program.called.contains Builtin.prompt.name

end Snapshot

end TagScript
