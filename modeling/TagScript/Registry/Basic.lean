import TagScript.Machine.Basic
import TagScript.Registry.Json

/-!
# Module registries

A registry is written as a JSON object from names to paths.
-/

namespace TagScript

inductive RegistryError where
  | read (path : String) (reason : DeviceError)
  | json
  | notAnObject
  /-- The first name, in order, whose entry is not a text. -/
  | invalidEntry (name : String)
deriving DecidableEq, Repr

namespace RegistryError

def message : RegistryError → String
  | read path reason => s!"Cannot read module registry '{path}': {reason.message}."
  | json => "Module registry is not valid JSON."
  | notAnObject => "Module registry must be a JSON object mapping names to paths."
  | invalidEntry name => s!"Module registry entry '{name}' must be a path string."

end RegistryError

namespace Registry

/-- The paths in the entries of an object. -/
def ofEntries : List (String × Json) → Except RegistryError (List (String × String))
  | [] => .ok []
  | (name, .text path) :: rest => (ofEntries rest).map ((name, path) :: ·)
  | (name, _) :: _ => .error (.invalidEntry name)

/-- Reads a registry. Of two members with one name the later counts. -/
def ofJson (text : String) : Except RegistryError Registry :=
  match Json.read? text with
  | none => .error .json
  | some (.object members) => (ofEntries (Table.ofList members).entries).map Table.ofList
  | some _ => .error .notAnObject

/-- Reads the registry in a file. -/
def load (disk : Disk) (path : String) : Except RegistryError Registry :=
  match disk.openText path with
  | .error reason => .error (.read path reason)
  | .ok text => ofJson text

end Registry

end TagScript
