import TagScript.Error

/-!
# Files

`Disk` is what programs see of a file system: which path a text names, and what a file holds.
`FileTree` is a file system in memory.
-/

namespace TagScript

structure Disk where
  /-- The path that a text names, in the one form that all texts for it share. -/
  resolve : String → Except DeviceError String
  /-- The content of the file at a resolved path. -/
  read : String → Except DeviceError ByteArray

namespace Disk

/-- The text in the file at a resolved path. -/
def readText (d : Disk) (path : String) : Except DeviceError String :=
  match d.read path with
  | .error reason => .error reason
  | .ok bytes =>
    match String.fromUTF8? bytes with
    | some text => .ok text
    | none => .error .badText

/-- How many bytes a path may have for a file to be opened by it. -/
def maxPathBytes : Nat := 4095

/-- The text in the file that a text names. Resolving takes a path apart and bears any length of it,
but opening a file by its path does not. -/
def openText (d : Disk) (path : String) : Except DeviceError String :=
  match d.resolve path with
  | .error .badPath => .error .badPath
  | resolved =>
    if maxPathBytes < path.utf8ByteSize then .error .nameTooLong
    else match resolved with
      | .error reason => .error reason
      | .ok target => d.readText target

/-- A disk with nothing on it. -/
def none : Disk where
  resolve _ := .error .notFound
  read _ := .error .notFound

end Disk

inductive Node where
  | directory
  | file (content : ByteArray)

/-- Files and directories by the names on the way to them. The root is always there. -/
structure FileTree where
  nodes : List (List String × Node)

namespace FileTree

def empty : FileTree :=
  ⟨[]⟩

def node? (t : FileTree) : List String → Option Node
  | [] => some .directory
  | path => t.nodes.lookup path

/-- The names on a path written with slashes. -/
def names (path : String) : List String :=
  (path.splitOn "/").filter fun name => name ≠ "" ∧ name ≠ "."

def addDirectory (t : FileTree) (path : List String) : FileTree :=
  if (t.node? path).isSome then t else ⟨(path, .directory) :: t.nodes⟩

/-- Adds the directories on the way to a path, the path itself included. -/
def addDirectories (t : FileTree) (path : List String) : FileTree :=
  (List.range (path.length + 1)).foldl (fun t n => t.addDirectory (path.take n)) t

def remove (t : FileTree) (path : List String) : FileTree :=
  ⟨t.nodes.filter (·.1 ≠ path)⟩

/-- Puts a file at a path, and directories on the way where there are none. -/
def addFile (t : FileTree) (path : List String) (content : ByteArray) : FileTree :=
  let t := (t.addDirectories path.dropLast).remove path
  ⟨(path, .file content) :: t.nodes⟩

/-- One step of resolving: from a node that exists, by one name of a path. Only a directory can be
stepped from, and each name but the special ones must be there. -/
def step (t : FileTree) (here : List String) (name : String) : Except DeviceError (List String) :=
  match t.node? here with
  | some .directory =>
    if name = "" ∨ name = "." then .ok here
    else if name = ".." then .ok here.dropLast
    else if 255 < name.utf8ByteSize then .error .nameTooLong
    else if (t.node? (here ++ [name])).isSome then .ok (here ++ [name])
    else .error .notFound
  | some (.file _) => .error .notDirectory
  | none => .error .notFound

/-- The path that a text names, seen from the directory `home`. -/
def resolve (t : FileTree) (home : List String) (path : String) :
    Except DeviceError (List String) :=
  if path.toList.contains '\x00' then .error .badPath
  else if path.isEmpty then .error .notFound
  else
    let start := if path.startsWith "/" then [] else home
    (path.splitOn "/").foldlM t.step start

/-- A resolved path as text. -/
def pathText (path : List String) : String :=
  "/" ++ "/".intercalate path

def read (t : FileTree) (path : List String) : Except DeviceError ByteArray :=
  match t.node? path with
  | some (.file content) => .ok content
  | some .directory => .error .isDirectory
  | none => .error .notFound

/-- What programs that run in the directory `home` see of the tree. -/
def disk (t : FileTree) (home : List String) : Disk where
  resolve path := (t.resolve home path).map pathText
  read path := t.read (names path)

end FileTree

end TagScript
