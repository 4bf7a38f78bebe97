/-!
# Type words and tags

The words for types in declarations and signatures. A declaration gives its variable a tag, a text
that names the type; nothing else in the language looks at tags.
-/

namespace TagScript

inductive TypeWord where
  | num
  | float
  | text
  | list
  | obj
  | bool
  | void
deriving DecidableEq, Repr, Inhabited

namespace TypeWord

def all : List TypeWord :=
  [num, float, text, list, obj, bool, void]

/-- The type as a program spells it. -/
def keyword : TypeWord → String
  | num => "Num"
  | float => "Float"
  | text => "Text"
  | list => "List"
  | obj => "Obj"
  | bool => "Bool"
  | void => "void"

def ofKeyword? (s : String) : Option TypeWord :=
  all.find? (·.keyword == s)

/-- Whether a statement that starts with the keyword declares a variable. -/
def startsDeclaration : TypeWord → Bool
  | num | float | text | list | obj => true
  | bool | void => false

theorem startsDeclaration_iff {type : TypeWord} : type.startsDeclaration = true ↔
    type = num ∨ type = float ∨ type = text ∨ type = list ∨ type = obj := by
  cases type <;> decide

end TypeWord

/-- The tag of a variable. -/
structure Tag where
  text : String
deriving DecidableEq, Repr

namespace Tag

/-- The tag for a type of the given name, which need not be one of the keywords. -/
def named (name : String) : Tag :=
  ⟨"DAV." ++ name⟩

def ofType (type : TypeWord) : Tag :=
  named type.keyword

end Tag

end TagScript
