import TagScript.Program.Basic
import TagScript.Text.Quoted

/-!
# Outlines of programs

A program as an indented tree of named nodes, for debugging.
-/

namespace TagScript

/-- A tree of named nodes. -/
inductive Outline where
  | leaf (text : String)
  /-- A name with unnamed parts. -/
  | parts (name : String) (items : List Outline)
  /-- A name with named parts. -/
  | fields (name : String) (items : List (String × Outline))
  | list (items : List Outline)

namespace Outline

/-- The white space before a line at a depth. -/
def indent (depth : Nat) : String :=
  String.ofList (List.replicate (4 * depth) ' ')

/-- Lines between an opening and a closing mark, one level deeper, each ended by a comma. -/
def enclose (depth : Nat) (opening closing : String) (items : List String) : String :=
  opening ++ "\n" ++ String.join (items.map fun item => indent (depth + 1) ++ item ++ ",\n") ++
    indent depth ++ closing

mutual

def render (depth : Nat) : Outline → String
  | leaf text => text
  | parts name items => enclose depth (name ++ "(") ")" (renderAll (depth + 1) items)
  | fields name items =>
    enclose depth (name ++ " \x7b") "\x7d" (renderFields (depth + 1) items)
  | list [] => "[]"
  | list items => enclose depth "[" "]" (renderAll (depth + 1) items)

def renderAll (depth : Nat) : List Outline → List String
  | [] => []
  | item :: rest => render depth item :: renderAll depth rest

def renderFields (depth : Nat) : List (String × Outline) → List String
  | [] => []
  | (name, item) :: rest => (name ++ ": " ++ render depth item) :: renderFields depth rest

end

def number (n : Nat) : Outline :=
  leaf (toString n)

def text (s : String) : Outline :=
  leaf (Text.quotedText s)

end Outline

/-- Reals in outlines: positional from `0.0001` up to but not including `10 ^ 16`, always with a
point there. -/
def outlineReal : RealStyle where
  positional := fun e => -4 ≤ e && e < 16
  plus := false
  point := true
  signedZero := true
  infinity := "inf"

namespace TypeWord

def outline : TypeWord → Outline
  | num => .leaf "Num"
  | float => .leaf "Float"
  | text => .leaf "Text"
  | list => .leaf "List"
  | obj => .leaf "Obj"
  | bool => .leaf "Bool"
  | void => .leaf "Void"

end TypeWord

namespace Operator

def outline : Operator → Outline
  | plus => .leaf "Plus"
  | minus => .leaf "Minus"
  | star => .leaf "Star"
  | slash => .leaf "Slash"
  | power => .leaf "Power"
  | equal => .leaf "Equal"
  | notEqual => .leaf "NotEqual"
  | less => .leaf "Less"
  | greater => .leaf "Greater"
  | lessEqual => .leaf "LessEqual"
  | greaterEqual => .leaf "GreaterEqual"
  | not => .leaf "Not"
  | assign => .leaf "Assign"

end Operator

namespace Literal

def outline : Literal → Outline
  | integer n => .parts "Integer" [.leaf (toString n.toInt)]
  | real x => .parts "Real" [.leaf (outlineReal.write x)]
  | text content => .parts "Text" [.text content]
  | bool b => .parts "Bool" [.leaf (if b then "true" else "false")]

end Literal

namespace Param

def outline (p : Param) : Outline :=
  .fields "Param" [("name", .text p.name), ("declared_type", p.type.outline)]

end Param

mutual

def Expr.outline : Expr → Outline
  | .literal value line => .fields "Literal" [("value", value.outline), ("line", .number line)]
  | .name id line => .fields "Identifier" [("name", .text id), ("line", .number line)]
  | .unary op operand line =>
    .fields "Unary" [("op", op.outline), ("operand", operand.outline), ("line", .number line)]
  | .binary left op right line =>
    .fields "Binary"
      [("left", left.outline), ("op", op.outline), ("right", right.outline),
        ("line", .number line)]
  | .call callee arguments line =>
    .fields "Call"
      [("callee", .text callee), ("arguments", .list (Expr.outlines arguments)),
        ("line", .number line)]

def Expr.outlines : List Expr → List Outline
  | [] => []
  | e :: rest => e.outline :: Expr.outlines rest

end

mutual

def Stmt.outline : Stmt → Outline
  | .declare type name init line =>
    .fields "VariableDeclaration"
      [("var_type", type.outline), ("name", .text name), ("init", init.outline),
        ("line", .number line)]
  | .set name value line =>
    .fields "Set" [("name", .text name), ("value", value.outline), ("line", .number line)]
  | .define name result params body line =>
    .parts "FunctionDeclaration"
      [.fields "FunctionDef"
        [("name", .text name), ("return_type", result.outline),
          ("params", .list (params.map Param.outline)), ("body", body.outline),
          ("line", .number line)]]
  | .when test body alternate line =>
    let other := match alternate with
      | none => .leaf "None"
      | some block => .parts "Some" [block.outline]
    .fields "When"
      [("test", test.outline), ("consequent", body.outline), ("alternate", other),
        ("line", .number line)]
  | .otherwise body line =>
    .fields "Else" [("consequent", body.outline), ("line", .number line)]
  | .giveBack value line =>
    .fields "Return" [("argument", value.outline), ("line", .number line)]
  | .expression value line =>
    .fields "Expression" [("expr", value.outline), ("line", .number line)]
  | .fetch path line => .fields "Fetch" [("path", .text path), ("line", .number line)]
  | .launch names line =>
    .fields "Launch" [("names", .list (names.map Outline.text)), ("line", .number line)]

def Block.outline : Block → Outline
  | .mk statements line =>
    .fields "Block" [("statements", .list (Stmt.outlines statements)), ("line", .number line)]

def Stmt.outlines : List Stmt → List Outline
  | [] => []
  | s :: rest => s.outline :: Stmt.outlines rest

end

namespace Program

def outline (p : Program) : Outline :=
  .fields "Program" [("body", .list (Stmt.outlines p.body))]

end Program

end TagScript
