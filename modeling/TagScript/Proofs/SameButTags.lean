import TagScript.Proofs.Related

/-!
# Programs and machines up to tags

`Stmt.Retyped`: two statements that are the same but for the types of declared variables. Such a
type becomes the tag of a variable, and `Machine.SameButTags` says of two machines that they are the
same but for tags: their bindings, wherever they are, have the same kinds and values, and their
functions are retyped.
-/

namespace TagScript

/-! ### Programs -/

mutual

inductive Stmt.Retyped : Stmt → Stmt → Prop
  | declare (type type' : TypeWord) (name : String) (init : Expr) (line : Nat) :
    Stmt.Retyped (.declare type name init line) (.declare type' name init line)
  | set (name : String) (value : Expr) (line : Nat) :
    Stmt.Retyped (.set name value line) (.set name value line)
  | define (name : String) (result : TypeWord) (params : List Param) {body body' : Block}
    (line : Nat) : Block.Retyped body body' →
      Stmt.Retyped (.define name result params body line) (.define name result params body' line)
  | when (test : Expr) {body body' : Block} (line : Nat) : Block.Retyped body body' →
    Stmt.Retyped (.when test body none line) (.when test body' none line)
  | whenElse (test : Expr) {body body' alternate alternate' : Block} (line : Nat) :
    Block.Retyped body body' → Block.Retyped alternate alternate' →
      Stmt.Retyped (.when test body (some alternate) line) (.when test body' (some alternate') line)
  | otherwise {body body' : Block} (line : Nat) : Block.Retyped body body' →
    Stmt.Retyped (.otherwise body line) (.otherwise body' line)
  | giveBack (value : Expr) (line : Nat) :
    Stmt.Retyped (.giveBack value line) (.giveBack value line)
  | expression (value : Expr) (line : Nat) :
    Stmt.Retyped (.expression value line) (.expression value line)
  | fetch (path : String) (line : Nat) : Stmt.Retyped (.fetch path line) (.fetch path line)
  | launch (names : List String) (line : Nat) :
    Stmt.Retyped (.launch names line) (.launch names line)

inductive Block.Retyped : Block → Block → Prop
  | mk {ss ss' : List Stmt} (line : Nat) : Stmt.AllRetyped ss ss' →
    Block.Retyped (.mk ss line) (.mk ss' line)

inductive Stmt.AllRetyped : List Stmt → List Stmt → Prop
  | nil : Stmt.AllRetyped [] []
  | cons {s s' : Stmt} {ss ss' : List Stmt} : Stmt.Retyped s s' → Stmt.AllRetyped ss ss' →
    Stmt.AllRetyped (s :: ss) (s' :: ss')

end

/-- Two programs that differ in the types of declared variables only. -/
def Program.Retyped (p p' : Program) : Prop :=
  Stmt.AllRetyped p.body p'.body

inductive FunctionDecl.Retyped : FunctionDecl → FunctionDecl → Prop
  | mk (name : String) (result : TypeWord) (params : List Param) {body body' : Block} (line : Nat) :
    body.Retyped body' →
      Retyped ⟨name, result, params, body, line⟩ ⟨name, result, params, body', line⟩

mutual

theorem Stmt.Retyped.refl (s : Stmt) : s.Retyped s := by
  match s with
  | .declare .. => exact .declare ..
  | .set .. => exact .set ..
  | .define _ _ _ body _ => exact .define _ _ _ _ (.refl body)
  | .when _ body none _ => exact .when _ _ (.refl body)
  | .when _ body (some alternate) _ => exact .whenElse _ _ (.refl body) (.refl alternate)
  | .otherwise body _ => exact .otherwise _ (.refl body)
  | .giveBack .. => exact .giveBack ..
  | .expression .. => exact .expression ..
  | .fetch .. => exact .fetch ..
  | .launch .. => exact .launch ..

theorem Block.Retyped.refl (b : Block) : b.Retyped b := by
  match b with
  | .mk ss _ => exact .mk _ (.refl ss)

theorem Stmt.AllRetyped.refl (ss : List Stmt) : Stmt.AllRetyped ss ss := by
  match ss with
  | [] => exact .nil
  | s :: rest => exact .cons (.refl s) (.refl rest)

end

theorem FunctionDecl.Retyped.refl (f : FunctionDecl) : f.Retyped f :=
  .mk _ _ _ _ (.refl f.body)

/-! ### Bindings and machines -/

/-- Bindings of one kind with one value. The tags of slots may differ. -/
inductive Binding.SameButTag : Binding → Binding → Prop
  | slot (value : Value) (tag tag' : Option Tag) : SameButTag (.slot value tag) (.slot value tag')
  | raw (value : Value) : SameButTag (.raw value) (.raw value)

abbrev Scope.SameButTags : Scope → Scope → Prop :=
  Table.Related Binding.SameButTag

inductive Export.SameButTags : Export → Export → Prop
  | function {f g : Function} : f.Related FunctionDecl.Retyped g →
    SameButTags (.function f) (.function g)
  | global {b b' : Binding} : b.SameButTag b' → SameButTags (.global b) (.global b')

/-- Machines that differ in the tags of bindings and in the types of variables that functions
declare, and in nothing else. -/
inductive Machine.SameButTags : Machine → Machine → Prop
  | mk {m : Machine} {globals : Table Binding} {functions : Table Function}
    {exports : Table Export} {scopes : List Scope} :
    m.globals.Related Binding.SameButTag globals →
      m.functions.Related (Function.Related FunctionDecl.Retyped) functions →
        m.exports.Related Export.SameButTags exports →
          List.Forall₂ Scope.SameButTags m.scopes scopes →
            SameButTags m { m with globals, functions, exports, scopes }

/-! ### The relations agree -/

theorem Binding.sameButTag_iff {b b' : Binding} :
    b.SameButTag b' ↔ b.Related (fun _ _ => True) b' := by
  constructor
  · rintro (_ | _)
    · exact .slot _ trivial
    · exact .raw _
  · rintro (_ | _)
    · exact .slot _ _ _
    · exact .raw _

theorem Scope.sameButTags_iff {s s' : Scope} :
    s.SameButTags s' ↔ s.SameBut (fun _ _ => True) s' :=
  ⟨fun h => h.imp fun _ _ _ _ => Binding.sameButTag_iff.1,
    fun h => h.imp fun _ _ _ _ => Binding.sameButTag_iff.2⟩

theorem Export.sameButTags_iff {x y : Export} :
    x.SameButTags y ↔ x.Related (fun _ _ => True) FunctionDecl.Retyped y := by
  constructor
  · rintro (hf | hb)
    · exact .function hf
    · exact .global (Binding.sameButTag_iff.1 hb)
  · rintro (hf | hb)
    · exact .function hf
    · exact .global (Binding.sameButTag_iff.2 hb)

/-- To be the same but for tags is a relation of the general kind. -/
theorem Machine.sameButTags_iff {m m' : Machine} : m.SameButTags m' ↔
    m.Related (fun _ _ => True) FunctionDecl.Retyped FunctionDecl.Retyped Eq m' := by
  constructor
  · rintro ⟨hg, hf, he, hs⟩
    exact .mk (Scope.sameButTags_iff.1 hg) hf (he.imp fun _ _ _ _ => Export.sameButTags_iff.1)
      rfl (hs.imp fun _ _ => Scope.sameButTags_iff.1)
  · rintro ⟨hg, hf, he, rfl, hs⟩
    exact .mk (Scope.sameButTags_iff.2 hg) hf (he.imp fun _ _ _ _ => Export.sameButTags_iff.2)
      (hs.imp fun _ _ => Scope.sameButTags_iff.2)

end TagScript
