import TagScript.Program.Statement
import TagScript.Proofs.ReadExpression

/-!
# The grammar of statements

`SpellsStmt s w`: the lexemes `w` spell the statement `s`. Nothing separates statements, so a
spelling alone does not say where a statement ends: `Stmt.EndsBefore s w rest` says that `rest` does
not go on with it. `SpellsStmts` asks this of each statement of a list and the spelling of those
after it, and `SpellsBlock` puts such a list in braces.

A statement carries the line of its first lexeme, a block that of its opening brace.
-/

namespace TagScript

/-- A parameter is spelled by a name, a colon and a type. -/
inductive SpellsParam : Param → List Lexeme → Prop
  | mk {n c t : Lexeme} {name : String} {type : TypeWord} : n.token = .identifier name →
    c.token = .mark .colon → t.token = .type type → SpellsParam ⟨name, type⟩ [n, c, t]

inductive SpellsName : String → List Lexeme → Prop
  | mk {n : Lexeme} {name : String} : n.token = .identifier name → SpellsName name [n]

/-- `rest` does not go on with a statement that `w` spells: not with an operator or a call where the
statement ends in an expression, and not with an alternate where there is none yet. -/
def Stmt.EndsBefore (w rest : List Lexeme) : Stmt → Prop
  | .declare .. | .set .. | .giveBack .. | .expression .. => NoOperator 0 rest ∧ NoCall w rest
  | .when _ _ none _ => firstToken? rest ≠ some (.reserved .otherwise)
  | _ => True

mutual

inductive SpellsStmt : Stmt → List Lexeme → Prop
  | define {l t n o c : Lexeme} {name : String} {result : TypeWord} {params : List Param}
    {body : Block} {u v : List Lexeme} : l.token = .reserved .define → t.token = .type result →
      n.token = .identifier name → o.token = .mark .openParen → Separated SpellsParam params u →
        c.token = .mark .closeParen → SpellsBlock body v →
          SpellsStmt (.define name result params body l.line) (l :: t :: n :: o :: (u ++ c :: v))
  | declare {l n q : Lexeme} {type : TypeWord} {name : String} {init : Expr} {w : List Lexeme} :
    l.token = .type type → type.startsDeclaration = true → n.token = .identifier name →
      q.token = .operator .assign → Spells 0 init w →
        SpellsStmt (.declare type name init l.line) (l :: n :: q :: w)
  | set {l n q : Lexeme} {name : String} {value : Expr} {w : List Lexeme} :
    l.token = .reserved .set → n.token = .identifier name → q.token = .operator .assign →
      Spells 0 value w → SpellsStmt (.set name value l.line) (l :: n :: q :: w)
  | when {l o c : Lexeme} {test : Expr} {body : Block} {u v : List Lexeme} :
    l.token = .reserved .when → o.token = .mark .openParen → Spells 0 test u →
      c.token = .mark .closeParen → SpellsBlock body v →
        SpellsStmt (.when test body none l.line) (l :: o :: (u ++ c :: v))
  | whenElse {l o c e : Lexeme} {test : Expr} {body alternate : Block} {u v w : List Lexeme} :
    l.token = .reserved .when → o.token = .mark .openParen → Spells 0 test u →
      c.token = .mark .closeParen → SpellsBlock body v → e.token = .reserved .otherwise →
        SpellsBlock alternate w →
          SpellsStmt (.when test body (some alternate) l.line) (l :: o :: (u ++ c :: (v ++ e :: w)))
  | otherwise {l : Lexeme} {body : Block} {w : List Lexeme} : l.token = .reserved .otherwise →
    SpellsBlock body w → SpellsStmt (.otherwise body l.line) (l :: w)
  | giveBack {l : Lexeme} {value : Expr} {w : List Lexeme} : l.token = .reserved .giveBack →
    Spells 0 value w → SpellsStmt (.giveBack value l.line) (l :: w)
  | expression {l : Lexeme} {value : Expr} {w : List Lexeme} : Spells 0 value (l :: w) →
    SpellsStmt (.expression value l.line) (l :: w)
  | fetch {l t : Lexeme} {path : String} : l.token = .reserved .fetch → t.token = .text path →
    SpellsStmt (.fetch path l.line) [l, t]
  | launch {l : Lexeme} {names : List String} {w : List Lexeme} : l.token = .reserved .launch →
    Separated SpellsName names w → names ≠ [] → SpellsStmt (.launch names l.line) (l :: w)

inductive SpellsBlock : Block → List Lexeme → Prop
  | mk {o c : Lexeme} {body : List Stmt} {w : List Lexeme} : o.token = .mark .openBrace →
    SpellsStmts body w → c.token = .mark .closeBrace → SpellsBlock (.mk body o.line) (o :: (w ++ [c]))

/-- `w` spells statements one after the other, each up to where it cannot go on. -/
inductive SpellsStmts : List Stmt → List Lexeme → Prop
  | nil : SpellsStmts [] []
  | cons {s : Stmt} {rest : List Stmt} {u v : List Lexeme} : SpellsStmt s u → s.EndsBefore u v →
    SpellsStmts rest v → SpellsStmts (s :: rest) (u ++ v)

end

namespace Stmt.EndsBefore

variable {s : Stmt} {w rest : List Lexeme}

/-- Only the first lexeme after a statement matters. -/
theorem congr {rest' : List Lexeme} (h : s.EndsBefore w rest)
    (hfirst : firstToken? rest' = firstToken? rest) : s.EndsBefore w rest' := by
  unfold EndsBefore NoOperator NoCall at *
  rw [hfirst]
  exact h

theorem nil : s.EndsBefore w [] := by
  unfold EndsBefore
  split
  iterate 4 exact ⟨.nil, .of_first (by simp)⟩
  · simp
  · trivial

theorem of_append {rest' : List Lexeme} (h : s.EndsBefore w (rest ++ rest')) :
    s.EndsBefore w rest := by
  cases rest with
  | nil => exact nil
  | cons l rest => exact h.congr rfl

theorem of_closeBrace {c : Lexeme} (hc : c.token = .mark .closeBrace) :
    s.EndsBefore w (c :: rest) := by
  unfold EndsBefore
  split
  iterate 4 exact ⟨.of_mark hc, .of_mark hc (by simp)⟩
  · simp [hc]
  · trivial

/-- A statement that ends before the statements after it ends there too where the closing brace of
their block follows them. -/
theorem append (h : s.EndsBefore w rest) {rest' : List Lexeme} {c : Lexeme}
    (hc : c.token = .mark .closeBrace) : s.EndsBefore w (rest ++ c :: rest') := by
  cases rest with
  | nil => exact of_closeBrace hc
  | cons l rest => exact h.congr rfl

end Stmt.EndsBefore

theorem SpellsStmt.ne_nil {s : Stmt} {w : List Lexeme} (h : SpellsStmt s w) : w ≠ [] := by
  cases h <;> simp

/-- No statement starts with a comma or a closing brace. -/
theorem SpellsStmt.starts {s : Stmt} {w : List Lexeme} (h : SpellsStmt s w) :
    firstToken? w ≠ some (.mark .comma) ∧ firstToken? w ≠ some (.mark .closeBrace) := by
  cases h with
  | expression hw =>
    obtain ⟨t, ht, hstart⟩ := hw.starts
    rw [ht]
    constructor <;> rintro h <;> cases h <;> cases hstart
  | _ => simp [*]

theorem SpellsStmts.starts {ss : List Stmt} {w : List Lexeme} (h : SpellsStmts ss w) :
    firstToken? w ≠ some (.mark .comma) := by
  cases h with
  | nil => simp
  | cons hs _ _ => rw [firstToken?_append hs.ne_nil]; exact hs.starts.1

theorem SpellsStmts.starts_append {ss : List Stmt} {w : List Lexeme} (h : SpellsStmts ss w)
    {c : Lexeme} (hc : c.token = .mark .closeBrace) (rest : List Lexeme) :
    firstToken? (w ++ c :: rest) ≠ some (.mark .comma) := by
  cases w with
  | nil => simp [hc]
  | cons l w => exact h.starts

end TagScript
