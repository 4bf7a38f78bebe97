import TagScript.Program.Expression
import TagScript.Proofs.Reading

/-!
# The grammar of expressions

`Spells least e w`: the lexemes `w` spell the expression `e` where only operators that bind at least
as tightly as `least` may stand outside parentheses. `SpellsOperand e w`: no operator between two
operands stands outside parentheses, so `e` is a primary or a prefix form. A node carries the line
of the lexeme it is named by; parentheses leave no node.

The same lexemes may spell the front of a longer expression. `NoOperator` and `NoCall` say of what
follows that it does not go on with an operator, or turn a last name into a call.
-/

namespace TagScript

/-- The constant that a token writes. -/
def Token.literal? : Token → Option Literal
  | .number n => some (.ofNumber n)
  | .float x => some (.real x)
  | .text content => some (.text content)
  | .bool b => some (.bool b)
  | _ => none

mutual

/-- `w` spells `e` as a primary or a prefix form. -/
inductive SpellsOperand : Expr → List Lexeme → Prop
  | literal {l : Lexeme} {value : Literal} : l.token.literal? = some value →
    SpellsOperand (.literal value l.line) [l]
  | name {l : Lexeme} {id : String} : l.token = .identifier id →
    SpellsOperand (.name id l.line) [l]
  | call {l o c : Lexeme} {id : String} {args : List Expr} {w : List Lexeme} :
    l.token = .identifier id → o.token = .mark .openParen → c.token = .mark .closeParen →
      Separated (Spells 0) args w → SpellsOperand (.call id args l.line) (l :: o :: (w ++ [c]))
  | group {o c : Lexeme} {e : Expr} {w : List Lexeme} :
    o.token = .mark .openParen → c.token = .mark .closeParen → Spells 0 e w →
      SpellsOperand e (o :: (w ++ [c]))
  | unary {l : Lexeme} {op : Operator} {e : Expr} {w : List Lexeme} :
    l.token = .operator op → op.isPrefixed = true → SpellsOperand e w →
      SpellsOperand (.unary op e l.line) (l :: w)

/-- `w` spells `e`, and operators outside parentheses bind at least as tightly as `least`. -/
inductive Spells : Nat → Expr → List Lexeme → Prop
  | operand {least : Nat} {e : Expr} {w : List Lexeme} : SpellsOperand e w → Spells least e w
  | binary {least : Nat} {l : Lexeme} {op : Operator} {a b : Expr} {u v : List Lexeme} :
    l.token = .operator op → op ≠ .power → least ≤ op.precedence →
      Spells op.precedence a u → Spells (op.precedence + 1) b v →
        Spells least (.binary a op b l.line) (u ++ l :: v)
  | power {least : Nat} {l : Lexeme} {a b : Expr} {u v : List Lexeme} :
    l.token = .operator .power → least ≤ Operator.power.precedence →
      SpellsOperand a u → Spells Operator.power.precedence b v →
        Spells least (.binary a .power b l.line) (u ++ l :: v)

end

/-! ### What follows an expression -/

/-- No operator that binds at least as tightly as `least` stands first. -/
def NoOperator (least : Nat) (rest : List Lexeme) : Prop :=
  ∀ op, firstToken? rest = some (.operator op) → op.precedence < least

/-- If `w` ends in a name, no parenthesis opens after it. -/
def NoCall (w rest : List Lexeme) : Prop :=
  ∀ id, lastToken? w = some (.identifier id) → firstToken? rest ≠ some (.mark .openParen)

namespace NoOperator

variable {m n : Nat} {l : Lexeme} {rest : List Lexeme}

theorem nil : NoOperator m [] := by
  intro op hop
  cases hop

theorem of_mark {mark : Mark} (h : l.token = .mark mark) : NoOperator m (l :: rest) := by
  intro op hop
  rw [firstToken?_cons, h] at hop
  cases hop

theorem of_separator (h : l.token = .mark .comma ∨ l.token = .mark .closeParen) :
    NoOperator m (l :: rest) :=
  h.elim of_mark of_mark

end NoOperator

namespace NoCall

variable {l : Lexeme} {u w rest : List Lexeme}

theorem of_first (h : firstToken? rest ≠ some (.mark .openParen)) : NoCall w rest :=
  fun _ _ => h

theorem of_last (h : ∀ id, lastToken? w ≠ some (.identifier id)) : NoCall w rest :=
  fun id hid => absurd hid (h id)

theorem of_mark {mark : Mark} (h : l.token = .mark mark) (hm : mark ≠ .openParen) :
    NoCall w (l :: rest) := by
  refine of_first ?_
  rw [firstToken?_cons, h]
  exact fun he => hm (Token.mark.inj (Option.some.inj he))

theorem of_separator (h : l.token = .mark .comma ∨ l.token = .mark .closeParen) :
    NoCall w (l :: rest) :=
  h.elim (of_mark · (by simp)) (of_mark · (by simp))

/-- Only the end of what comes before matters. -/
theorem append_iff (hw : w ≠ []) : NoCall (u ++ w) rest ↔ NoCall w rest := by
  rw [NoCall, NoCall, lastToken?_append hw]

theorem cons_iff (hw : w ≠ []) : NoCall (l :: w) rest ↔ NoCall w rest :=
  append_iff (u := [l]) hw

theorem append_mark {mark : Mark} (h : l.token = .mark mark) : NoCall (w ++ [l]) rest := by
  refine of_last fun id hid => ?_
  rw [lastToken?_append (by simp), lastToken?_singleton, h] at hid
  cases hid

end NoCall

/-! ### Spellings -/

theorem SpellsOperand.ne_nil {e : Expr} {w : List Lexeme} (h : SpellsOperand e w) : w ≠ [] := by
  cases h <;> simp

theorem Spells.ne_nil {least : Nat} {e : Expr} {w : List Lexeme} (h : Spells least e w) :
    w ≠ [] := by
  cases h with
  | operand h => exact h.ne_nil
  | binary => simp
  | power => simp

/-- A spelling where only tight operators may stand is one where looser ones may stand too. -/
theorem Spells.mono {m n : Nat} {e : Expr} {w : List Lexeme} (h : Spells n e w) (hmn : m ≤ n) :
    Spells m e w := by
  cases h with
  | operand h => exact .operand h
  | binary hl hp hn ha hb => exact .binary hl hp (Nat.le_trans hmn hn) ha hb
  | power hl hn ha hb => exact .power hl (Nat.le_trans hmn hn) ha hb

/-- Whether an expression may start with the token. -/
def Token.startsOperand : Token → Bool
  | .operator op => op.isPrefixed
  | .identifier _ | .mark .openParen => true
  | t => t.literal?.isSome

mutual

theorem SpellsOperand.starts {e : Expr} {w : List Lexeme} (h : SpellsOperand e w) :
    ∃ t, firstToken? w = some t ∧ t.startsOperand = true := by
  match h with
  | .literal hv =>
    refine ⟨_, rfl, ?_⟩
    unfold Token.startsOperand
    split <;> simp_all [Token.literal?]
  | .name hl => exact ⟨_, rfl, by rw [hl]; rfl⟩
  | .call hl _ _ _ => exact ⟨_, rfl, by rw [hl]; rfl⟩
  | .group ho _ _ => exact ⟨_, rfl, by rw [ho]; rfl⟩
  | .unary hl hop _ => exact ⟨_, rfl, by rw [hl]; exact hop⟩

theorem Spells.starts {least : Nat} {e : Expr} {w : List Lexeme} (h : Spells least e w) :
    ∃ t, firstToken? w = some t ∧ t.startsOperand = true := by
  match h with
  | .operand h => exact h.starts
  | .binary _ _ _ ha _ => rw [firstToken?_append ha.ne_nil]; exact ha.starts
  | .power _ _ ha _ => rw [firstToken?_append ha.ne_nil]; exact ha.starts

end

end TagScript
