import TagScript.Program.Expression
import TagScript.Token.Lexer

/-!
# Reading statements

The first token decides what a statement is. Nothing separates statements, so each ends where it
cannot go on, and a program is the statements that its lexemes hold.
-/

namespace TagScript

/-- Reads a parameter: a name, a colon and a type. -/
def readParam (ts : List Lexeme) : Parsed Param ts.length :=
  (takeName .paramName ts).bind fun name rest h₁ =>
    (expect (.mark .colon) .paramColon rest).bind fun _ rest h₂ =>
      (takeType .paramType rest).map (⟨name, ·⟩) (by omega)

/-- Reads the names after the first of an export list, each after a comma. -/
def readMoreNames (ts : List Lexeme) (n : Nat) (h : ts.length < n) : Parsed (List String) n :=
  match ts with
  | ⟨.mark .comma, _, _⟩ :: rest =>
    (takeName .nextExportName rest).bind fun name rest' fewer =>
      (readMoreNames rest' n (by simp at h; omega)).map (name :: ·) (Nat.le_refl n)
  | ts => .ok [] ts h
termination_by ts.length

mutual

def readStatement (ts : List Lexeme) : Parsed Stmt ts.length :=
  match ts with
  | [] => .error (.unexpectedEnd .statement) []
  | l :: rest =>
    match l.token with
    | .reserved .define =>
      (takeType .resultType rest).bind fun result rest h₁ =>
        (takeName .functionName rest).bind fun name rest h₂ =>
          (expect (.mark .openParen) .openParams rest).bind fun _ rest h₃ =>
            (readList .afterParam rest fun us _ => readParam us).bind fun params rest h₄ =>
              (readBlock rest).map (.define name result params · l.line) (by simp; omega)
    | .type type =>
      if type.startsDeclaration then
        (takeName .declaredName rest).bind fun name rest h₁ =>
          (expect (.operator .assign) .declaredValue rest).bind fun _ rest h₂ =>
            (readExpression rest).map (.declare type name · l.line) (by simp; omega)
      else (readExpression (l :: rest)).map (.expression · l.line) (Nat.le_refl _)
    | .reserved .set =>
      (takeName .setName rest).bind fun name rest h₁ =>
        (expect (.operator .assign) .setValue rest).bind fun _ rest h₂ =>
          (readExpression rest).map (.set name · l.line) (by simp; omega)
    | .reserved .fetch => (takeText .modulePath rest).map (.fetch · l.line) (by simp)
    | .reserved .launch =>
      (takeName .exportName rest).bind fun name rest' h₁ =>
        (readMoreNames rest' rest.length h₁).map (fun names => .launch (name :: names) l.line)
          (by simp)
    | .reserved .when =>
      (expect (.mark .openParen) .openTest rest).bind fun _ rest h₁ =>
        (readExpression rest).bind fun test rest h₂ =>
          (expect (.mark .closeParen) .closeTest rest).bind fun _ rest h₃ =>
            (readBlock rest).bind fun body rest h₄ =>
              match rest with
              | ⟨.reserved .otherwise, _, _⟩ :: rest =>
                have fewer := Nat.lt_of_succ_lt h₄
                (readBlock rest).map (fun b => .when test body (some b) l.line) (by simp; omega)
              | rest => .ok (.when test body none l.line) rest (by simp; omega)
    | .reserved .otherwise => (readBlock rest).map (.otherwise · l.line) (by simp)
    | .reserved .giveBack => (readExpression rest).map (.giveBack · l.line) (by simp)
    | _ => (readExpression (l :: rest)).map (.expression · l.line) (Nat.le_refl _)
termination_by 2 * ts.length

/-- Reads a block in braces. -/
def readBlock (ts : List Lexeme) : Parsed Block ts.length :=
  match ts with
  | [] => .error (.unexpectedEnd .openBlock) []
  | l :: rest =>
    match l.token with
    | .mark .openBrace => (readBody rest).map (.mk · l.line) (by simp)
    | _ => .error (.unexpectedToken .openBlock l) rest
termination_by 2 * ts.length

/-- Reads the statements of a block and its closing brace. -/
def readBody (ts : List Lexeme) : Parsed (List Stmt) ts.length :=
  match ts with
  | [] => .error (.unexpectedEnd .closeBlock) []
  | l :: rest =>
    match l.token with
    | .mark .closeBrace => .ok [] rest (by simp)
    | _ =>
      (readStatement (l :: rest)).bind fun first rest' fewer =>
        have : rest'.length < rest.length + 1 := fewer
        (readBody rest').map (first :: ·) (Nat.le_of_lt fewer)
termination_by 2 * ts.length + 1

end

/-- Reads statements to the end of the lexemes. -/
def readStatements (ts : List Lexeme) : Except ParseError (List Stmt) :=
  match ts with
  | [] => .ok []
  | l :: rest =>
    match readStatement (l :: rest) with
    | .ok first rest' fewer =>
      have : rest'.length < rest.length + 1 := fewer
      (readStatements rest').map (first :: ·)
    | .error cause _ => .error cause
termination_by ts.length

/-- Reads a program. -/
def readProgram (ts : List Lexeme) : Except ParseError Program :=
  (readStatements ts).map Program.mk

end TagScript
