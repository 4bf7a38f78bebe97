import TagScript.Program.Basic

/-!
# What a program mentions

The texts that a program fetches and the names that it calls, wherever in it they stand. They bound
what a run can import and call.
-/

namespace TagScript

mutual

/-- The names of the functions that an expression calls. -/
def Expr.called : Expr → List String
  | .literal _ _ => []
  | .name _ _ => []
  | .unary _ operand _ => operand.called
  | .binary left _ right _ => left.called ++ right.called
  | .call callee arguments _ => callee :: Expr.allCalled arguments

def Expr.allCalled : List Expr → List String
  | [] => []
  | e :: rest => e.called ++ Expr.allCalled rest

end

mutual

/-- The names of the functions that a statement calls, bodies of declared functions included. -/
def Stmt.called : Stmt → List String
  | .declare _ _ init _ => init.called
  | .set _ value _ => value.called
  | .define _ _ _ body _ => body.called
  | .when test body alternate _ =>
    test.called ++ body.called ++ match alternate with
      | some block => block.called
      | none => []
  | .otherwise body _ => body.called
  | .giveBack value _ => value.called
  | .expression value _ => value.called
  | .fetch _ _ => []
  | .launch _ _ => []

def Block.called : Block → List String
  | .mk statements _ => Stmt.allCalled statements

def Stmt.allCalled : List Stmt → List String
  | [] => []
  | s :: rest => s.called ++ Stmt.allCalled rest

end

mutual

/-- The texts that a statement fetches, bodies of declared functions included. -/
def Stmt.fetched : Stmt → List String
  | .define _ _ _ body _ => body.fetched
  | .when _ body alternate _ =>
    body.fetched ++ match alternate with
      | some block => block.fetched
      | none => []
  | .otherwise body _ => body.fetched
  | .fetch path _ => [path]
  | .declare _ _ _ _ | .set _ _ _ | .giveBack _ _ | .expression _ _ | .launch _ _ => []

def Block.fetched : Block → List String
  | .mk statements _ => Stmt.allFetched statements

def Stmt.allFetched : List Stmt → List String
  | [] => []
  | s :: rest => s.fetched ++ Stmt.allFetched rest

end

namespace Program

def called (p : Program) : List String :=
  Stmt.allCalled p.body

def fetched (p : Program) : List String :=
  Stmt.allFetched p.body

end Program

end TagScript
