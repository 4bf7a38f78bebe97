import TagScript.Machine.Function
import TagScript.Program.Mentions
import TagScript.Proofs.Relabel

/-!
# Programs alike to a run

`Stmt.Alike l s s'`: the two statements have the same form, and what a run of them can tell apart is
within the leeway `l`: related lines, types of declared variables that give related tags, and
related declared functions. Many lines no run looks at, and `Alike` says nothing of them.

`Stmt.alike_of_relabel_eq` gets this from an equation, since two statements that are equal once
relabeled have the same form. The functions in question are those of `Stmt.declared`.
-/

namespace TagScript

def FunctionDecl.relabel (r : Relabeling) (f : FunctionDecl) : FunctionDecl where
  name := f.name
  result := r.type f.result
  params := f.params.map (·.relabel r)
  body := f.body.relabel r
  line := r.line f.line

@[simp] theorem FunctionDecl.relabel_id (f : FunctionDecl) : f.relabel (.lines id) = f := by
  cases f
  simp [FunctionDecl.relabel]

theorem FunctionDecl.signature_of_relabel_eq {r : Relabeling} {f g : FunctionDecl}
    (h : f.relabel r = g.relabel r) :
    g.name = f.name ∧ g.params.map Param.name = f.params.map Param.name := by
  have hname := congrArg FunctionDecl.name h
  have hparams := congrArg (fun f => f.params.map Param.name) h
  simp only [FunctionDecl.relabel, List.map_map] at hname hparams
  exact ⟨hname.symm, hparams.symm⟩

/-! ### Leeway -/

/-- Lines, tags of variables and declared functions that may stand in place of each other, and the
functions that code may call. -/
structure Leeway where
  line : Nat → Nat → Prop
  tag : Option Tag → Option Tag → Prop
  function : FunctionDecl → FunctionDecl → Prop
  callee : String → Prop

/-- Lines that a relabeling takes for the same, and no difference in tags. -/
def Relabeling.leeway (r : Relabeling) (F : FunctionDecl → FunctionDecl → Prop) : Leeway where
  line i j := r.line i = r.line j
  tag := Eq
  function := F
  callee _ := True

/-- No difference at all. -/
def Leeway.exact : Leeway :=
  Relabeling.leeway (.lines id) Eq

/-! ### Declared functions -/

mutual

/-- The functions that a statement declares, itself or in its blocks. What is declared in the body
of one of them is not listed, since only its own calls declare it. -/
def Stmt.declared : Stmt → List FunctionDecl
  | .define name result params body line => [⟨name, result, params, body, line⟩]
  | .when _ body none _ => body.declared
  | .when _ body (some alternate) _ => body.declared ++ alternate.declared
  | .otherwise body _ => body.declared
  | .declare .. | .set .. | .giveBack .. | .expression .. | .fetch .. | .launch .. => []

def Block.declared : Block → List FunctionDecl
  | .mk statements _ => Stmt.allDeclared statements

def Stmt.allDeclared : List Stmt → List FunctionDecl
  | [] => []
  | s :: rest => s.declared ++ Stmt.allDeclared rest

end

def Program.declared (p : Program) : List FunctionDecl :=
  Stmt.allDeclared p.body

/-! ### Expressions -/

mutual

inductive Expr.Alike (l : Leeway) : Expr → Expr → Prop
  | literal {value : Literal} {i j : Nat} : Expr.Alike l (.literal value i) (.literal value j)
  | name {id : String} {i j : Nat} : l.line i j → Expr.Alike l (.name id i) (.name id j)
  | unary {op : Operator} {e e' : Expr} {i j : Nat} : Expr.Alike l e e' → l.line i j →
    Expr.Alike l (.unary op e i) (.unary op e' j)
  | binary {op : Operator} {e e' a a' : Expr} {i j : Nat} : Expr.Alike l e e' →
    Expr.Alike l a a' → l.line i j → Expr.Alike l (.binary e op a i) (.binary e' op a' j)
  | call {callee : String} {es es' : List Expr} {i j : Nat} : l.callee callee →
    Expr.AllAlike l es es' → l.line i j → Expr.Alike l (.call callee es i) (.call callee es' j)

inductive Expr.AllAlike (l : Leeway) : List Expr → List Expr → Prop
  | nil : Expr.AllAlike l [] []
  | cons {e e' : Expr} {es es' : List Expr} : Expr.Alike l e e' → Expr.AllAlike l es es' →
    Expr.AllAlike l (e :: es) (e' :: es')

end

theorem Expr.AllAlike.length_eq {l : Leeway} {es es' : List Expr} (h : Expr.AllAlike l es es') :
    es'.length = es.length := by
  match h with
  | .nil => rfl
  | .cons _ hes => exact congrArg Nat.succ hes.length_eq

section

variable {l : Leeway} {r : Relabeling}

mutual

theorem Expr.alike_of_relabel_eq (hline : ∀ i j, r.line i = r.line j → l.line i j) (e e' : Expr)
    (h : e.relabel r = e'.relabel r) (hcallee : ∀ name ∈ e.called, l.callee name) :
    e.Alike l e' := by
  match e with
  | .literal value i =>
    cases e' with
    | literal =>
      simp only [Expr.relabel, Expr.literal.injEq] at h
      obtain ⟨rfl, -⟩ := h
      exact .literal
    | _ => simp [Expr.relabel] at h
  | .name id i =>
    cases e' with
    | name =>
      simp only [Expr.relabel, Expr.name.injEq] at h
      obtain ⟨rfl, hij⟩ := h
      exact .name (hline _ _ hij)
    | _ => simp [Expr.relabel] at h
  | .unary op a i =>
    cases e' with
    | unary op' a' j =>
      simp only [Expr.relabel, Expr.unary.injEq] at h
      obtain ⟨rfl, ha, hij⟩ := h
      exact .unary (Expr.alike_of_relabel_eq hline a a' ha hcallee) (hline _ _ hij)
    | _ => simp [Expr.relabel] at h
  | .binary a op b i =>
    cases e' with
    | binary a' op' b' j =>
      simp only [Expr.relabel, Expr.binary.injEq] at h
      obtain ⟨ha, rfl, hb, hij⟩ := h
      obtain ⟨hca, hcb⟩ := List.forall_mem_append.1 hcallee
      exact .binary (Expr.alike_of_relabel_eq hline a a' ha hca)
        (Expr.alike_of_relabel_eq hline b b' hb hcb) (hline _ _ hij)
    | _ => simp [Expr.relabel] at h
  | .call callee es i =>
    cases e' with
    | call callee' es' j =>
      simp only [Expr.relabel, Expr.call.injEq] at h
      obtain ⟨rfl, hes, hij⟩ := h
      obtain ⟨hname, hces⟩ := List.forall_mem_cons.1 hcallee
      exact .call hname (Expr.allAlike_of_relabel_eq hline es es' hes hces) (hline _ _ hij)
    | _ => simp [Expr.relabel] at h

theorem Expr.allAlike_of_relabel_eq (hline : ∀ i j, r.line i = r.line j → l.line i j)
    (es es' : List Expr) (h : Expr.relabelAll r es = Expr.relabelAll r es')
    (hcallee : ∀ name ∈ Expr.allCalled es, l.callee name) : Expr.AllAlike l es es' := by
  match es with
  | [] =>
    cases es' with
    | nil => exact .nil
    | cons => simp [Expr.relabelAll] at h
  | e :: es =>
    cases es' with
    | nil => simp [Expr.relabelAll] at h
    | cons e' es' =>
      simp only [Expr.relabelAll, List.cons.injEq] at h
      obtain ⟨hce, hces⟩ := List.forall_mem_append.1 hcallee
      exact .cons (Expr.alike_of_relabel_eq hline e e' h.1 hce)
        (Expr.allAlike_of_relabel_eq hline es es' h.2 hces)

end

end

/-! ### Statements -/

mutual

inductive Stmt.Alike (l : Leeway) : Stmt → Stmt → Prop
  | declare {type type' : TypeWord} {name : String} {e e' : Expr} {i j : Nat} :
    l.tag (some (.ofType type)) (some (.ofType type')) → e.Alike l e' →
      Stmt.Alike l (.declare type name e i) (.declare type' name e' j)
  | set {name : String} {e e' : Expr} {i j : Nat} : e.Alike l e' → l.line i j →
    Stmt.Alike l (.set name e i) (.set name e' j)
  | define {name : String} {type type' : TypeWord} {params params' : List Param}
    {body body' : Block} {i j : Nat} :
    l.function ⟨name, type, params, body, i⟩ ⟨name, type', params', body', j⟩ →
      Stmt.Alike l (.define name type params body i) (.define name type' params' body' j)
  | when {e e' : Expr} {b b' : Block} {i j : Nat} : e.Alike l e' → Block.Alike l b b' →
    Stmt.Alike l (.when e b none i) (.when e' b' none j)
  | whenElse {e e' : Expr} {b b' c c' : Block} {i j : Nat} : e.Alike l e' →
    Block.Alike l b b' → Block.Alike l c c' →
      Stmt.Alike l (.when e b (some c) i) (.when e' b' (some c') j)
  | otherwise {b b' : Block} {i j : Nat} : Block.Alike l b b' →
    Stmt.Alike l (.otherwise b i) (.otherwise b' j)
  | giveBack {e e' : Expr} {i j : Nat} : e.Alike l e' →
    Stmt.Alike l (.giveBack e i) (.giveBack e' j)
  | expression {e e' : Expr} {i j : Nat} : e.Alike l e' →
    Stmt.Alike l (.expression e i) (.expression e' j)
  | fetch {path : String} {i j : Nat} : l.line i j →
    Stmt.Alike l (.fetch path i) (.fetch path j)
  | launch {names : List String} {i j : Nat} : l.line i j →
    Stmt.Alike l (.launch names i) (.launch names j)

inductive Block.Alike (l : Leeway) : Block → Block → Prop
  | mk {ss ss' : List Stmt} {i j : Nat} : Stmt.AllAlike l ss ss' →
    Block.Alike l (.mk ss i) (.mk ss' j)

inductive Stmt.AllAlike (l : Leeway) : List Stmt → List Stmt → Prop
  | nil : Stmt.AllAlike l [] []
  | cons {s s' : Stmt} {ss ss' : List Stmt} : Stmt.Alike l s s' → Stmt.AllAlike l ss ss' →
    Stmt.AllAlike l (s :: ss) (s' :: ss')

end

def Program.Alike (l : Leeway) (p p' : Program) : Prop :=
  Stmt.AllAlike l p.body p'.body

section

variable {r : Relabeling} {F : FunctionDecl → FunctionDecl → Prop}

theorem Expr.alike_leeway (e e' : Expr) (h : e.relabel r = e'.relabel r) :
    e.Alike (r.leeway F) e' :=
  Expr.alike_of_relabel_eq (fun _ _ hij => hij) e e' h fun _ _ => trivial

mutual

theorem Stmt.alike_of_relabel_eq (s s' : Stmt) (h : s.relabel r = s'.relabel r)
    (hF : ∀ f ∈ s.declared, ∀ g, f.relabel r = g.relabel r → F f g) : s.Alike (r.leeway F) s' := by
  match s with
  | .declare type name e i =>
    cases s' with
    | declare type' name' e' j =>
      simp only [Stmt.relabel, Stmt.declare.injEq] at h
      obtain ⟨rfl, rfl, he, -⟩ := h
      exact .declare rfl (e.alike_leeway e' he)
    | when _ _ alternate _ => cases alternate <;> simp [Stmt.relabel] at h
    | _ => simp [Stmt.relabel] at h
  | .set name e i =>
    cases s' with
    | set name' e' j =>
      simp only [Stmt.relabel, Stmt.set.injEq] at h
      obtain ⟨rfl, he, hline⟩ := h
      exact .set (e.alike_leeway e' he) hline
    | when _ _ alternate _ => cases alternate <;> simp [Stmt.relabel] at h
    | _ => simp [Stmt.relabel] at h
  | .define name type params body i =>
    cases s' with
    | define name' type' params' body' j =>
      simp only [Stmt.relabel, Stmt.define.injEq] at h
      obtain ⟨rfl, htype, hparams, hbody, hline⟩ := h
      refine .define (hF _ (by simp [Stmt.declared]) _ ?_)
      simp only [FunctionDecl.relabel, htype, hparams, hbody, hline]
    | when _ _ alternate _ => cases alternate <;> simp [Stmt.relabel] at h
    | _ => simp [Stmt.relabel] at h
  | .when e b none i =>
    cases s' with
    | when e' b' alternate j =>
      simp only [Stmt.declared] at hF
      cases alternate with
      | none =>
        simp only [Stmt.relabel, Stmt.when.injEq] at h
        exact .when (e.alike_leeway e' h.1) (Block.alike_of_relabel_eq b b' h.2.1 hF)
      | some => simp [Stmt.relabel] at h
    | _ => simp [Stmt.relabel] at h
  | .when e b (some c) i =>
    cases s' with
    | when e' b' alternate j =>
      simp only [Stmt.declared, List.mem_append] at hF
      cases alternate with
      | none => simp [Stmt.relabel] at h
      | some c' =>
        simp only [Stmt.relabel, Stmt.when.injEq, Option.some.injEq] at h
        obtain ⟨he, hb, hc, -⟩ := h
        refine .whenElse (e.alike_leeway e' he) ?_ ?_
        · exact Block.alike_of_relabel_eq b b' hb fun f hf => hF f (.inl hf)
        · exact Block.alike_of_relabel_eq c c' hc fun f hf => hF f (.inr hf)
    | _ => simp [Stmt.relabel] at h
  | .otherwise b i =>
    cases s' with
    | otherwise b' j =>
      simp only [Stmt.relabel, Stmt.otherwise.injEq] at h
      simp only [Stmt.declared] at hF
      exact .otherwise (Block.alike_of_relabel_eq b b' h.1 hF)
    | when _ _ alternate _ => cases alternate <;> simp [Stmt.relabel] at h
    | _ => simp [Stmt.relabel] at h
  | .giveBack e i =>
    cases s' with
    | giveBack e' j =>
      simp only [Stmt.relabel, Stmt.giveBack.injEq] at h
      exact .giveBack (e.alike_leeway e' h.1)
    | when _ _ alternate _ => cases alternate <;> simp [Stmt.relabel] at h
    | _ => simp [Stmt.relabel] at h
  | .expression e i =>
    cases s' with
    | expression e' j =>
      simp only [Stmt.relabel, Stmt.expression.injEq] at h
      exact .expression (e.alike_leeway e' h.1)
    | when _ _ alternate _ => cases alternate <;> simp [Stmt.relabel] at h
    | _ => simp [Stmt.relabel] at h
  | .fetch path i =>
    cases s' with
    | fetch path' j =>
      simp only [Stmt.relabel, Stmt.fetch.injEq] at h
      obtain ⟨rfl, hline⟩ := h
      exact .fetch hline
    | when _ _ alternate _ => cases alternate <;> simp [Stmt.relabel] at h
    | _ => simp [Stmt.relabel] at h
  | .launch names i =>
    cases s' with
    | launch names' j =>
      simp only [Stmt.relabel, Stmt.launch.injEq] at h
      obtain ⟨rfl, hline⟩ := h
      exact .launch hline
    | when _ _ alternate _ => cases alternate <;> simp [Stmt.relabel] at h
    | _ => simp [Stmt.relabel] at h

theorem Block.alike_of_relabel_eq (b b' : Block) (h : b.relabel r = b'.relabel r)
    (hF : ∀ f ∈ b.declared, ∀ g, f.relabel r = g.relabel r → F f g) : b.Alike (r.leeway F) b' := by
  match b, b' with
  | .mk ss i, .mk ss' j =>
    simp only [Block.relabel, Block.mk.injEq] at h
    simp only [Block.declared] at hF
    exact .mk (Stmt.allAlike_of_relabel_eq ss ss' h.1 hF)

theorem Stmt.allAlike_of_relabel_eq (ss ss' : List Stmt)
    (h : Stmt.relabelAll r ss = Stmt.relabelAll r ss')
    (hF : ∀ f ∈ Stmt.allDeclared ss, ∀ g, f.relabel r = g.relabel r → F f g) :
    Stmt.AllAlike (r.leeway F) ss ss' := by
  match ss with
  | [] =>
    cases ss' with
    | nil => exact .nil
    | cons => simp [Stmt.relabelAll] at h
  | s :: ss =>
    cases ss' with
    | nil => simp [Stmt.relabelAll] at h
    | cons s' ss' =>
      simp only [Stmt.relabelAll, List.cons.injEq] at h
      simp only [Stmt.allDeclared, List.mem_append] at hF
      refine .cons ?_ ?_
      · exact Stmt.alike_of_relabel_eq s s' h.1 fun f hf => hF f (.inl hf)
      · exact Stmt.allAlike_of_relabel_eq ss ss' h.2 fun f hf => hF f (.inr hf)

end

theorem FunctionDecl.eq_of_relabel_id {f g : FunctionDecl}
    (h : f.relabel (.lines id) = g.relabel (.lines id)) : f = g := by
  simpa using h

theorem Block.alike_refl (b : Block) : b.Alike .exact b :=
  Block.alike_of_relabel_eq _ _ rfl fun _ _ _ => FunctionDecl.eq_of_relabel_id

theorem Program.alike_of_relabel_eq {p p' : Program} (h : p.relabel r = p'.relabel r)
    (hF : ∀ f ∈ p.declared, ∀ g, f.relabel r = g.relabel r → F f g) : p.Alike (r.leeway F) p' :=
  Stmt.allAlike_of_relabel_eq p.body p'.body (congrArg Program.body h) hF

theorem Program.alike_refl (p : Program) : p.Alike .exact p :=
  Program.alike_of_relabel_eq rfl fun _ _ _ => FunctionDecl.eq_of_relabel_id

end

end TagScript
