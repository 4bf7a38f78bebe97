import TagScript.Proofs.Alike
import TagScript.Proofs.Related

/-!
# Runs compared

A `Comparison` says in what two runs may differ: in what the leeway of their code allows, in the
functions that they export, in the paths that they mark, in how they stop early.
`Comparison.Runs V x y`: from machines that differ in no more, `x` and `y` give values that `V`
relates or both stop early, and leave machines that differ in no more again.

`execProgram_runs` goes through the evaluator, once for all comparisons: programs that are alike
run alike if their calls and imports do. `invoke_runs` and `fetch_runs` get calls and imports at one
depth from those below it, and `Hereditary.runProgram_runs` gets whole runs by induction on the
depth. What is shown with it are facts about pairs of runs, and facts about one run, which is
compared with itself.
-/

namespace TagScript

variable {α β : Type}

/-! ### Comparisons -/

/-- Only `get_type` reads a tag, so tags may differ if what is known of the tables keeps code from
calling it. -/
structure Leeway.HidesTags (l : Leeway) (tables : Machine → Prop) : Prop where
  same : ∀ t, l.tag t t
  read : ∀ {m name}, tables m → l.callee name → m.functions.get? name = some (.builtin .getType) →
    ∀ t t', l.tag t t' → t' = t
  invariant : TableInvariant tables

/-- Where no tags differ, there is nothing to hide. -/
theorem Relabeling.hidesTags (r : Relabeling) (F : FunctionDecl → FunctionDecl → Prop) :
    (r.leeway F).HidesTags fun _ => True where
  same _ := rfl
  read _ _ _ _ _ h := h.symm
  invariant := tableInvariant_true

/-- What two runs may differ in. -/
structure Comparison extends Leeway where
  /-- Declared functions that may stand in place of each other among the exports. -/
  exported : FunctionDecl → FunctionDecl → Prop
  /-- Paths that may be marked as loading in place of each other. -/
  marks : List String → List String → Prop
  halt : Halt → Halt → Prop
  /-- What is known of the machine, on account of its files and marks … -/
  within : Machine → Prop
  /-- … and on account of its functions and exports. -/
  tables : Machine → Prop
  hidden : toLeeway.HidesTags tables
  signature : ∀ {f g}, function f g →
    g.name = f.name ∧ g.params.map Param.name = f.params.map Param.name
  body : ∀ {f g}, function f g → f.body.Alike toLeeway g.body
  launched : ∀ f g, function f g → exported f g
  marked : ∀ {paths paths'}, marks paths paths' → SamePaths paths paths'
  fault : ∀ {i j} fault, line i j → halt (.error (.run i fault)) (.error (.run j fault))
  exit : ∀ status, halt (.error (.exit status)) (.error (.exit status))
  fixed : ∀ {m m'}, within m → m.Fixed m' → within m'

namespace Comparison

variable (c : Comparison)

/-- Machines that differ in no more than the comparison allows. -/
structure Machines (m m' : Machine) : Prop where
  related : m.Related c.tag c.function c.exported c.marks m'
  within : c.within m
  tables : c.tables m

/-- The same outcome, with related values if there are any. -/
inductive Results (V : α → α → Prop) :
    EStateM.Result Halt Machine α → EStateM.Result Halt Machine α → Prop
  | ok {a b : α} {m m' : Machine} : V a b → c.Machines m m' → Results V (.ok a m) (.ok b m')
  | error {h h' : Halt} {m m' : Machine} : c.halt h h' → c.Machines m m' →
    Results V (.error h m) (.error h' m')

/-- The runs do the same, from machines that are the same up to the comparison. -/
def Runs (V : α → α → Prop) (x y : Run α) : Prop :=
  ∀ m m', c.Machines m m' → c.Results V (x m) (y m')

variable {c}

/-- Runs that differ in nothing. -/
def exact : Comparison where
  toLeeway := .exact
  exported := Eq
  marks := Eq
  halt := Eq
  within _ := True
  tables _ := True
  hidden := Relabeling.hidesTags _ _
  signature := by
    rintro f _ rfl
    exact ⟨rfl, rfl⟩
  body := by
    rintro f _ rfl
    exact f.body.alike_refl
  launched _ _ := id
  marked := SamePaths.of_eq
  fault fault hline := congrArg (fun line => Halt.error (.run line fault)) hline
  exit _ := rfl
  fixed _ _ := trivial

/-! ### Stages -/

namespace Runs

variable {V : α → α → Prop} {W : β → β → Prop} {x y : Run α} {i j : Nat}

theorem pure {a b : α} (h : V a b) : c.Runs V (Pure.pure a : Run α) (Pure.pure b) :=
  fun _ _ hm => .ok h hm

theorem fail (hline : c.line i j) (fault : Fault) :
    c.Runs V (TagScript.fail i fault : Run α) (TagScript.fail j fault) :=
  fun _ _ h => .error (c.fault fault hline) h

theorem bind {f g : α → Run β} (hx : c.Runs V x y) (hf : ∀ a b, V a b → c.Runs W (f a) (g b)) :
    c.Runs W (x >>= f) (y >>= g) := by
  intro m m' h
  have hresults := hx m m' h
  generalize hxm : x m = r, hym : y m' = r' at hresults
  cases hresults with
  | ok hab h₁ =>
    rw [bind_eq_of_ok hxm, bind_eq_of_ok hym]
    exact hf _ _ hab _ _ h₁
  | error hhalt h₁ =>
    rw [bind_eq_of_error hxm, bind_eq_of_error hym]
    exact .error hhalt h₁

/-- A stage that gives the same value in both runs. -/
theorem bind_same {f g : α → Run β} (hx : c.Runs Eq x y) (hf : ∀ a, c.Runs W (f a) (g a)) :
    c.Runs W (x >>= f) (y >>= g) :=
  bind hx fun a _ hab => hab ▸ hf a

theorem get_bind {f g : Machine → Run α}
    (h : ∀ m m', c.Machines m m' → c.Runs V (f m) (g m')) : c.Runs V (get >>= f) (get >>= g) :=
  fun m m' hm => h m m' hm m m' hm

theorem modify {f g : Machine → Machine}
    (h : ∀ m m', c.Machines m m' → c.Machines (f m) (g m')) :
    c.Runs Eq (modify f : Run Unit) (modify g) :=
  fun m m' hm => .ok rfl (h m m' hm)

end Runs

namespace Machines

variable {m m' m₁ m₁' : Machine}

/-- What is known of a machine stays known across the changes that a run makes. -/
theorem change (h : c.Machines m m') (hchange : m.Change m₁)
    (hrelated : m₁.Related c.tag c.function c.exported c.marks m₁') : c.Machines m₁ m₁' :=
  ⟨hrelated, c.fixed h.within hchange.fixed, c.hidden.invariant.change hchange h.tables⟩

theorem setScopes (h : c.Machines m m') {scopes scopes' : List Scope}
    (hscopes : List.Forall₂ (Scope.SameBut c.tag) scopes scopes') :
    c.Machines { m with scopes } { m' with scopes := scopes' } :=
  ⟨h.related.setScopes hscopes, c.fixed h.within ⟨rfl, rfl, rfl, rfl⟩,
    c.hidden.invariant.congr h.tables rfl rfl⟩

theorem passedTag (h : c.Machines m m') {e e' : Expr} (he : e.Alike c.toLeeway e') :
    c.tag (m.passedTag e) (m'.passedTag e') := by
  cases he with
  | @name id _ _ _ =>
    have hid := h.related.lookup id
    unfold Machine.passedTag
    dsimp only
    generalize m.lookup id = a, m'.lookup id = b at hid ⊢
    rcases hid with ⟨_, ht⟩ | _
    · exact ht
    · exact c.hidden.same none
    · exact c.hidden.same none
  | _ => exact c.hidden.same none

end Machines

/-! ### Built-in functions -/

namespace Runs

variable {i j : Nat} (hline : c.line i j)

include hline

theorem printText (text : String) : c.Runs Eq (TagScript.printText i text) (printText j text) := by
  intro m m' h
  unfold TagScript.printText
  rw [h.related.console_eq]
  split
  · exact .ok rfl (h.change (.console _) (h.related.setConsole _))
  · exact .error (c.fault _ hline) (h.change (.console _) (h.related.setConsole _))

theorem inputLine : c.Runs Eq (TagScript.inputLine i) (inputLine j) := by
  intro m m' h
  unfold TagScript.inputLine
  rw [h.related.console_eq]
  split
  · exact .ok rfl (h.change (.console _) (h.related.setConsole _))
  · exact .error (c.fault _ hline) (h.change (.console _) (h.related.setConsole _))

theorem flushOutput : c.Runs Eq (TagScript.flushOutput i) (flushOutput j) := by
  refine .get_bind fun m m' h => ?_
  rw [h.related.console_eq]
  split
  · exact .pure rfl
  · exact .fail hline _

omit hline in
theorem draw : c.Runs Eq TagScript.draw draw := by
  intro m m' h
  have hdraw : TagScript.draw m' = .ok m.draws.next.1 { m' with draws := m.draws.next.2 } := by
    rw [← h.related.draws_eq]
    rfl
  rw [hdraw]
  exact .ok rfl (h.change (.draws _) (h.related.setDraws _))

theorem promptFor (args : List Value) :
    c.Runs Eq (TagScript.promptFor args i) (promptFor args j) := by
  unfold TagScript.promptFor
  split
  · exact .fail hline _
  · refine .bind_same (printText hline _) fun _ => ?_
    refine .bind_same (flushOutput hline) fun _ => ?_
    refine .bind_same (inputLine hline) fun answer => ?_
    refine .bind_same (.modify fun m m' h => ?_) fun _ => .pure rfl
    exact h.change (.prompt _ _ _)
      (h.related.setGlobals (h.related.globals.insert _ (.refl c.hidden.same _)))

/-- Built-in functions do the same, and those that read a tag if tags are the same. -/
theorem call {b : Builtin} (hb : b = .getType → ∀ t t', c.tag t t' → t' = t)
    (args : List Value) : c.Runs Eq (b.call args i) (b.call args j) := by
  unfold Builtin.call
  extract_lets x y
  split
  case h_1 => exact .bind_same (printText hline _) fun _ => .pure rfl
  case h_2 => exact .bind_same (printText hline _) fun _ => .pure rfl
  case h_3 => exact promptFor hline args
  case h_4 =>
    refine .bind_same (printText hline _) fun _ => ?_
    exact .bind_same (flushOutput hline) fun _ => .pure rfl
  case h_5 => split <;> exact .pure rfl
  case h_6 =>
    refine .get_bind fun m m' h => ?_
    have hglobal := h.related.globals ((args.head?.map Value.display).getD "")
    generalize m.globals.get? _ = g, m'.globals.get? _ = g' at hglobal ⊢
    rcases hglobal with ⟨_, ht⟩ | _
    · rw [hb rfl _ _ ht]
      exact .pure rfl
    · exact .pure rfl
    · exact .fail hline _
  case h_7 => exact fun m m' h => .error (c.exit _) h
  case h_8 =>
    split
    · refine .bind_same (.modify fun m m' h => ?_) fun _ => .pure rfl
      exact h.change (.delete _) (h.related.setGlobals (h.related.globals.erase _))
    · exact .pure rfl
  case h_12 => exact .bind_same draw fun _ => .pure rfl
  case h_13 => exact .bind_same draw fun _ => .pure rfl
  case h_14 => exact .bind_same draw fun _ => .pure rfl
  all_goals exact .pure rfl

end Runs

/-! ### Expressions -/

section

variable {call call' : Invoke} {load load' : Fetch}

/-- Calls of related functions run alike. -/
def Calls (c : Comparison) (call call' : Invoke) : Prop :=
  ∀ f g args args', c.function f g → List.Forall₂ (Binding.Related c.tag) args args' →
    c.Runs Eq (call f args) (call' g args')

/-- Imports of the same module run alike. -/
def Loads (c : Comparison) (load load' : Fetch) : Prop :=
  ∀ requested i j, c.line i j → c.Runs Eq (load requested i) (load' requested j)

theorem length_params {f g : FunctionDecl} (h : c.function f g) :
    g.params.length = f.params.length := by
  simpa using congrArg List.length (c.signature h).2

mutual

theorem eval_runs (hcall : c.Calls call call') {e e' : Expr} (h : e.Alike c.toLeeway e') :
    c.Runs Eq (e.eval call) (e'.eval call') := by
  match h with
  | .literal =>
    rw [Expr.eval, Expr.eval]
    exact .pure rfl
  | @Expr.Alike.name _ id _ _ hline =>
    rw [Expr.eval, Expr.eval]
    refine .get_bind fun m m' hm => ?_
    have hid := hm.related.lookup id
    generalize m.lookup id = a, m'.lookup id = b at hid ⊢
    cases hid with
    | none => exact .fail hline _
    | some hab => exact .pure hab.value_eq.symm
  | .unary ha hline =>
    rw [Expr.eval, Expr.eval]
    refine .bind_same (eval_runs hcall ha) fun v => ?_
    split
    · exact .pure rfl
    · exact .fail hline _
  | .binary ha hb hline =>
    rw [Expr.eval, Expr.eval]
    refine .bind_same (eval_runs hcall ha) fun a => ?_
    refine .bind_same (eval_runs hcall hb) fun b => ?_
    split
    · exact .pure rfl
    · exact .fail hline _
  | @Expr.Alike.call _ callee es es' i j hname hes hline =>
    rw [Expr.eval, Expr.eval]
    refine .get_bind fun m m' hm => ?_
    have hcallee := hm.related.functions callee
    have hread := c.hidden.read hm.tables hname
    generalize m.functions.get? callee = f, m'.functions.get? callee = g at hcallee hread ⊢
    cases hcallee with
    | none => exact .fail hline _
    | some hfg =>
      cases hfg with
      | builtin b =>
        refine .bind (evalAll_runs hcall hes) fun args args' hargs => ?_
        rw [Binding.Related.map_value_eq hargs]
        exact .call hline (fun hb => hread (by rw [hb])) _
      | user hfg =>
        dsimp only
        rw [hes.length_eq, length_params hfg, (c.signature hfg).1]
        split
        · exact .bind (evalAll_runs hcall hes) fun args args' => hcall _ _ args args' hfg
        · exact .fail hline _

theorem evalAll_runs (hcall : c.Calls call call') {es es' : List Expr}
    (h : Expr.AllAlike c.toLeeway es es') :
    c.Runs (List.Forall₂ (Binding.Related c.tag)) (Expr.evalAll call es)
      (Expr.evalAll call' es') := by
  match h with
  | .nil =>
    rw [Expr.evalAll, Expr.evalAll]
    exact .pure .nil
  | .cons he hes =>
    rw [Expr.evalAll, Expr.evalAll]
    refine .bind_same (eval_runs hcall he) fun value => .get_bind fun m m' hm => ?_
    refine .bind (evalAll_runs hcall hes) fun more more' hmore => .pure ?_
    exact .cons (.slot value (hm.passedTag he)) hmore

end

/-! ### Statements -/

theorem inBlock_runs {V : α → α → Prop} {x y : Run α} (h : c.Runs V x y) :
    c.Runs V (inBlock x) (inBlock y) := by
  intro m m' hm
  have hresults : c.Results V (x { m with scopes := ∅ :: m.scopes })
      (y { m' with scopes := ∅ :: m'.scopes }) :=
    h _ _ (hm.setScopes (.cons .empty hm.related.scopes))
  have htail {k k' : Machine} (hk : c.Machines k k') :
      c.Machines { k with scopes := k.scopes.tail } { k' with scopes := k'.scopes.tail } := by
    refine hk.setScopes ?_
    have hscopes := hk.related.scopes
    generalize k.scopes = scopes, k'.scopes = scopes' at hscopes ⊢
    cases hscopes with
    | nil => exact .nil
    | cons _ houter => exact houter
  unfold inBlock
  generalize x { m with scopes := ∅ :: m.scopes } = r, y { m' with scopes := ∅ :: m'.scopes } = r'
    at hresults ⊢
  cases hresults with
  | ok hab hk => exact .ok hab (htail hk)
  | error hhalt hk => exact .error hhalt (htail hk)

theorem inFrame_runs {x y : Run Flow} (h : c.Runs Eq x y) {s s' : Scope}
    (hs : s.SameBut c.tag s') : c.Runs Eq (inFrame s x) (inFrame s' y) := by
  intro m m' hm
  have hresults : c.Results Eq (x { m with scopes := [s] }) (y { m' with scopes := [s'] }) :=
    h _ _ (hm.setScopes (.cons hs .nil))
  unfold inFrame
  generalize x { m with scopes := [s] } = r, y { m' with scopes := [s'] } = r' at hresults ⊢
  cases hresults with
  | @ok flow _ _ _ hab hk =>
    subst hab
    cases flow with
    | normal => exact .ok rfl (hk.setScopes hm.related.scopes)
    | returned v => exact .ok rfl (hk.setScopes hm.related.scopes)
  | error hhalt hk => exact .error hhalt (hk.setScopes hm.related.scopes)

theorem launchNames_runs {i j : Nat} (hline : c.line i j) (names : List String) :
    c.Runs Eq (launchNames i names) (launchNames j names) := by
  induction names with
  | nil => exact .pure rfl
  | cons name rest ih =>
    intro m m' hm
    have hitem := hm.related.export? c.launched name
    rw [launchNames, launchNames, get_bind_apply, get_bind_apply]
    generalize hexport : m.export? name = item, m'.export? name = item' at hitem ⊢
    cases hitem with
    | none => exact Runs.fail hline _ m m' hm
    | some hitem => exact ih _ _ (hm.change (.launch hexport) (hm.related.launch hitem name))

theorem store_runs {i j : Nat} (hline : c.line i j) (name : String) (value : Value) :
    c.Runs Eq (store name value i) (store name value j) := by
  intro m m' hm
  rw [store, store, get_bind_apply, get_bind_apply]
  rcases hm.related.assign name value with
    ⟨fault, hm₁, hm₁'⟩ | ⟨m₁, m₁', hm₁, hm₁', hassign⟩
  · rw [hm₁, hm₁']
    exact Runs.fail hline fault m m' hm
  · rw [hm₁, hm₁']
    exact .ok rfl (hm.change (.assign hm₁) hassign)

theorem setVariable_runs {x y : Run Value} (h : c.Runs Eq x y) {i j : Nat} (hline : c.line i j)
    (name : String) : c.Runs Eq (setVariable name x i) (setVariable name y j) := by
  rw [setVariable, setVariable]
  refine .get_bind fun m m' hm => ?_
  rw [hm.related.checkAssignable_eq]
  cases m.checkAssignable name with
  | error fault => exact .fail hline _
  | ok _ => exact .bind_same h fun v => store_runs hline name v

mutual

theorem exec_runs (hcall : c.Calls call call') (hload : c.Loads load load') {s s' : Stmt}
    (h : s.Alike c.toLeeway s') : c.Runs Eq (s.exec call load) (s'.exec call' load') := by
  match h with
  | .declare htag he =>
    rw [Stmt.exec, Stmt.exec]
    refine .bind_same (eval_runs hcall he) fun value => ?_
    refine .bind_same (.modify fun m m' hm => ?_) fun _ => .pure rfl
    exact hm.change (.declare _ _ _) (hm.related.declare _ (.slot value htag))
  | .set he hline =>
    rw [Stmt.exec, Stmt.exec]
    exact .bind_same (setVariable_runs (eval_runs hcall he) hline _) fun _ => .pure rfl
  | .define hf =>
    rw [Stmt.exec, Stmt.exec]
    refine .bind_same (.modify fun m m' hm => ?_) fun _ => .pure rfl
    exact hm.change (.define ⟨_, _, _, _, _⟩) (hm.related.define hf _)
  | .when he hb =>
    rw [Stmt.exec, Stmt.exec]
    refine .bind_same (eval_runs hcall he) fun holds => ?_
    split
    · exact execBlock_runs hcall hload hb
    · exact .pure rfl
  | .whenElse he hb hc =>
    rw [Stmt.exec, Stmt.exec]
    refine .bind_same (eval_runs hcall he) fun holds => ?_
    split
    · exact execBlock_runs hcall hload hb
    · exact execBlock_runs hcall hload hc
  | .otherwise hb =>
    rw [Stmt.exec, Stmt.exec]
    exact execBlock_runs hcall hload hb
  | .giveBack he =>
    rw [Stmt.exec, Stmt.exec]
    exact .bind_same (eval_runs hcall he) fun v => .pure rfl
  | .expression he =>
    rw [Stmt.exec, Stmt.exec]
    exact .bind_same (eval_runs hcall he) fun v => .pure rfl
  | .fetch hline =>
    rw [Stmt.exec, Stmt.exec]
    exact .bind_same (hload _ _ _ hline) fun _ => .pure rfl
  | .launch hline =>
    rw [Stmt.exec, Stmt.exec]
    exact .bind_same (launchNames_runs hline _) fun _ => .pure rfl

theorem execBlock_runs (hcall : c.Calls call call') (hload : c.Loads load load') {b b' : Block}
    (h : b.Alike c.toLeeway b') : c.Runs Eq (b.exec call load) (b'.exec call' load') := by
  match h with
  | .mk hss =>
    rw [Block.exec, Block.exec]
    exact inBlock_runs (execAll_runs hcall hload hss)

theorem execAll_runs (hcall : c.Calls call call') (hload : c.Loads load load') {ss ss' : List Stmt}
    (h : Stmt.AllAlike c.toLeeway ss ss') :
    c.Runs Eq (Stmt.execAll call load ss) (Stmt.execAll call' load' ss') := by
  match h with
  | .nil =>
    rw [Stmt.execAll, Stmt.execAll]
    exact .pure rfl
  | .cons hs hss =>
    rw [Stmt.execAll, Stmt.execAll]
    refine .bind_same (exec_runs hcall hload hs) fun flow => ?_
    split
    · exact execAll_runs hcall hload hss
    · exact .pure rfl

end

theorem execProgram_runs (hcall : c.Calls call call') (hload : c.Loads load load') {p p' : Program}
    (h : p.Alike c.toLeeway p') : c.Runs Eq (p.exec call load) (p'.exec call' load') :=
  .bind_same (execAll_runs hcall hload h) fun _ => .pure rfl

end

/-! ### Calls -/

/-- Calls at one depth run alike if calls and imports at the depth below do. -/
theorem invoke_runs {d d' : Nat} (hcall : c.Calls (invoke d) (invoke d'))
    (hload : c.Loads (fetch d) (fetch d')) : c.Calls (invoke (d + 1)) (invoke (d' + 1)) := by
  intro f g args args' h hargs
  rw [invoke, invoke]
  exact inFrame_runs (execBlock_runs hcall hload (c.body h)) (related_frame (c.signature h).2 hargs)

/-! ### Imports -/

/-- Runs of the module at `path` that compare by `c'` give imports that compare by `c`. -/
structure Imports (c : Comparison) (path : String) (c' : Comparison) : Prop where
  tag : ∀ t t', c'.tag t t' → c.tag t t'
  exported : ∀ f g, c'.exported f g → c.function f g
  mark : ∀ {paths paths'}, c.marks paths paths' →
    c'.marks (paths.insert path) (paths'.insert path)
  tables : ∀ m, c'.tables m → c.tables m
  halt : ∀ {h h' i j}, c'.halt h h' → c.line i j →
    c.halt (h.fromModule path i) (h'.fromModule path j)
  unparsed : ∀ {source e i j}, Program.parse source = .error e → c.line i j →
    c.halt (.error (.inModule path i e)) (.error (.inModule path j e))

namespace Machines

variable {m m' module module' : Machine}

/-- A module that starts for both importers. -/
theorem enterModule {c' : Comparison} {path : String} (h : c.Machines m m')
    (himports : c.Imports path c') (hwithin : c'.within (m.enterModule path)) :
    c'.Machines (m.enterModule path) (m'.enterModule path) :=
  ⟨h.related.enterModule himports.mark, hwithin, c'.hidden.invariant.fresh rfl rfl⟩

theorem withDevices {c' : Comparison} (h : c.Machines m m') (h' : c'.Machines module module') :
    c.Machines (m.withDevices module) (m'.withDevices module') := by
  refine ⟨?_, c.fixed h.within ⟨rfl, rfl, rfl, rfl⟩, c.hidden.invariant.congr h.tables rfl rfl⟩
  unfold Machine.withDevices
  rw [h'.related.console_eq, h'.related.draws_eq]
  exact (h.related.setConsole module.console).setDraws module.draws

/-- Importers take over related exports of a module that kept the invariant of the tables. -/
theorem merge (h : c.Machines m m') (hmodule : c.tables module) {exports : Table Export}
    (hexports : module.exports.Related (Export.Related c.tag c.function) exports) :
    c.Machines (m.merge module.exports) (m'.merge exports) := by
  refine ⟨h.related.merge hexports, c.fixed h.within ?_, c.hidden.invariant.merge h.tables hmodule⟩
  rw [Machine.merge, Machine.absorbAll_eq]
  exact ⟨rfl, rfl, rfl, rfl⟩

end Machines

/-- Imports at one depth run alike if modules at the depth below do. -/
theorem fetch_runs {d d' : Nat}
    (hmodule : ∀ m path, c.within m → (∃ text, m.disk.resolve text = .ok path) →
      m.isRunning path = false → ∃ c', c.Imports path c' ∧ c'.within (m.enterModule path) ∧
        ∀ source p, m.disk.readText path = .ok source → Program.parse source = .ok p →
          c'.Runs Eq (p.exec (invoke d) (fetch d)) (p.exec (invoke d') (fetch d'))) :
    c.Loads (fetch (d + 1)) (fetch (d' + 1)) := by
  intro requested i j hline m m' hm
  rw [fetch_succ, fetch_succ, hm.related.target_eq]
  cases hpath : m.target requested with
  | error fault => exact .error (c.fault fault hline) hm
  | ok path =>
    dsimp only
    rw [hm.related.isRunning_eq c.marked, hm.related.disk_eq]
    cases hnot : m.isRunning path with
    | true => exact .ok rfl hm
    | false =>
      obtain ⟨c', himports, hstart, hruns⟩ :=
        hmodule m path hm.within (Machine.resolve_of_target hpath) hnot
      simp only [Bool.false_eq_true, if_false]
      cases hsource : m.disk.readText path with
      | error reason => exact .error (c.fault _ hline) hm
      | ok source =>
        dsimp only
        cases hparse : Program.parse source with
        | error e => exact .error (himports.unparsed hparse hline) hm
        | ok p =>
          have hresults := hruns source p hsource hparse _ _ (hm.enterModule himports hstart)
          dsimp only
          generalize p.exec (invoke d) (fetch d) (m.enterModule path) = r,
            p.exec (invoke d') (fetch d') (m'.enterModule path) = r' at hresults ⊢
          cases hresults with
          | error hhalt h₁ => exact .error (himports.halt hhalt hline) (hm.withDevices h₁)
          | ok _ h₁ =>
            have hexports := h₁.related.exports.imp fun _ _ _ _ h =>
              h.imp himports.tag himports.exported
            exact .ok rfl ((hm.withDevices h₁).merge (himports.tables _ h₁.tables) hexports)

/-! ### Runs -/

/-- Comparisons that can be made at every depth: if an importer compares by one of them, then so do
the modules that it imports. -/
structure Hereditary (K : Comparison → Prop) : Prop where
  tooDeep : ∀ {c}, K c → c.halt .tooDeep .tooDeep
  module : ∀ {c}, K c → ∀ m path, c.within m → (∃ text, m.disk.resolve text = .ok path) →
    m.isRunning path = false → ∃ c', K c' ∧ c.Imports path c' ∧ c'.within (m.enterModule path) ∧
      ∀ source p, m.disk.readText path = .ok source → Program.parse source = .ok p →
        p.Alike c'.toLeeway p

section

variable {K : Comparison → Prop}

theorem Hereditary.calls_and_loads (hK : Hereditary K) (hc : K c) (depth : Nat) :
    c.Calls (invoke depth) (invoke depth) ∧ c.Loads (fetch depth) (fetch depth) := by
  induction depth generalizing c with
  | zero =>
    refine ⟨fun f g args args' _ _ => ?_, fun requested i j _ => ?_⟩
    · rw [invoke, invoke]
      exact fun m m' h => .error (hK.tooDeep hc) h
    · rw [fetch, fetch]
      exact fun m m' h => .error (hK.tooDeep hc) h
  | succ d ih =>
    obtain ⟨hcall, hload⟩ := ih hc
    refine ⟨invoke_runs hcall hload, fetch_runs fun m path hwithin hresolve hrunning => ?_⟩
    obtain ⟨c', hc', himports, hstart, halike⟩ := hK.module hc m path hwithin hresolve hrunning
    refine ⟨c', himports, hstart, fun source p hread hparse => ?_⟩
    obtain ⟨hcall', hload'⟩ := ih hc'
    exact execProgram_runs hcall' hload' (halike source p hread hparse)

/-- Alike programs run alike, whatever they import. -/
theorem Hereditary.runProgram_runs (hK : Hereditary K) (hc : K c) (depth : Nat) {p p' : Program}
    (h : p.Alike c.toLeeway p') : c.Runs Eq (runProgram depth p) (runProgram depth p') := by
  obtain ⟨hcall, hload⟩ := hK.calls_and_loads hc depth
  exact execProgram_runs hcall hload h

end

end Comparison

/-! ### Marks -/

section

variable {d : Disk} {loading : List String} {m m' : Machine}

/-- A machine has the given files and marks the given paths. A run ends with the files and the marks
that it started with, so that this can be known of all its machines. -/
structure Machine.Marks (d : Disk) (loading : List String) (m : Machine) : Prop where
  disk : m.disk = d
  loading : m.loading = loading

theorem Machine.Marks.fixed (h : m.Marks d loading) (hfixed : m.Fixed m') : m'.Marks d loading :=
  ⟨hfixed.disk.trans h.disk, hfixed.loading.trans h.loading⟩

/-- A module starts with its own path marked too. -/
theorem Machine.marks_enterModule {path : String} (hrunning : m.isRunning path = false) :
    (m.enterModule path).Marks m.disk (path :: m.loading) :=
  ⟨rfl, List.insert_of_not_mem (Machine.not_mem_loading hrunning)⟩

end

end TagScript
