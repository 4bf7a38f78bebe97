import TagScript.Proofs.Comparison
import TagScript.Proofs.StatementLookahead

/-!
# Layout and signature types do not matter

`layout_irrelevant`: lexemes that differ in their lines are read as programs that differ in theirs,
and programs that differ in their lines and in the types of their signatures do the same. A machine
keeps functions and hands them on as exports, so what holds of programs has to hold of what machines
store too: `Machine.SameUpTo`.

Reading changes with the lines of its lexemes by `readProgram_reline`, from what the readers look
at. Running is compared by `layout`, under which two functions are related if they are equal once
relabeled.
-/

namespace TagScript

variable {α : Type}

/-! ### Reading -/

def ParseError.reline (φ : Nat → Nat) : ParseError → ParseError
  | unexpectedToken expected found => unexpectedToken expected (found.reline φ)
  | unexpectedEnd expected => unexpectedEnd expected

theorem firstToken?_relineAll (φ : Nat → Nat) (ts : List Lexeme) :
    firstToken? (relineAll φ ts) = firstToken? ts := by
  cases ts <;> rfl

/-- Reading goes along with a change of lines. -/
theorem readProgram_reline (φ : Nat → Nat) (ts : List Lexeme) :
    readProgram (relineAll φ ts) =
      match readProgram ts with
      | .ok p => .ok (p.relabel (.lines φ))
      | .error cause => .error (cause.reline φ) := by
  obtain ⟨o, w, rest, rfl, hstable, -⟩ := readStatements_settled ts
  have hread := hstable id rest rfl
  have hreline := hstable φ (relineAll φ rest) (firstToken?_relineAll φ rest)
  rw [relineAll_id] at hread
  rw [readProgram, readProgram, relineAll_append, hread, hreline]
  cases o with
  | ok ss =>
    show Except.ok (Program.mk (reline φ ss)) = .ok (Program.relabel (.lines φ) ⟨reline id ss⟩)
    rw [Lined.reline_id, Program.relabel, Stmt.relabelAll_eq_reline]
  | error expected => cases rest <;> rfl

theorem relineAll_eq_of_map_eq {ts ts' : List Lexeme}
    (htokens : ts.map Lexeme.token = ts'.map Lexeme.token)
    (hindices : ts.map Lexeme.index = ts'.map Lexeme.index) :
    relineAll (fun _ => 0) ts = relineAll (fun _ => 0) ts' := by
  induction ts generalizing ts' with
  | nil =>
    cases ts' with
    | nil => rfl
    | cons l' ts' => cases htokens
  | cons l ts ih =>
    cases ts' with
    | nil => cases htokens
    | cons l' ts' =>
      simp only [List.map_cons, List.cons.injEq] at htokens hindices
      rw [relineAll_cons, relineAll_cons, ih htokens.2 hindices.2, Lexeme.reline, Lexeme.reline,
        htokens.1, hindices.1]

/-! ### What may differ -/

def Error.relabel (r : Relabeling) : Error → Error
  | run line fault => run (r.line line) fault
  | inModule path line cause => inModule path (r.line line) (cause.relabel r)
  | lex cause => lex cause
  | parse cause => parse cause
  | exit status => exit status

def Halt.relabel (r : Relabeling) : Halt → Halt
  | error e => error (e.relabel r)
  | tooDeep => tooDeep

theorem Halt.relabel_fromModule (r : Relabeling) (path : String) (line : Nat) (h : Halt) :
    (h.fromModule path line).relabel r = (h.relabel r).fromModule path (r.line line) := by
  cases h with
  | error e => cases e <;> rfl
  | tooDeep => rfl

def Function.relabel (r : Relabeling) : Function → Function
  | builtin b => builtin b
  | user f => user (f.relabel r)

def Export.relabel (r : Relabeling) : Export → Export
  | function f => function (f.relabel r)
  | global b => global b

/-- Machines that are equal once the functions in them are relabeled. -/
structure Machine.SameUpTo (r : Relabeling) (m m' : Machine) : Prop where
  globals : m.globals = m'.globals
  functions : ∀ name,
    (m.functions.get? name).map (·.relabel r) = (m'.functions.get? name).map (·.relabel r)
  exports : ∀ name,
    (m.exports.get? name).map (·.relabel r) = (m'.exports.get? name).map (·.relabel r)
  registry : m.registry = m'.registry
  loading : m.loading = m'.loading
  current : m.current = m'.current
  scopes : m.scopes = m'.scopes
  console : m.console = m'.console
  disk : m.disk = m'.disk
  draws : m.draws = m'.draws

/-- Runs that give the same value, or stop early for reasons that are equal once relabeled. -/
inductive SameResults (r : Relabeling) :
    EStateM.Result Halt Machine α → EStateM.Result Halt Machine α → Prop
  | ok (a : α) {m m' : Machine} : m.SameUpTo r m' → SameResults r (.ok a m) (.ok a m')
  | error {h h' : Halt} {m m' : Machine} : h.relabel r = h'.relabel r → m.SameUpTo r m' →
    SameResults r (.error h m) (.error h' m')

/-! ### Running -/

/-- Runs that may differ in what a relabeling changes. -/
def layout (r : Relabeling) : Comparison where
  toLeeway := r.leeway fun f g => f.relabel r = g.relabel r
  exported f g := f.relabel r = g.relabel r
  marks := Eq
  halt h h' := h.relabel r = h'.relabel r
  within _ := True
  tables _ := True
  hidden := r.hidesTags _
  signature h := FunctionDecl.signature_of_relabel_eq h
  body h := Block.alike_of_relabel_eq _ _ (congrArg FunctionDecl.body h) fun _ _ _ h => h
  launched _ _ h := h
  marked := SamePaths.of_eq
  fault fault hline := congrArg (fun line => Halt.error (.run line fault)) hline
  exit _ := rfl
  fixed _ _ := trivial

theorem layout_imports (r : Relabeling) (path : String) : (layout r).Imports path (layout r) where
  tag _ _ h := h
  exported _ _ h := h
  mark h := congrArg (List.insert path) h
  tables _ _ := trivial
  halt {h h' i j} hhalt hline := by
    show (h.fromModule path i).relabel r = (h'.fromModule path j).relabel r
    rw [Halt.relabel_fromModule, Halt.relabel_fromModule, hhalt]
    exact congrArg (Halt.fromModule path · (h'.relabel r)) hline
  unparsed {source e i j} _ hline :=
    congrArg (fun line => Halt.error (.inModule path line (e.relabel r))) hline

theorem hereditary_layout (r : Relabeling) : Comparison.Hereditary (· = layout r) where
  tooDeep := by
    rintro _ rfl
    rfl
  module := by
    rintro _ rfl m path _ _ _
    refine ⟨layout r, rfl, layout_imports r path, trivial, fun source p _ _ => ?_⟩
    exact Program.alike_of_relabel_eq rfl fun _ _ _ h => h

/-! ### The relations agree -/

theorem option_rel_iff_map_eq {β : Type} {R : α → α → Prop} {f : α → β}
    (h : ∀ a b, R a b ↔ f a = f b) (x y : Option α) : Option.Rel R x y ↔ x.map f = y.map f := by
  cases x with
  | none =>
    cases y with
    | none => exact ⟨fun _ => rfl, fun _ => .none⟩
    | some b => exact ⟨nofun, nofun⟩
  | some a =>
    cases y with
    | none => exact ⟨nofun, nofun⟩
    | some b =>
      rw [Option.map_some, Option.map_some, Option.some.injEq, ← h]
      exact ⟨fun hab => by cases hab; assumption, .some⟩

theorem function_related_iff (r : Relabeling) (f g : Function) :
    f.Related (layout r).function g ↔ f.relabel r = g.relabel r := by
  constructor
  · rintro (b | hfg)
    · rfl
    · exact congrArg Function.user hfg
  · intro h
    cases f with
    | builtin b =>
      cases g with
      | builtin b' =>
        cases h
        exact .builtin b
      | user g => cases h
    | user f =>
      cases g with
      | builtin b => cases h
      | user g => exact .user (Function.user.inj h)

theorem export_related_iff (r : Relabeling) (x y : Export) :
    x.Related Eq (layout r).exported y ↔ x.relabel r = y.relabel r := by
  constructor
  · rintro (hfg | hb)
    · exact congrArg Export.function ((function_related_iff r _ _).1 hfg)
    · exact congrArg Export.global hb.eq
  · intro h
    cases x with
    | function f =>
      cases y with
      | function g => exact .function ((function_related_iff r f g).2 (Export.function.inj h))
      | global b => cases h
    | global b =>
      cases y with
      | function g => cases h
      | global b' =>
        cases h
        exact .global (.refl (fun _ => rfl) b)

theorem machines_layout_iff (r : Relabeling) (m m' : Machine) :
    (layout r).Machines m m' ↔ m.SameUpTo r m' := by
  constructor
  · rintro ⟨h, -, -⟩
    have hf := h.functions
    have he := h.exports
    rw [h.eq_setTables]
    refine ⟨rfl, fun name => ?_, fun name => ?_, rfl, rfl, rfl, rfl, rfl, rfl, rfl⟩
    · exact (option_rel_iff_map_eq (function_related_iff r) _ _).1 (hf name)
    · exact (option_rel_iff_map_eq (export_related_iff r) _ _).1 (he name)
  · intro h
    have hf : m.functions.Related (Function.Related (layout r).function) m'.functions :=
      fun name => (option_rel_iff_map_eq (function_related_iff r) _ _).2 (h.functions name)
    have he : m.exports.Related (Export.Related Eq (layout r).exported) m'.exports :=
      fun name => (option_rel_iff_map_eq (export_related_iff r) _ _).2 (h.exports name)
    have hrelated := Machine.Related.of_tables (m := m) (L := Eq) (fun _ => rfl) rfl hf he
    rw [h.globals, h.registry, h.loading, h.current, h.scopes, h.console, h.disk, h.draws]
      at hrelated
    exact ⟨hrelated, trivial, trivial⟩

theorem runProgram_sameUpTo (r : Relabeling) (depth : Nat) {p p' : Program} {m m' : Machine}
    (hp : p.relabel r = p'.relabel r) (hm : m.SameUpTo r m') :
    SameResults r (runProgram depth p m) (runProgram depth p' m') := by
  have halike : p.Alike (layout r).toLeeway p' :=
    Program.alike_of_relabel_eq hp fun _ _ _ h => h
  have hmachines := (machines_layout_iff r m m').2 hm
  have hresults := (hereditary_layout r).runProgram_runs rfl depth halike m m' hmachines
  generalize runProgram depth p m = x, runProgram depth p' m' = y at hresults ⊢
  cases hresults with
  | ok _ h => exact .ok _ ((machines_layout_iff r _ _).1 h)
  | error hhalt h => exact .error hhalt ((machines_layout_iff r _ _).1 h)

/-- Lines do not matter to reading, and neither they nor the types of signatures to running. -/
theorem layout_irrelevant :
    (∀ ts ts' : List Lexeme, ts.map Lexeme.token = ts'.map Lexeme.token →
      ts.map Lexeme.index = ts'.map Lexeme.index →
        (∃ p p', readProgram ts = .ok p ∧ readProgram ts' = .ok p' ∧
          p.relabel .oneLine = p'.relabel .oneLine) ∨
        ∃ cause cause', readProgram ts = .error cause ∧ readProgram ts' = .error cause' ∧
          cause.reline (fun _ => 0) = cause'.reline fun _ => 0) ∧
    ∀ (depth : Nat) (p p' : Program) (m m' : Machine), p.relabel .forget = p'.relabel .forget →
      m.SameUpTo .forget m' →
        SameResults .forget (runProgram depth p m) (runProgram depth p' m') := by
  refine ⟨fun ts ts' htokens hindices => ?_, fun depth p p' m m' => runProgram_sameUpTo _ depth⟩
  have hread := readProgram_reline (fun _ => 0) ts
  have hread' := readProgram_reline (fun _ => 0) ts'
  rw [relineAll_eq_of_map_eq htokens hindices, hread'] at hread
  cases hp : readProgram ts with
  | ok p =>
    rw [hp] at hread
    cases hp' : readProgram ts' with
    | ok p' =>
      rw [hp'] at hread
      exact .inl ⟨p, p', rfl, rfl, (Except.ok.inj hread).symm⟩
    | error cause' =>
      rw [hp'] at hread
      cases hread
  | error cause =>
    rw [hp] at hread
    cases hp' : readProgram ts' with
    | ok p' =>
      rw [hp'] at hread
      cases hread
    | error cause' =>
      rw [hp'] at hread
      exact .inr ⟨cause, cause', rfl, rfl, (Except.error.inj hread).symm⟩

/-- Lexemes on one line or on two, and a function that returns its argument, written in two ways, in
machines that hold another one which differs too. -/
theorem layout_irrelevant_function :
    let ts : List Lexeme := [⟨.bool true, 1, 0⟩, ⟨.bool false, 1, 1⟩]
    let ts' : List Lexeme := [⟨.bool true, 1, 0⟩, ⟨.bool false, 2, 1⟩]
    let p : Program := ⟨[.define "f" .void [⟨"x", .num⟩] (.mk [.giveBack (.name "x" 1) 1] 1) 1]⟩
    let p' : Program := ⟨[.define "f" .bool [⟨"x", .text⟩] (.mk [.giveBack (.name "x" 3) 3] 2) 2]⟩
    let m : Machine := { functions := Table.empty.insert "g" (.user ⟨"g", .void, [], .mk [] 1, 1⟩) }
    let m' : Machine :=
      { functions := Table.empty.insert "g" (.user ⟨"g", .text, [], .mk [] 2, 2⟩) }
    ((∃ q q', readProgram ts = .ok q ∧ readProgram ts' = .ok q' ∧
        q.relabel .oneLine = q'.relabel .oneLine) ∨
      ∃ cause cause', readProgram ts = .error cause ∧ readProgram ts' = .error cause' ∧
        cause.reline (fun _ => 0) = cause'.reline fun _ => 0) ∧
    SameResults .forget (runProgram 1 p m) (runProgram 1 p' m') := by
  intro ts ts' p p' m m'
  have hp : p.relabel .forget = p'.relabel .forget := by
    simp [p, p', Program.relabel, Stmt.relabelAll, Stmt.relabel, Block.relabel, Expr.relabel,
      Param.relabel, Relabeling.forget]
  have hm : m.SameUpTo .forget m' := by
    refine ⟨rfl, fun name => ?_, fun _ => rfl, rfl, rfl, rfl, rfl, rfl, rfl, rfl⟩
    simp only [m, m', Table.get?_insert]
    split <;> rfl
  exact ⟨layout_irrelevant.1 ts ts' rfl rfl, layout_irrelevant.2 1 p p' m m' hp hm⟩

end TagScript
