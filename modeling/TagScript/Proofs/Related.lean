import Mathlib.Data.List.Forall2
import TagScript.Proofs.FunctionTable

/-!
# Related machines

`Table.Related R`: two tables have the same names, bound to related values. On it rests
`Machine.Related T F G L`: two machines differ in no more than the tags of their bindings, which `T`
relates, the declared functions that they know, which `F` relates, those that they export, which `G`
relates, and the paths that they mark as loading, which `L` relates.

The rest says of each operation on machines what it does to two that are related. None looks at a
tag or into a function, so the outcomes are related again.
-/

namespace TagScript

/-! ### Tables -/

/-- Two tables have the same names, bound to related values. -/
def Table.Related {α : Type} (R : α → α → Prop) (s t : Table α) : Prop :=
  ∀ name, Option.Rel R (s.get? name) (t.get? name)

namespace Table.Related

variable {α : Type} {R S : α → α → Prop} {s t : Table α}

theorem empty : Table.Related R ∅ ∅ :=
  fun _ => .none

theorem insert (h : s.Related R t) (name : String) {a b : α} (hab : R a b) :
    (s.insert name a).Related R (t.insert name b) := by
  intro other
  rw [Table.get?_insert, Table.get?_insert]
  split
  · exact .some hab
  · exact h other

theorem erase (h : s.Related R t) (name : String) : (s.erase name).Related R (t.erase name) := by
  intro other
  rw [Table.get?_erase, Table.get?_erase]
  split
  · exact .none
  · exact h other

theorem refl (h : ∀ name a, t.get? name = some a → R a a) : t.Related R t := by
  intro name
  cases ha : t.get? name with
  | none => exact .none
  | some a => exact .some (h name a ha)

theorem imp (h : s.Related R t) (hRS : ∀ name a b, s.get? name = some a → R a b → S a b) :
    s.Related S t := by
  intro name
  have hname := h name
  generalize hs : s.get? name = a, t.get? name = b at hname ⊢
  cases hname with
  | none => exact .none
  | some hab => exact .some (hRS name _ _ hs hab)

theorem eq (h : s.Related R t) (hR : ∀ a b, R a b → a = b) : s = t := by
  refine Table.ext_get? fun name => ?_
  have hname := h name
  generalize s.get? name = a, t.get? name = b at hname ⊢
  cases hname with
  | none => rfl
  | some hab => rw [hR _ _ hab]

end Table.Related

/-! ### Entries -/

section

variable (T : Option Tag → Option Tag → Prop) (F : FunctionDecl → FunctionDecl → Prop)

/-- Bindings of one kind with one value. The tags of slots are related. -/
inductive Binding.Related : Binding → Binding → Prop
  | slot (value : Value) {tag tag' : Option Tag} : T tag tag' →
    Related (.slot value tag) (.slot value tag')
  | raw (value : Value) : Related (.raw value) (.raw value)

inductive Function.Related : Function → Function → Prop
  | builtin (b : Builtin) : Related (.builtin b) (.builtin b)
  | user {f g : FunctionDecl} : F f g → Related (.user f) (.user g)

inductive Export.Related : Export → Export → Prop
  | function {f g : Function} : f.Related F g → Related (.function f) (.function g)
  | global {b b' : Binding} : b.Related T b' → Related (.global b) (.global b')

/-- Scopes that are the same but for tags, which `T` relates. -/
abbrev Scope.SameBut : Scope → Scope → Prop :=
  Table.Related (Binding.Related T)

end

section

variable {T T' : Option Tag → Option Tag → Prop} {F F' : FunctionDecl → FunctionDecl → Prop}

namespace Binding.Related

variable {b b' : Binding}

theorem refl (h : ∀ t, T t t) (b : Binding) : b.Related T b := by
  cases b with
  | slot value tag => exact .slot value (h tag)
  | raw value => exact .raw value

theorem imp (h : b.Related T b') (hT : ∀ t t', T t t' → T' t t') : b.Related T' b' := by
  cases h with
  | slot value ht => exact .slot value (hT _ _ ht)
  | raw value => exact .raw value

theorem eq (h : b.Related Eq b') : b = b' := by
  cases h with
  | slot value ht => rw [ht]
  | raw value => rfl

theorem value_eq (h : b.Related T b') : b'.value = b.value := by
  cases h <;> rfl

theorem map_value_eq {args args' : List Binding} (h : List.Forall₂ (Binding.Related T) args args') :
    args'.map Binding.value = args.map Binding.value := by
  induction h with
  | nil => rfl
  | cons hb _ ih => rw [List.map_cons, List.map_cons, hb.value_eq, ih]

end Binding.Related

namespace Function.Related

theorem refl (h : ∀ f, F f f) (f : Function) : f.Related F f := by
  cases f with
  | builtin b => exact .builtin b
  | user f => exact .user (h f)

theorem imp {f g : Function} (h : f.Related F g) (hF : ∀ f g, F f g → F' f g) :
    f.Related F' g := by
  cases h with
  | builtin b => exact .builtin b
  | user hf => exact .user (hF _ _ hf)

theorem eq {f g : Function} (h : f.Related F g) (hF : ∀ f g, F f g → f = g) : f = g := by
  cases h with
  | builtin b => rfl
  | user hf => rw [hF _ _ hf]

end Function.Related

namespace Export.Related

variable {x y : Export}

theorem refl (hT : ∀ t, T t t) (hF : ∀ f, F f f) (x : Export) : x.Related T F x := by
  cases x with
  | function f => exact .function (.refl hF f)
  | global b => exact .global (.refl hT b)

theorem imp (h : x.Related T F y) (hT : ∀ t t', T t t' → T' t t')
    (hF : ∀ f g, F f g → F' f g) : x.Related T' F' y := by
  cases h with
  | function hf => exact .function (hf.imp hF)
  | global hb => exact .global (hb.imp hT)

theorem eq (h : x.Related Eq F y) (hF : ∀ f g, F f g → f = g) : x = y := by
  cases h with
  | function hf => rw [hf.eq hF]
  | global hb => rw [hb.eq]

end Export.Related

theorem Scope.SameBut.eq {s t : Scope} (h : s.SameBut Eq t) : s = t :=
  Table.Related.eq h fun _ _ => Binding.Related.eq

theorem Scope.SameBut.forall₂_eq {scopes scopes' : List Scope}
    (h : List.Forall₂ (Scope.SameBut Eq) scopes scopes') : scopes = scopes' := by
  induction h with
  | nil => rfl
  | cons hs _ ih => rw [hs.eq, ih]

end

/-! ### Scopes -/

/-- What comes of an assignment, up to the result. -/
inductive Assigned.Related {α : Type} (R : α → α → Prop) : Assigned α → Assigned α → Prop
  | done {a b : α} : R a b → Related R (.done a) (.done b)
  | refused : Related R .refused .refused
  | absent : Related R .absent .absent

section

variable {T : Option Tag → Option Tag → Prop} {s s' : Scope} {scopes scopes' : List Scope}

theorem Scope.SameBut.assign (h : s.SameBut T s') (name : String) (value : Value) :
    (s.assign name value).Related (Scope.SameBut T) (s'.assign name value) := by
  have hname := h name
  unfold Scope.assign
  generalize s.get? name = a, s'.get? name = b at hname ⊢
  cases hname with
  | none => exact .absent
  | some hab =>
    cases hab with
    | slot old ht => exact .done (h.insert name (.slot value ht))
    | raw old => exact .refused

theorem Scope.related_lookup (h : List.Forall₂ (Scope.SameBut T) scopes scopes') (name : String) :
    Option.Rel (Binding.Related T) (Scope.lookup scopes name) (Scope.lookup scopes' name) := by
  induction h with
  | nil => exact .none
  | @cons s s' _ _ hs _ ih =>
    have hname := hs name
    unfold Scope.lookup
    generalize s.get? name = a, s'.get? name = b at hname ⊢
    cases hname with
    | none => exact ih
    | some hab => exact .some hab

theorem Scope.related_assignInnermost (h : List.Forall₂ (Scope.SameBut T) scopes scopes')
    (name : String) (value : Value) :
    (Scope.assignInnermost scopes name value).Related (List.Forall₂ (Scope.SameBut T))
      (Scope.assignInnermost scopes' name value) := by
  induction h with
  | nil => exact .absent
  | @cons s s' outer outer' hs houter ih =>
    have hassign := hs.assign name value
    unfold Scope.assignInnermost
    generalize s.assign name value = a, s'.assign name value = b at hassign ⊢
    cases hassign with
    | done hab => exact .done (.cons hab houter)
    | refused => exact .refused
    | absent =>
      dsimp only
      generalize Scope.assignInnermost outer name value = c,
        Scope.assignInnermost outer' name value = d at ih ⊢
      cases ih with
      | done hcd => exact .done (.cons hs hcd)
      | refused => exact .refused
      | absent => exact .absent

/-- A frame depends on the names of the parameters, not on their types. -/
theorem related_frame {params params' : List Param} {args args' : List Binding}
    (hparams : params'.map Param.name = params.map Param.name)
    (h : List.Forall₂ (Binding.Related T) args args') :
    (frame params args).SameBut T (frame params' args') := by
  unfold frame
  have hempty : Scope.SameBut T ∅ ∅ := .empty
  generalize (∅ : Scope) = s at hempty ⊢
  suffices ∀ s s' : Scope, s.SameBut T s' →
      Scope.SameBut T
        ((params.zip args).foldl (fun s pair => s.insert pair.1.name pair.2) s)
        ((params'.zip args').foldl (fun s pair => s.insert pair.1.name pair.2) s') from
    this s s hempty
  induction h generalizing params params' with
  | nil =>
    intro s s' hs
    rw [List.zip_nil_right, List.zip_nil_right]
    exact hs
  | @cons arg arg' _ _ harg _ ih =>
    intro s s' hs
    cases params with
    | nil =>
      rw [List.map_eq_nil_iff.1 hparams]
      exact hs
    | cons param rest =>
      obtain ⟨param', rest', rfl, hname, hrest⟩ := List.map_eq_cons_iff.1 hparams
      refine ih hrest _ _ ?_
      dsimp only
      rw [hname]
      exact hs.insert param.name harg

end

/-! ### Machines -/

/-- The same paths, in whatever order. -/
def SamePaths (paths paths' : List String) : Prop :=
  ∀ path, path ∈ paths ↔ path ∈ paths'

theorem SamePaths.of_eq {paths paths' : List String} (h : paths = paths') :
    SamePaths paths paths' :=
  fun _ => h ▸ Iff.rfl

theorem SamePaths.insert {paths paths' : List String} (h : SamePaths paths paths')
    (path : String) : SamePaths (paths.insert path) (paths'.insert path) := by
  intro other
  rw [List.mem_insert_iff, List.mem_insert_iff, h other]

/-- Machines that differ in the tags of bindings, in declared functions and in the paths that are
marked as loading, and in nothing else. -/
inductive Machine.Related (T : Option Tag → Option Tag → Prop)
    (F G : FunctionDecl → FunctionDecl → Prop) (L : List String → List String → Prop) :
    Machine → Machine → Prop
  | mk {m : Machine} {globals : Table Binding} {functions : Table Function}
    {exports : Table Export} {loading : List String} {scopes : List Scope} :
    m.globals.Related (Binding.Related T) globals →
      m.functions.Related (Function.Related F) functions →
        m.exports.Related (Export.Related T G) exports →
          L m.loading loading →
            List.Forall₂ (Scope.SameBut T) m.scopes scopes →
              Related T F G L m { m with globals, functions, exports, loading, scopes }

namespace Machine.Related

variable {T : Option Tag → Option Tag → Prop} {F G : FunctionDecl → FunctionDecl → Prop}
  {L : List String → List String → Prop} {m m' : Machine}

theorem globals (h : m.Related T F G L m') : m.globals.Related (Binding.Related T) m'.globals := by
  obtain ⟨hg, -, -, -, -⟩ := h
  exact hg

theorem functions (h : m.Related T F G L m') :
    m.functions.Related (Function.Related F) m'.functions := by
  obtain ⟨-, hf, -, -, -⟩ := h
  exact hf

theorem exports (h : m.Related T F G L m') :
    m.exports.Related (Export.Related T G) m'.exports := by
  obtain ⟨-, -, he, -, -⟩ := h
  exact he

theorem scopes (h : m.Related T F G L m') :
    List.Forall₂ (Scope.SameBut T) m.scopes m'.scopes := by
  obtain ⟨-, -, -, -, hs⟩ := h
  exact hs

/-- A machine with related functions in it. -/
theorem of_tables (hT : ∀ t, T t t) (hL : L m.loading m.loading) {functions : Table Function}
    {exports : Table Export}
    (hfunctions : m.functions.Related (Function.Related F) functions)
    (hexports : m.exports.Related (Export.Related T G) exports) :
    m.Related T F G L { m with functions, exports } := by
  have hrefl (s : Scope) : s.SameBut T s := .refl fun _ b _ => .refl hT b
  exact .mk (m := m) (hrefl m.globals) hfunctions hexports hL
    (List.forall₂_same.2 fun s _ => hrefl s)

/-- Machines that agree in tags are the same but for their functions. -/
theorem eq_setTables (h : m.Related Eq F G Eq m') :
    m' = { m with functions := m'.functions, exports := m'.exports } := by
  obtain ⟨hg, -, -, rfl, hs⟩ := h
  rw [← Scope.SameBut.eq hg, ← Scope.SameBut.forall₂_eq hs]

/-! #### Changes -/

theorem setConsole (h : m.Related T F G L m') (console : Console) :
    Machine.Related T F G L { m with console } { m' with console } := by
  obtain ⟨hg, hf, he, hl, hs⟩ := h
  exact .mk (m := { m with console }) hg hf he hl hs

theorem setDraws (h : m.Related T F G L m') (draws : Draws) :
    Machine.Related T F G L { m with draws } { m' with draws } := by
  obtain ⟨hg, hf, he, hl, hs⟩ := h
  exact .mk (m := { m with draws }) hg hf he hl hs

theorem setTables (h : m.Related T F G L m') {globals globals' : Table Binding}
    {functions functions' : Table Function}
    (hglobals : globals.Related (Binding.Related T) globals')
    (hfunctions : functions.Related (Function.Related F) functions') :
    Machine.Related T F G L { m with functions, globals }
      { m' with functions := functions', globals := globals' } := by
  obtain ⟨-, -, he, hl, hs⟩ := h
  exact .mk (m := { m with functions, globals }) hglobals hfunctions he hl hs

theorem setGlobals (h : m.Related T F G L m') {globals globals' : Table Binding}
    (hglobals : globals.Related (Binding.Related T) globals') :
    Machine.Related T F G L { m with globals } { m' with globals := globals' } :=
  h.setTables hglobals h.functions

theorem setScopes (h : m.Related T F G L m') {scopes scopes' : List Scope}
    (hscopes : List.Forall₂ (Scope.SameBut T) scopes scopes') :
    Machine.Related T F G L { m with scopes } { m' with scopes := scopes' } := by
  obtain ⟨hg, hf, he, hl, -⟩ := h
  exact .mk (m := { m with scopes }) hg hf he hl hscopes

theorem define (h : m.Related T F G L m') {f g : FunctionDecl} (hfg : F f g) (name : String) :
    Machine.Related T F G L { m with functions := m.functions.insert name (.user f) }
      { m' with functions := m'.functions.insert name (.user g) } :=
  h.setTables h.globals (h.functions.insert name (.user hfg))

theorem launch (h : m.Related T F G L m') {item item' : Export} (hitem : item.Related T G item')
    (name : String) :
    Machine.Related T F G L { m with exports := m.exports.insert name item }
      { m' with exports := m'.exports.insert name item' } := by
  obtain ⟨hg, hf, he, hl, hs⟩ := h
  exact .mk (m := { m with exports := _ }) hg hf (he.insert name hitem) hl hs

theorem declare (h : m.Related T F G L m') (name : String) {b b' : Binding} (hb : b.Related T b') :
    Machine.Related T F G L (m.declare name b) (m'.declare name b') := by
  have hscopes := h.scopes
  unfold Machine.declare
  split <;> split
  · exact h.setGlobals (h.globals.insert name hb)
  · next hm _ _ _ hm' =>
    rw [hm, hm'] at hscopes
    cases hscopes
  · next hm _ hm' =>
    rw [hm, hm'] at hscopes
    cases hscopes
  · next hm _ _ _ hm' =>
    rw [hm, hm'] at hscopes
    cases hscopes with
    | cons hs houter => exact h.setScopes (.cons (hs.insert name hb) houter)

/-- An assignment succeeds in both machines or fails alike in both. -/
theorem assign (h : m.Related T F G L m') (name : String) (value : Value) :
    (∃ fault, m.assign name value = .error fault ∧ m'.assign name value = .error fault) ∨
      ∃ m₁ m₁', m.assign name value = .ok m₁ ∧ m'.assign name value = .ok m₁' ∧
        m₁.Related T F G L m₁' := by
  have hscopes := Scope.related_assignInnermost h.scopes name value
  rw [Machine.assign_eq_innermost, Machine.assign_eq_innermost]
  generalize Scope.assignInnermost m.scopes name value = a,
    Scope.assignInnermost m'.scopes name value = b at hscopes ⊢
  cases hscopes with
  | done hab => exact .inr ⟨_, _, rfl, rfl, h.setScopes hab⟩
  | refused => exact .inl ⟨_, rfl, rfl⟩
  | absent =>
    dsimp only
    have hglobals := Scope.SameBut.assign h.globals name value
    generalize Scope.assign m.globals name value = c, Scope.assign m'.globals name value = d
      at hglobals ⊢
    cases hglobals with
    | done hcd => exact .inr ⟨_, _, rfl, rfl, h.setGlobals hcd⟩
    | refused => exact .inl ⟨_, rfl, rfl⟩
    | absent => exact .inl ⟨_, rfl, rfl⟩

theorem merge (h : m.Related T F G L m') {exports exports' : Table Export}
    (hexports : exports.Related (Export.Related T F) exports') :
    Machine.Related T F G L (m.merge exports) (m'.merge exports') := by
  have hglobals : (m.merge exports).globals.Related (Binding.Related T)
      (m'.merge exports').globals := by
    intro name
    rw [Machine.get?_globals_merge, Machine.get?_globals_merge]
    have hname := hexports name
    generalize exports.get? name = item, exports'.get? name = item' at hname ⊢
    rcases hname with ⟨_ | hb⟩ | _
    · exact h.globals name
    · exact .some hb
    · exact h.globals name
  have hfunctions : (m.merge exports).functions.Related (Function.Related F)
      (m'.merge exports').functions := by
    intro name
    rw [Machine.get?_functions_merge, Machine.get?_functions_merge]
    have hname := hexports name
    generalize exports.get? name = item, exports'.get? name = item' at hname ⊢
    rcases hname with ⟨hf | _⟩ | _
    · exact .some hf
    · exact h.functions name
    · exact h.functions name
  unfold Machine.merge at hglobals hfunctions ⊢
  rw [m.absorbAll_eq, m'.absorbAll_eq]
  exact h.setTables hglobals hfunctions

/-! #### Reading -/

theorem lookup (h : m.Related T F G L m') (name : String) :
    Option.Rel (Binding.Related T) (m.lookup name) (m'.lookup name) := by
  have hscopes := Scope.related_lookup h.scopes name
  unfold Machine.lookup
  generalize Scope.lookup m.scopes name = a, Scope.lookup m'.scopes name = b at hscopes ⊢
  cases hscopes with
  | none => exact h.globals name
  | some hab => exact .some hab

theorem checkAssignable_eq (h : m.Related T F G L m') (name : String) :
    m'.checkAssignable name = m.checkAssignable name := by
  have hname := h.lookup name
  unfold Machine.checkAssignable
  generalize m.lookup name = a, m'.lookup name = b at hname ⊢
  cases hname with
  | none => rfl
  | some hab => cases hab <;> rfl

theorem export? (h : m.Related T F G L m') (hFG : ∀ f g, F f g → G f g) (name : String) :
    Option.Rel (Export.Related T G) (m.export? name) (m'.export? name) := by
  have hname := h.functions name
  unfold Machine.export?
  generalize m.functions.get? name = f, m'.functions.get? name = g at hname ⊢
  cases hname with
  | some hfg => exact .some (.function (hfg.imp hFG))
  | none =>
    dsimp only
    have hglobal := h.globals name
    generalize m.globals.get? name = a, m'.globals.get? name = b at hglobal ⊢
    cases hglobal with
    | none => exact .none
    | some hab => exact .some (.global hab)

theorem console_eq (h : m.Related T F G L m') : m'.console = m.console := by
  obtain ⟨-, -, -, -, -⟩ := h
  rfl

theorem draws_eq (h : m.Related T F G L m') : m'.draws = m.draws := by
  obtain ⟨-, -, -, -, -⟩ := h
  rfl

theorem disk_eq (h : m.Related T F G L m') : m'.disk = m.disk := by
  obtain ⟨-, -, -, -, -⟩ := h
  rfl

theorem target_eq (h : m.Related T F G L m') (requested : String) :
    m'.target requested = m.target requested := by
  obtain ⟨-, -, -, -, -⟩ := h
  rfl

/-- Whether a path is marked, but not where, decides whether it is running. -/
theorem isRunning_eq (h : m.Related T F G L m') (hL : ∀ {l l'}, L l l' → SamePaths l l')
    (path : String) : m'.isRunning path = m.isRunning path := by
  obtain ⟨-, -, -, hl, -⟩ := h
  rw [Bool.eq_iff_iff, Machine.isRunning_iff, Machine.isRunning_iff, hL hl path]

/-- Both importers start a module in one machine, but for marks. -/
theorem enterModule (h : m.Related T F G L m') {path : String}
    {T' : Option Tag → Option Tag → Prop} {F' G' : FunctionDecl → FunctionDecl → Prop}
    {L' : List String → List String → Prop}
    (hL : ∀ {l l'}, L l l' → L' (l.insert path) (l'.insert path)) :
    (m.enterModule path).Related T' F' G' L' (m'.enterModule path) := by
  have hfunctions : Function.builtins.Related (Function.Related F') Function.builtins := by
    refine .refl fun name f hf => ?_
    obtain ⟨b, rfl⟩ := builtin_of_get?_builtins hf
    exact .builtin b
  obtain ⟨-, -, -, hl, -⟩ := h
  exact .mk (m := m.enterModule path) .empty hfunctions .empty (hL hl) .nil

end Machine.Related

end TagScript
