import Mathlib.Data.List.Forall2
import TagScript.Proofs.BlockScopes
import TagScript.Proofs.FunctionTable
import TagScript.Proofs.Limits

/-!
# Constants of the host

A raw binding is a constant that the host has put among the globals. `constants_last`: no run makes
another one. No local scope gets a raw binding, no global becomes one, and no module exports one.

A constant can be lost, though, where a global is bound anew: by a declaration at the top level, by
`prompt`, by `sys_delete`, and by what a module exports. A run in which none of these can happen
keeps it, whatever it assigns and whatever its blocks and functions declare: `closedFrom_keepsRaw`.
-/

namespace TagScript

open Activation

/-! ### What becomes raw -/

/-- What is raw in the second scope is raw in the first. -/
def Scope.NoNewRaw (s s' : Scope) : Prop :=
  ∀ name v, s'.get? name = some (.raw v) → s.get? name = some (.raw v)

namespace Scope.NoNewRaw

variable {s s' s'' : Scope}

instance : Std.Refl Scope.NoNewRaw :=
  ⟨fun _ _ _ h => h⟩

theorem trans (h : s.NoNewRaw s') (h' : s'.NoNewRaw s'') : s.NoNewRaw s'' :=
  fun name v hv => h name v (h' name v hv)

theorem insert (s : Scope) (name : String) (value : Value) (tag : Option Tag) :
    s.NoNewRaw (s.insert name (.slot value tag)) := by
  intro other v hv
  rw [Table.get?_insert] at hv
  split at hv
  · cases hv
  · exact hv

theorem erase (s : Scope) (name : String) : s.NoNewRaw (s.erase name) := by
  intro other v hv
  rw [Table.get?_erase] at hv
  split at hv
  · cases hv
  · exact hv

theorem forall₂_trans {scopes scopes' scopes'' : List Scope}
    (h : List.Forall₂ Scope.NoNewRaw scopes scopes')
    (h' : List.Forall₂ Scope.NoNewRaw scopes' scopes'') :
    List.Forall₂ Scope.NoNewRaw scopes scopes'' := by
  induction h generalizing scopes'' with
  | nil => exact h'
  | cons hs _ ih =>
    cases h' with
    | cons hs' hrest' => exact .cons (hs.trans hs') (ih hrest')

end Scope.NoNewRaw

/-- What is raw after a run was raw before it, in the same place, or is launched from what was. -/
structure Machine.NoNewRaw (m m' : Machine) : Prop where
  globals : Scope.NoNewRaw m.globals m'.globals
  scopes : List.Forall₂ Scope.NoNewRaw m.scopes m'.scopes
  exports : ∀ name v, m'.exports.get? name = some (.global (.raw v)) →
    m.exports.get? name = some (.global (.raw v)) ∨ m.globals.get? name = some (.raw v)

namespace Machine

variable {m m' : Machine}

theorem NoNewRaw.refl (m : Machine) : m.NoNewRaw m :=
  ⟨Std.Refl.refl _, List.forall₂_refl _, fun _ _ h => .inl h⟩

theorem NoNewRaw.trans {m'' : Machine} (h : m.NoNewRaw m') (h' : m'.NoNewRaw m'') :
    m.NoNewRaw m'' := by
  have hscopes := Scope.NoNewRaw.forall₂_trans h.scopes h'.scopes
  refine ⟨h.globals.trans h'.globals, hscopes, fun name v hv => ?_⟩
  rcases h'.exports name v hv with hv | hv
  · exact h.exports name v hv
  · exact .inr (h.globals name v hv)

theorem NoNewRaw.insertGlobal (m : Machine) (name : String) (value : Value) (tag : Option Tag) :
    m.NoNewRaw { m with globals := m.globals.insert name (.slot value tag) } :=
  ⟨.insert _ name value tag, List.forall₂_refl _, fun _ _ h => .inl h⟩

theorem NoNewRaw.declare (m : Machine) (name : String) (value : Value) (tag : Option Tag) :
    m.NoNewRaw (m.declare name (.slot value tag)) := by
  unfold Machine.declare
  split
  · exact .insertGlobal m name value tag
  · next s outer hscopes =>
    refine ⟨Std.Refl.refl _, ?_, fun _ _ h => .inl h⟩
    rw [hscopes]
    exact .cons (.insert s name value tag) (List.forall₂_refl outer)

theorem NoNewRaw.assign {name : String} {value : Value} (h : m.assign name value = .ok m') :
    m.NoNewRaw m' := by
  obtain ⟨scopes, hdone, rfl⟩ | ⟨old, tag, -, rfl⟩ := Machine.assign_ok h
  · obtain ⟨inner, s, outer, old, tag, hscopes, -, -, rfl⟩ := Scope.assignInnermost_done hdone
    refine ⟨Std.Refl.refl _, ?_, fun _ _ h => .inl h⟩
    rw [hscopes]
    exact List.rel_append (List.forall₂_refl inner)
      (.cons (.insert s name value tag) (List.forall₂_refl outer))
  · exact .insertGlobal m name value tag

theorem global_of_export? {name : String} {b : Binding} (h : m.export? name = some (.global b)) :
    m.globals.get? name = some b := by
  obtain ⟨f, -, hf⟩ | ⟨-, b', hb', heq⟩ := Machine.export?_eq_some_iff.1 h
  · cases hf
  · cases heq
    exact hb'

theorem Change.noNewRaw (h : m.Change m') : m.NoNewRaw m' := by
  cases h with
  | declare name value tag => exact .declare m name value tag
  | assign h => exact .assign h
  | prompt name value tag => exact .insertGlobal m name value tag
  | delete name => exact ⟨.erase _ name, List.forall₂_refl _, fun _ _ h => .inl h⟩
  | launch hitem =>
    refine ⟨Std.Refl.refl _, List.forall₂_refl _, fun other v h => ?_⟩
    rw [Table.get?_insert] at h
    split at h
    · next heq =>
      cases h
      exact .inr (heq ▸ global_of_export? hitem)
    · exact .inl h
  | console | draws | define => exact ⟨Std.Refl.refl _, List.forall₂_refl _, fun _ _ h => .inl h⟩

/-- A module exports no raw binding, since it starts with no globals. -/
theorem NoNewRaw.not_exported {path : String} (h : (m.forModule path).NoNewRaw m') (name : String)
    (v : Value) : m'.exports.get? name ≠ some (.global (.raw v)) := by
  intro hname
  rcases h.exports name v hname with h | h
  · cases h
  · cases h

theorem NoNewRaw.merge {path : String} (h : (m.enterModule path).NoNewRaw m') :
    m.NoNewRaw ((m.leaveModule m' path).merge m'.exports) := by
  refine ⟨fun name v hv => ?_, ?_, fun name v hv => .inl ?_⟩
  · rw [Machine.get?_globals_merge] at hv
    cases hname : m'.exports.get? name with
    | none =>
      rw [hname] at hv
      exact hv
    | some item =>
      rw [hname] at hv
      cases item with
      | function f => exact hv
      | global b =>
        cases hv
        exact (h.not_exported name v hname).elim
  · rw [Machine.scopes_merge]
    exact List.forall₂_refl _
  · rw [Machine.merge, Machine.absorbAll_eq] at hv
    exact hv

end Machine

theorem closed_noNewRaw : Closed Machine.NoNewRaw where
  refl := .refl
  trans := .trans
  change h := h.noNewRaw
  block {m m'} h := by
    obtain ⟨s, outer, -, houter, heq⟩ := List.forall₂_cons_left_iff.1 h.scopes
    refine ⟨h.globals, ?_, h.exports⟩
    show List.Forall₂ Scope.NoNewRaw m.scopes m'.scopes.tail
    rw [heq]
    exact houter
  frame _ h := ⟨h.globals, List.forall₂_refl _, h.exports⟩
  module _ := ⟨Std.Refl.refl _, List.forall₂_refl _, fun _ _ h => .inl h⟩
  mark _ h := ⟨h.globals, h.scopes, h.exports⟩
  merge _ h := h.merge

/-! ### Local scopes -/

/-- All bindings are slots. -/
def Scope.OnlySlots (s : Scope) : Prop :=
  ∀ name b, s.get? name = some b → ∃ value tag, b = .slot value tag

/-- Arguments are passed in slots. -/
theorem slots_of_evalAll {call : Invoke} {es : List Expr} {m m' : Machine} {args : List Binding}
    (h : Expr.evalAll call es m = .ok args m') : ∀ b ∈ args, ∃ value tag, b = .slot value tag := by
  induction es generalizing m m' args with
  | nil =>
    rw [Expr.evalAll] at h
    cases h
    exact nofun
  | cons e rest ih =>
    rw [Expr.evalAll] at h
    cases he : e.eval call m with
    | error halt m₁ =>
      rw [bind_eq_of_error he] at h
      cases h
    | ok value m₁ =>
      rw [bind_eq_of_ok he] at h
      change (Expr.evalAll call rest >>= _) m₁ = _ at h
      cases hrest : Expr.evalAll call rest m₁ with
      | error halt m₂ =>
        rw [bind_eq_of_error hrest] at h
        cases h
      | ok more m₂ =>
        rw [bind_eq_of_ok hrest] at h
        cases h
        intro b hb
        rcases List.mem_cons.1 hb with rfl | hb
        · exact ⟨value, _, rfl⟩
        · exact ih hrest b hb

/-- Parameters are bound to arguments. -/
theorem mem_of_get?_frame {params : List Param} {args : List Binding} {name : String} {b : Binding}
    (h : (frame params args).get? name = some b) : b ∈ args := by
  have hall : ∀ (pairs : List (Param × Binding)) (s : Scope),
      (∀ b, s.get? name = some b → b ∈ args) → (∀ pair ∈ pairs, pair.2 ∈ args) →
        (pairs.foldl (fun s pair => s.insert pair.1.name pair.2) s).get? name = some b →
          b ∈ args := by
    intro pairs
    induction pairs with
    | nil => exact fun s hs _ => hs b
    | cons pair rest ih =>
      intro s hs hpairs
      refine ih _ (fun b hb => ?_) fun other hother => hpairs other (List.mem_cons_of_mem _ hother)
      rw [Table.get?_insert] at hb
      split at hb
      · cases hb
        exact hpairs pair (List.mem_cons_self ..)
      · exact hs b hb
  refine hall _ ∅ (fun b hb => ?_) (fun pair hpair => (List.of_mem_zip hpair).2) h
  cases hb

/-- Scopes in a run that began with the scopes `base`: new ones, which bind slots only, upon those
of `base`, in which nothing has become raw. In a call and in a module they are upon nothing. -/
def Stacked (base scopes : List Scope) : Prop :=
  ∃ created kept, scopes = created ++ kept ∧ (∀ s ∈ created, s.OnlySlots) ∧
    (kept = [] ∨ List.Forall₂ Scope.NoNewRaw base kept)

theorem Scope.OnlySlots.noNewRaw {s s' : Scope} (h : s.OnlySlots) (hraw : s.NoNewRaw s') :
    s'.OnlySlots := by
  intro name b hb
  cases b with
  | slot value tag => exact ⟨value, tag, rfl⟩
  | raw v =>
    obtain ⟨value, tag, heq⟩ := h name _ (hraw name v hb)
    cases heq

theorem onlySlots_frame {params : List Param} {args : List Binding}
    (h : ∀ b ∈ args, ∃ value tag, b = .slot value tag) : Scope.OnlySlots (frame params args) :=
  fun _ b hb => h b (mem_of_get?_frame hb)

namespace Stacked

variable {base scopes scopes' : List Scope}

theorem start : Stacked base base :=
  ⟨[], base, rfl, nofun, .inr (List.forall₂_refl base)⟩

theorem nil : Stacked base [] :=
  ⟨[], [], rfl, nofun, .inl rfl⟩

theorem push {s : Scope} (hs : s.OnlySlots) (h : Stacked base scopes) :
    Stacked base (s :: scopes) := by
  obtain ⟨created, kept, heq, hcreated, hkept⟩ := h
  refine ⟨s :: created, kept, congrArg (s :: ·) heq, fun t ht => ?_, hkept⟩
  rcases List.mem_cons.1 ht with h | ht
  · exact h ▸ hs
  · exact hcreated t ht

theorem noNewRaw (h : Stacked base scopes) (hraw : List.Forall₂ Scope.NoNewRaw scopes scopes') :
    Stacked base scopes' := by
  obtain ⟨created, kept, heq, hcreated, hkept⟩ := h
  rw [heq] at hraw
  clear heq
  -- where the new scopes end is the same before and after
  induction created generalizing scopes' with
  | nil =>
    refine ⟨[], scopes', rfl, nofun, ?_⟩
    rcases hkept with heq | hkept
    · rw [heq] at hraw
      exact .inl (List.forall₂_nil_left_iff.1 hraw)
    · exact .inr (Scope.NoNewRaw.forall₂_trans hkept hraw)
  | cons s created ih =>
    cases hraw with
    | cons hs hrest =>
      have hslots := (hcreated s (List.mem_cons_self ..)).noNewRaw hs
      exact (ih hrest fun t ht => hcreated t (List.mem_cons_of_mem _ ht)).push hslots

end Stacked

/-- An activation whose scopes are upon `base`, and that passes slots on if it is a call. -/
structure Activation.StackedOn (base : List Scope) (a : Activation) : Prop where
  scopes : Stacked base a.start.scopes
  args : ∀ d f args, a.task = .call d f args → ∀ b ∈ args, ∃ value tag, b = .slot value tag

theorem closedFrom_stacked (base : List Scope) :
    ClosedFrom (Activation.StackedOn base) Machine.NoNewRaw := by
  refine closed_noNewRaw.closedFrom fun {a b} hok hcall hstart => ?_
  cases hcall with
  | call _ _ hargs =>
    refine ⟨hok.scopes.noNewRaw (hstart trivial).scopes, fun d f args heq => ?_⟩
    cases heq
    exact slots_of_evalAll hargs
  | inside => exact ⟨hok.scopes.push nofun, nofun⟩
  | frame => exact ⟨Stacked.nil.push (onlySlots_frame (hok.args _ _ _ rfl)), nofun⟩
  | load => exact ⟨hok.scopes, nofun⟩
  | module => exact ⟨.nil, nofun⟩
  | _ => exact ⟨hok.scopes.noNewRaw (hstart trivial).scopes, nofun⟩

/-! ### Runs that keep a constant -/

/-- No calls of `prompt` and `sys_delete`, and no fetches. -/
def quiet : Limits where
  call name := name ≠ Builtin.prompt.name ∧ name ≠ Builtin.delete.name
  fetch _ := False

/-- The statements of a task itself, not of the blocks in it. -/
def Task.topStatements : Task → List Stmt
  | stmt _ s => [s]
  | stmts _ ss => ss
  | program _ p => p.body
  | expr _ _ | exprs _ _ | block _ _ | call _ _ _ | fetch _ _ _ | load _ _ _ => []

/-- No code of the activation binds the global `n` anew. -/
structure Activation.Spares (n : String) (a : Activation) : Prop where
  obeys : a.Obeys quiet
  undeclared : a.start.scopes = [] →
    ∀ type e line, Stmt.declare type n e line ∉ a.task.topStatements

/-- If `n` is a constant, it stays one. -/
structure Machine.KeepsRaw (n : String) (m m' : Machine) : Prop where
  scopes : m.OuterReassigned m'
  raw : ∀ v, m.globals.get? n = some (.raw v) → m'.globals.get? n = some (.raw v)

theorem Activation.Spares.undeclared_of_calls {n : String} {a b : Activation} (h : a.Spares n)
    (hcall : a.Calls b) (hstart : a.task.Plain → a.start.scopes = [])
    (hscopes : b.start.scopes = []) (type : TypeWord) (e : Expr) (line : Nat) :
    Stmt.declare type n e line ∉ b.task.topStatements := by
  intro hmem
  cases hcall with
  | first =>
    refine h.undeclared (hstart trivial) type e line ?_
    rw [List.mem_singleton.1 hmem]
    exact List.mem_cons_self ..
  | next => exact h.undeclared (hstart trivial) type e line (List.mem_cons_of_mem _ hmem)
  | program => exact h.undeclared (hstart trivial) type e line hmem
  | inside => cases hscopes
  | module =>
    obtain ⟨⟨_, hfetch⟩, -⟩ := h.obeys.task
    exact hfetch
  | _ => cases hmem

theorem Activation.Spares.keepsRaw {n : String} {a : Activation} {m m' : Machine} (h : a.Spares n)
    (hm : a.start.OuterReassigned m) (hacts : a.Acts m m') (v : Value)
    (hv : m.globals.get? n = some (.raw v)) : m'.globals.get? n = some (.raw v) := by
  cases hacts with
  | @builtin d callee es line start b _ _ hb hchange =>
    have hname : b.name ≠ Builtin.prompt.name ∧ b.name ≠ Builtin.delete.name := by
      refine h.obeys.machine.functions callee _ hb (h.obeys.task.called callee ?_)
      simp [Expr.called]
    cases hchange with
    | console | draws => exact hv
    | prompt => exact (hname.1 rfl).elim
    | delete => exact (hname.2 rfl).elim
  | @declare d type name e line start _ value =>
    unfold Machine.declare
    split
    · next hscopes =>
      have hne : name ≠ n := by
        rintro rfl
        exact h.undeclared (hm.nil_iff.1 hscopes) type e line (List.mem_singleton_self _)
      rwa [Table.get?_insert, if_neg hne]
    · exact hv
  | @assign d name e line start _ _ value hassign =>
    -- a local variable of this name takes the assignment, and the constant itself refuses it
    obtain ⟨scopes, -, rfl⟩ | ⟨old, tag, hold, rfl⟩ := Machine.assign_ok hassign
    · exact hv
    · have hne : name ≠ n := by
        rintro rfl
        cases hold.symm.trans hv
      rwa [Table.get?_insert, if_neg hne]
  | define | launch => exact hv

theorem closedFrom_keepsRaw (n : String) :
    ClosedFrom (Activation.Spares n) (Machine.KeepsRaw n) where
  refl m := ⟨closed_outer.refl m, fun _ hv => hv⟩
  trans h h' := ⟨closed_outer.trans h.scopes h'.scopes, fun v hv => h'.raw v (h.raw v hv)⟩
  calls {a b} hok hcall hstart := by
    refine ⟨(closedFrom_obeys quiet).call hok.obeys hcall, fun hscopes => ?_⟩
    refine hok.undeclared_of_calls hcall (fun hplain => ?_) hscopes
    exact (hstart hplain).scopes.nil_iff.1 hscopes
  acts hok hm h := ⟨closed_outer.change h.change, hok.keepsRaw hm.scopes h⟩
  block _ h := ⟨closed_outer.block h.scopes, h.raw⟩
  frame _ h := ⟨closed_outer.frame _ h.scopes, h.raw⟩
  module hok := by
    obtain ⟨⟨_, hfetch⟩, -⟩ := hok.obeys.task
    exact hfetch.elim
  mark hok := hok.obeys.task.elim
  merge hok := hok.obeys.task.elim

/-! ### Constants -/

/-- The code calls neither `prompt` nor `sys_delete` and fetches nothing. -/
structure Quiet (called fetched : List String) : Prop where
  prompt : Builtin.prompt.name ∉ called
  delete : Builtin.delete.name ∉ called
  fetched : fetched = []

theorem Quiet.allow {called fetched : List String} (h : Quiet called fetched)
    (launched : List String) : quiet.Allow called fetched launched := by
  refine ⟨fun name hname => ⟨?_, ?_⟩, fun text htext => ?_, fun _ _ => trivial⟩
  · rintro rfl
    exact h.prompt hname
  · rintro rfl
    exact h.delete hname
  · rw [h.fetched] at htext
    cases htext

theorem not_raw_of_runModule {d : Nat} {path : String} {line : Nat} {m m' : Machine}
    {exports : Table Export}
    (h : runModule (Program.exec (invoke d) (fetch d)) path line m = .ok exports m') (name : String)
    (v : Value) : exports.get? name ≠ some (.global (.raw v)) := by
  unfold runModule at h
  split at h
  · cases h
  · split at h
    · cases h
    · next p _ =>
      split at h
      · next module hrun =>
        cases h
        have hmodule : (m.forModule path).NoNewRaw (after (p.exec _ _) (m.forModule path)) :=
          closed_noNewRaw.run ⟨.program d p, m.forModule path⟩
        rw [after_of_ok hrun] at hmodule
        exact hmodule.not_exported name v
      · cases h

/-- Constants come from the host only. At every moment of a run, each local scope that the run has
created binds slots only, and in those with which it began, of which a program has none, nothing has
become raw. The raw globals after the run were there before it, with the same values. No module
exports one. A run of quiet code that does not declare a constant at the top level ends with it in
place. Quiet code is told by names, so built-in functions have to be in their places for this, and
they are after every session. -/
theorem constants_last (depth : Nat) (p : Program) (m : Machine) :
    (∀ callers a, CallStack ⟨.program depth p, m⟩ callers a →
      Stacked m.scopes a.start.scopes ∧ Stacked m.scopes a.finish.scopes) ∧
    (∀ name v, (after (runProgram depth p) m).globals.get? name = some (.raw v) →
      m.globals.get? name = some (.raw v)) ∧
    (∀ d path line (importer : Machine) exports importer',
      runModule (Program.exec (invoke d) (fetch d)) path line importer = .ok exports importer' →
        ∀ name b, exports.get? name = some (.global b) → ∃ value tag, b = .slot value tag) ∧
    (∀ registry ops, (session registry ops).InPlace) ∧
    (m.InPlace → Quiet p.called p.fetched →
      (∀ name f, m.functions.get? name = some (.user f) → Quiet f.body.called f.body.fetched) →
        ∀ n v, (∀ type e line, Stmt.declare type n e line ∉ p.body) →
          m.globals.get? n = some (.raw v) →
            (after (runProgram depth p) m).globals.get? n = some (.raw v)) := by
  refine ⟨fun callers a hstack => ?_, ?_, ?_, tableInvariant_inPlace.session, ?_⟩
  · have hok := (closedFrom_stacked m.scopes).stack hstack ⟨.start, nofun⟩
    exact ⟨hok.scopes, hok.scopes.noNewRaw (closed_noNewRaw.run a).scopes⟩
  · exact (closed_noNewRaw.run ⟨.program depth p, m⟩).globals
  · intro d path line importer exports importer' hrun name b hb
    cases b with
    | slot value tag => exact ⟨value, tag, rfl⟩
    | raw v => exact (not_raw_of_runModule hrun name v hb).elim
  · intro hplace hquiet hbodies n v hundeclared
    have hobeys : m.Obeys quiet := Machine.obeys_of_bodies
      (fun name b hb => (hplace.functions name b hb).symm ▸ id)
      (fun name f hf => (hbodies name f hf).allow _) nofun
    have hspares : Activation.Spares n ⟨.program depth p, m⟩ :=
      ⟨⟨hquiet.allow _, hobeys⟩, fun _ => hundeclared⟩
    exact ((closedFrom_keepsRaw n).run _ hspares).raw v

/-- A block may have a variable named as a constant and assign it. The constant itself is there
after it, and cannot be assigned. -/
theorem constants_last_shadowed :
    let m := session ∅ [.defineConstant "LIMIT" (.bool true)]
    let body : List Stmt :=
      [.declare .num "LIMIT" (.literal (.integer 1) 1) 1, .set "LIMIT" (.name "LIMIT" 1) 1]
    let p : Program := ⟨[.otherwise (.mk body 1) 1, .set "LIMIT" (.literal (.integer 2) 2) 2]⟩
    m.InPlace ∧ Quiet p.called p.fetched ∧
      (∀ name f, m.functions.get? name = some (.user f) → Quiet f.body.called f.body.fetched) ∧
      (∀ type e line, Stmt.declare type "LIMIT" e line ∉ p.body) ∧
      m.globals.get? "LIMIT" = some (.raw (.bool true)) ∧
      (after (runProgram 1 p) m).globals.get? "LIMIT" = some (.raw (.bool true)) := by
  intro m body p
  have hlast := constants_last 1 p m
  have hplace : m.InPlace := hlast.2.2.2.1 _ _
  have hquiet : Quiet p.called p.fetched := ⟨nofun, nofun, rfl⟩
  have hbodies : ∀ name f, m.functions.get? name = some (.user f) →
      Quiet f.body.called f.body.fetched :=
    fun name f hf => (get?_builtins_ne_user name f hf).elim
  have hundeclared : ∀ type e line, Stmt.declare type "LIMIT" e line ∉ p.body := by
    simp [p]
  exact ⟨hplace, hquiet, hbodies, hundeclared, rfl,
    hlast.2.2.2.2 hplace hquiet hbodies "LIMIT" (.bool true) hundeclared rfl⟩

end TagScript
