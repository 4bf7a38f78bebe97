import TagScript.Proofs.Isolation
import TagScript.Proofs.SameButTags
import TagScript.Proofs.Termination

/-!
# Tags are inert

`tags_inert`: programs that differ in the types of declared variables only, run in machines that are
the same but for tags, both run to their end or stop early for the same reason, print the same, and
leave machines that are the same but for tags. Only `get_type` reads a tag, so all of this is for
code that does not call it.

Two runs are compared by `tags`, which takes any tag for any other. It relates functions that are
retyped and keep from `get_type`. What was launched before may be any retyped functions, since no
one but an importer ever calls them; what a module launches may not.
-/

namespace TagScript

variable {α : Type}

/-! ### Alike programs -/

/-- Functions that are the same but for the types of declared variables, and do not call
`get_type`. -/
structure FunctionDecl.Twins (f g : FunctionDecl) : Prop where
  retyped : f.Retyped g
  called : Builtin.getType.name ∉ f.body.called

/-- Code that may give any tags to variables, and may not call `get_type`. -/
def untagged : Leeway where
  line := Eq
  tag _ _ := True
  function := FunctionDecl.Twins
  callee name := name ≠ Builtin.getType.name

theorem Expr.alike_untagged (e : Expr) (h : Builtin.getType.name ∉ e.called) :
    e.Alike untagged e :=
  Expr.alike_of_relabel_eq (r := .lines id) (fun _ _ hij => hij) e e rfl
    fun _ hname heq => h (heq ▸ hname)

mutual

theorem Stmt.Retyped.alike {s s' : Stmt} (h : s.Retyped s') (hs : Builtin.getType.name ∉ s.called) :
    s.Alike untagged s' := by
  match h with
  | .declare _ _ _ init _ => exact .declare trivial (init.alike_untagged hs)
  | .set _ value _ => exact .set (value.alike_untagged hs) rfl
  | .define _ _ _ _ hbody => exact .define ⟨.mk _ _ _ _ hbody, hs⟩
  | .when test _ hbody =>
    simp only [Stmt.called, List.append_nil, List.mem_append, not_or] at hs
    exact .when (test.alike_untagged hs.1) (hbody.alike hs.2)
  | .whenElse test _ hbody halternate =>
    simp only [Stmt.called, List.mem_append, not_or] at hs
    exact .whenElse (test.alike_untagged hs.1.1) (hbody.alike hs.1.2) (halternate.alike hs.2)
  | .otherwise _ hbody => exact .otherwise (hbody.alike hs)
  | .giveBack value _ => exact .giveBack (value.alike_untagged hs)
  | .expression value _ => exact .expression (value.alike_untagged hs)
  | .fetch _ _ => exact .fetch rfl
  | .launch _ _ => exact .launch rfl

theorem Block.Retyped.alike {b b' : Block} (h : b.Retyped b')
    (hb : Builtin.getType.name ∉ b.called) : b.Alike untagged b' := by
  match h with
  | .mk _ hss => exact .mk (hss.alike hb)

theorem Stmt.AllRetyped.alike {ss ss' : List Stmt} (h : Stmt.AllRetyped ss ss')
    (hss : Builtin.getType.name ∉ Stmt.allCalled ss) : Stmt.AllAlike untagged ss ss' := by
  match h with
  | .nil => exact .nil
  | .cons hs hrest =>
    simp only [Stmt.allCalled, List.mem_append, not_or] at hss
    exact .cons (hs.alike hss.1) (hrest.alike hss.2)

end

/-! ### Runs -/

theorem untagged_hidesTags : untagged.HidesTags Machine.InPlace where
  same _ := trivial
  read hplace hname hget := absurd (hplace.functions _ _ hget).symm hname
  invariant := tableInvariant_inPlace

/-- Runs of code that keeps from `get_type`, in machines that may differ in tags. -/
def tags (exported : FunctionDecl → FunctionDecl → Prop)
    (hexported : ∀ f g : FunctionDecl, f.Twins g → exported f g) : Comparison where
  toLeeway := untagged
  exported := exported
  marks := Eq
  halt := Eq
  within m := ∀ q, m.disk.Holds q → Builtin.getType.name ∉ q.called
  tables := Machine.InPlace
  hidden := untagged_hidesTags
  signature := by
    rintro _ _ ⟨⟨_, _, _, _, _⟩, _⟩
    exact ⟨rfl, rfl⟩
  body := by
    rintro _ _ ⟨⟨_, _, _, _, hbody⟩, hcalled⟩
    exact hbody.alike hcalled
  launched := hexported
  marked := SamePaths.of_eq
  fault fault hline := congrArg (fun line => Halt.error (.run line fault)) hline
  exit := Comparison.exact.exit
  fixed {m m'} h hfixed q hq := h q (hfixed.disk ▸ hq)

section

variable {exported : FunctionDecl → FunctionDecl → Prop}
  {hexported : ∀ f g : FunctionDecl, f.Twins g → exported f g}

theorem tags_imports (path : String) :
    (tags exported hexported).Imports path (tags FunctionDecl.Twins fun _ _ => id) where
  tag _ _ := id
  exported _ _ := id
  mark h := congrArg (List.insert path) h
  tables _ := id
  halt := by
    rintro h _ i _ rfl rfl
    rfl
  unparsed := by
    rintro _ _ i _ _ rfl
    rfl

theorem hereditary_tags :
    Comparison.Hereditary fun c => ∃ exported hexported, c = tags exported hexported where
  tooDeep := by
    rintro _ ⟨_, _, rfl⟩
    rfl
  module := by
    rintro _ ⟨_, _, rfl⟩ m path hfiles ⟨text, hresolve⟩ _
    refine ⟨_, ⟨_, _, rfl⟩, tags_imports path, hfiles, fun source p hread hparse => ?_⟩
    have hcalled := hfiles p ⟨text, path, source, hresolve, hread, hparse⟩
    exact (Stmt.AllRetyped.refl p.body).alike hcalled

/-- Machines that are the same but for tags compare, if what is in them keeps from `get_type`. -/
theorem Machine.SameButTags.machines {m m' : Machine} (h : m.SameButTags m') (hplace : m.InPlace)
    (hbodies : ∀ name f, m.functions.get? name = some (.user f) →
      Builtin.getType.name ∉ f.body.called)
    (hfiles : ∀ q, m.disk.Holds q → Builtin.getType.name ∉ q.called) :
    (tags FunctionDecl.Retyped fun _ _ h => h.retyped).Machines m m' := by
  obtain ⟨hg, hf, he, hl, hs⟩ := Machine.sameButTags_iff.1 h
  refine ⟨.mk hg (hf.imp fun name f g hget hfg => ?_) he hl hs, hfiles, hplace⟩
  cases hfg with
  | builtin b => exact .builtin b
  | user hfg => exact .user ⟨hfg, hbodies name _ hget⟩

theorem sameButTags_of_machines {m m' : Machine}
    (h : (tags FunctionDecl.Retyped fun _ _ h => h.retyped).Machines m m') : m.SameButTags m' := by
  obtain ⟨⟨hg, hf, he, hl, hs⟩, -, -⟩ := h
  exact Machine.sameButTags_iff.2
    (.mk hg (hf.imp fun _ _ _ _ h => h.imp fun _ _ hfg => hfg.retyped) he hl hs)

/-- What is seen of runs that do the same. -/
theorem observe_eq_of_results {x y : Run α} {m m' : Machine}
    (h : (tags FunctionDecl.Retyped fun _ _ h => h.retyped).Results Eq (x m) (y m')) :
    observe y m' = observe x m ∧ (after x m).SameButTags (after y m') := by
  unfold observe after
  generalize x m = r, y m' = r' at h ⊢
  cases h with
  | ok hab hk =>
    subst hab
    refine ⟨?_, sameButTags_of_machines hk⟩
    dsimp only
    rw [hk.related.console_eq, hk.related.draws_eq]
  | error hhalt hk =>
    cases hhalt
    refine ⟨?_, sameButTags_of_machines hk⟩
    dsimp only
    rw [hk.related.console_eq, hk.related.draws_eq]

end

/-- Programs that differ in the types of declared variables only, run in machines that are the same
but for tags, end alike and print the same, and leave machines that are the same but for tags. No
code may call `get_type`, and since this is told by the name, built-in functions have to be in their
places, as they are after every session. -/
theorem tags_inert (depth : Nat) {p p' : Program} {m m' : Machine} (hp : p.Retyped p')
    (hm : m.SameButTags m') (hplace : m.InPlace) (hcalled : Builtin.getType.name ∉ p.called)
    (hbodies : ∀ name f, m.functions.get? name = some (.user f) →
      Builtin.getType.name ∉ f.body.called)
    (hfiles : ∀ q, m.disk.Holds q → Builtin.getType.name ∉ q.called) :
    observe (runProgram depth p') m' = observe (runProgram depth p) m ∧
      (after (runProgram depth p) m).SameButTags (after (runProgram depth p') m') ∧
      ∀ registry ops, (session registry ops).InPlace := by
  have hmachines := hm.machines hplace hbodies hfiles
  have hresults :=
    hereditary_tags.runProgram_runs ⟨_, _, rfl⟩ depth (hp.alike hcalled) m m' hmachines
  obtain ⟨hobserve, hsame⟩ := observe_eq_of_results hresults
  exact ⟨hobserve, hsame, tableInvariant_inPlace.session⟩

/-- Two programs print a variable that they declare with different types, and then assign a global
that has different tags before. -/
theorem tags_inert_declared :
    let program (type : TypeWord) : Program :=
      ⟨[.declare type "x" (.name "y" 1) 1, .expression (.call "write" [.name "x" 2] 2) 2,
        .set "y" (.name "x" 3) 3]⟩
    let machine (tag : Option Tag) : Machine :=
      { globals := Table.empty.insert "y" (.slot (.bool true) tag) }
    let m := machine none
    let m' := machine (some (.ofType .bool))
    (program .num).Retyped (program .text) ∧ m.SameButTags m' ∧ m.InPlace ∧
      Builtin.getType.name ∉ (program .num).called ∧
      (∀ name f, m.functions.get? name = some (.user f) →
        Builtin.getType.name ∉ f.body.called) ∧
      (∀ q, m.disk.Holds q → Builtin.getType.name ∉ q.called) ∧
      observe (runProgram 1 (program .text)) m' = observe (runProgram 1 (program .num)) m ∧
      (after (runProgram 1 (program .num)) m).SameButTags
        (after (runProgram 1 (program .text)) m') := by
  intro program machine m m'
  have hp : (program .num).Retyped (program .text) :=
    .cons (.declare ..) (.cons (.expression ..) (.cons (.set ..) .nil))
  have hm : m.SameButTags m' := by
    refine .mk (m := m) ?_ ?_ ?_ .nil
    · exact Table.Related.insert (fun _ => .none) "y" (.slot _ _ _)
    · exact .refl fun _ f _ => .refl FunctionDecl.Retyped.refl f
    · exact fun _ => .none
  have hplace : m.InPlace := tableInvariant_inPlace.fresh rfl rfl
  have hcalled : Builtin.getType.name ∉ (program .num).called := by decide
  have hbodies : ∀ name f, m.functions.get? name = some (.user f) →
      Builtin.getType.name ∉ f.body.called :=
    fun name f hf => (get?_builtins_ne_user name f hf).elim
  have hfiles : ∀ q, m.disk.Holds q → Builtin.getType.name ∉ q.called := by
    rintro q ⟨text, path, source, hresolve, -⟩
    cases hresolve
  obtain ⟨hobserve, hsame, -⟩ := tags_inert 1 hp hm hplace hcalled hbodies hfiles
  exact ⟨hp, hm, hplace, hcalled, hbodies, hfiles, hobserve, hsame⟩

end TagScript
