import Mathlib.Control.Monad.Basic
import TagScript.Proofs.Comparison
import TagScript.Proofs.ImportStack

/-!
# Imports end

`imports_settle`: where no function is declared, runs over finitely many files end, however their
modules import each other. A run ends if there is a depth from which on it gives one and the same
result, and not that it was too deep: `Settles`.

Modules may run any number of times, so it is not the modules that have run which bound the depth.
It is the paths that are not marked as loading: each import inside an import marks one more, and a
finished one takes its mark away again. `ending` compares two runs at depths above that bound. It
relates no two declared functions, so that along with the results it also shows that none is ever
stored.
-/

namespace TagScript

variable {α : Type}

/-! ### File systems -/

namespace Disk

/-- Texts name finitely many paths only. -/
def Finite (d : Disk) : Prop :=
  ∃ paths : List String, ∀ text path, d.resolve text = .ok path → path ∈ paths

/-- One of the files holds the program. -/
def Holds (d : Disk) (p : Program) : Prop :=
  ∃ text path source, d.resolve text = .ok path ∧ d.readText path = .ok source ∧
    Program.parse source = .ok p

end Disk

namespace FileTree

/-- The nodes of a tree and those above them. -/
def places (t : FileTree) : List (List String) :=
  ([] :: t.nodes.map Prod.fst).flatMap fun path => [path, path.dropLast]

variable {t : FileTree} {here there : List String}

theorem mem_nodes_of_node? {node : Node} (h : t.node? here = some node) (hne : here ≠ []) :
    (here, node) ∈ t.nodes := by
  unfold node? at h
  split at h
  · exact absurd rfl hne
  · obtain ⟨l₁, l₂, heq, -⟩ := List.lookup_eq_some_iff.1 h
    rw [heq]
    exact List.mem_append_right _ (List.mem_cons_self ..)

theorem mem_of_node? {node : Node} (h : t.node? here = some node) :
    here ∈ [] :: t.nodes.map Prod.fst := by
  by_cases hne : here = []
  · exact hne ▸ List.mem_cons_self ..
  · exact List.mem_cons_of_mem _ (List.mem_map_of_mem (mem_nodes_of_node? h hne))

theorem mem_places_of_step {name : String} (h : t.step here name = .ok there) :
    there ∈ t.places := by
  unfold step at h
  split at h
  · next hnode =>
    have hhere := mem_of_node? hnode
    simp only [places, List.mem_flatMap, List.mem_cons, List.not_mem_nil, or_false]
    split at h
    · cases h
      exact ⟨here, List.mem_cons.1 hhere, .inl rfl⟩
    · split at h
      · cases h
        exact ⟨here, List.mem_cons.1 hhere, .inr rfl⟩
      · split at h
        · cases h
        · split at h
          · next hsome =>
            cases h
            obtain ⟨node, hnode⟩ := Option.isSome_iff_exists.1 hsome
            exact ⟨_, List.mem_cons.1 (mem_of_node? hnode), .inl rfl⟩
          · cases h
  · cases h
  · cases h

theorem mem_of_foldlM_step {names : List String} (h : names.foldlM t.step here = .ok there) :
    there = here ∨ there ∈ t.places := by
  induction names generalizing here with
  | nil =>
    cases h
    exact .inl rfl
  | cons name rest ih =>
    rw [List.foldlM_cons] at h
    cases hstep : t.step here name with
    | error reason =>
      rw [hstep] at h
      cases h
    | ok next =>
      rw [hstep] at h
      rcases ih h with rfl | hmem
      · exact .inr (mem_places_of_step hstep)
      · exact .inr hmem

/-- Resolving ends where it starts or at a place of the tree. -/
theorem disk_finite (t : FileTree) (home : List String) : (t.disk home).Finite := by
  refine ⟨([] :: home :: t.places).map pathText, fun text path h => ?_⟩
  have hplace : ∀ there, t.resolve home text = .ok there → there ∈ [] :: home :: t.places := by
    intro there hresolve
    unfold resolve at hresolve
    split at hresolve
    · cases hresolve
    · split at hresolve
      · cases hresolve
      · rcases mem_of_foldlM_step hresolve with rfl | hmem
        · split <;> simp
        · exact List.mem_cons_of_mem _ (List.mem_cons_of_mem _ hmem)
  change (t.resolve home text).map pathText = .ok path at h
  cases hresolve : t.resolve home text with
  | error reason =>
    rw [hresolve] at h
    cases h
  | ok there =>
    rw [hresolve] at h
    cases h
    exact List.mem_map_of_mem (hplace there hresolve)

end FileTree

/-! ### Runs that end -/

/-- From some depth on a run always ends in the same way, and never for want of depth. -/
def Settles (run : Nat → Run α) (m : Machine) : Prop :=
  ∃ n result, (∀ m', result ≠ .error .tooDeep m') ∧ ∀ depth, n ≤ depth → run depth m = result

theorem Settles.of_error {run : Nat → Run α} {m : Machine} (e : Error)
    (h : ∀ depth, run depth m = .error (.error e) m) : Settles run m := by
  refine ⟨0, .error (.error e) m, fun m' heq => ?_, fun depth _ => h depth⟩
  cases heq

theorem Settles.map {run run' : Nat → Run α} {m m' : Machine} (h : Settles run m)
    (f : Machine → Machine) (hf : ∀ depth, run' depth m' = mapMachine f (run depth m)) :
    Settles run' m' := by
  obtain ⟨n, result, hresult, hrun⟩ := h
  refine ⟨n, mapMachine f result, fun m' heq => ?_, fun depth hdepth => ?_⟩
  · cases result with
    | ok a m₁ => cases heq
    | error halt m₁ =>
      cases heq
      exact hresult m₁ rfl
  · rw [hf, hrun depth hdepth]

/-- Machines in which no function is declared and only the given paths are marked. -/
def ending (d : Disk) (loading : List String) (exported : FunctionDecl → FunctionDecl → Prop) :
    Comparison where
  toLeeway := Relabeling.leeway (.lines id) fun _ _ => False
  exported := exported
  marks := Eq
  halt h h' := h' = h ∧ h ≠ .tooDeep
  within := Machine.Marks d loading
  tables _ := True
  hidden := Relabeling.hidesTags _ _
  signature := False.elim
  body := False.elim
  launched _ _ := False.elim
  marked := SamePaths.of_eq
  fault fault hline := ⟨congrArg (fun line => Halt.error (.run line fault)) hline.symm, nofun⟩
  exit _ := ⟨rfl, nofun⟩
  fixed := Machine.Marks.fixed

section

variable {d : Disk} {loading : List String} {exported : FunctionDecl → FunctionDecl → Prop}

theorem fromModule_ne_tooDeep {h : Halt} (hne : h ≠ .tooDeep) (path : String) (line : Nat) :
    h.fromModule path line ≠ .tooDeep := by
  cases h with
  | error e => cases e <;> nofun
  | tooDeep => exact absurd rfl hne

/-- A module that exports no declared function suits every importer. -/
theorem ending_imports (path : String) : (ending d loading exported).Imports path
    (ending d (path :: loading) fun _ _ => False) where
  tag _ _ := id
  exported _ _ := id
  mark h := congrArg (List.insert path) h
  tables _ _ := trivial
  halt {h h' i j} hhalt hline := by
    obtain ⟨rfl, hne⟩ := hhalt
    exact ⟨congrArg (Halt.fromModule path · h') hline.symm, fromModule_ne_tooDeep hne path i⟩
  unparsed {source e i j} _ hline :=
    ⟨congrArg (fun line => Halt.error (.inModule path line e)) hline.symm, nofun⟩

theorem ending_calls {call call' : Invoke} : (ending d loading exported).Calls call call' :=
  fun _ _ _ _ => False.elim

theorem alike_of_declared_eq_nil {p : Program} (h : p.declared = []) :
    p.Alike (ending d loading exported).toLeeway p := by
  refine Program.alike_of_relabel_eq rfl fun f hf => ?_
  rw [h] at hf
  cases hf

/-- The paths that could still be marked. -/
def unmarked (paths loading : List String) : List String :=
  paths.filter (· ∉ loading)

theorem length_unmarked_cons {paths : List String} {path : String} (hpath : path ∈ paths)
    (hnot : path ∉ loading) :
    (unmarked paths (path :: loading)).length < (unmarked paths loading).length := by
  have hfilter : unmarked paths (path :: loading) =
      (unmarked paths loading).filter (· ≠ path) := by
    simp [unmarked, List.filter_filter]
  rw [hfilter]
  exact List.length_filter_lt_length_iff_exists.2 ⟨path, by simp [unmarked, hpath, hnot], by simp⟩

/-- Imports end at all depths above the number of unmarked paths. -/
theorem ending_loads {paths : List String}
    (hpaths : ∀ text path, d.resolve text = .ok path → path ∈ paths)
    (hfiles : ∀ p, d.Holds p → p.declared = []) {a b : Nat}
    (ha : (unmarked paths loading).length < a) (hb : (unmarked paths loading).length < b) :
    (ending d loading exported).Loads (fetch a) (fetch b) := by
  -- each import inside an import has one depth less to go, and one path less to mark
  induction a generalizing b loading exported with
  | zero => omega
  | succ a ih =>
    cases b with
    | zero => omega
    | succ b =>
      refine Comparison.fetch_runs fun m path hwithin hresolve hrunning => ?_
      obtain ⟨rfl, rfl⟩ := hwithin
      obtain ⟨text, hresolve⟩ := hresolve
      have hless := length_unmarked_cons (hpaths text path hresolve)
        (Machine.not_mem_loading hrunning)
      refine ⟨_, ending_imports path, Machine.marks_enterModule hrunning,
        fun source p hread hparse => ?_⟩
      have hdeclared := hfiles p ⟨text, path, source, hresolve, hread, hparse⟩
      exact Comparison.execProgram_runs ending_calls (ih (by omega) (by omega))
        (alike_of_declared_eq_nil hdeclared)

end

/-! ### One result -/

section

variable {d : Disk} {loading : List String} {m m' : Machine}

/-- No function of the machine is declared by a program. -/
def Machine.OnlyBuiltins (m : Machine) : Prop :=
  ∀ name f, m.functions.get? name = some f → ∃ b, f = .builtin b

theorem Machine.OnlyBuiltins.machines (h : m.OnlyBuiltins) :
    (ending m.disk m.loading (· = ·)).Machines m m := by
  have hfunctions : m.functions.Related
      (Function.Related (ending m.disk m.loading (· = ·)).function) m.functions := by
    refine .refl fun name f hf => ?_
    obtain ⟨b, rfl⟩ := h name f hf
    exact .builtin b
  have hexports : m.exports.Related
      (Export.Related Eq (ending m.disk m.loading (· = ·)).exported) m.exports :=
    .refl fun name item _ => .refl (fun _ => rfl) (fun _ => rfl) item
  exact ⟨.of_tables (fun _ => rfl) rfl hfunctions hexports, ⟨rfl, rfl⟩, trivial⟩

theorem eq_of_ending_machines (h : (ending d loading (· = ·)).Machines m m') : m' = m := by
  have hfunctions : m.functions = m'.functions :=
    h.related.functions.eq fun f g hfg => hfg.eq fun _ _ => False.elim
  have hexports : m.exports = m'.exports :=
    h.related.exports.eq fun x y hxy => hxy.eq fun _ _ => id
  rw [h.related.eq_setTables, ← hfunctions, ← hexports]

theorem eq_of_ending_results {x y : EStateM.Result Halt Machine α}
    (h : (ending d loading (· = ·)).Results Eq x y) :
    y = x ∧ ∀ m', x ≠ .error .tooDeep m' := by
  cases h with
  | ok hab hm => exact ⟨by rw [hab, eq_of_ending_machines hm], nofun⟩
  | error hhalt hm =>
    obtain ⟨rfl, hne⟩ := hhalt
    refine ⟨congrArg _ (eq_of_ending_machines hm), fun m' heq => ?_⟩
    cases heq
    exact hne rfl

end

theorem runProgram_settles {m : Machine} {p : Program} (hfinite : m.disk.Finite)
    (hfiles : ∀ q, m.disk.Holds q → q.declared = []) (hm : m.OnlyBuiltins) (hp : p.declared = []) :
    Settles (runProgram · p) m := by
  obtain ⟨paths, hpaths⟩ := hfinite
  have hresults : ∀ a b, (unmarked paths m.loading).length < a →
      (unmarked paths m.loading).length < b →
        (ending m.disk m.loading (· = ·)).Results Eq (runProgram a p m) (runProgram b p m) := by
    intro a b ha hb
    exact Comparison.execProgram_runs ending_calls (ending_loads hpaths hfiles ha hb)
      (alike_of_declared_eq_nil hp) m m hm.machines
  refine ⟨(unmarked paths m.loading).length + 1,
    runProgram ((unmarked paths m.loading).length + 1) p m, ?_, fun depth hdepth => ?_⟩
  · exact (eq_of_ending_results (hresults _ _ (Nat.lt_succ_self _) (Nat.lt_succ_self _))).2
  · exact (eq_of_ending_results (hresults _ _ (Nat.lt_succ_self _) hdepth)).1

/-! ### Files -/

/-- Import cycles end: with finitely many files and no declared function anywhere, every program and
every file has one result, whatever imports what. -/
theorem imports_settle (m : Machine) (p : Program) (hfinite : m.disk.Finite)
    (hfiles : ∀ q, m.disk.Holds q → q.declared = []) (hm : m.OnlyBuiltins)
    (hp : p.declared = []) :
    Settles (runProgram · p) m ∧ ∀ path, Settles (runFile · path) m := by
  refine ⟨runProgram_settles hfinite hfiles hm hp, fun path => ?_⟩
  cases hresolve : m.disk.resolve path with
  | error reason =>
    exact .of_error (.run 0 (.moduleRead path reason)) fun depth => by
      simp only [runFile_apply, hresolve]
  | ok resolved =>
    cases hread : m.disk.readText resolved with
    | error reason =>
      exact .of_error (.run 0 (.moduleRead path reason)) fun depth => by
        simp only [runFile_apply, hresolve, hread]
    | ok source =>
      cases hparse : Program.parse source with
      | error e =>
        exact .of_error e fun depth => by simp only [runFile_apply, hresolve, hread, hparse]
      | ok q =>
        have hq := hfiles q ⟨path, resolved, source, hresolve, hread, hparse⟩
        have hsettles : Settles (runProgram · q) (m.enterScript resolved) :=
          runProgram_settles hfinite hfiles hm hq
        exact hsettles.map (m.leaveScript · resolved)
          fun depth => by simp only [runFile_apply, hresolve, hread, hparse]

/-- Two files, each of which imports both. -/
def tangle : FileTree :=
  let source := Node.file "fetch \"/a\" fetch \"/b\"".toUTF8
  ⟨[(["a"], source), (["b"], source)]⟩

theorem parse_tangle : Program.parse "fetch \"/a\" fetch \"/b\"" =
    .ok ⟨[.fetch "/a" 1, .fetch "/b" 1]⟩ := by
  have hlex : lex "fetch \"/a\" fetch \"/b\"" =
      .ok [⟨.reserved .fetch, 1, 0⟩, ⟨.text "/a", 1, 1⟩, ⟨.reserved .fetch, 1, 2⟩,
        ⟨.text "/b", 1, 3⟩] := by
    decide +kernel
  unfold Program.parse
  rw [hlex]
  simp [readProgram, readStatements, readStatement, takeText, take, Parsed.map, Parsed.bind,
    Except.map]

theorem readText_tangle {path source : String}
    (h : (tangle.disk []).readText path = .ok source) :
    source = "fetch \"/a\" fetch \"/b\"" := by
  have hutf8 : String.fromUTF8? "fetch \"/a\" fetch \"/b\"".toUTF8 =
      some "fetch \"/a\" fetch \"/b\"" :=
    rfl
  have hread : ∀ names bytes, tangle.read names = .ok bytes →
      bytes = "fetch \"/a\" fetch \"/b\"".toUTF8 := by
    intro names bytes hbytes
    unfold FileTree.read at hbytes
    split at hbytes
    · next content hnode =>
      cases hbytes
      cases names with
      | nil => cases hnode
      | cons name rest =>
        have hmem := FileTree.mem_nodes_of_node? hnode (List.cons_ne_nil name rest)
        simp only [tangle, List.mem_cons, Prod.mk.injEq, Node.file.injEq, List.not_mem_nil,
          or_false] at hmem
        rcases hmem with ⟨-, hsource⟩ | ⟨-, hsource⟩
        · exact hsource
        · exact hsource
    · cases hbytes
    · cases hbytes
  unfold Disk.readText at h
  cases hbytes : (tangle.disk []).read path with
  | error reason =>
    rw [hbytes] at h
    cases h
  | ok bytes =>
    rw [hbytes, hread _ bytes hbytes] at h
    simp only [hutf8] at h
    exact (Except.ok.inj h).symm

/-- The two files import themselves and each other, and all runs end. -/
theorem imports_settle_tangle :
    let m : Machine := { disk := tangle.disk [] }
    Settles (runProgram · ⟨[.fetch "/a" 1]⟩) m ∧ ∀ path, Settles (runFile · path) m := by
  intro m
  have hfiles : ∀ q, m.disk.Holds q → q.declared = [] := by
    rintro q ⟨text, path, source, -, hread, hparse⟩
    rw [readText_tangle hread, parse_tangle] at hparse
    cases hparse
    rfl
  have hbuiltins : m.OnlyBuiltins := fun name f hf => builtin_of_get?_builtins hf
  exact imports_settle m _ (tangle.disk_finite []) hfiles hbuiltins rfl

end TagScript
