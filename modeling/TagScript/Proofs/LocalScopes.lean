import TagScript.Proofs.Import
import TagScript.Proofs.ScopeUse

/-!
# Expressions and the local scopes

`eval_changes_no_scope`: evaluating an expression ends with all local scopes as they were, each with
its names, kinds, tags and values, whether it gives a value or stops early. What an expression can
change lies outside of the scopes: the globals, the functions, the exports and the devices.

Nor are functions closures. `eval_reads_names`: of the scopes around it an expression reads no more
than the values and tags of the names that are written in it. Any two stacks of scopes in which
these names read alike are the same to it, however many scopes they have and whatever else is bound
there. A call reads nothing of its caller's scopes at all, and the body begins in the same machine
whatever they are.

It is the stacks that have to read alike. Where one binds a name and the other leaves it to the
globals, a call in between can assign the global.
-/

namespace TagScript

/-! ### Names -/

mutual

/-- The names that an expression reads, wherever in it they stand. -/
def Expr.names : Expr → List String
  | .literal _ _ => []
  | .name id _ => [id]
  | .unary _ operand _ => operand.names
  | .binary left _ right _ => left.names ++ right.names
  | .call _ arguments _ => Expr.allNames arguments

def Expr.allNames : List Expr → List String
  | [] => []
  | e :: rest => e.names ++ Expr.allNames rest

end

/-- What an expression can tell of a binding. Whether it can be assigned is not part of it. -/
def Binding.reading (b : Binding) : Value × Option Tag :=
  (b.value, b.tag)

/-- Each of the names reads alike in both stacks of scopes, or is bound in neither. -/
def AgreeOn (names : List String) (scopes scopes' : List Scope) : Prop :=
  ∀ id ∈ names,
    (Scope.lookup scopes id).map Binding.reading = (Scope.lookup scopes' id).map Binding.reading

instance (names : List String) : Std.Refl (AgreeOn names) :=
  ⟨fun _ _ _ => rfl⟩

namespace AgreeOn

variable {names : List String} {m : Machine} {scopes : List Scope}

/-- What is bound in neither stack is the same global. -/
theorem lookup (h : AgreeOn names m.scopes scopes) {id : String} (hid : id ∈ names) :
    (({ m with scopes } : Machine).lookup id).map Binding.reading =
      (m.lookup id).map Binding.reading := by
  have hlookup := h id hid
  have hput : ({ m with scopes } : Machine).lookup id =
      ((Scope.lookup scopes id).or (m.globals.get? id)) := by
    unfold Machine.lookup
    cases Scope.lookup scopes id <;> rfl
  have hm : m.lookup id = (Scope.lookup m.scopes id).or (m.globals.get? id) := by
    unfold Machine.lookup
    cases Scope.lookup m.scopes id <;> rfl
  rw [hput, hm, Option.map_or, Option.map_or, hlookup]

theorem value (h : AgreeOn names m.scopes scopes) {id : String} (hid : id ∈ names) :
    (({ m with scopes } : Machine).lookup id).map Binding.value =
      (m.lookup id).map Binding.value := by
  have hreading := congrArg (Option.map Prod.fst) (h.lookup hid)
  rwa [Option.map_map, Option.map_map] at hreading

theorem passedTag (h : AgreeOn names m.scopes scopes) {e : Expr} (he : ∀ id ∈ e.names, id ∈ names) :
    ({ m with scopes } : Machine).passedTag e = m.passedTag e := by
  cases e with
  | name id line =>
    have hid : id ∈ names := he id (List.mem_singleton_self id)
    have hreading := congrArg (Option.bind · Prod.snd) (h.lookup hid)
    rwa [Option.bind_map, Option.bind_map] at hreading
  | _ => rfl

end AgreeOn

/-! ### Expressions -/

section

variable {names : List String} {call : Invoke}

mutual

/-- An expression reads the names in it and what the functions that it calls read. -/
theorem Expr.eval_ignores_unread
    (hcall : ∀ f args, IgnoresScopes (AgreeOn names) (call f args)) (e : Expr)
    (he : ∀ id ∈ e.names, id ∈ names) : IgnoresScopes (AgreeOn names) (e.eval call) := by
  match e with
  | .literal value line =>
    rw [Expr.eval]
    exact .pure _
  | .name id line =>
    have hid : id ∈ names := he id (List.mem_singleton_self id)
    rw [Expr.eval]
    refine .get_bind (fun m scopes h => ?_) fun m => ?_
    · have hvalue := h.value hid
      generalize ({ m with scopes } : Machine).lookup id = b', m.lookup id = b at hvalue ⊢
      cases b' <;> cases b <;> simp_all
    · split
      · exact .pure _
      · exact .fail _ _
  | .unary op operand line =>
    rw [Expr.eval]
    refine .bind (Expr.eval_ignores_unread hcall operand he) fun v => ?_
    split
    · exact .pure _
    · exact .fail _ _
  | .binary left op right line =>
    simp only [Expr.names, List.mem_append] at he
    have hleft := Expr.eval_ignores_unread hcall left fun id hid => he id (.inl hid)
    have hright := Expr.eval_ignores_unread hcall right fun id hid => he id (.inr hid)
    rw [Expr.eval]
    refine .bind hleft fun a => .bind hright fun b => ?_
    split
    · exact .pure _
    · exact .fail _ _
  | .call callee arguments line =>
    have hargs := Expr.evalAll_ignores_unread hcall arguments he
    rw [Expr.eval]
    refine .get_bind (fun _ _ _ => rfl) fun m => ?_
    split
    · exact .fail _ _
    · next b _ => exact .bind hargs fun args => b.call_ignoresScopes _ _
    · next f _ =>
      split
      · exact .bind hargs fun args => hcall f args
      · exact .fail _ _

theorem Expr.evalAll_ignores_unread
    (hcall : ∀ f args, IgnoresScopes (AgreeOn names) (call f args)) (es : List Expr)
    (hes : ∀ id ∈ Expr.allNames es, id ∈ names) :
    IgnoresScopes (AgreeOn names) (Expr.evalAll call es) := by
  match es with
  | [] =>
    rw [Expr.evalAll]
    exact .pure _
  | e :: rest =>
    simp only [Expr.allNames, List.mem_append] at hes
    have he : ∀ id ∈ e.names, id ∈ names := fun id hid => hes id (.inl hid)
    have hrest := Expr.evalAll_ignores_unread hcall rest fun id hid => hes id (.inr hid)
    rw [Expr.evalAll]
    refine .bind (Expr.eval_ignores_unread hcall e he) fun value => ?_
    -- the tag that goes with a bare name is read in the scopes once more
    refine .get_bind (fun m scopes h => by rw [h.passedTag he]) fun m => ?_
    exact .bind hrest fun more => .pure _

end

end

theorem Expr.eval_ignoresScopes (depth : Nat) (e : Expr) :
    IgnoresScopes (AgreeOn e.names) (e.eval (invoke depth)) :=
  e.eval_ignores_unread (invoke_ignoresScopes depth) fun _ hid => hid

/-! ### Scopes around an expression -/

/-- Evaluating an expression, to a value or to an early stop, leaves the machine with every local
scope as it was. -/
theorem eval_changes_no_scope (depth : Nat) (e : Expr) (m : Machine) :
    let m' := after (e.eval (invoke depth)) m
    m'.scopes = m.scopes ∧
      m' =
        { m with
          globals := m'.globals
          functions := m'.functions
          exports := m'.exports
          console := m'.console
          draws := m'.draws } := by
  intro m'
  have hscopes : m'.scopes = m.scopes := (e.eval_ignoresScopes depth).keeps m
  have hfixed : m.Fixed m' := closed_fixed.run ⟨.expr depth e, m⟩
  refine ⟨hscopes, ?_⟩
  rw [← hscopes, ← hfixed.registry, ← hfixed.disk, ← hfixed.loading, ← hfixed.current]

/-- Two stacks of scopes in which the names of an expression read alike are the same to it: it gives
the same value or stops early for the same reason, and leaves the same machine but for the scopes,
which are those that it was given. To a call any two stacks are the same, and what it begins is the
same activation. -/
theorem eval_reads_names (depth : Nat) (m : Machine) (s₁ s₂ : List Scope) :
    (∀ e : Expr, AgreeOn e.names s₁ s₂ →
      e.eval (invoke depth) { m with scopes := s₂ } =
        mapMachine (fun m' => { m' with scopes := s₂ })
          (e.eval (invoke depth) { m with scopes := s₁ })) ∧
    ∀ (f : FunctionDecl) (args : List Binding),
      invoke depth f args { m with scopes := s₂ } =
          mapMachine (fun m' => { m' with scopes := s₂ })
            (invoke depth f args { m with scopes := s₁ }) ∧
        ∀ b, Activation.Calls ⟨.call depth f args, { m with scopes := s₁ }⟩ b ↔
          Activation.Calls ⟨.call depth f args, { m with scopes := s₂ }⟩ b := by
  refine ⟨fun e h => ?_, fun f args => ⟨?_, fun b => ?_⟩⟩
  · exact e.eval_ignoresScopes depth { m with scopes := s₁ } s₂ h
  · have hcall : IgnoresScopes (fun _ _ => True) (invoke depth f args) :=
      invoke_ignoresScopes depth f args
    exact hcall { m with scopes := s₁ } s₂ trivial
  · constructor
    · rintro ⟨⟩
      exact .frame
    · rintro ⟨⟩
      exact .frame

/-- A function that reads `y` does not see the `y` of its caller. -/
theorem eval_reads_names_argument :
    let x : Scope := Table.empty.insert "x" (.slot (.integer 1) (some (.named "Num")))
    let y : Scope := Table.empty.insert "y" (.slot (.integer 2) none)
    let f : FunctionDecl := ⟨"f", .num, [⟨"a", .num⟩], .mk [.giveBack (.name "y" 1) 1] 1, 1⟩
    let m : Machine := { functions := Table.empty.insert "f" (.user f) }
    let e : Expr := .call "f" [.name "x" 2] 2
    AgreeOn e.names [y, x] [x] ∧
      e.eval (invoke 1) { m with scopes := [x] } =
        .error (.error (.run 1 (.undefinedVariable "y"))) { m with scopes := [x] } ∧
      e.eval (invoke 1) { m with scopes := [y, x] } =
        .error (.error (.run 1 (.undefinedVariable "y"))) { m with scopes := [y, x] } := by
  intro x y f m e
  have hagree : AgreeOn e.names [y, x] [x] := by
    intro id hid
    obtain rfl := List.mem_singleton.1 hid
    rfl
  have hone : e.eval (invoke 1) { m with scopes := [x] } =
      .error (.error (.run 1 (.undefinedVariable "y"))) { m with scopes := [x] } := rfl
  have hagree' : AgreeOn e.names [x] [y, x] := fun id hid => (hagree id hid).symm
  refine ⟨hagree, hone, ?_⟩
  rw [(eval_reads_names 1 m [x] [y, x]).1 e hagree', hone]
  rfl

/-- A local variable and a global one read alike, until a call assigns the global. -/
example :
    let x : Scope := Table.empty.insert "x" (.slot (.text "old") none)
    let f : FunctionDecl := ⟨"f", .void, [], .mk [.set "x" (.literal (.text "new") 1) 1] 1, 1⟩
    let m : Machine := { globals := x, functions := Table.empty.insert "f" (.user f) }
    let args (scopes : List Scope) : Option (List Binding) :=
      match Expr.evalAll (invoke 1) [.call "f" [] 2, .name "x" 2] { m with scopes } with
      | .ok args _ => some args
      | .error _ _ => none
    Machine.lookup { m with scopes := [x] } "x" = m.lookup "x" ∧
      args [x] = some [.slot .null none, .slot (.text "old") none] ∧
        args [] = some [.slot .null none, .slot (.text "new") none] := by
  decide +kernel

end TagScript
