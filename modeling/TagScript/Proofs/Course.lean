import Mathlib.Logic.Relation
import TagScript.Proofs.Activation

/-!
# The course of an activation

What the evaluator does, said once. An activation calls those of `Activation.calls`, in this order,
each in the machine that the one before has left, and then makes changes of its own, those of
`Activation.Acts`: `Activation.course`. That holds of the tasks which work on the machine as they
find it. The others, a block, a call, a fetch and a load, put a part of the machine aside for the
one activation that they call, and for them there is an equation each.

`mem_calls_iff` says that the list and the relation `Calls` are the same, so that what is shown
along the one holds along the other.
-/

namespace TagScript

open Relation

variable {α β : Type}

/-! ### Changes -/

/-- `R` holds between the machine before a run and the machine after it. -/
def Within (R : Machine → Machine → Prop) (run : Run α) : Prop :=
  ∀ m, R m (after run m)

/-- One change that a built-in function can make. -/
inductive Builtin.Change : Builtin → Machine → Machine → Prop
  | console {b : Builtin} {m : Machine} (console : Console) : Change b m { m with console }
  | draws {b : Builtin} {m : Machine} (draws : Draws) : Change b m { m with draws }
  | prompt {m : Machine} (name : String) (value : Value) (tag : Option Tag) :
    Change .prompt m { m with globals := m.globals.insert name (.slot value tag) }
  | delete {m : Machine} (name : String) :
    Change .delete m { m with globals := m.globals.erase name }

/-- One change that an activation makes itself, after its calls. -/
inductive Activation.Acts : Activation → Machine → Machine → Prop
  | builtin {d callee es line start b m m'} : start.functions.get? callee = some (.builtin b) →
    b.Change m m' → Acts ⟨.expr d (.call callee es line), start⟩ m m'
  | declare {d type name e line start m} (value : Value) :
    Acts ⟨.stmt d (.declare type name e line), start⟩ m
      (m.declare name (.slot value (some (Tag.ofType type))))
  | assign {d name e line start m m' value} : m.assign name value = .ok m' →
    Acts ⟨.stmt d (.set name e line), start⟩ m m'
  | define {d name result params body line start m} :
    Acts ⟨.stmt d (.define name result params body line), start⟩ m
      { m with functions := m.functions.insert name (.user ⟨name, result, params, body, line⟩) }
  | launch {d names line start m name item} : name ∈ names → m.export? name = some item →
    Acts ⟨.stmt d (.launch names line), start⟩ m { m with exports := m.exports.insert name item }

/-! ### Calls in order -/

/-- What is called after a run, if the run gives a value. -/
def callsAfter (x : Run α) (m : Machine) (f : α → Machine → List Activation) : List Activation :=
  match x m with
  | .ok a m' => f a m'
  | .error _ _ => []

theorem mem_callsAfter {x : Run α} {m : Machine} {f : α → Machine → List Activation}
    {b : Activation} : b ∈ callsAfter x m f ↔ ∃ a m', x m = .ok a m' ∧ b ∈ f a m' := by
  unfold callsAfter
  cases x m with
  | ok a m' =>
    constructor
    · exact fun h => ⟨a, m', rfl, h⟩
    · rintro ⟨_, _, ⟨⟩, h⟩
      exact h
  | error halt m' => simp

namespace Task

/-- What a task calls, in the order of time. -/
def calls : Task → Machine → List Activation
  | expr d (.unary _ e _), m => [⟨expr d e, m⟩]
  | expr d (.binary l _ r _), m =>
    ⟨expr d l, m⟩ :: callsAfter (l.eval (invoke d)) m fun _ m' => [⟨expr d r, m'⟩]
  | expr d (.call callee es _), m =>
    match m.functions.get? callee with
    | none => []
    | some (.builtin _) => [⟨exprs d es, m⟩]
    | some (.user f) =>
      if es.length = f.params.length then
        ⟨exprs d es, m⟩ ::
          callsAfter (Expr.evalAll (invoke d) es) m fun args m' => [⟨call d f args, m'⟩]
      else []
  | exprs d (e :: es), m =>
    ⟨expr d e, m⟩ :: callsAfter (e.eval (invoke d)) m fun _ m' => [⟨exprs d es, m'⟩]
  | stmt d (.declare _ _ e _), m => [⟨expr d e, m⟩]
  | stmt d (.set name e _), m =>
    match m.checkAssignable name with
    | .ok _ => [⟨expr d e, m⟩]
    | .error _ => []
  | stmt d (.when e b alternate _), m =>
    ⟨expr d e, m⟩ :: callsAfter (e.eval (invoke d)) m fun v m' =>
      if v.isTruthy then [⟨block d b, m'⟩] else alternate.toList.map fun c => ⟨block d c, m'⟩
  | stmt d (.otherwise b _), m => [⟨block d b, m⟩]
  | stmt d (.giveBack e _), m => [⟨expr d e, m⟩]
  | stmt d (.expression e _), m => [⟨expr d e, m⟩]
  | stmt d (.fetch requested line), m => [⟨fetch d requested line, m⟩]
  | stmts d (s :: ss), m =>
    ⟨stmt d s, m⟩ :: callsAfter (s.exec (invoke d) (TagScript.fetch d)) m fun flow m' =>
      if flow = .normal then [⟨stmts d ss, m'⟩] else []
  | block d b, m => [⟨stmts d b.statements, { m with scopes := ∅ :: m.scopes }⟩]
  | program d p, m => [⟨stmts d p.body, m⟩]
  | call (d + 1) f args, m => [⟨block d f.body, { m with scopes := [frame f.params args] }⟩]
  | fetch (d + 1) requested line, m =>
    match m.target requested with
    | .ok path =>
      if m.isRunning path then []
      else [⟨load d path line, m.mark path⟩]
    | .error _ => []
  | load d path _, m =>
    match m.disk.readText path with
    | .ok source =>
      match Program.parse source with
      | .ok p => [⟨program d p, m.forModule path⟩]
      | .error _ => []
    | .error _ => []
  | expr _ (.literal _ _), _ | expr _ (.name _ _), _ | exprs _ [], _ => []
  | stmt _ (.define _ _ _ _ _), _ | stmt _ (.launch _ _), _ | stmts _ [], _ => []
  | call 0 _ _, _ | fetch 0 _ _, _ => []

/-- A task that puts nothing of its machine aside. -/
def Plain : Task → Prop
  | expr _ _ | exprs _ _ | stmt _ _ | stmts _ _ | program _ _ => True
  | block _ _ | call _ _ _ | fetch _ _ _ | load _ _ _ => False

end Task

namespace Activation

/-- What an activation calls, in the order of time. -/
def calls (a : Activation) : List Activation :=
  a.task.calls a.start

theorem calls_of_mem {a b : Activation} (h : b ∈ a.calls) : a.Calls b := by
  obtain ⟨task, m⟩ := a
  unfold calls at h
  cases task with
  | expr d e =>
    cases e with
    | literal | name => simp [Task.calls] at h
    | unary =>
      obtain rfl := by simpa [Task.calls] using h
      exact .operand
    | binary =>
      simp only [Task.calls, List.mem_cons, mem_callsAfter, List.not_mem_nil, or_false] at h
      obtain rfl | ⟨v, m', hv, rfl⟩ := h
      · exact .left
      · exact .right hv
    | call callee es line =>
      simp only [Task.calls] at h
      cases hf : m.functions.get? callee with
      | none => simp [hf] at h
      | some f =>
        cases f with
        | builtin b =>
          obtain rfl := by simpa [hf] using h
          exact .builtinArgs hf
        | user f =>
          by_cases hlength : es.length = f.params.length
          · simp only [hf, if_pos hlength, List.mem_cons, mem_callsAfter, List.not_mem_nil,
              or_false] at h
            obtain rfl | ⟨args, m', hargs, rfl⟩ := h
            · exact .callArgs hf hlength
            · exact .call hf hlength hargs
          · simp [hf, hlength] at h
  | exprs d es =>
    cases es with
    | nil => simp [Task.calls] at h
    | cons e es =>
      simp only [Task.calls, List.mem_cons, mem_callsAfter, List.not_mem_nil, or_false] at h
      obtain rfl | ⟨v, m', hv, rfl⟩ := h
      · exact .firstArg
      · exact .nextArgs hv
  | stmt d s =>
    cases s with
    | define | launch => simp [Task.calls] at h
    | declare =>
      obtain rfl := by simpa [Task.calls] using h
      exact .declare
    | set name e line =>
      simp only [Task.calls] at h
      cases hname : m.checkAssignable name with
      | error fault => simp [hname] at h
      | ok u =>
        obtain rfl := by simpa [hname] using h
        exact .set hname
    | when e b alternate line =>
      simp only [Task.calls, List.mem_cons, mem_callsAfter] at h
      obtain rfl | ⟨v, m', hv, h⟩ := h
      · exact .test
      · cases htruth : v.isTruthy with
        | true =>
          obtain rfl := by simpa [htruth] using h
          exact .body hv htruth
        | false =>
          cases alternate with
          | none => simp [htruth] at h
          | some c =>
            obtain rfl := by simpa [htruth] using h
            exact .alternate hv htruth
    | otherwise =>
      obtain rfl := by simpa [Task.calls] using h
      exact .otherwise
    | giveBack =>
      obtain rfl := by simpa [Task.calls] using h
      exact .giveBack
    | expression =>
      obtain rfl := by simpa [Task.calls] using h
      exact .expression
    | fetch =>
      obtain rfl := by simpa [Task.calls] using h
      exact .fetch
  | stmts d ss =>
    cases ss with
    | nil => simp [Task.calls] at h
    | cons s ss =>
      simp only [Task.calls, List.mem_cons, mem_callsAfter] at h
      obtain rfl | ⟨flow, m', hs, h⟩ := h
      · exact .first
      · cases flow with
        | normal =>
          obtain rfl := by simpa using h
          exact .next hs
        | returned v => simp at h
  | block d b =>
    cases b
    obtain rfl := by simpa [Task.calls, Block.statements] using h
    exact .inside
  | program d p =>
    obtain rfl := by simpa [Task.calls] using h
    exact .program
  | call d f args =>
    cases d with
    | zero => simp [Task.calls] at h
    | succ d =>
      obtain rfl := by simpa [Task.calls] using h
      exact .frame
  | fetch d requested line =>
    cases d with
    | zero => simp [Task.calls] at h
    | succ d =>
      simp only [Task.calls] at h
      cases htarget : m.target requested with
      | error fault => simp [htarget] at h
      | ok path =>
        cases hrunning : m.isRunning path with
        | true => simp [htarget, hrunning] at h
        | false =>
          obtain rfl := by simpa [htarget, hrunning] using h
          exact .load htarget hrunning
  | load d path line =>
    simp only [Task.calls] at h
    cases hread : m.disk.readText path with
    | error reason => simp [hread] at h
    | ok source =>
      cases hparse : Program.parse source with
      | error e => simp [hread, hparse] at h
      | ok p =>
        obtain rfl := by simpa [hread, hparse] using h
        exact .module hread hparse

theorem mem_calls_iff {a b : Activation} : b ∈ a.calls ↔ a.Calls b := by
  refine ⟨calls_of_mem, fun h => ?_⟩
  unfold calls
  cases h with
  | right h | nextArgs h | next h => simp [Task.calls, callsAfter, h]
  | builtinArgs h | set h => simp [Task.calls, h]
  | callArgs h hlength | load h hlength | module h hlength => simp [Task.calls, h, hlength]
  | call hf hlength hargs => simp [Task.calls, callsAfter, hf, hlength, hargs]
  | body he htruth | alternate he htruth => simp [Task.calls, callsAfter, he, htruth]
  | _ => simp [Task.calls, Block.statements]

end Activation

/-! ### Courses -/

/-- The activations follow each other: each starts in the machine that the one before has left. -/
inductive Linked : Machine → List Activation → Machine → Prop
  | nil {m : Machine} : Linked m [] m
  | cons {b : Activation} {bs : List Activation} {m : Machine} : Linked b.finish bs m →
    Linked b.start (b :: bs) m

/-- Started in `m`, the run calls the listed activations, and changes no more than `a` does after
them. -/
def Goes (a : Activation) (m : Machine) (bs : List Activation) (x : Run α) : Prop :=
  ∃ m', Linked m bs m' ∧ ReflTransGen a.Acts m' (after x m)

namespace Goes

variable {a : Activation} {m : Machine}

theorem still {x : Run α} (h : after x m = m) : Goes a m [] x := by
  refine ⟨m, .nil, ?_⟩
  rw [h]

theorem acts {x : Run α} (h : ReflTransGen a.Acts m (after x m)) : Goes a m [] x :=
  ⟨m, .nil, h⟩

theorem pure (v : α) : Goes a m [] (Pure.pure v : Run α) :=
  still rfl

theorem fail (line : Nat) (fault : Fault) : Goes a m [] (TagScript.fail line fault : Run α) :=
  still rfl

theorem get_bind {bs : List Activation} {f : Machine → Run α} (h : Goes a m bs (f m)) :
    Goes a m bs (get >>= f) :=
  h

/-- What only maps the value of a run changes nothing. -/
theorem bind_pure {bs : List Activation} {x : Run α} (h : Goes a m bs x) (f : α → β) :
    Goes a m bs (x >>= fun v => Pure.pure (f v)) := by
  unfold Goes at h ⊢
  rwa [after_bind_pure]

/-- A run that is an activation. -/
theorem call {b : Activation} {x : Run α} (hfinish : b.finish = after x b.start) :
    Goes a b.start [b] x :=
  ⟨_, .cons .nil, hfinish ▸ .refl⟩

/-- A run whose first stage is an activation. -/
theorem bind {b : Activation} {x : Run α} {f : α → Run β} {g : α → Machine → List Activation}
    (hfinish : b.finish = after x b.start)
    (hf : ∀ v m', x b.start = .ok v m' → Goes a m' (g v m') (f v)) :
    Goes a b.start (b :: callsAfter x b.start g) (x >>= f) := by
  unfold after at hfinish
  unfold Goes after callsAfter
  cases hx : x b.start with
  | error halt m' =>
    rw [hx] at hfinish
    rw [bind_eq_of_error hx]
    exact ⟨m', .cons (hfinish ▸ .nil), .refl⟩
  | ok v m' =>
    rw [hx] at hfinish
    rw [bind_eq_of_ok hx]
    obtain ⟨m₁, hlinked, hacts⟩ := hf v m' hx
    exact ⟨m₁, .cons (hfinish ▸ hlinked), hacts⟩

theorem bind_last {b : Activation} {x : Run α} {f : α → Run β}
    (hfinish : b.finish = after x b.start)
    (hf : ∀ v m', x b.start = .ok v m' → Goes a m' [] (f v)) :
    Goes a b.start [b] (x >>= f) := by
  have h := bind (g := fun _ _ => []) hfinish hf
  unfold callsAfter at h
  cases hx : x b.start with
  | ok v m' => simpa only [hx] using h
  | error halt m' => simpa only [hx] using h

end Goes

/-! ### Built-in functions -/

section

variable {b : Builtin}

theorem within_pure (v : α) : Within (ReflTransGen b.Change) (pure v : Run α) :=
  fun _ => .refl

theorem within_fail (line : Nat) (fault : Fault) :
    Within (ReflTransGen b.Change) (fail line fault : Run α) :=
  fun _ => .refl

theorem within_bind {x : Run α} {f : α → Run β} (hx : Within (ReflTransGen b.Change) x)
    (hf : ∀ v, Within (ReflTransGen b.Change) (f v)) :
    Within (ReflTransGen b.Change) (x >>= f) := by
  intro m
  have hm := hx m
  cases h : x m with
  | ok v m' =>
    rw [after_of_ok h] at hm
    rw [after, bind_eq_of_ok h]
    exact hm.trans (hf v m')
  | error halt m' =>
    rw [after_of_error h] at hm
    rwa [after, bind_eq_of_error h]

theorem within_printText (line : Nat) (text : String) :
    Within (ReflTransGen b.Change) (printText line text) := by
  intro m
  refine .single ?_
  unfold after printText
  rcases m.console.write text with ⟨_ | _, console⟩ <;> exact .console console

theorem within_inputLine (line : Nat) : Within (ReflTransGen b.Change) (inputLine line) := by
  intro m
  refine .single ?_
  unfold after inputLine
  rcases m.console.readLine with ⟨_ | _, console⟩ <;> exact .console console

theorem within_flushOutput (line : Nat) : Within (ReflTransGen b.Change) (flushOutput line) := by
  refine within_bind (fun m => .refl) fun m => ?_
  split
  · exact within_pure _
  · exact within_fail _ _

theorem within_draw : Within (ReflTransGen b.Change) draw :=
  fun _ => .single (.draws _)

theorem within_promptFor (args : List Value) (line : Nat) :
    Within (ReflTransGen Builtin.prompt.Change) (promptFor args line) := by
  unfold promptFor
  split
  · exact within_fail _ _
  · refine within_bind (within_printText _ _) fun _ => ?_
    refine within_bind (within_flushOutput _) fun _ => ?_
    refine within_bind (within_inputLine _) fun _ => ?_
    exact within_bind (fun _ => .single (.prompt _ _ _)) fun _ => within_pure _

theorem Builtin.within_call (b : Builtin) (args : List Value) (line : Nat) :
    Within (ReflTransGen b.Change) (b.call args line) := by
  unfold Builtin.call
  extract_lets x y
  split
  case h_1 => exact within_bind (within_printText _ _) fun _ => within_pure _
  case h_2 => exact within_bind (within_printText _ _) fun _ => within_pure _
  case h_3 => exact within_promptFor args line
  case h_4 =>
    refine within_bind (within_printText _ _) fun _ => ?_
    exact within_bind (within_flushOutput _) fun _ => within_pure _
  case h_5 => split <;> exact within_pure _
  case h_6 =>
    refine within_bind (fun m => .refl) fun m => ?_
    split
    · exact within_pure _
    · exact within_fail _ _
  case h_7 => exact fun _ => .refl
  case h_8 =>
    split
    · exact within_bind (fun _ => .single (.delete _)) fun _ => within_pure _
    · exact within_pure _
  case h_12 => exact within_bind within_draw fun _ => within_pure _
  case h_13 => exact within_bind within_draw fun _ => within_pure _
  case h_14 => exact within_bind within_draw fun _ => within_pure _
  all_goals exact within_pure _

end

/-! ### Expressions -/

theorem course_expr (d : Nat) (e : Expr) (m : Machine) :
    Goes ⟨.expr d e, m⟩ m (Task.calls (.expr d e) m) (e.eval (invoke d)) := by
  cases e with
  | literal value line =>
    rw [Expr.eval]
    exact .pure _
  | name id line =>
    rw [Expr.eval]
    refine .still ?_
    rw [after_get_bind]
    split <;> rfl
  | unary op e line =>
    rw [Expr.eval]
    refine .bind_last (b := ⟨.expr d e, m⟩) rfl fun v m' _ => ?_
    split
    · exact .pure _
    · exact .fail _ _
  | binary l op r line =>
    rw [Expr.eval]
    refine .bind (b := ⟨.expr d l, m⟩) rfl fun a m₁ _ => ?_
    refine .bind_last (b := ⟨.expr d r, m₁⟩) rfl fun b m₂ _ => ?_
    split
    · exact .pure _
    · exact .fail _ _
  | call callee es line =>
    rw [Expr.eval]
    refine .get_bind ?_
    simp only [Task.calls]
    cases hf : m.functions.get? callee with
    | none => exact .fail _ _
    | some f =>
      cases f with
      | builtin b =>
        refine .bind_last (b := ⟨.exprs d es, m⟩) rfl fun args m' _ => .acts ?_
        have hchanges := b.within_call (args.map Binding.value) line m'
        exact ReflTransGen.mono (fun _ _ h => Activation.Acts.builtin hf h) _ _ hchanges
      | user f =>
        by_cases hlength : es.length = f.params.length
        · simp only [if_pos hlength]
          exact .bind (b := ⟨.exprs d es, m⟩) rfl fun args m' _ =>
            .call (b := ⟨.call d f args, m'⟩) rfl
        · simp only [if_neg hlength]
          exact .fail _ _

theorem course_exprs (d : Nat) (es : List Expr) (m : Machine) :
    Goes ⟨.exprs d es, m⟩ m (Task.calls (.exprs d es) m) (Expr.evalAll (invoke d) es) := by
  cases es with
  | nil =>
    rw [Expr.evalAll]
    exact .pure _
  | cons e rest =>
    rw [Expr.evalAll]
    refine .bind (b := ⟨.expr d e, m⟩) rfl fun value m' _ => ?_
    show Goes _ m' _ (Expr.evalAll (invoke d) rest >>= _)
    exact .bind_last (b := ⟨.exprs d rest, m'⟩) rfl fun _ _ _ => .pure _

/-! ### Statements -/

theorem course_set (d : Nat) (name : String) (e : Expr) (line : Nat) (m : Machine) :
    Goes ⟨.stmt d (.set name e line), m⟩ m (Task.calls (.stmt d (.set name e line)) m)
      (setVariable name (e.eval (invoke d)) line) := by
  rw [setVariable]
  refine .get_bind ?_
  simp only [Task.calls]
  cases m.checkAssignable name with
  | error fault => exact .fail _ _
  | ok u =>
    refine .bind_last (b := ⟨.expr d e, m⟩) rfl fun v m' _ => .get_bind ?_
    cases hassign : m'.assign name v with
    | error fault => exact .fail _ _
    | ok m₁ => exact .acts (.single (.assign hassign))

theorem reflTransGen_launchNames {d : Nat} {names : List String} {line : Nat} {start : Machine}
    (some : List String) (hsome : some ⊆ names) (m : Machine) :
    ReflTransGen (Activation.Acts ⟨.stmt d (.launch names line), start⟩) m
      (after (launchNames line some) m) := by
  induction some generalizing m with
  | nil => exact .refl
  | cons name rest ih =>
    obtain ⟨hname, hrest⟩ := List.cons_subset.1 hsome
    rw [launchNames, after_get_bind]
    cases hitem : m.export? name with
    | none => exact .refl
    | some item => exact .head (.launch hname hitem) (ih hrest _)

theorem course_stmt (d : Nat) (s : Stmt) (m : Machine) :
    Goes ⟨.stmt d s, m⟩ m (Task.calls (.stmt d s) m) (s.exec (invoke d) (fetch d)) := by
  cases s with
  | declare type name e line =>
    rw [Stmt.exec]
    exact .bind_last (b := ⟨.expr d e, m⟩) rfl fun value m' _ => .acts (.single (.declare value))
  | set name e line =>
    rw [Stmt.exec]
    exact .bind_pure (course_set d name e line m) _
  | define name result params body line =>
    rw [Stmt.exec]
    exact .acts (.single .define)
  | when e b alternate line =>
    rw [Stmt.exec.eq_def]
    refine .bind (b := ⟨.expr d e, m⟩) rfl fun v m' _ => ?_
    split
    · exact .call (b := ⟨.block d b, m'⟩) rfl
    · cases alternate with
      | none => exact .pure _
      | some c => exact .call (b := ⟨.block d c, m'⟩) rfl
  | otherwise b line =>
    rw [Stmt.exec]
    exact .call (b := ⟨.block d b, m⟩) rfl
  | giveBack e line =>
    rw [Stmt.exec]
    exact .bind_pure (.call (b := ⟨.expr d e, m⟩) rfl) _
  | expression e line =>
    rw [Stmt.exec]
    exact .bind_pure (.call (b := ⟨.expr d e, m⟩) rfl) _
  | fetch requested line =>
    rw [Stmt.exec]
    exact .bind_pure (.call (b := ⟨.fetch d requested line, m⟩) rfl) _
  | launch names line =>
    rw [Stmt.exec]
    exact .bind_pure (.acts (reflTransGen_launchNames names (List.Subset.refl _) m)) _

theorem course_stmts (d : Nat) (ss : List Stmt) (m : Machine) :
    Goes ⟨.stmts d ss, m⟩ m (Task.calls (.stmts d ss) m)
      (Stmt.execAll (invoke d) (fetch d) ss) := by
  cases ss with
  | nil =>
    rw [Stmt.execAll]
    exact .pure _
  | cons s rest =>
    rw [Stmt.execAll]
    refine .bind (b := ⟨.stmt d s, m⟩) rfl fun flow m' _ => ?_
    cases flow with
    | normal => exact .call (b := ⟨.stmts d rest, m'⟩) rfl
    | returned v => exact .pure _

/-- What an activation does that puts nothing of its machine aside: it makes its calls, one after
the other, and then changes of its own. -/
theorem Activation.course (a : Activation) (h : a.task.Plain) :
    ∃ m, Linked a.start a.calls m ∧ ReflTransGen a.Acts m a.finish := by
  obtain ⟨task, m⟩ := a
  cases task with
  | expr d e => exact course_expr d e m
  | exprs d es => exact course_exprs d es m
  | stmt d s => exact course_stmt d s m
  | stmts d ss => exact course_stmts d ss m
  | program d p => exact Goes.bind_pure (.call (b := ⟨.stmts d p.body, m⟩) rfl) _
  | block | call | fetch | load => exact h.elim

end TagScript
