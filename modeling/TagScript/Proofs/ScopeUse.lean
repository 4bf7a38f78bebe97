import TagScript.Proofs.Activation

/-!
# Runs and the local scopes

`IgnoresScopes alike run` says that `run` neither reads nor changes the local scopes: put others
there, and the run gives the same with those still in place. The others need only be `alike` the
ones that are there, so that a run may look at what all alike scopes share. `KeepsScopes run` says
less, that `run` ends with the scopes that it started with.

Calls ignore the scopes of their caller, whichever are alike: built-in functions see no scope at
all, by `Builtin.call_ignoresScopes`, and a declared function runs in a frame of its own, by
`invoke_ignoresScopes`, whatever its body declares, assigns, calls or imports.
-/

namespace TagScript

variable {α β : Type}

/-- The outcome of a run with its machine changed. -/
def mapMachine (f : Machine → Machine) :
    EStateM.Result Halt Machine α → EStateM.Result Halt Machine α
  | .ok a m => .ok a (f m)
  | .error halt m => .error halt (f m)

/-- A run does the same whichever of several alike stacks of scopes it gets, and leaves the stack in
place. -/
def IgnoresScopes (alike : List Scope → List Scope → Prop) (run : Run α) : Prop :=
  ∀ m scopes, alike m.scopes scopes →
    run { m with scopes } = mapMachine (fun m' => { m' with scopes }) (run m)

/-- A run ends with the scopes as they were, whether it gives a value or stops early. -/
def KeepsScopes (run : Run α) : Prop :=
  ∀ m, (after run m).scopes = m.scopes

theorem after_of_mapMachine {run : Run α} {f : Machine → Machine} {m m' : Machine}
    (h : run m' = mapMachine f (run m)) : after run m' = f (after run m) := by
  unfold after
  rw [h]
  cases run m <;> rfl

namespace IgnoresScopes

variable {alike : List Scope → List Scope → Prop}

theorem keeps [Std.Refl alike] {run : Run α} (h : IgnoresScopes alike run) : KeepsScopes run := by
  intro m
  have hafter : after run m = { after run m with scopes := m.scopes } :=
    after_of_mapMachine (h m m.scopes (Std.Refl.refl _))
  rw [hafter]

theorem pure (a : α) : IgnoresScopes alike (Pure.pure a : Run α) :=
  fun _ _ _ => rfl

theorem throw (halt : Halt) : IgnoresScopes alike (MonadExcept.throw halt : Run α) :=
  fun _ _ _ => rfl

theorem fail (line : Nat) (fault : Fault) :
    IgnoresScopes alike (TagScript.fail line fault : Run α) :=
  throw _

theorem bind [Std.Refl alike] {x : Run α} {f : α → Run β} (hx : IgnoresScopes alike x)
    (hf : ∀ a, IgnoresScopes alike (f a)) : IgnoresScopes alike (x >>= f) := by
  intro m scopes hscopes
  have hkeeps := hx.keeps m
  have hput := hx m scopes hscopes
  cases h : x m with
  | ok a m' =>
    rw [after_of_ok h] at hkeeps
    rw [h] at hput
    rw [bind_eq_of_ok h, bind_eq_of_ok hput]
    exact hf a m' scopes (hkeeps ▸ hscopes)
  | error halt m' =>
    rw [h] at hput
    rw [bind_eq_of_error h, bind_eq_of_error hput]
    rfl

/-- A run that first reads the machine, but nothing of the scopes that tells alike ones apart. -/
theorem get_bind {f : Machine → Run α}
    (h : ∀ m scopes, alike m.scopes scopes → f { m with scopes } = f m)
    (hf : ∀ m, IgnoresScopes alike (f m)) : IgnoresScopes alike (get >>= f) := by
  intro m scopes hscopes
  rw [get_bind_apply, get_bind_apply, h m scopes hscopes]
  exact hf m m scopes hscopes

theorem modify {f : Machine → Machine}
    (h : ∀ m scopes, f { m with scopes } = { f m with scopes }) :
    IgnoresScopes alike (modify f : Run Unit) :=
  fun m scopes _ => congrArg (EStateM.Result.ok ()) (h m scopes)

end IgnoresScopes

/-! ### Built-in functions -/

section

variable {alike : List Scope → List Scope → Prop}

theorem printText_ignoresScopes (line : Nat) (text : String) :
    IgnoresScopes alike (printText line text) := by
  intro m scopes _
  unfold printText
  dsimp only
  split <;> rfl

theorem inputLine_ignoresScopes (line : Nat) : IgnoresScopes alike (inputLine line) := by
  intro m scopes _
  unfold inputLine
  dsimp only
  split <;> rfl

theorem flushOutput_ignoresScopes (line : Nat) : IgnoresScopes alike (flushOutput line) := by
  refine .get_bind (fun _ _ _ => rfl) fun m => ?_
  split
  · exact .pure _
  · exact .fail _ _

theorem draw_ignoresScopes : IgnoresScopes alike draw :=
  fun _ _ _ => rfl

variable [Std.Refl alike]

theorem promptFor_ignoresScopes (args : List Value) (line : Nat) :
    IgnoresScopes alike (promptFor args line) := by
  unfold promptFor
  split
  · exact .fail _ _
  · refine .bind (printText_ignoresScopes _ _) fun _ => ?_
    refine .bind (flushOutput_ignoresScopes _) fun _ => ?_
    refine .bind (inputLine_ignoresScopes _) fun _ => ?_
    exact .bind (.modify fun _ _ => rfl) fun _ => .pure _

theorem Builtin.call_ignoresScopes (b : Builtin) (args : List Value) (line : Nat) :
    IgnoresScopes alike (b.call args line) := by
  unfold Builtin.call
  extract_lets x y
  split
  case h_1 => exact .bind (printText_ignoresScopes _ _) fun _ => .pure _
  case h_2 => exact .bind (printText_ignoresScopes _ _) fun _ => .pure _
  case h_3 => exact promptFor_ignoresScopes args line
  case h_4 =>
    refine .bind (printText_ignoresScopes _ _) fun _ => ?_
    exact .bind (flushOutput_ignoresScopes _) fun _ => .pure _
  case h_5 => split <;> exact .pure _
  case h_6 =>
    refine .get_bind (fun _ _ _ => rfl) fun m => ?_
    split
    · exact .pure _
    · exact .fail _ _
  case h_7 => exact .throw _
  case h_8 =>
    split
    · exact .bind (.modify fun _ _ => rfl) fun _ => .pure _
    · exact .pure _
  case h_12 => exact .bind draw_ignoresScopes fun _ => .pure _
  case h_13 => exact .bind draw_ignoresScopes fun _ => .pure _
  case h_14 => exact .bind draw_ignoresScopes fun _ => .pure _
  all_goals exact .pure _

end

/-! ### Calls -/

section

variable {alike : List Scope → List Scope → Prop}

/-- The body of a function runs in a frame of its own. -/
theorem inFrame_ignoresScopes (s : Scope) (run : Run Flow) :
    IgnoresScopes alike (inFrame s run) := by
  intro m scopes _
  unfold inFrame
  dsimp only
  rcases run { m with scopes := [s] } with ⟨_ | value, m'⟩ | ⟨halt, m'⟩
  · rfl
  · rfl
  · rfl

theorem invoke_ignoresScopes (depth : Nat) (f : FunctionDecl) (args : List Binding) :
    IgnoresScopes alike (invoke depth f args) := by
  cases depth with
  | zero =>
    rw [invoke]
    exact .throw _
  | succ d =>
    rw [invoke]
    exact inFrame_ignoresScopes _ _

end

end TagScript
