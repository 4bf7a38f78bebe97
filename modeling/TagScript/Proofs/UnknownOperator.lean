import TagScript.Proofs.Failure
import TagScript.Proofs.OperatorUse

/-!
# Operators without a meaning

The grammar lets every operator stand between two operands, and there `=` and `!` mean nothing. An
operator that it lets stand before a single operand has a value for all of them. So a run that stops
at an operator without a meaning stops at one of these two, between operands, on a line of code that
the run has met: `unknown_operator_between_operands`.

By `Activation.exists_raises` it is enough to look at the reasons of single activations. Among them
only the two forms of operators give such a reason, `Activation.Raises.applies`; what built-in
functions, assignments and imports complain about is something else. `CallStack.meets` says where
the code of such an activation comes from.
-/

namespace TagScript

open Activation

variable {α β : Type}

/-! ### Meanings -/

namespace Value

/-- An operator that may stand before an operand has a value for it, whatever it is. -/
theorem exists_unary {op : Operator} (hop : op.isPrefixed = true) (v : Value) :
    ∃ w, v.unary op = some w := by
  rcases Operator.isPrefixed_iff.1 hop with rfl | rfl | rfl
  · cases v <;> exact ⟨_, rfl⟩
  · cases v with
    | integer n => exact ⟨_, (apply_ite some (n = 0) _ _).symm⟩
    | _ => exact ⟨_, rfl⟩
  · exact ⟨_, rfl⟩

theorem binary_eq_none_iff {op : Operator} {v w : Value} :
    v.binary op w = none ↔ op = .assign ∨ op = .not := by
  cases op <;> simp [binary]

end Value

/-! ### Other reasons -/

/-- Something else than an operator without a meaning has stopped the run. -/
def Halt.Other (h : Halt) : Prop :=
  ∀ line op, h.innermost ≠ .error (.run line (.unknownOperator op))

/-- The run applies no operators: if it stops early, then for another reason. -/
def Inoperative (run : Run α) : Prop :=
  ∀ m h, halted run m = some h → h.Other

namespace Inoperative

theorem pure (a : α) : Inoperative (Pure.pure a : Run α) := by
  rintro m h ⟨⟩

theorem modify (f : Machine → Machine) : Inoperative (modify f : Run Unit) := by
  rintro m h ⟨⟩

theorem fail {fault : Fault} (hfault : ∀ op, fault ≠ .unknownOperator op) (line : Nat) :
    Inoperative (fail line fault : Run α) := by
  rintro m h ⟨⟩ line' op ⟨⟩
  exact hfault op rfl

theorem bind {x : Run α} {f : α → Run β} (hx : Inoperative x) (hf : ∀ a, Inoperative (f a)) :
    Inoperative (x >>= f) := by
  intro m h hrun
  rcases halted_bind_cases hrun with hrun | ⟨a, m', -, hrun⟩
  · exact hx m h hrun
  · exact hf a m' h hrun

theorem get_bind {f : Machine → Run α} (hf : ∀ m, Inoperative (f m)) :
    Inoperative (get >>= f) :=
  fun m h hrun => hf m m h hrun

end Inoperative

theorem inoperative_printText (line : Nat) (text : String) :
    Inoperative (printText line text) := by
  intro m h hrun
  simp only [halted, printText] at hrun
  rcases hwrite : m.console.write text with ⟨_ | reason, console⟩ <;> rw [hwrite] at hrun
  all_goals cases hrun
  rintro _ _ ⟨⟩

theorem inoperative_inputLine (line : Nat) : Inoperative (inputLine line) := by
  intro m h hrun
  simp only [halted, inputLine] at hrun
  rcases hread : m.console.readLine with ⟨_ | text, console⟩ <;> rw [hread] at hrun
  all_goals cases hrun
  rintro _ _ ⟨⟩

theorem inoperative_flushOutput (line : Nat) : Inoperative (flushOutput line) := by
  refine .get_bind fun m => ?_
  split
  · exact .pure _
  · exact .fail (by simp) line

theorem inoperative_draw : Inoperative draw := by
  rintro m h ⟨⟩

theorem inoperative_promptFor (args : List Value) (line : Nat) :
    Inoperative (promptFor args line) := by
  unfold promptFor
  split
  · exact .fail (by simp) line
  · refine .bind (inoperative_printText _ _) fun _ => ?_
    refine .bind (inoperative_flushOutput _) fun _ => ?_
    refine .bind (inoperative_inputLine _) fun _ => ?_
    exact .bind (.modify _) fun _ => .pure _

theorem Builtin.inoperative_call (b : Builtin) (args : List Value) (line : Nat) :
    Inoperative (b.call args line) := by
  unfold Builtin.call
  extract_lets x y
  split
  case h_1 | h_2 => exact .bind (inoperative_printText _ _) fun _ => .pure _
  case h_3 => exact inoperative_promptFor args line
  case h_4 =>
    refine .bind (inoperative_printText _ _) fun _ => ?_
    exact .bind (inoperative_flushOutput _) fun _ => .pure _
  case h_5 => split <;> exact .pure _
  case h_6 =>
    refine .get_bind fun m => ?_
    split
    · exact .pure _
    · exact .fail (by simp) line
  case h_7 => rintro m h ⟨⟩ _ _ ⟨⟩
  case h_8 =>
    split
    · exact .bind (.modify _) fun _ => .pure _
    · exact .pure _
  case h_12 | h_13 | h_14 => exact .bind inoperative_draw fun _ => .pure _
  all_goals exact .pure _

theorem inoperative_launchNames (line : Nat) (names : List String) :
    Inoperative (launchNames line names) := by
  induction names with
  | nil => exact .pure _
  | cons name rest ih =>
    rw [launchNames]
    refine .get_bind fun m => ?_
    split
    · exact .bind (.modify _) fun _ => ih
    · exact .fail (by simp) line

namespace Machine

variable {m : Machine} {name : String} {fault : Fault} {op : Operator}

theorem checkAssignable_ne_unknownOperator (h : m.checkAssignable name = .error fault) :
    fault ≠ .unknownOperator op := by
  unfold checkAssignable at h
  split at h <;> cases h <;> simp

theorem assign_ne_unknownOperator {v : Value} (h : m.assign name v = .error fault) :
    fault ≠ .unknownOperator op := by
  rw [assign_eq_innermost] at h
  split at h
  · cases h
  · cases h
    simp
  · split at h <;> cases h <;> simp

theorem target_ne_unknownOperator (h : m.target name = .error fault) :
    fault ≠ .unknownOperator op := by
  unfold target locate at h
  split at h
  · next hlocate =>
    cases h
    split at hlocate
    · cases hlocate
    · split at hlocate <;> cases hlocate
      simp
  · split at h <;> cases h
    simp

end Machine

/-! ### Runs -/

/-- Only an activation that applies an operator stops at one without a meaning, and that is the one
it applies. -/
theorem Activation.Raises.applies {a : Activation} {h : Halt} {line : Nat} {op : Operator}
    (ha : a.Raises h) (hh : h.innermost = .error (.run line (.unknownOperator op))) :
    (∃ d e m v, a = ⟨.expr d (.unary op e line), m⟩ ∧ Value.unary op v = none) ∨
      ∃ d l r m v w, a = ⟨.expr d (.binary l op r line), m⟩ ∧ Value.binary op v w = none := by
  cases ha with
  | unary _ hv =>
    cases hh
    exact .inl ⟨_, _, _, _, rfl, hv⟩
  | binary _ _ hv =>
    cases hh
    exact .inr ⟨_, _, _, _, _, _, rfl, hv⟩
  | builtin _ _ hrun => exact absurd hh (Builtin.inoperative_call _ _ _ _ _ hrun _ _)
  | launch hrun => exact absurd hh (inoperative_launchNames _ _ _ _ hrun _ _)
  | unassignable hname =>
    cases hh
    exact absurd rfl (Machine.checkAssignable_ne_unknownOperator hname)
  | unassigned _ hassign =>
    cases hh
    exact absurd rfl (Machine.assign_ne_unknownOperator hassign)
  | unresolved htarget =>
    cases hh
    exact absurd rfl (Machine.target_ne_unknownOperator htarget)
  | unparsed _ hparse => cases unreadable_of_parse hparse <;> cases hh
  | undefined | uncallable | arity | deepCall | deepFetch | unread => cases hh

/-- The code that an activation meets was read, if its own was and so were the functions that are
stored when it starts. -/
theorem Activation.Meets.readable {a₀ : Activation} {u : OperatorUse} (h : a₀.Meets u)
    (hown : ∀ u ∈ a₀.task.uses, u.Readable)
    (hstored : ∀ name f, a₀.start.functions.get? name = some (.user f) → f.Read) : u.Readable := by
  cases h with
  | own hu => exact hown u hu
  | stored hf hu => exact (hstored _ _ hf).readable u hu
  | loaded hload hu =>
    obtain ⟨_, _, _, _, _, _, -, -, hparse⟩ := hload
    exact readable_of_parse hparse u hu

/-- A run that stops at an operator without a meaning has met it between two operands, if only such
operators stand before single ones as the grammar lets stand there. -/
theorem Activation.unknownOperator_cases {a₀ : Activation}
    (hreadable : ∀ u, a₀.Meets u → u.Readable) {e : Error} {line : Nat} {op : Operator}
    (ha : a₀.halted = some (.error e)) (he : e.innermost = .run line (.unknownOperator op)) :
    (op = .assign ∨ op = .not) ∧ a₀.Meets (.binary op line) := by
  obtain ⟨callers, b, h₀, hstack, hraises, heq⟩ := a₀.exists_raises ha
  have hh : h₀.innermost = .error (.run line (.unknownOperator op)) := by
    rw [← heq, Halt.innermost, he]
  rcases hraises.applies hh with ⟨d, e, m, v, rfl, hv⟩ | ⟨d, l, r, m, v, w, rfl, hv⟩
  · obtain ⟨w, hw⟩ := Value.exists_unary (hreadable _ hstack.meets_unary) v
    exact absurd (hw.symm.trans hv) (by simp)
  · exact ⟨Value.binary_eq_none_iff.1 hv, hstack.meets_binary⟩

/-- Where a program that was read runs, and the functions that it starts with were read too, then
only `=` and `!` between two operands are ever operators without a meaning. A run that stops at one
stops on a line of the program, of such a function or of a module that it loads, where that operator
stands so. One that meets none of them stops at none, and operators before single operands have a
value at every moment. -/
theorem unknown_operator_between_operands (depth : Nat) (ts : List Lexeme) (p : Program)
    (m : Machine) (hread : readProgram ts = .ok p)
    (hstored : ∀ name f, m.functions.get? name = some (.user f) → f.Read) :
    let a₀ : Activation := ⟨.program depth p, m⟩
    (∀ e m' line op, runProgram depth p m = .error (.error e) m' →
      e.innermost = .run line (.unknownOperator op) →
        (op = .assign ∨ op = .not) ∧ a₀.Meets (.binary op line)) ∧
    ((∀ line, ¬ a₀.Meets (.binary .assign line) ∧ ¬ a₀.Meets (.binary .not line)) →
      ∀ e m' line op, runProgram depth p m = .error (.error e) m' →
        e.innermost ≠ .run line (.unknownOperator op)) ∧
    (∀ op line, a₀.Meets (.unary op line) → ∀ v, ∃ w, Value.unary op v = some w) ∧
    ∀ callers d op e line start, CallStack a₀ callers ⟨.expr d (.unary op e line), start⟩ →
      ∀ v, ∃ w, Value.unary op v = some w := by
  intro a₀
  have hreadable : ∀ u, a₀.Meets u → u.Readable := fun u hu =>
    hu.readable (readable_of_readProgram hread) hstored
  have hbinary : ∀ e m' line op, runProgram depth p m = .error (.error e) m' →
      e.innermost = .run line (.unknownOperator op) →
        (op = .assign ∨ op = .not) ∧ a₀.Meets (.binary op line) := by
    intro e m' line op hrun he
    refine unknownOperator_cases hreadable ?_ he
    show halted (runProgram depth p) m = _
    rw [halted, hrun]
  refine ⟨hbinary, fun hnone e m' line op hrun he => ?_, fun op line hmeets => ?_,
    fun callers d op e line start hstack => ?_⟩
  · obtain ⟨rfl | rfl, hmeets⟩ := hbinary e m' line op hrun he
    · exact (hnone line).1 hmeets
    · exact (hnone line).2 hmeets
  · exact Value.exists_unary (hreadable _ hmeets)
  · exact Value.exists_unary (hreadable _ hstack.meets_unary)

/-- The function `{ return true ! true }` is stored, and the program `!f()` is run. -/
theorem unknown_operator_in_function :
    let value : Expr := .literal (.bool true) 7
    let f : FunctionDecl := ⟨"f", .bool, [], .mk [.giveBack (.binary value .not value 7) 7] 7, 7⟩
    let m : Machine := { functions := Table.insert ∅ "f" (.user f) }
    let p : Program := ⟨[.expression (.unary .not (.call "f" [] 1) 1) 1]⟩
    (∃ m', runProgram 1 p m = .error (.error (.run 7 (.unknownOperator .not))) m') ∧
      Meets ⟨.program 1 p, m⟩ (.binary .not 7) ∧ ∀ v, ∃ w, Value.unary .not v = some w := by
  intro value f m p
  obtain ⟨m', hrun⟩ : ∃ m', runProgram 1 p m =
      .error (.error (.run 7 (.unknownOperator .not))) m' := ⟨_, rfl⟩
  let lexeme (line : Nat) (t : Token) : Lexeme := ⟨t, line, 0⟩
  have hvalue (least : Nat) : Spells least value [lexeme 7 (.bool true)] :=
    .operand (.literal (l := lexeme 7 (.bool true)) rfl)
  have hbody : SpellsBlock f.body
      ([.mark .openBrace, .reserved .giveBack, .bool true, .operator .not, .bool true,
        .mark .closeBrace].map (lexeme 7)) :=
    .mk (o := lexeme 7 (.mark .openBrace)) rfl
      (.cons (.giveBack (l := lexeme 7 (.reserved .giveBack)) rfl
        (.binary (l := lexeme 7 (.operator .not)) rfl nofun (Nat.zero_le _) (hvalue 0) (hvalue 1)))
        .nil .nil) rfl
  have hp : SpellsStmts p.body
      ([.operator .not, .identifier "f", .mark .openParen, .mark .closeParen].map (lexeme 1)) :=
    .cons (.expression (.operand (.unary (l := lexeme 1 (.operator .not)) rfl rfl
      (.call (l := lexeme 1 (.identifier "f")) rfl rfl rfl .nil)))) .nil .nil
  have hstored : ∀ name g, m.functions.get? name = some (.user g) → g.Read := by
    intro name g hg
    rw [Table.get?_insert] at hg
    split at hg
    · cases hg
      exact ⟨_, [], hbody.readBlock_gives []⟩
    · cases hg
  obtain ⟨hbinary, -, hunary, -⟩ := unknown_operator_between_operands 1 _ p m
    (map_eq_ok_iff.2 ⟨_, hp.readStatements_eq, rfl⟩) hstored
  obtain ⟨-, hmeets⟩ := hbinary _ m' 7 .not hrun rfl
  exact ⟨⟨m', hrun⟩, hmeets, hunary .not 1 (.own (List.mem_singleton_self _))⟩

end TagScript
