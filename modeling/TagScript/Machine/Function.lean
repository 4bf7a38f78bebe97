import TagScript.Program.Basic
import TagScript.Scope

/-!
# Functions and exports

A function is built in or declared by a program. A module exports functions and variables.
-/

namespace TagScript

/-- The functions that every program starts with. -/
inductive Builtin where
  | write
  | writeln
  | prompt
  | clear
  | length
  | getType
  | exit
  | delete
  | sqrt
  | abs
  | round
  | ceil
  | floor
  | pow
  | log
  | log2
  | log10
  | sin
  | cos
  | tan
  | atan
  | acos
  | asin
  | exp
  | max
  | min
  | rand
  | randInt
  | randFloat
  | isNaN
  | isFinite
deriving DecidableEq, Repr

namespace Builtin

def all : List Builtin :=
  [write, writeln, prompt, clear, length, getType, exit, delete, sqrt, abs, round, ceil, floor, pow,
    log, log2, log10, sin, cos, tan, atan, acos, asin, exp, max, min, rand, randInt, randFloat,
    isNaN, isFinite]

/-- The name a program calls the function by. -/
def name : Builtin → String
  | write => "write"
  | writeln => "writeln"
  | prompt => "prompt"
  | clear => "sys_clear"
  | length => "length"
  | getType => "get_type"
  | exit => "sys_exit"
  | delete => "sys_delete"
  | sqrt => "__sqrt"
  | abs => "__abs"
  | round => "__round"
  | ceil => "__ceil"
  | floor => "__floor"
  | pow => "__pow"
  | log => "__log"
  | log2 => "__log2"
  | log10 => "__log10"
  | sin => "__sin"
  | cos => "__cos"
  | tan => "__tan"
  | atan => "__atan"
  | acos => "__acos"
  | asin => "__asin"
  | exp => "__exp"
  | max => "__max"
  | min => "__min"
  | rand => "__rand"
  | randInt => "__randInt"
  | randFloat => "__randFloat"
  | isNaN => "__isNaN"
  | isFinite => "__isFinite"

def ofName? (s : String) : Option Builtin :=
  all.find? (·.name == s)

/-- The names of the parameters. They inform only: any number of arguments may be passed. -/
def params : Builtin → List String
  | write | writeln | clear | exit => []
  | prompt => ["prompt", "variableName", "davType"]
  | getType => ["name"]
  | delete => ["variableName"]
  | pow => ["base", "exponent"]
  | max | min => ["a", "b"]
  | rand | randInt | randFloat => ["min", "max"]
  | _ => ["x"]

end Builtin

/-- A function that a program declares. -/
structure FunctionDecl where
  name : String
  result : TypeWord
  params : List Param
  body : Block
  line : Nat

inductive Function where
  | builtin (f : Builtin)
  | user (f : FunctionDecl)

namespace Function

/-- The table that every program and every module starts with. -/
def builtins : Table Function :=
  .ofList (Builtin.all.map fun b => (b.name, builtin b))

end Function

inductive Export where
  | function (f : Function)
  | global (b : Binding)

end TagScript
