import TagScript.Literal
import TagScript.Operator
import TagScript.Text.Radix
import TagScript.TypeWord

/-!
# Tokens

The tokens of the language, their kinds, and `Token.render`, the text a token is written as. Trivia
(comments, line breaks, blanks) are tokens too, but no lexeme carries one.
-/

namespace TagScript

/-- A word that a program cannot use as a name, type words and truth values apart. -/
inductive Reserved where
  | when
  | otherwise
  | define
  | giveBack
  | classWord
  | newWord
  | set
  | fetch
  | launch
deriving DecidableEq, Repr, Inhabited

namespace Reserved

def all : List Reserved :=
  [.when, .otherwise, .define, .giveBack, .classWord, .newWord, .set, .fetch, .launch]

def word : Reserved → String
  | .when => "when"
  | .otherwise => "else"
  | .define => "define"
  | .giveBack => "return"
  | .classWord => "class"
  | .newWord => "new"
  | .set => "set"
  | .fetch => "fetch"
  | .launch => "launch"

def ofWord? (s : String) : Option Reserved :=
  all.find? (·.word == s)

end Reserved

inductive Mark where
  | openParen
  | closeParen
  | openBrace
  | closeBrace
  | comma
  | colon
  | dot
deriving DecidableEq, Repr, Inhabited

namespace Mark

def char : Mark → Char
  | openParen => '('
  | closeParen => ')'
  | openBrace => '\x7b'
  | closeBrace => '\x7d'
  | comma => ','
  | colon => ':'
  | dot => '.'

def ofChar? : Char → Option Mark
  | '(' => some openParen
  | ')' => some closeParen
  | '\x7b' => some openBrace
  | '\x7d' => some closeBrace
  | ',' => some comma
  | ':' => some colon
  | '.' => some dot
  | _ => none

end Mark

/-- Source text between tokens. -/
inductive Trivia where
  | lineComment
  | blockComment
  | lineBreak
  | blank
deriving DecidableEq, Repr, Inhabited

inductive Token where
  | number (n : Number)
  | float (x : Float)
  | text (content : String)
  | identifier (name : String)
  | type (type : TypeWord)
  | bool (b : Bool)
  | reserved (word : Reserved)
  | operator (op : Operator)
  | mark (m : Mark)
  | trivia (t : Trivia)
deriving DecidableEq

/-- The class of a token that messages name. -/
inductive TokenKind where
  | number
  | float
  | text
  | identifier
  | keyword
  | operator
  | punctuation
deriving DecidableEq, Repr

namespace TokenKind

def name : TokenKind → String
  | number => "NUMBER"
  | float => "FLOAT"
  | text => "TEXT"
  | identifier => "IDENTIFIER"
  | keyword => "KEYWORD"
  | operator => "OPERATOR"
  | punctuation => "PUNCTUATION"

end TokenKind

/-- Reals in source text never carry an exponent, which no token could hold. -/
def sourceReal : RealStyle where
  positional := fun _ => true
  plus := false
  point := false
  signedZero := true
  infinity := "inf"

namespace Number

def render : Number → String
  | .integer n => toString n.toInt
  | .real x => sourceReal.write x

end Number

/-- The spelling of one character inside double quotes. Controls without a letter of their own are
spelled by code point, so a rendered text holds no raw line break. -/
def escapeChar (c : Char) : List Char :=
  if c == '\x22' then ['\\', '\x22']
  else if c == '\\' then ['\\', '\\']
  else if c == '\n' then ['\\', 'n']
  else if c == '\t' then ['\\', 't']
  else if c == '\r' then ['\\', 'r']
  else if c.toNat < 0x20 || (0x7F ≤ c.toNat && c.toNat ≤ 0x9F) then
    ['\\', 'u', '0', '0', Text.digitOf (c.toNat / 16), Text.digitOf (c.toNat % 16)]
  else [c]

namespace Token

def kind : Token → TokenKind
  | number _ => .number
  | float _ => .float
  | text _ => .text
  | identifier _ => .identifier
  | type _ | bool _ | reserved _ => .keyword
  | operator _ => .operator
  | mark _ | trivia _ => .punctuation

def isTrivia : Token → Bool
  | trivia _ => true
  | _ => false

/-- The text of a token. A float always shows a point, which tells it from a number. -/
def render : Token → String
  | number n => n.render
  | float x =>
    let written := sourceReal.write x
    if written.toList.contains '.' then written else written ++ ".0"
  | text content => String.ofList ('\x22' :: content.toList.flatMap escapeChar ++ ['\x22'])
  | identifier name => name
  | type t => t.keyword
  | bool b => if b then "true" else "false"
  | reserved word => word.word
  | operator op => op.symbol
  | mark m => m.char.toString
  | trivia _ => ""

/-- A token as messages show it: its kind and its text in single quotes. -/
def describe (t : Token) : String :=
  t.kind.name ++ " '" ++ t.render ++ "'"

/-- The token spelled by a word: keywords win over identifiers. -/
def ofWord (word : String) : Token :=
  match TypeWord.ofKeyword? word, Reserved.ofWord? word with
  | some t, _ => .type t
  | none, some r => .reserved r
  | none, none =>
    if word == "true" then .bool true
    else if word == "false" then .bool false
    else .identifier word

end Token

/-- A token with its place: the line its text ends on, counted from one, and its position among
the tokens, counted from zero. -/
structure Lexeme where
  token : Token
  line : Nat
  index : Nat
deriving DecidableEq

end TagScript
