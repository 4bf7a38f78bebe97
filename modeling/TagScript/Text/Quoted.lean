import TagScript.Text.Hidden

/-!
# Quoted display forms

A character or text between quotes, with line breaks, quotes, backslashes and hidden characters
spelled as escapes.
-/

namespace TagScript.Text

/-- One character inside the given quote. -/
def displayChar (quote c : Char) : String :=
  if c == '\x00' then "\\0"
  else if c == '\t' then "\\t"
  else if c == '\r' then "\\r"
  else if c == '\n' then "\\n"
  else if c == '\\' || c == quote then "\\" ++ c.toString
  else if isHidden c then
    "\\u\x7b" ++ String.ofList (Nat.toDigits 16 c.toNat) ++ "\x7d"
  else c.toString

/-- A character in single quotes. -/
def quotedChar (c : Char) : String :=
  "'" ++ displayChar '\x27' c ++ "'"

/-- A text in double quotes. -/
def quotedText (text : String) : String :=
  "\"" ++ String.join (text.toList.map (displayChar '\x22')) ++ "\""

end TagScript.Text
