import TagScript.Error

/-!
# The console

Input that is still to be read, output that was written, and how much more the output takes. A write
that does not fit stores the part that does, and then fails.

The reader and the writer of a program belong to its host, which may supply any. This console stands
for them: it reads bytes that are given in advance, keeps what is written, and can be made to fail
at any byte of the output and at every flush. Why a device fails is its own matter too, so the
reasons of `DeviceError` that come from here are those of this device and not of the language.
-/

namespace TagScript

structure Console where
  input : List UInt8 := []
  output : ByteArray := .empty
  /-- How many more bytes the output takes; all, if there is no number. -/
  room : Option Nat := none
  flushFails : Bool := false

namespace Console

def write (c : Console) (text : String) : Except DeviceError Unit × Console :=
  let bytes := text.toUTF8
  match c.room with
  | none => (.ok (), { c with output := c.output ++ bytes })
  | some room =>
    if bytes.size ≤ room then
      (.ok (), { c with output := c.output ++ bytes, room := some (room - bytes.size) })
    else
      (.error .full, { c with output := c.output ++ bytes.extract 0 room, room := some 0 })

def flush (c : Console) : Except DeviceError Unit :=
  if c.flushFails then .error .flushFailed else .ok ()

/-- Reads up to and with the next line break, or all that is left. Bytes that are no text are taken
all the same. -/
def readLine (c : Console) : Except DeviceError String × Console :=
  let line := c.input.takeWhile (· ≠ 0x0A)
  let rest := c.input.dropWhile (· ≠ 0x0A)
  let bytes := (line ++ rest.take 1).toByteArray
  let text := match String.fromUTF8? bytes with
    | some text => .ok text
    | none => .error .badText
  (text, { c with input := rest.drop 1 })

end Console

end TagScript
