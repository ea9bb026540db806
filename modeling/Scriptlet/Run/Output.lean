/-!
Contract: what a program prints.

Owns: `Output`, which takes bytes until its room is used up. Bytes are taken
however a text is cut, so that what is written is always the beginning of what
was printed.
-/

set_option autoImplicit false

namespace Scriptlet

/-- The bytes written, and the number of bytes there is still room for, if that
is limited. -/
structure Output where
  written : ByteArray
  room : Option Nat

namespace Output

def empty : Output :=
  ⟨.empty, none⟩

/-- Whether a text fits. -/
def fits (output : Output) (text : String) : Bool :=
  match output.room with
  | none => true
  | some room => text.utf8ByteSize ≤ room

/-- Writes a text as far as there is room. -/
def write (output : Output) (text : String) : Output :=
  let bytes := text.toUTF8
  match output.room with
  | none => { output with written := output.written ++ bytes }
  | some room =>
      { written := output.written ++ bytes.extract 0 room, room := some (room - bytes.size) }

/-- The beginning of a text in bytes as text. A character that was cut is
written as the replacement character. -/
def decode (bytes : ByteArray) : String :=
  let shorter (cut : Nat) : Option String :=
    (String.fromUTF8? (bytes.extract 0 (bytes.size - cut))).map
      (· ++ String.singleton (Char.ofNat 0xfffd))
  (((String.fromUTF8? bytes).orElse fun _ => shorter 1).orElse fun _ =>
    (shorter 2).orElse fun _ => shorter 3).getD ""

end Output

end Scriptlet
