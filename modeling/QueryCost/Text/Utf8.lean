/-
# QueryCost.Text.Utf8 -- characters and their bytes

Places in a text are told by the bytes in front of them; a character takes up one
byte to four.

Bytes that are no UTF-8 stand for no character.  A text format that has no use
for NUL can still read a byte string from its start: from the first byte on that
does not fit, one NUL stands for all that is left, and what comes before it is
read as usual.
-/
namespace QueryCost.Text.Utf8

set_option autoImplicit false

/-- The number of bytes that characters take up. -/
def byteLength (cs : List Char) : Nat :=
  cs.foldl (fun n c => n + c.utf8Size) 0

/-- The characters from a byte on, behind those that are read already, last first. -/
def charactersFrom (bytes : ByteArray) (i : Nat) (done : List Char) : List Char :=
  if i < bytes.size then
    match bytes.utf8DecodeChar? i with
    | some c => charactersFrom bytes (i + c.utf8Size) (c :: done)
    | none => ('\x00' :: done).reverse
  else done.reverse
termination_by bytes.size - i
decreasing_by
  have := c.utf8Size_pos
  omega

/-- The characters of a byte string up to the first byte that does not fit, then NUL. -/
def characters (bytes : ByteArray) : List Char :=
  charactersFrom bytes 0 []

end QueryCost.Text.Utf8
