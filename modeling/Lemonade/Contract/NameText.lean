import Lemonade.Contract.Types
import Mathlib.Tactic

/-!
# Names as text

How the vendored library writes a name: thirteen characters from the high bits down, the
last one with four bits, and nothing for the zero bits at the end.  The buffer of
`to_string` has room for all of them, so only the writing branch is modelled.
-/

namespace Lemonade

section NameText

/-- `".12345abcdefghijklmnopqrstuvwxyz"` -/
def charmap : Text := ".12345abcdefghijklmnopqrstuvwxyz".toList

/-- `charmap[indx]` -/
def charAt (indx : Nat) : Char := charmap.getD indx '.'

/-- The loop of `name::write_as_string`: `left` characters are left, and `v` has been shifted
to the left in 64 bits. -/
def nameChars : Nat → Nat → Text
  | 0, _ => []
  | left + 1, v =>
      if v = 0 then []
      else charAt (v / 2 ^ (if left = 0 then 60 else 59)) :: nameChars left (v * 2 ^ 5 % 2 ^ 64)

/-- `name::write_as_string` -/
def Name.writeAsString (n : Name) : Text := nameChars 13 n.value.toNat

end NameText

end Lemonade
