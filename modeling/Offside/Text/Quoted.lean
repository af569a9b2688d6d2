import Offside.Text.Unprinted

/-!
# Quoted characters

A character in a message stands between single quotes. What does not show is written by its code
point, if it has no shorter escape.
-/

namespace Offside.Text

set_option autoImplicit false

/-- The escape of a character that has one of two characters. -/
def shortEscape? (c : Char) : Option String :=
  match c with
  | '\x00' => some "\\0"
  | '\t' => some "\\t"
  | '\r' => some "\\r"
  | '\n' => some "\\n"
  | '\'' => some "\\'"
  | '\\' => some "\\\\"
  | _ => none

/-- The code point in lowercase digits, without leading zeros. -/
def codeEscape (c : Char) : String :=
  "\\u\x7b" ++ String.ofList (Nat.toDigits 16 c.toNat) ++ "\x7d"

def escaped (c : Char) : String :=
  match shortEscape? c with
  | some escape => escape
  | none => if isUnprinted c then codeEscape c else c.toString

def quoted (c : Char) : String := "'" ++ escaped c ++ "'"

end Offside.Text
