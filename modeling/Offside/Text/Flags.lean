/-!
# Flag text

A word whose low bits have names is written as those of its set bits, lowest first, with a bar
between them. Set bits without a name follow as one number, and a word without set bits is zero.
-/

namespace Offside.Text

set_option autoImplicit false

/-- Lowercase digits behind `0x`, without leading zeros. -/
def hexadecimal (value : Nat) : String := "0x" ++ String.ofList (Nat.toDigits 16 value)

/-- The text of `bits` where bit `n` carries entry `n` of `names`. -/
def flags (names : List String) (bits : Nat) : String :=
  let named := (names.zipIdx.filter fun entry => bits.testBit entry.2).map Prod.fst
  let unnamed := bits >>> names.length <<< names.length
  match named ++ (if unnamed = 0 then [] else [hexadecimal unnamed]) with
  | [] => hexadecimal 0
  | parts => " | ".intercalate parts

end Offside.Text
