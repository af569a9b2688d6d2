/-!
# Sources

A source is the UTF-8 encoding of a text, addressed by byte offsets that fit a 32-bit word. A byte
order mark in front stays in the source, but the content starts behind it.
-/

namespace Offside

set_option autoImplicit false

/-- Byte offsets are 32-bit words, and so is the size of a source. -/
def maxOffset : Nat := 0xFFFFFFFF

structure Source where
  bytes : ByteArray

namespace Source

instance : DecidableEq Source := fun first second =>
  match ByteArray.decEq first.bytes second.bytes with
  | .isTrue h => .isTrue (congrArg mk h)
  | .isFalse h => .isFalse fun he => h (congrArg bytes he)

/-- Bytes past the largest offset are dropped. -/
def ofString (text : String) : Source := ⟨text.toUTF8.extract 0 maxOffset⟩

theorem bytes_ofString {text : String} (h : text.utf8ByteSize ≤ maxOffset) :
    (ofString text).bytes = text.toUTF8 := by
  rw [← String.size_toByteArray] at h
  change text.toByteArray.extract 0 maxOffset = text.toByteArray
  rw [← Nat.max_eq_left h]
  exact ByteArray.extract_zero_max_size

def size (source : Source) : Nat := source.bytes.size

theorem size_ofString (text : String) :
    (ofString text).size = min text.utf8ByteSize maxOffset := by
  simp [ofString, size, ByteArray.size_extract, Nat.min_comm]

theorem size_ofString_le (text : String) : (ofString text).size ≤ maxOffset := by
  rw [size_ofString]
  exact Nat.min_le_right _ _

def isEmpty (source : Source) : Bool := source.size == 0

/-- Reading past the end gives zero. -/
def byteAt (source : Source) (offset : Nat) : UInt8 := source.bytes[offset]?.getD 0

def byteOrderMark : ByteArray := ⟨#[0xEF, 0xBB, 0xBF]⟩

def hasByteOrderMark (source : Source) : Bool :=
  source.bytes.extract 0 byteOrderMark.size == byteOrderMark

/-- The offset of the first byte that tokens may cover. -/
def contentStart (source : Source) : Nat :=
  if source.hasByteOrderMark then byteOrderMark.size else 0

/-- The text from `start` to `stop`, both moved back to the end when they lie behind it. -/
def slice (source : Source) (start stop : Nat) : String :=
  let stop := min stop source.size
  (String.fromUTF8? (source.bytes.extract (min start stop) stop)).getD ""

end Source

end Offside
