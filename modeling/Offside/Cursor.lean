import Offside.Source

/-!
# Cursors

A cursor walks over a source one character at a time. Inside of a character it reads the replacement
character and moves on byte by byte. `Cursor.ahead` lists the characters that reading will deliver,
and everything that decides on a token is a function of that list.
-/

namespace Offside

set_option autoImplicit false

/-- What a character reads as when its bytes are not UTF-8. -/
def replacement : Char := '\uFFFD'

/-- The bytes of a character that starts with `lead`; a byte that starts none counts by itself. -/
def leadWidth (lead : UInt8) : Nat :=
  if 0xC0 ≤ lead ∧ lead ≤ 0xDF then 2
  else if 0xE0 ≤ lead ∧ lead ≤ 0xEF then 3
  else if 0xF0 ≤ lead ∧ lead ≤ 0xF7 then 4
  else 1

theorem leadWidth_pos (lead : UInt8) : 0 < leadWidth lead := by
  unfold leadWidth
  repeat' split
  all_goals decide

structure Cursor where
  source : Source
  offset : Nat := 0
  deriving DecidableEq

def Source.cursor (source : Source) : Cursor := ⟨source, 0⟩

namespace Cursor

def atEnd (cursor : Cursor) : Bool := decide (cursor.source.size ≤ cursor.offset)

def current (cursor : Cursor) : Char :=
  if cursor.atEnd then '\x00'
  else (cursor.source.bytes.utf8DecodeChar? cursor.offset).getD replacement

def width (cursor : Cursor) : Nat := leadWidth (cursor.source.byteAt cursor.offset)

/-- Moves behind the character under the cursor. The sum is taken in 32-bit words. -/
def advance (cursor : Cursor) : Cursor :=
  if cursor.atEnd then cursor
  else { cursor with
    offset := min ((cursor.offset + cursor.width) % (maxOffset + 1)) cursor.source.size }

/-- Moves to `offset`, or to the end when it lies behind it. -/
def seek (cursor : Cursor) (offset : Nat) : Cursor :=
  { cursor with offset := min offset cursor.source.size }

def advanceBy : Nat → Cursor → Cursor
  | 0, cursor => cursor
  | count + 1, cursor => advanceBy count cursor.advance

/-- The first `count` places from here on that are not the end. -/
def stopsWithin : Nat → Cursor → List Cursor
  | 0, _ => []
  | count + 1, cursor =>
    if cursor.atEnd then [] else cursor :: stopsWithin count cursor.advance

/-- Every place from here on that holds a character. Each takes at least one byte. -/
def stops (cursor : Cursor) : List Cursor :=
  stopsWithin (cursor.source.size - cursor.offset) cursor

/-- The characters from here to the end. -/
def ahead (cursor : Cursor) : List Char := cursor.stops.map current

def finish (cursor : Cursor) : Cursor := advanceBy cursor.stops.length cursor

@[simp] theorem source_advance (cursor : Cursor) : cursor.advance.source = cursor.source := by
  unfold advance
  split <;> rfl

@[simp] theorem source_seek (cursor : Cursor) (offset : Nat) :
    (cursor.seek offset).source = cursor.source := rfl

@[simp] theorem source_advanceBy (count : Nat) (cursor : Cursor) :
    (advanceBy count cursor).source = cursor.source := by
  induction count generalizing cursor with
  | zero => rfl
  | succ count ih => simp [advanceBy, ih]

theorem advance_of_atEnd {cursor : Cursor} (h : cursor.atEnd) : cursor.advance = cursor := by
  simp [advance, h]

theorem current_of_atEnd {cursor : Cursor} (h : cursor.atEnd) : cursor.current = '\x00' := by
  simp [current, h]

end Cursor

end Offside
