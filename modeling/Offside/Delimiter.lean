import Offside.Text.Flags
import Offside.Text.Quoted

/-!
# Delimiters

The delimiter of an open string is a byte that tells which quote closes it. A byte that comes from a
snapshot is kept as it is: the lowest known bit decides, and nothing closes a string without one.
-/

namespace Offside

set_option autoImplicit false

/-- A character that opens and closes strings. -/
inductive Quote where
  | single
  | double
  | back
  deriving DecidableEq, Repr

namespace Quote

def all : List Quote := [single, double, back]

def char : Quote → Char
  | single => '\''
  | double => '"'
  | back => '\x60'

def bit : Quote → Nat
  | single => 0
  | double => 1
  | back => 2

def name : Quote → String
  | single => "SINGLE_QUOTE"
  | double => "DOUBLE_QUOTE"
  | back => "BACK_QUOTE"

def ofChar? (c : Char) : Option Quote := all.find? fun quote => quote.char == c

@[simp] theorem ofChar?_char (quote : Quote) : ofChar? quote.char = some quote := by
  cases quote <;> decide

theorem ofChar?_eq_some_iff {c : Char} {quote : Quote} :
    ofChar? c = some quote ↔ quote.char = c := by
  constructor
  · intro h
    simpa using List.find?_some h
  · rintro rfl
    exact ofChar?_char quote

theorem char_inj {left right : Quote} : left.char = right.char ↔ left = right := by
  rw [← ofChar?_eq_some_iff, ofChar?_char, Option.some.injEq, eq_comm]

end Quote

structure Delimiter where
  byte : UInt8
  deriving DecidableEq, Inhabited

inductive DelimiterError where
  | notAQuote (c : Char)
  deriving DecidableEq

def DelimiterError.message : DelimiterError → String
  | notAQuote c => Text.quoted c ++ " is not a string quote"

namespace Delimiter

def ofQuote : Quote → Delimiter
  | .single => ⟨1⟩
  | .double => ⟨2⟩
  | .back => ⟨4⟩

def hasBit (delimiter : Delimiter) (quote : Quote) : Bool :=
  delimiter.byte.toBitVec.getLsbD quote.bit

/-- The known quote with the lowest bit. -/
def quote? (delimiter : Delimiter) : Option Quote := Quote.all.find? delimiter.hasBit

def closing? (delimiter : Delimiter) : Option Char := delimiter.quote?.map Quote.char

def ofOpener? (c : Char) : Option Delimiter := (Quote.ofChar? c).map ofQuote

def ofOpener (c : Char) : Except DelimiterError Delimiter :=
  match ofOpener? c with
  | some delimiter => .ok delimiter
  | none => .error (.notAQuote c)

def text (delimiter : Delimiter) : String :=
  "Delimiter(" ++ Text.flags (Quote.all.map Quote.name) delimiter.byte.toNat ++ ")"

@[simp] theorem quote?_ofQuote (quote : Quote) : (ofQuote quote).quote? = some quote := by
  cases quote <;> decide

@[simp] theorem closing?_ofQuote (quote : Quote) : (ofQuote quote).closing? = some quote.char := by
  simp [closing?]

theorem ofOpener?_eq_some_iff {c : Char} {delimiter : Delimiter} :
    ofOpener? c = some delimiter ↔ ∃ quote : Quote, quote.char = c ∧ ofQuote quote = delimiter := by
  simp [ofOpener?, Option.map_eq_some_iff, Quote.ofChar?_eq_some_iff]

theorem closing?_of_ofOpener? {c : Char} {delimiter : Delimiter}
    (h : ofOpener? c = some delimiter) : delimiter.closing? = some c := by
  obtain ⟨quote, rfl, rfl⟩ := ofOpener?_eq_some_iff.mp h
  simp

end Delimiter

end Offside
