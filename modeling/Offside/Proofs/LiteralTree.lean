import Offside.Proofs.Enclosure

/-!
# Literals within literals

The text between the ends of a literal is a sequence of plain runs, escapes and, in a string, holes
between braces that hold a literal again.
-/

namespace Offside

set_option autoImplicit false

mutual

inductive LiteralTree where
  | enclosed (enclosure : Enclosure) (body : LiteralBody)

/-- What stands between the ends of a literal, piece by piece. -/
inductive LiteralBody where
  | done
  | text (run : List Char) (later : LiteralBody)
  | escape (c : Char) (later : LiteralBody)
  | hole (margin : List Blank) (inner : LiteralTree) (later : LiteralBody)

end

def Enclosure.levels : Enclosure → Nat
  | quotes _ => 1
  | slashes => 0

def LiteralBody.startsWithText : LiteralBody → Bool
  | text _ _ => true
  | done | escape _ _ | hole _ _ _ => false

mutual

def LiteralTree.render : LiteralTree → List Char
  | .enclosed enclosure body => enclosure.char :: (body.render ++ [enclosure.char])

def LiteralBody.render : LiteralBody → List Char
  | .done => []
  | .text run later => run ++ later.render
  | .escape c later => '\\' :: c :: later.render
  | .hole margin inner later =>
    '\x7b' :: (margin.map Blank.char ++ (inner.render ++ '\x7d' :: later.render))

end

mutual

def LiteralTree.WellFormed : LiteralTree → Prop
  | .enclosed enclosure body => body.WellFormed enclosure

/-- Each run is as long as possible, and is read as one: a line break may only be in front of it.
Only strings have holes, and the literal in a hole stands on the line of the brace. -/
def LiteralBody.WellFormed (outer : Enclosure) : LiteralBody → Prop
  | .done => True
  | .text run later =>
    (run ≠ [] ∧ (∀ c ∈ run, c ∉ outer.reserved) ∧ '\n' ∉ run.tail) ∧
      later.startsWithText = false ∧ later.WellFormed outer
  | .escape _ later => later.WellFormed outer
  | .hole margin inner later =>
    ((∃ quote, outer = .quotes quote) ∧ .lineFeed ∉ margin ∧ inner.WellFormed) ∧
      later.WellFormed outer

end

mutual

/-- The number of strings around the innermost one, itself included. -/
def LiteralTree.nesting : LiteralTree → Nat
  | .enclosed enclosure body => enclosure.levels + body.nesting

def LiteralBody.nesting : LiteralBody → Nat
  | .done => 0
  | .text _ later | .escape _ later => later.nesting
  | .hole _ inner later => max inner.nesting later.nesting

end

namespace LiteralTree

def text (tree : LiteralTree) : String := String.ofList tree.render

def enclosure : LiteralTree → Enclosure
  | enclosed enclosure _ => enclosure

def opener (tree : LiteralTree) : Token := tree.enclosure.literal.startToken

end LiteralTree

mutual

/-- The tokens that start the literals inside, in the order of the text. -/
def LiteralTree.inside : LiteralTree → List Token
  | .enclosed _ body => body.openers

def LiteralBody.openers : LiteralBody → List Token
  | .done => []
  | .text _ later | .escape _ later => later.openers
  | .hole _ inner later => inner.opener :: (inner.inside ++ later.openers)

end

namespace LiteralBody

variable {outer : Enclosure} {body : LiteralBody}

theorem stop?_render (h : body.WellFormed outer) (ht : body.startsWithText = false)
    (rest : List Char) :
    ∃ ending, outer.literal.stop? ((body.render ++ outer.char :: rest).headD '\x00') =
      some ending ∧ (ending = .yielded ∨ ending = .closed) := by
  cases body with
  | done => exact ⟨.closed, outer.stop?_char, .inr rfl⟩
  | text run later => cases ht
  | escape c later => exact ⟨.yielded, outer.stop?_backslash, .inl rfl⟩
  | hole margin inner later =>
    obtain ⟨⟨⟨quote, rfl⟩, -⟩, -⟩ := h
    exact ⟨.yielded, Enclosure.stop?_openBrace quote, .inl rfl⟩

end LiteralBody

end Offside
