import Offside.Proofs.Cut

/-!
# Columns

The three accounts that measuring keeps can be read off the form of the trivia. What ends a comment,
and the line break behind a backslash, belong to that trivia and are no blanks.
-/

namespace Offside

set_option autoImplicit false

namespace Trivia

def resets : Trivia → Bool
  | blank .lineFeed | blank .carriageReturn | blank .formFeed | comment _ _ => true
  | blank .space | blank .tab | continuation _ => false

/-- The columns that the blanks behind the last reset take, a tab eight of them. -/
def columns (items : List Trivia) : Nat :=
  let line := items.reverse.takeWhile fun item => !item.resets
  line.count (.blank .space) + 8 * line.count (.blank .tab)

def indent (items : List Trivia) : Nat := min 0xFFFFFFFF (columns items)

/-- The indentation in front of the first comment. -/
def commentIndent? (items : List Trivia) : Option Nat :=
  (items.findIdx? isComment).map fun index => indent (items.take index)

variable {items : List Trivia} {item : Trivia}

theorem columns_append_singleton (items : List Trivia) (item : Trivia) :
    columns (items ++ [item]) = match item with
      | blank .space => columns items + 1
      | blank .tab => columns items + 8
      | continuation _ => columns items
      | blank .lineFeed | blank .carriageReturn | blank .formFeed | comment _ _ => 0 := by
  cases item with
  | blank kind => cases kind <;> simp [columns, resets] <;> omega
  | comment body ending => simp [columns, resets]
  | continuation carriageReturn => simp [columns, resets]

theorem commentIndent?_eq_none (h : ∀ item ∈ items, item.isComment = false) :
    commentIndent? items = none := by
  simpa [commentIndent?, List.findIdx?_eq_none_iff] using h

theorem commentIndent?_append_singleton (items : List Trivia) (item : Trivia) :
    commentIndent? (items ++ [item]) =
      if item.isComment then some ((commentIndent? items).getD (indent items))
      else commentIndent? items := by
  rw [commentIndent?, commentIndent?, List.findIdx?_append, List.findIdx?_singleton]
  cases hfirst : items.findIdx? isComment with
  | none => cases item.isComment <;> simp
  | some index =>
    have hlength : index < items.length := (List.findIdx?_eq_some_iff_getElem.mp hfirst).1
    have htake : (items ++ [item]).take index = items.take index :=
      List.take_append_of_le_length (Nat.le_of_lt hlength)
    simp [htake]

end Trivia

namespace Layout

theorem ofTrivia_eq (items : List Trivia) :
    ofTrivia items =
      { indent := Trivia.indent items
        endOfLine := decide (.blank .lineFeed ∈ items)
        comment? := Trivia.commentIndent? items } := by
  -- The fold takes the trivia from the front and the columns look at it from the back.
  obtain ⟨reversed, rfl⟩ : ∃ reversed : List Trivia, items = reversed.reverse :=
    ⟨items.reverse, items.reverse_reverse.symm⟩
  induction reversed with
  | nil => rfl
  | cons item reversed ih =>
    rw [List.reverse_cons, ofTrivia_append_singleton, ih]
    generalize reversed.reverse = items
    have hc := Trivia.columns_append_singleton items item
    have hf := Trivia.commentIndent?_append_singleton items item
    cases item with
    | blank kind =>
      cases kind with
      | space | tab =>
        simp only [Trivia.isComment, Bool.false_eq_true, if_false] at hf
        simp only [add, addColumns, tabWidth, maxIndent, Trivia.indent, hc, hf, mk.injEq,
          List.mem_append, List.mem_singleton, Trivia.blank.injEq, reduceCtorEq, or_false, and_true]
        omega
      | lineFeed | carriageReturn | formFeed =>
        simp [add, Trivia.indent, hc, hf, Trivia.isComment]
    | comment body ending => simp [add, Trivia.indent, hc, hf, Trivia.isComment]
    | continuation carriageReturn => simp [add, Trivia.indent, hc, hf, Trivia.isComment]

theorem measure?_eq {rest : List Char} (items : List Trivia) (h : rest.headD '\x00' ≠ '\\') :
    measure? items rest = some
      { indent := if rest.headD '\x00' = '\x00' then 0 else Trivia.indent items
        endOfLine := decide (.blank .lineFeed ∈ items ∨ rest.headD '\x00' = '\x00')
        comment? := Trivia.commentIndent? items } := by
  unfold measure?
  generalize rest.headD '\x00' = c at h ⊢
  split
  · contradiction
  · simp [ofTrivia_eq, atEndOfInput]
  · rename_i hc
    have hn : c ≠ '\x00' := hc
    simp [hn, ofTrivia_eq]

theorem measure?_eq_none_iff {items : List Trivia} {rest : List Char} :
    measure? items rest = none ↔ rest.headD '\x00' = '\\' := by
  constructor
  · intro hn
    apply Decidable.byContradiction
    intro hc
    rw [measure?_eq items hc] at hn
    cases hn
  · intro hc
    rw [measure?, hc]
    rfl

end Layout

end Offside
