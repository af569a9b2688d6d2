import Offside.Proofs.Walks

/-!
# Texts cut at the largest offset

A text with more bytes than there are offsets is cut, and the cut may fall inside of a character.
The width that its first byte announces leads over the largest word, so the sum wraps and the cursor
is back at the front of the source. No other character does this.
-/

namespace Offside

set_option autoImplicit false

/-- The character that begins at `start` lies partly in front of the cut and partly behind it. -/
def Torn (text : String) (start : Nat) : Prop :=
  ∃ front c rest, text.toList = front ++ c :: rest ∧ start = encodedSize front ∧
    start < maxOffset ∧ maxOffset < start + c.utf8Size

namespace Cursor

inductive Move where
  | advance
  | seek (offset : Nat)

def move (cursor : Cursor) : Move → Cursor
  | .advance => cursor.advance
  | .seek offset => cursor.seek offset

def after (cursor : Cursor) (moves : List Move) : Cursor := moves.foldl move cursor

variable {cursor : Cursor} {text : String} {start offset count : Nat}

@[simp] theorem source_move (cursor : Cursor) (action : Move) :
    (cursor.move action).source = cursor.source := by
  cases action with
  | advance => exact source_advance cursor
  | seek offset => exact source_seek cursor offset

theorem offset_move_le (h : cursor.offset ≤ cursor.source.size) (action : Move) :
    (cursor.move action).offset ≤ cursor.source.size := by
  cases action with
  | advance => exact offset_advance_le h
  | seek offset => exact Nat.min_le_right _ _

theorem source_after (cursor : Cursor) (moves : List Move) :
    (cursor.after moves).source = cursor.source := by
  induction moves generalizing cursor with
  | nil => rfl
  | cons action moves ih => exact (ih (cursor.move action)).trans (source_move cursor action)

theorem offset_after_le (h : cursor.offset ≤ cursor.source.size) (moves : List Move) :
    (cursor.after moves).offset ≤ cursor.source.size := by
  induction moves generalizing cursor with
  | nil => exact h
  | cons action moves ih =>
    have hmove := offset_move_le h action
    rw [← source_move cursor action] at hmove
    have hlater := ih hmove
    rwa [source_move] at hlater

end Cursor

namespace Torn

variable {text : String} {start offset : Nat}

theorem utf8ByteSize_gt (h : Torn text start) : maxOffset < text.utf8ByteSize := by
  obtain ⟨front, c, rest, ht, rfl, -, hover⟩ := h
  rw [utf8ByteSize_eq, ht, encodedSize_append, encodedSize_cons]
  omega

theorem size_eq (h : Torn text start) : (Source.ofString text).size = maxOffset := by
  rw [Source.size_ofString]
  exact Nat.min_eq_right (Nat.le_of_lt h.utf8ByteSize_gt)

theorem lt_maxOffset (h : Torn text start) : start < maxOffset := by
  obtain ⟨-, -, -, -, -, hlt, -⟩ := h
  exact hlt

theorem isValid (h : Torn text start) : String.Pos.Raw.IsValid text ⟨start⟩ := by
  obtain ⟨front, c, rest, ht, rfl, -, -⟩ := h
  exact Source.isValid_iff_exists.mpr ⟨front, c :: rest, ht, rfl⟩

/-- The sum of offset and width is a word too large by just the offset that comes next. -/
theorem offset_advance (h : Torn text start) :
    Cursor.width ⟨Source.ofString text, start⟩ ≤ 4 ∧
      start + Cursor.width ⟨Source.ofString text, start⟩ =
        (Cursor.advance ⟨Source.ofString text, start⟩).offset + (maxOffset + 1) := by
  have hz := h.size_eq
  obtain ⟨front, c, rest, ht, rfl, hlt, hover⟩ := h
  have hw := Source.width_of_char ht (by rwa [hz])
  have hfour := c.utf8Size_le_four
  have he : Cursor.atEnd ⟨Source.ofString text, encodedSize front⟩ = false :=
    Cursor.atEnd_eq_false_of_lt (by rwa [hz])
  refine ⟨?_, ?_⟩
  · rwa [hw]
  · simp only [Cursor.advance, he, hw, hz, Bool.false_eq_true, if_false]
    simp only [maxOffset] at hlt hover ⊢
    omega

theorem offset_advance_lt (h : Torn text start) :
    (Cursor.advance ⟨Source.ofString text, start⟩).offset < start := by
  obtain ⟨hfour, hsum⟩ := h.offset_advance
  simp only [maxOffset] at hsum
  omega

theorem not_torn_of_lt (h : Torn text start) (hl : offset < start) : ¬ Torn text offset := by
  intro hother
  have hlt := h.lt_maxOffset
  have hinner : offset < (Source.ofString text).size := by
    rw [h.size_eq]
    exact Nat.lt_trans hl hlt
  have hle := Source.offset_add_width_le hinner hl h.isValid
  have hsum := hother.offset_advance.2
  omega

end Torn

theorem exists_torn_iff (text : String) :
    (∃ start, Torn text start) ↔
      ¬ String.Pos.Raw.IsValid text ⟨(Source.ofString text).size⟩ := by
  constructor
  · rintro ⟨start, h⟩
    have hz := h.size_eq
    obtain ⟨front, c, rest, ht, rfl, hlt, hover⟩ := h
    rw [hz]
    exact not_isValid_of_inner ht hlt hover
  · intro hv
    have hlong : maxOffset < text.utf8ByteSize := by
      apply Nat.lt_of_not_le
      intro hs
      exact hv (Source.isValid_size hs)
    have hz : (Source.ofString text).size = maxOffset := by
      rw [Source.size_ofString]
      exact Nat.min_eq_right (Nat.le_of_lt hlong)
    rw [utf8ByteSize_eq] at hlong
    obtain ⟨front, c, rest, ht, hfrom, hto⟩ := exists_char_over hlong
    refine ⟨encodedSize front, front, c, rest, ht, rfl, ?_, hto⟩
    apply Nat.lt_of_le_of_ne hfrom
    intro heq
    apply hv
    rw [hz]
    exact Source.isValid_iff_exists.mpr ⟨front, c :: rest, ht, heq.symm⟩

namespace Cursor

variable {text : String} {start offset count : Nat}

theorem advance_eq_mk (cursor : Cursor) :
    cursor.advance = ⟨cursor.source, cursor.advance.offset⟩ := by
  rw [← source_advance]

theorem advance_of_not_torn (ho : offset < (Source.ofString text).size)
    (h : ¬ Torn text offset) :
    offset + width ⟨Source.ofString text, offset⟩ ≤ maxOffset ∧
      advance ⟨Source.ofString text, offset⟩ =
        ⟨Source.ofString text, offset + width ⟨Source.ofString text, offset⟩⟩ := by
  have hm := Nat.lt_of_lt_of_le ho (Source.size_ofString_le text)
  have hl := Nat.lt_of_lt_of_le ho (Source.size_ofString_le_utf8ByteSize text)
  have htext := Source.offset_add_width_le ho hl String.Pos.Raw.isValid_rawEndPos
  have hword : offset + width ⟨Source.ofString text, offset⟩ ≤ maxOffset := by
    by_cases hv : String.Pos.Raw.IsValid text ⟨offset⟩
    · obtain ⟨front, c, rest, ht, rfl⟩ := Source.exists_char_of_isValid hl hv
      rw [Source.width_of_char ht ho]
      apply Nat.le_of_not_lt
      intro hover
      exact h ⟨front, c, rest, ht, rfl, hm, hover⟩
    · rw [Source.width_of_not_isValid ho hv]
      exact hm
  have hsize : offset + width ⟨Source.ofString text, offset⟩ ≤ (Source.ofString text).size := by
    rw [Source.size_ofString]
    exact Nat.le_min.mpr ⟨htext, hword⟩
  exact ⟨hword, advance_of_le (atEnd_eq_false_of_lt ho) hsize hword⟩

/-- In front of a torn character a cursor stays there: it comes to it, and then to the front. -/
theorem offset_advance_le_of_torn (h : Torn text start) (ho : offset ≤ start) :
    (advance ⟨Source.ofString text, offset⟩).offset ≤ start := by
  rcases Nat.lt_or_eq_of_le ho with hbefore | rfl
  · have hinner : offset < (Source.ofString text).size := by
      rw [h.size_eq]
      exact Nat.lt_trans hbefore h.lt_maxOffset
    rw [(advance_of_not_torn hinner (h.not_torn_of_lt hbefore)).2]
    exact Source.offset_add_width_le hinner hbefore h.isValid
  · exact Nat.le_of_lt h.offset_advance_lt

theorem atEnd_advanceBy_of_torn (h : Torn text start) (ho : offset ≤ start) :
    (advanceBy count ⟨Source.ofString text, offset⟩).atEnd = false := by
  induction count generalizing offset with
  | zero =>
    apply atEnd_eq_false_of_lt
    rw [advanceBy, h.size_eq]
    exact Nat.lt_of_le_of_lt ho h.lt_maxOffset
  | succ count ih =>
    have hnext := offset_advance_le_of_torn h ho
    rw [advanceBy, advance_eq_mk]
    exact ih hnext

/-- Without one each step takes a byte, so the end is reached in as many steps as bytes are left. -/
theorem atEnd_advanceBy_of_not_torn (h : ∀ start, offset ≤ start → ¬ Torn text start)
    (hc : (Source.ofString text).size ≤ offset + count) :
    (advanceBy count ⟨Source.ofString text, offset⟩).atEnd = true := by
  induction count generalizing offset with
  | zero =>
    rw [advanceBy, atEnd, decide_eq_true_eq]
    exact hc
  | succ count ih =>
    by_cases ho : offset < (Source.ofString text).size
    · have hpos := leadWidth_pos ((Source.ofString text).byteAt offset)
      have hnext := (advance_of_not_torn ho (h offset (Nat.le_refl _))).2
      rw [advanceBy, hnext]
      simp only [width]
      apply ih
      · intro later hlater
        exact h later (by omega)
      · omega
    · have he : atEnd ⟨Source.ofString text, offset⟩ = true := by
        simpa [atEnd] using ho
      rw [advanceBy, advance_of_atEnd he]
      exact ih h (by omega)

/-- Where a cursor in a text goes from its place, in one step and in many. -/
structure MovesOn (cursor : Cursor) (text : String) : Prop where
  step : cursor.atEnd = false → ¬ Torn text cursor.offset →
    cursor.offset + cursor.width ≤ maxOffset ∧ cursor.offset < cursor.advance.offset
  wraps : Torn text cursor.offset →
    cursor.offset + cursor.width = cursor.advance.offset + (maxOffset + 1) ∧
      cursor.advance.offset < cursor.offset
  ends : (∀ start, cursor.offset ≤ start → ¬ Torn text start) →
    (advanceBy cursor.source.size cursor).atEnd = true
  goesOn : ∀ start, cursor.offset ≤ start → Torn text start →
    ∀ count, (advanceBy count cursor).atEnd = false

theorem movesOn (text : String) (offset : Nat) :
    MovesOn ⟨Source.ofString text, offset⟩ text := by
  constructor
  · intro he hn
    have ho : offset < (Source.ofString text).size := offset_lt_of_atEnd he
    have hnext := advance_of_not_torn ho hn
    have hpos := leadWidth_pos ((Source.ofString text).byteAt offset)
    have hlt : offset < (advance ⟨Source.ofString text, offset⟩).offset := by
      rw [hnext.2]
      exact Nat.lt_add_of_pos_right hpos
    exact ⟨hnext.1, hlt⟩
  · intro htorn
    exact ⟨htorn.offset_advance.2, htorn.offset_advance_lt⟩
  · intro hn
    exact atEnd_advanceBy_of_not_torn hn (Nat.le_add_left _ _)
  · intro start hstart htorn count
    exact atEnd_advanceBy_of_torn htorn hstart

end Cursor

/-- A cursor stays in its source, and moves on until the end unless it meets a torn character. There
the sum of offset and width is too large for a word, and the walk begins anew. -/
theorem cursor_moves_on_unless_torn (text : String) (moves : List Cursor.Move) :
    ((Source.ofString text).cursor.after moves).offset ≤ (Source.ofString text).size ∧
      (Source.ofString text).size < (Source.ofString text).buffer.size ∧
      ((Source.ofString text).cursor.after moves).MovesOn text := by
  have hfirst : (Source.ofString text).cursor.offset ≤ (Source.ofString text).size :=
    Nat.zero_le _
  have hle := Cursor.offset_after_le hfirst moves
  have hsource := Cursor.source_after (Source.ofString text).cursor moves
  refine ⟨hle, Source.size_lt_size_buffer (Source.ofString text), ?_⟩
  generalize (Source.ofString text).cursor.after moves = cursor at hsource
  obtain ⟨source, offset⟩ := cursor
  obtain rfl : source = Source.ofString text := hsource
  exact Cursor.movesOn text offset

theorem encodedSize_replicate (count : Nat) (c : Char) :
    encodedSize (List.replicate count c) = count * c.utf8Size := by
  induction count with
  | zero => simp
  | succ count ih => rw [List.replicate_succ, encodedSize_cons, ih, Nat.succ_mul, Nat.add_comm]

/-- One byte less than the largest offset and then a character of two bytes: the cut is between these
two, the cursor goes from the first of them to the front, and no walk over this source ends. -/
theorem torn_character_is_read_for_ever :
    let source := Source.ofString (String.ofList (List.replicate (maxOffset - 1) 'a' ++ ['é']))
    let cursor := source.cursor.seek (maxOffset - 1)
    cursor.atEnd = false ∧ cursor.offset + cursor.width = maxOffset + 1 ∧
      cursor.advance = source.cursor ∧
      ∀ count, (Cursor.advanceBy count source.cursor).atEnd = false := by
  have hlast : maxOffset - 1 + 1 = maxOffset := by decide
  -- The text is too long to be computed.
  generalize maxOffset - 1 = last at hlast
  generalize htext : String.ofList (List.replicate last 'a' ++ ['é']) = text
  have hlist : text.toList = List.replicate last 'a' ++ 'é' :: [] := by
    rw [← htext, String.toList_ofList]
  have hfront : encodedSize (List.replicate last 'a') = last := by
    rw [encodedSize_replicate]
    exact Nat.mul_one last
  have hsize : 'é'.utf8Size = 2 := by decide
  have htorn : Torn text last := by
    refine ⟨List.replicate last 'a', 'é', [], hlist, hfront.symm, by omega, ?_⟩
    rw [hsize]
    omega
  have hz := htorn.size_eq
  have hbefore : last < (Source.ofString text).size := by omega
  have hwidth : Cursor.width ⟨Source.ofString text, last⟩ = 2 := by
    have hw := Source.width_of_char hlist (by rwa [hfront])
    rwa [hfront, hsize] at hw
  have hsum := htorn.offset_advance.2
  have hseek : (Source.ofString text).cursor.seek last = ⟨Source.ofString text, last⟩ :=
    congrArg (Cursor.mk (Source.ofString text)) (Nat.min_eq_left (Nat.le_of_lt hbefore))
  have hfirst : Cursor.advance ⟨Source.ofString text, last⟩ = (Source.ofString text).cursor := by
    have hzero : (Cursor.advance ⟨Source.ofString text, last⟩).offset = 0 := by omega
    rw [Cursor.advance_eq_mk, hzero]
    rfl
  simp only [hseek]
  refine ⟨?_, ?_, hfirst, ?_⟩
  · exact Cursor.atEnd_eq_false_of_lt hbefore
  · rw [hwidth]
    omega
  · intro count
    exact Cursor.atEnd_advanceBy_of_torn htorn (Nat.zero_le _)

end Offside
