import Offside.Proofs.Buffer

/-!
# Walks over a source

From the front of a source a walk gives the characters of the text at the offsets of their first
bytes. From inside of a character the cursor is at the next boundary after three bytes at the
latest.
-/

namespace Offside

set_option autoImplicit false

section Boundaries

variable {text : String} {front rest : List Char} {c : Char} {offset : Nat}

/-- The place that follows `offset` among the boundaries of a text. -/
structure NextBoundary (text : String) (offset stop : Nat) : Prop where
  lt : offset < stop
  isValid : String.Pos.Raw.IsValid text ⟨stop⟩
  inner : ∀ place, offset < place → place < stop → ¬ String.Pos.Raw.IsValid text ⟨place⟩

theorem exists_char_over {characters : List Char} (h : offset < encodedSize characters) :
    ∃ front c rest, characters = front ++ c :: rest ∧ encodedSize front ≤ offset ∧
      offset < encodedSize front + c.utf8Size := by
  induction characters generalizing offset with
  | nil => cases h
  | cons first later ih =>
    by_cases hfirst : offset < first.utf8Size
    · exact ⟨[], first, later, rfl, Nat.zero_le _, by simpa using hfirst⟩
    · have hlater : offset - first.utf8Size < encodedSize later := by
        rw [encodedSize_cons] at h
        omega
      obtain ⟨front, c, rest, rfl, hfrom, hto⟩ := ih hlater
      refine ⟨first :: front, c, rest, rfl, ?_, ?_⟩
      · rw [encodedSize_cons]
        omega
      · rw [encodedSize_cons]
        omega

theorem not_isValid_of_inner (ht : text.toList = front ++ c :: rest)
    (hfrom : encodedSize front < offset) (hto : offset < encodedSize front + c.utf8Size) :
    ¬ String.Pos.Raw.IsValid text ⟨offset⟩ := by
  intro hv
  obtain ⟨other, later, ho, rfl⟩ := Source.isValid_iff_exists.mp hv
  have := encodedSize_le_of_lt (ht.symm.trans ho) hfrom
  omega

theorem nextBoundary_of_char (ht : text.toList = front ++ c :: rest)
    (hfrom : encodedSize front ≤ offset) (hto : offset < encodedSize front + c.utf8Size) :
    NextBoundary text offset (encodedSize front + c.utf8Size) := by
  refine ⟨hto, ?_, ?_⟩
  · refine Source.isValid_iff_exists.mpr ⟨front ++ [c], rest, ?_, ?_⟩
    · rw [ht, List.append_assoc]
      rfl
    · rw [encodedSize_append, encodedSize_cons, encodedSize_nil, Nat.add_zero]
  · intro place hplace
    exact not_isValid_of_inner ht (Nat.lt_of_le_of_lt hfrom hplace)

end Boundaries

namespace Source

variable {text : String} {front rest : List Char} {c : Char} {offset : Nat}

theorem size_ofString_le_utf8ByteSize (text : String) :
    (ofString text).size ≤ text.utf8ByteSize := by
  rw [size_ofString]
  exact Nat.min_le_left _ _

theorem byteAt_ofString (h : offset < (ofString text).size) :
    (ofString text).byteAt offset = text.toByteArray[offset]?.getD 0 := by
  have hl := size_ofString_le_utf8ByteSize text
  have htext : offset < text.toByteArray.size := Nat.lt_of_lt_of_le h hl
  rw [byteAt, getElem?_pos (ofString text).bytes offset h, getElem?_pos text.toByteArray offset htext,
    Option.getD_some, Option.getD_some]
  refine (ByteArray.getElem_extract h).trans ?_
  simp only [Nat.zero_add]
  rfl

theorem width_of_char (ht : text.toList = front ++ c :: rest)
    (h : encodedSize front < (ofString text).size) :
    Cursor.width ⟨ofString text, encodedSize front⟩ = c.utf8Size := by
  have hbytes : text.toByteArray = front.utf8Encode ++ (c :: rest).utf8Encode := by
    rw [← List.utf8Encode_append, ← ht, String.utf8Encode_toList]
  have hdecode : text.toByteArray.utf8DecodeChar? (encodedSize front) = some c := by
    have hfront := size_utf8Encode front
    have hle : encodedSize front ≤ text.toByteArray.size := by
      rw [hbytes, ByteArray.size_append]
      omega
    have hextract : text.toByteArray.extract (encodedSize front) text.toByteArray.size =
        (c :: rest).utf8Encode := by
      rw [hbytes, ← hfront]
      exact ByteArray.extract_append_eq_right rfl ByteArray.size_append
    exact decode_of_extract hle (Nat.le_refl _) hextract
  rw [Cursor.width, byteAt_ofString h]
  exact leadWidth_of_decode hdecode

theorem width_of_not_isValid (h : offset < (ofString text).size)
    (hv : ¬ String.Pos.Raw.IsValid text ⟨offset⟩) :
    Cursor.width ⟨ofString text, offset⟩ = 1 := by
  have hl := size_ofString_le_utf8ByteSize text
  have htext : offset < text.toByteArray.size := Nat.lt_of_lt_of_le h hl
  apply leadWidth_of_not_isUTF8FirstByte
  intro hfirst
  rw [byteAt_ofString h, getElem?_pos text.toByteArray offset htext] at hfirst
  exact hv (String.Pos.Raw.isValid_iff_isUTF8FirstByte.mpr (.inr ⟨htext, hfirst⟩))

theorem offset_add_width_le {stop : Nat} (h : offset < (ofString text).size)
    (hl : offset < stop) (hv : String.Pos.Raw.IsValid text ⟨stop⟩) :
    offset + Cursor.width ⟨ofString text, offset⟩ ≤ stop := by
  by_cases hboundary : String.Pos.Raw.IsValid text ⟨offset⟩
  · have htext := Nat.lt_of_lt_of_le h (size_ofString_le_utf8ByteSize text)
    obtain ⟨front, c, rest, ht, rfl⟩ := exists_char_of_isValid htext hboundary
    obtain ⟨other, later, ho, rfl⟩ := isValid_iff_exists.mp hv
    rw [width_of_char ht h]
    exact encodedSize_le_of_lt (ht.symm.trans ho) hl
  · rw [width_of_not_isValid h hboundary]
    exact hl

end Source

namespace Cursor

variable {cursor last : Cursor} {text : String} {offset count : Nat}

theorem atEnd_eq_false_of_lt (h : cursor.offset < cursor.source.size) :
    cursor.atEnd = false := by
  simpa [atEnd] using h

theorem advance_of_le (he : cursor.atEnd = false)
    (hs : cursor.offset + cursor.width ≤ cursor.source.size)
    (hm : cursor.offset + cursor.width ≤ maxOffset) :
    cursor.advance = ⟨cursor.source, cursor.offset + cursor.width⟩ := by
  have hmod : (cursor.offset + cursor.width) % (maxOffset + 1) = cursor.offset + cursor.width :=
    Nat.mod_eq_of_lt (Nat.lt_succ_of_le hm)
  simp only [advance, he, Bool.false_eq_true, if_false, hmod, Nat.min_eq_left hs]

theorem advance_of_not_isValid (h : offset < (Source.ofString text).size)
    (hv : ¬ String.Pos.Raw.IsValid text ⟨offset⟩) :
    advance ⟨Source.ofString text, offset⟩ = ⟨Source.ofString text, offset + 1⟩ := by
  have hw := Source.width_of_not_isValid h hv
  have hm := Source.size_ofString_le text
  rw [advance_of_le (atEnd_eq_false_of_lt h), hw]
  · rw [hw]
    exact h
  · rw [hw]
    exact Nat.le_trans h hm

theorem advanceBy_of_inner (h : offset + count ≤ (Source.ofString text).size)
    (hv : ∀ place, offset ≤ place → place < offset + count →
      ¬ String.Pos.Raw.IsValid text ⟨place⟩) :
    advanceBy count ⟨Source.ofString text, offset⟩ = ⟨Source.ofString text, offset + count⟩ := by
  induction count generalizing offset with
  | zero => rfl
  | succ count ih =>
    have hfirst := hv offset (Nat.le_refl _) (by omega)
    have hnext := advance_of_not_isValid (by omega) hfirst
    rw [advanceBy, hnext, ih (by omega), Nat.add_right_comm, Nat.add_assoc]
    intro place hfrom hto
    exact hv place (by omega) (by omega)

/-- The character under the cursor and where it stands, and the same from the next place on, until
the end. -/
inductive Walk : Cursor → List (Nat × Char) → Cursor → Prop
  | done {cursor : Cursor} (ended : cursor.atEnd = true) : Walk cursor [] cursor
  | step {cursor last : Cursor} {read : List (Nat × Char)} (more : cursor.atEnd = false)
      (later : Walk cursor.advance read last) :
      Walk cursor ((cursor.offset, cursor.current) :: read) last

theorem Walk.unique {other : Cursor} {read found : List (Nat × Char)}
    (h : cursor.Walk read last) (ho : cursor.Walk found other) : read = found ∧ last = other := by
  induction h generalizing found with
  | done ended =>
    cases ho with
    | done => exact ⟨rfl, rfl⟩
    | step more => simp [ended] at more
  | step more _ ih =>
    cases ho with
    | done ended => simp [ended] at more
    | step _ later =>
      obtain ⟨rfl, rfl⟩ := ih later
      exact ⟨rfl, rfl⟩

end Cursor

/-- The characters of a text that begins at `offset`, each with the offset of its first byte. -/
def placed : Nat → List Char → List (Nat × Char)
  | _, [] => []
  | offset, c :: text => (offset, c) :: placed (offset + c.utf8Size) text

theorem le_of_mem_placed {text : List Char} {offset : Nat} {entry : Nat × Char}
    (h : entry ∈ placed offset text) : offset ≤ entry.1 := by
  induction text generalizing offset with
  | nil => cases h
  | cons c rest ih =>
    rcases List.mem_cons.mp h with rfl | hrest
    · exact Nat.le_refl _
    · exact Nat.le_trans (Nat.le_add_right _ _) (ih hrest)

/-- Every character takes a byte, so the offsets increase. -/
theorem pairwise_placed (offset : Nat) (text : List Char) :
    (placed offset text).Pairwise (fun first second => first.1 < second.1) := by
  induction text generalizing offset with
  | nil => exact List.Pairwise.nil
  | cons c rest ih =>
    refine List.Pairwise.cons ?_ (ih _)
    intro entry hentry
    have hle := le_of_mem_placed hentry
    have hpos := c.utf8Size_pos
    simp only
    omega

namespace Cursor

variable {cursor : Cursor} {text : String} {offset : Nat}

theorem Before.walk {ahead : List Char} (h : cursor.Before ahead) :
    cursor.Walk (placed cursor.offset ahead)
      ⟨cursor.source, cursor.offset + encodedSize ahead⟩ := by
  induction ahead generalizing cursor with
  | nil => exact .done (h.atEnd_iff.mpr rfl)
  | cons c rest ih =>
    have hlater := ih h.advance
    rw [h.offset_advance, source_advance, Nat.add_assoc] at hlater
    have hstep := Walk.step h.atEnd_eq_false hlater
    rwa [h.current_eq] at hstep

/-- What a cursor reads in a text, and where it comes from there. -/
structure Decodes (cursor : Cursor) (text : String) : Prop where
  character : cursor.atEnd = false → String.Pos.Raw.IsValid text ⟨cursor.offset⟩ →
    ∃ front c rest, text.toList = front ++ c :: rest ∧ cursor.offset = encodedSize front ∧
      cursor.current = c ∧ NextBoundary text cursor.offset cursor.advance.offset
  inside : ¬ String.Pos.Raw.IsValid text ⟨cursor.offset⟩ →
    cursor.current = replacement ∧ cursor.advance = ⟨cursor.source, cursor.offset + 1⟩ ∧
      ∃ count ≤ 3, NextBoundary text cursor.offset (advanceBy count cursor).offset
  ended : cursor.atEnd = true → cursor.current = '\x00' ∧ cursor.advance = cursor
  covered : cursor.atEnd = false → cursor.offset + cursor.width ≤ cursor.source.size
  buffered : cursor.current = readCharacter cursor.source.buffer cursor.offset

theorem decodes_character (hs : text.utf8ByteSize ≤ maxOffset)
    (ho : offset < (Source.ofString text).size) (hv : String.Pos.Raw.IsValid text ⟨offset⟩) :
    ∃ front c rest, text.toList = front ++ c :: rest ∧ offset = encodedSize front ∧
      current ⟨Source.ofString text, offset⟩ = c ∧
      NextBoundary text offset (advance ⟨Source.ofString text, offset⟩).offset := by
  rw [Source.size_eq_utf8ByteSize hs] at ho
  obtain ⟨front, c, rest, ht, rfl⟩ := Source.exists_char_of_isValid ho hv
  have hb := Source.before_of_toList_eq ht hs
  have hpos := c.utf8Size_pos
  refine ⟨front, c, rest, ht, rfl, hb.current_eq, ?_⟩
  rw [hb.offset_advance]
  exact nextBoundary_of_char ht (Nat.le_refl _) (Nat.lt_add_of_pos_right hpos)

/-- A character has at most four bytes, so inside of it there are at most three to go. -/
theorem resynchronizes (hs : text.utf8ByteSize ≤ maxOffset)
    (ho : offset < (Source.ofString text).size)
    (hv : ¬ String.Pos.Raw.IsValid text ⟨offset⟩) :
    ∃ count ≤ 3,
      NextBoundary text offset (advanceBy count ⟨Source.ofString text, offset⟩).offset := by
  have hz := Source.size_eq_utf8ByteSize hs
  have hlt : offset < encodedSize text.toList := by
    rwa [← utf8ByteSize_eq, ← hz]
  obtain ⟨front, c, rest, ht, hfrom, hto⟩ := exists_char_over hlt
  have hfour := c.utf8Size_le_four
  have hne : encodedSize front ≠ offset := by
    intro heq
    exact hv (Source.isValid_iff_exists.mpr ⟨front, c :: rest, ht, heq.symm⟩)
  have hend : encodedSize front + c.utf8Size ≤ (Source.ofString text).size := by
    rw [hz, utf8ByteSize_eq, ht, encodedSize_append, encodedSize_cons]
    omega
  obtain ⟨count, hstop⟩ := Nat.exists_eq_add_of_le (Nat.le_of_lt hto)
  refine ⟨count, by omega, ?_⟩
  rw [advanceBy_of_inner (by omega), ← hstop]
  · exact nextBoundary_of_char ht hfrom hto
  · intro place hplace hlast
    exact not_isValid_of_inner ht (by omega) (by omega)

theorem decodes (hs : text.utf8ByteSize ≤ maxOffset)
    (ho : offset ≤ (Source.ofString text).size) :
    Decodes ⟨Source.ofString text, offset⟩ text := by
  have hend := Source.isValid_size hs
  constructor
  · intro he hv
    exact decodes_character hs (offset_lt_of_atEnd he) hv
  · intro hv
    have hlt : offset < (Source.ofString text).size := by
      apply Nat.lt_of_le_of_ne ho
      rintro rfl
      exact hv hend
    exact ⟨(Source.current_width_of_not_isValid hs hlt hv).1, advance_of_not_isValid hlt hv,
      resynchronizes hs hlt hv⟩
  · intro he
    exact ⟨current_of_atEnd he, advance_of_atEnd he⟩
  · intro he
    have hlt : offset < (Source.ofString text).size := offset_lt_of_atEnd he
    exact Source.offset_add_width_le hlt hlt hend
  · exact current_eq_readCharacter _

end Cursor

/-- A walk from the front gives the text, and from any place a cursor finds back to it. -/
theorem cursor_decodes_the_text (text : String) (hs : text.utf8ByteSize ≤ maxOffset) :
    (∀ read last, (Source.ofString text).cursor.Walk read last ↔
      read = placed 0 text.toList ∧ last = ⟨Source.ofString text, text.utf8ByteSize⟩) ∧
    (placed 0 text.toList).Pairwise (fun first second => first.1 < second.1) ∧
    ∀ cursor : Cursor, cursor.source = Source.ofString text → ∀ offset,
      (cursor.seek offset).offset = min offset text.utf8ByteSize ∧
      ((cursor.seek offset).atEnd = true ↔ text.utf8ByteSize ≤ offset) ∧
      (cursor.seek offset).Decodes text := by
  have hz := Source.size_eq_utf8ByteSize hs
  refine ⟨?_, pairwise_placed 0 text.toList, ?_⟩
  · have hfront : text.toList = [] ++ text.toList := rfl
    have hb : (Source.ofString text).cursor.Before text.toList :=
      Source.before_of_toList_eq hfront hs
    have hwalk := hb.walk
    have hlast : (Source.ofString text).cursor.offset + encodedSize text.toList =
        text.utf8ByteSize := by
      rw [utf8ByteSize_eq]
      exact Nat.zero_add _
    rw [hlast] at hwalk
    intro read last
    constructor
    · intro h
      exact h.unique hwalk
    · rintro ⟨rfl, rfl⟩
      exact hwalk
  · rintro ⟨source, start⟩ hc offset
    obtain rfl : source = Source.ofString text := hc
    have ho : min offset (Source.ofString text).size ≤ (Source.ofString text).size :=
      Nat.min_le_right _ _
    refine ⟨?_, ?_, Cursor.decodes hs ho⟩
    · rw [← hz]
      rfl
    · simp only [Cursor.seek, Cursor.atEnd, decide_eq_true_eq, hz]
      omega

/-- A mark, a NUL and characters of one to four bytes, and a place inside of the last of them. -/
theorem cursor_decodes_the_text_mixed :
    let text := "\uFEFFa\x00é😀"
    let cursor := (Source.ofString text).cursor
    text.utf8ByteSize ≤ maxOffset ∧
      cursor.Walk [(0, '\uFEFF'), (3, 'a'), (4, '\x00'), (5, 'é'), (7, '😀')]
        ⟨.ofString text, 11⟩ ∧
      (cursor.seek 8).offset = 8 ∧ (cursor.seek 8).Decodes text := by
  intro text cursor
  have hs : text.utf8ByteSize ≤ maxOffset := by decide +kernel
  obtain ⟨hwalk, -, hplaces⟩ := cursor_decodes_the_text text hs
  obtain ⟨hoffset, -, hdecodes⟩ := hplaces cursor rfl 8
  refine ⟨hs, ?_, ?_, hdecodes⟩
  · apply (hwalk _ _).mpr
    constructor
    · decide +kernel
    · decide +kernel
  · rw [hoffset]
    decide +kernel

end Offside
