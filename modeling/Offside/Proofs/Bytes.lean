import Offside.Proofs.OneByte

/-!
# Characters and bytes

A byte below 0x80 is a character by itself wherever it stands, and the bytes of all other characters
lie above. So a search for characters of one byte may as well look at the bytes.
-/

namespace Offside

set_option autoImplicit false

theorem forall_byte {P : UInt8 → Prop} (h : ∀ n : Fin 256, P (UInt8.ofNat n.val)) (byte : UInt8) :
    P byte := by
  have hb : UInt8.ofNat byte.toNat = byte := UInt8.ofNat_toNat
  exact hb ▸ h ⟨byte.toNat, byte.toNat_lt⟩

set_option maxRecDepth 8192 in
theorem leadWidth_of_not_isUTF8FirstByte :
    ∀ byte : UInt8, ¬ byte.IsUTF8FirstByte → leadWidth byte = 1 :=
  forall_byte (by decide +kernel)

set_option maxRecDepth 8192 in
theorem isUTF8FirstByte_of_lt :
    ∀ byte : UInt8, byte < 0x80 → byte.IsUTF8FirstByte ∧ leadWidth byte = 1 :=
  forall_byte (by decide +kernel)

theorem toUInt8_lt_of_utf8Size {c : Char} (h : c.utf8Size = 1) : c.toUInt8 < 0x80 := by
  have hv : c.val ≤ 127 := Char.utf8Size_eq_one_iff.mp h
  have hn : c.toNat ≤ 127 := UInt32.le_iff_toNat_le.mp hv
  have hb : c.toUInt8.toNat = c.toNat % 256 := rfl
  rw [UInt8.lt_iff_toNat_lt, hb]
  change c.toNat % 256 < 128
  omega

theorem encodedSize_le_of_lt {front other rest later : List Char} {c : Char}
    (h : front ++ c :: rest = other ++ later) (hl : encodedSize front < encodedSize other) :
    encodedSize front + c.utf8Size ≤ encodedSize other := by
  rcases List.append_eq_append_iff.mp h with ⟨between, rfl, hr⟩ | ⟨between, rfl, -⟩
  · cases between with
    | nil => simp at hl
    | cons first between =>
      obtain ⟨rfl, -⟩ := List.cons.inj hr
      simp only [encodedSize_append, encodedSize_cons]
      omega
  · simp only [encodedSize_append] at hl
    omega

theorem Cursor.offset_lt_of_atEnd {cursor : Cursor} (he : cursor.atEnd = false) :
    cursor.offset < cursor.source.size := by
  simpa [atEnd] using he

namespace Cursor.Before

variable {cursor : Cursor} {c : Char} {rest : List Char}

theorem leadWidth_byteAt (h : cursor.Before (c :: rest)) :
    leadWidth (cursor.source.byteAt cursor.offset) = c.utf8Size := h.width_eq

theorem byteAt_eq (h : cursor.Before (c :: rest)) (hc : c.utf8Size = 1) :
    cursor.source.byteAt cursor.offset = c.toUInt8 := by
  have hlt : cursor.offset < cursor.source.bytes.size := offset_lt_of_atEnd h.atEnd_eq_false
  have hencode : (c :: rest).utf8Encode = [c.toUInt8].toByteArray ++ rest.utf8Encode := by
    rw [List.utf8Encode_cons, List.utf8Encode_singleton, String.utf8EncodeChar_eq_singleton hc]
    rfl
  have hextract : 0 < (cursor.source.bytes.extract cursor.offset cursor.source.size).size := by
    rw [ByteArray.size_extract, Source.size]
    omega
  have hfirst := ByteArray.getElem_extract hextract
  rw [Source.byteAt, getElem?_pos cursor.source.bytes cursor.offset hlt, Option.getD_some]
  simp only [Nat.add_zero] at hfirst
  rw [← hfirst]
  simp only [h.bytes_eq, hencode]
  rfl

end Cursor.Before

namespace Source

variable {text : String}

theorem size_eq_utf8ByteSize (hs : text.utf8ByteSize ≤ maxOffset) :
    (ofString text).size = text.utf8ByteSize := by
  rw [size_ofString, Nat.min_eq_left hs]

theorem isValid_size (hs : text.utf8ByteSize ≤ maxOffset) :
    String.Pos.Raw.IsValid text ⟨(ofString text).size⟩ := by
  rw [size_eq_utf8ByteSize hs]
  exact String.Pos.Raw.isValid_rawEndPos

theorem isValid_iff_exists {offset : Nat} : String.Pos.Raw.IsValid text ⟨offset⟩ ↔
    ∃ front rest, text.toList = front ++ rest ∧ offset = encodedSize front := by
  rw [String.Pos.Raw.isValid_iff_exists_append]
  constructor
  · rintro ⟨lead, later, rfl, hp⟩
    refine ⟨lead.toList, later.toList, String.toList_append, ?_⟩
    rw [← utf8ByteSize_eq]
    exact congrArg String.Pos.Raw.byteIdx hp
  · rintro ⟨front, rest, ht, rfl⟩
    refine ⟨String.ofList front, String.ofList rest, ?_, ?_⟩
    · rw [← String.ofList_append, ← ht, String.ofList_toList]
    · rw [← utf8ByteSize_ofList]
      rfl

theorem exists_append_of_isValid {start stop : Nat} (hl : start ≤ stop)
    (hstart : String.Pos.Raw.IsValid text ⟨start⟩) (hstop : String.Pos.Raw.IsValid text ⟨stop⟩) :
    ∃ front inner rest, text.toList = front ++ (inner ++ rest) ∧ start = encodedSize front ∧
      stop = encodedSize front + encodedSize inner := by
  obtain ⟨front, rest, ht, rfl⟩ := isValid_iff_exists.mp hstart
  obtain ⟨other, later, ho, rfl⟩ := isValid_iff_exists.mp hstop
  rcases List.append_eq_append_iff.mp (ht.symm.trans ho) with
    ⟨inner, rfl, rfl⟩ | ⟨inner, rfl, -⟩
  · exact ⟨front, inner, later, ht, rfl, encodedSize_append front inner⟩
  · rw [encodedSize_append] at hl
    refine ⟨other ++ inner, [], rest, ht, rfl, ?_⟩
    rw [encodedSize_append, encodedSize_nil]
    omega

theorem slice_eq_slice_min (source : Source) (start stop : Nat) :
    source.slice start stop =
      source.slice (min start (min stop source.size)) (min stop source.size) := by
  simp only [slice, Nat.min_assoc, Nat.min_self]

theorem slice_self (source : Source) (offset : Nat) : source.slice offset offset = "" := by
  have hempty (offset : Nat) : source.bytes.extract offset offset = ByteArray.empty := by
    rw [ByteArray.extract_eq_empty_iff]
    exact Nat.min_le_left _ _
  rw [slice, Nat.min_eq_right (Nat.min_le_left _ _), hempty]
  rfl

/-- A range that begins or ends inside of a character is the encoding of no text. -/
theorem not_isValidUTF8_extract {start stop : Nat} (hl : start < stop)
    (hstop : stop ≤ text.utf8ByteSize)
    (h : ¬ (String.Pos.Raw.IsValid text ⟨start⟩ ∧ String.Pos.Raw.IsValid text ⟨stop⟩)) :
    ¬ (text.toByteArray.extract start stop).IsValidUTF8 := by
  have hvalid := String.Pos.Raw.isValidUTF8_extract_iff (s := text) ⟨start⟩ ⟨stop⟩
    (Nat.le_of_lt hl) hstop
  intro hv
  rcases hvalid.mp hv with hp | hp
  · exact Nat.ne_of_lt hl (congrArg String.Pos.Raw.byteIdx hp)
  · exact h hp

theorem slice_of_not_isValid (hs : text.utf8ByteSize ≤ maxOffset) {start stop : Nat}
    (hstart : start ≤ stop) (hstop : stop ≤ (ofString text).size)
    (h : ¬ (String.Pos.Raw.IsValid text ⟨start⟩ ∧ String.Pos.Raw.IsValid text ⟨stop⟩)) :
    (ofString text).slice start stop = "" := by
  rcases Nat.eq_or_lt_of_le hstart with rfl | hlt
  · exact slice_self _ _
  have hbytes : (ofString text).bytes = text.toByteArray := bytes_ofString hs
  have hne := not_isValidUTF8_extract hlt (size_eq_utf8ByteSize hs ▸ hstop) h
  rw [slice, Nat.min_eq_left hstop, Nat.min_eq_left hstart, hbytes, String.fromUTF8?, dif_neg hne]
  rfl

/-- Between characters the characters ahead are those behind, and inside of one nothing is read. -/
theorem before_or_replacement (hs : text.utf8ByteSize ≤ maxOffset) {offset : Nat}
    (ho : offset ≤ (ofString text).size) :
    (∃ front rest, text.toList = front ++ rest ∧ offset = encodedSize front) ∨
      Cursor.atEnd ⟨ofString text, offset⟩ = false ∧
        Cursor.current ⟨ofString text, offset⟩ = replacement := by
  have hb : (ofString text).bytes = text.toByteArray := bytes_ofString hs
  have hz : (ofString text).size = text.rawEndPos.byteIdx := congrArg ByteArray.size hb
  by_cases hv : String.Pos.Raw.IsValid text ⟨offset⟩
  · exact .inl (isValid_iff_exists.mp hv)
  · right
    rw [String.Pos.Raw.isValid_iff_isSome_utf8DecodeChar?, not_or, ← hb] at hv
    obtain ⟨hend, hd⟩ := hv
    have hl : offset < (ofString text).size := by
      apply Nat.lt_of_le_of_ne ho
      rintro rfl
      exact hend (congrArg String.Pos.Raw.mk hz)
    have he : Cursor.atEnd ⟨ofString text, offset⟩ = false := by
      simpa [Cursor.atEnd] using hl
    have hn : (ofString text).bytes.utf8DecodeChar? offset = none := by
      simpa using hd
    refine ⟨he, ?_⟩
    simp only [Cursor.current, he, Bool.false_eq_true, if_false, hn]
    rfl

/-- The bytes that start characters stand between characters, and the others inside of them. -/
theorem isUTF8FirstByte_byteAt_iff (hs : text.utf8ByteSize ≤ maxOffset) {offset : Nat}
    (ho : offset < (ofString text).size) :
    ((ofString text).byteAt offset).IsUTF8FirstByte ↔
      ∃ front rest, text.toList = front ++ rest ∧ offset = encodedSize front := by
  have hb : (ofString text).bytes = text.toByteArray := bytes_ofString hs
  have hz : (ofString text).size = text.utf8ByteSize := size_eq_utf8ByteSize hs
  have hlt : (⟨offset⟩ : String.Pos.Raw) < text.rawEndPos := by
    change offset < text.utf8ByteSize
    omega
  have hne : (⟨offset⟩ : String.Pos.Raw) ≠ text.rawEndPos := by
    intro he
    have : offset = text.utf8ByteSize := congrArg String.Pos.Raw.byteIdx he
    omega
  have hget : (ofString text).byteAt offset = text.getUTF8Byte ⟨offset⟩ hlt := by
    rw [byteAt, getElem?_pos (ofString text).bytes offset ho, Option.getD_some]
    simp only [hb]
    rfl
  rw [← isValid_iff_exists, String.Pos.Raw.isValid_iff_isUTF8FirstByte, hget]
  simp [hne, hlt]

theorem exists_char_of_isValid {offset : Nat} (ho : offset < text.utf8ByteSize)
    (hv : String.Pos.Raw.IsValid text ⟨offset⟩) :
    ∃ front c rest, text.toList = front ++ c :: rest ∧ offset = encodedSize front := by
  obtain ⟨front, rest, ht, rfl⟩ := isValid_iff_exists.mp hv
  cases rest with
  | nil =>
    rw [utf8ByteSize_eq, ht, encodedSize_append, encodedSize_nil] at ho
    exact absurd ho (Nat.lt_irrefl _)
  | cons c rest => exact ⟨front, c, rest, ht, rfl⟩

theorem exists_char_of_isUTF8FirstByte (hs : text.utf8ByteSize ≤ maxOffset) {offset : Nat}
    (ho : offset < (ofString text).size)
    (hf : ((ofString text).byteAt offset).IsUTF8FirstByte) :
    ∃ front c rest, text.toList = front ++ c :: rest ∧ offset = encodedSize front := by
  rw [isUTF8FirstByte_byteAt_iff hs ho, ← isValid_iff_exists] at hf
  rw [size_eq_utf8ByteSize hs] at ho
  exact exists_char_of_isValid ho hf

theorem current_width_of_not_isValid (hs : text.utf8ByteSize ≤ maxOffset) {offset : Nat}
    (ho : offset < (ofString text).size) (hv : ¬ String.Pos.Raw.IsValid text ⟨offset⟩) :
    Cursor.current ⟨ofString text, offset⟩ = replacement ∧
      Cursor.width ⟨ofString text, offset⟩ = 1 := by
  rw [isValid_iff_exists] at hv
  constructor
  · exact ((before_or_replacement hs (Nat.le_of_lt ho)).resolve_left hv).2
  · apply leadWidth_of_not_isUTF8FirstByte
    rwa [isUTF8FirstByte_byteAt_iff hs ho]

theorem le_byteAt_of_utf8Size (hs : text.utf8ByteSize ≤ maxOffset) {front rest : List Char}
    {c : Char} (ht : text.toList = front ++ c :: rest) (hc : c.utf8Size ≠ 1) {place : Nat}
    (hfrom : encodedSize front ≤ place) (hto : place < encodedSize front + c.utf8Size) :
    0x80 ≤ (ofString text).byteAt place := by
  have hb := before_of_toList_eq ht hs
  have hz := hb.size_eq
  rw [size_utf8Encode, encodedSize_cons] at hz
  apply UInt8.not_lt.mp
  intro hlow
  rcases Nat.lt_or_eq_of_le hfrom with hless | rfl
  · have hplace : place < (ofString text).size := by
      simp only at hz
      omega
    obtain ⟨other, d, later, ho, rfl⟩ :=
      exists_char_of_isUTF8FirstByte hs hplace (isUTF8FirstByte_of_lt _ hlow).1
    have := encodedSize_le_of_lt (ht.symm.trans ho) hless
    omega
  · exact hc (hb.leadWidth_byteAt.symm.trans (isUTF8FirstByte_of_lt _ hlow).2)

end Source

/-- How a cursor takes the character under it: a byte that is the character, or high bytes only. -/
inductive Cursor.Takes (cursor : Cursor) : Prop
  | one (size : cursor.current.utf8Size = 1)
      (byte : cursor.source.byteAt cursor.offset = cursor.current.toUInt8)
      (next : cursor.advance.offset = cursor.offset + 1)
  | more (size : cursor.current.utf8Size ≠ 1) (lt : cursor.offset < cursor.advance.offset)
      (bytes : ∀ place, cursor.offset ≤ place → place < cursor.advance.offset →
        0x80 ≤ cursor.source.byteAt place)

namespace Cursor

variable {cursor : Cursor} {text : String}

theorem takes_of_before (hs : text.utf8ByteSize ≤ maxOffset) {front rest : List Char} {c : Char}
    (ht : text.toList = front ++ c :: rest) :
    Takes ⟨Source.ofString text, encodedSize front⟩ := by
  have hb := Source.before_of_toList_eq ht hs
  have hnext := hb.offset_advance
  by_cases hc : c.utf8Size = 1
  · apply Takes.one
    · rw [hb.current_eq, hc]
    · rw [hb.current_eq, hb.byteAt_eq hc]
    · rw [hnext, hc]
  · apply Takes.more
    · rwa [hb.current_eq]
    · have := c.utf8Size_pos
      omega
    · intro place hfrom hto
      rw [hnext] at hto
      exact Source.le_byteAt_of_utf8Size hs ht hc hfrom hto

theorem takes_of_not_isUTF8FirstByte (hz : cursor.source.size ≤ maxOffset)
    (he : cursor.atEnd = false) (hr : cursor.current = replacement)
    (hn : ¬ (cursor.source.byteAt cursor.offset).IsUTF8FirstByte) : cursor.Takes := by
  have hw : cursor.width = 1 := leadWidth_of_not_isUTF8FirstByte _ hn
  have hlt := offset_lt_of_atEnd he
  have hnext : cursor.advance.offset = cursor.offset + 1 := by
    simp only [maxOffset] at hz
    simp only [advance, he, hw, Bool.false_eq_true, if_false, maxOffset]
    omega
  apply Takes.more
  · rw [hr]
    decide
  · omega
  · intro place hfrom hto
    obtain rfl : place = cursor.offset := by omega
    apply UInt8.not_lt.mp
    intro hlow
    exact hn (isUTF8FirstByte_of_lt _ hlow).1

theorem takes (hs : text.utf8ByteSize ≤ maxOffset) (hc : cursor.source = Source.ofString text)
    (he : cursor.atEnd = false) : cursor.Takes := by
  have hlt := offset_lt_of_atEnd he
  obtain ⟨source, offset⟩ := cursor
  obtain rfl : source = Source.ofString text := hc
  by_cases hf : ((Source.ofString text).byteAt offset).IsUTF8FirstByte
  · obtain ⟨front, c, rest, ht, rfl⟩ := Source.exists_char_of_isUTF8FirstByte hs hlt hf
    exact takes_of_before hs ht
  · have hz : (Source.ofString text).size ≤ maxOffset := Source.size_eq_utf8ByteSize hs ▸ hs
    rcases Source.before_or_replacement hs (Nat.le_of_lt hlt) with hb | ⟨-, hr⟩
    · exact absurd ((Source.isUTF8FirstByte_byteAt_iff hs hlt).mpr hb) hf
    · exact takes_of_not_isUTF8FirstByte hz he hr hf

theorem Takes.offset_lt (h : cursor.Takes) : cursor.offset < cursor.advance.offset := by
  cases h with
  | one _ _ next => omega
  | more _ lt => exact lt

theorem offset_advance_le_size (he : cursor.atEnd = false) :
    cursor.advance.offset ≤ cursor.source.size := by
  simp only [advance, he, Bool.false_eq_true, if_false]
  exact Nat.min_le_right _ _

theorem offset_advance_le (h : cursor.offset ≤ cursor.source.size) :
    cursor.advance.offset ≤ cursor.source.size := by
  cases he : cursor.atEnd with
  | true => rwa [advance_of_atEnd he]
  | false => exact offset_advance_le_size he

theorem le_offset_advance (hs : text.utf8ByteSize ≤ maxOffset)
    (hc : cursor.source = Source.ofString text) : cursor.offset ≤ cursor.advance.offset := by
  cases he : cursor.atEnd with
  | true => exact Nat.le_of_eq (congrArg offset (advance_of_atEnd he).symm)
  | false => exact Nat.le_of_lt (takes hs hc he).offset_lt

theorem stopsWithin_congr (hs : text.utf8ByteSize ≤ maxOffset)
    (hc : cursor.source = Source.ofString text) {first second : Nat}
    (hf : cursor.source.size - cursor.offset ≤ first)
    (ho : cursor.source.size - cursor.offset ≤ second) :
    stopsWithin first cursor = stopsWithin second cursor := by
  by_cases he : cursor.atEnd = true
  · cases first <;> cases second <;> simp [stopsWithin, he]
  induction first generalizing second cursor with
  | zero =>
    have := offset_lt_of_atEnd (by simpa using he)
    omega
  | succ first ih =>
    have hend : cursor.atEnd = false := by simpa using he
    have hlt := offset_lt_of_atEnd hend
    have hnext := (takes hs hc hend).offset_lt
    cases second with
    | zero => omega
    | succ second =>
      have hsource := source_advance cursor
      simp only [stopsWithin, hend, Bool.false_eq_true, if_false]
      congr 1
      by_cases hlast : cursor.advance.atEnd = true
      · cases first <;> cases second <;> simp [stopsWithin, hlast]
      · exact ih (hsource.trans hc) (by rw [hsource]; omega) (by rw [hsource]; omega) hlast

theorem ahead_eq_cons (hs : text.utf8ByteSize ≤ maxOffset)
    (hc : cursor.source = Source.ofString text) (he : cursor.atEnd = false) :
    cursor.ahead = cursor.current :: cursor.advance.ahead := by
  have hlt := (takes hs hc he).offset_lt
  have hsource := source_advance cursor
  refine ahead_eq_cons_iff.mpr ⟨he, rfl, ?_⟩
  rw [ahead, stops]
  congr 1
  apply stopsWithin_congr hs (hsource.trans hc)
  · rw [hsource]
    omega
  · exact Nat.le_refl _

theorem ahead_of_atEnd (he : cursor.atEnd = true) : cursor.ahead = [] := by
  have hz : cursor.source.size - cursor.offset = 0 := by
    simp only [atEnd, decide_eq_true_eq] at he
    omega
  rw [ahead, stops, hz]
  rfl

end Cursor

/-- Of characters of one byte those are kept whose byte is kept, and nothing else is left out. -/
structure Agree (keepChar : Char → Bool) (keepByte : UInt8 → Bool) : Prop where
  one : ∀ c : Char, c.utf8Size = 1 → keepByte c.toUInt8 = keepChar c
  more : ∀ c : Char, c.utf8Size ≠ 1 → keepChar c = true
  high : ∀ byte : UInt8, 0x80 ≤ byte → keepByte byte = true

/-- A search through the bytes from `start` that goes on over the bytes kept ends at `stop`. -/
structure Source.Search (source : Source) (keep : UInt8 → Bool) (start stop : Nat) : Prop where
  start_le : start ≤ stop
  stop_le : stop ≤ source.size
  kept : ∀ place, start ≤ place → place < stop → keep (source.byteAt place) = true
  ends : stop < source.size → keep (source.byteAt stop) = false

namespace Cursor

variable {cursor : Cursor} {text : String} {keepChar : Char → Bool} {keepByte : UInt8 → Bool}

theorem Takes.kept (h : cursor.Takes) (ha : Agree keepChar keepByte)
    (hk : keepChar cursor.current = true) {place : Nat} (hfrom : cursor.offset ≤ place)
    (hto : place < cursor.advance.offset) : keepByte (cursor.source.byteAt place) = true := by
  cases h with
  | one size byte next =>
    obtain rfl : place = cursor.offset := by omega
    rw [byte, ha.one _ size, hk]
  | more _ _ bytes => exact ha.high _ (bytes place hfrom hto)

/-- A walk over the characters that are kept ends where the search through the bytes does. -/
theorem search_takeWhile (hs : text.utf8ByteSize ≤ maxOffset) (ha : Agree keepChar keepByte)
    (hc : cursor.source = Source.ofString text) (hle : cursor.offset ≤ cursor.source.size) :
    cursor.source.Search keepByte cursor.offset
        (advanceBy (cursor.ahead.takeWhile keepChar).length cursor).offset ∧
      (advanceBy (cursor.ahead.takeWhile keepChar).length cursor).ahead =
        cursor.ahead.drop (cursor.ahead.takeWhile keepChar).length := by
  generalize hahead : cursor.ahead = ahead
  induction ahead generalizing cursor with
  | nil =>
    have he : cursor.atEnd = true := by
      cases hend : cursor.atEnd with
      | true => rfl
      | false => simp [ahead_eq_cons hs hc hend] at hahead
    have hge : cursor.source.size ≤ cursor.offset := by simpa [atEnd] using he
    refine ⟨⟨Nat.le_refl _, hle, ?_, ?_⟩, hahead⟩
    · intro place hfrom hto
      exact absurd hto (Nat.not_lt.mpr hfrom)
    · intro hlt
      exact absurd hlt (Nat.not_lt.mpr hge)
  | cons c rest ih =>
    have he : cursor.atEnd = false := (ahead_eq_cons_iff.mp hahead).1
    have htakes := takes hs hc he
    rw [ahead_eq_cons hs hc he, List.cons.injEq] at hahead
    obtain ⟨rfl, hrest⟩ := hahead
    by_cases hk : keepChar cursor.current = true
    · have hsource := source_advance cursor
      obtain ⟨hsearch, hdrop⟩ := ih (hsource.trans hc)
        (by rw [hsource]; exact offset_advance_le_size he) hrest
      rw [hsource] at hsearch
      simp only [List.takeWhile_cons, hk, if_true, List.length_cons, advanceBy,
        List.drop_succ_cons]
      refine ⟨⟨?_, hsearch.stop_le, ?_, hsearch.ends⟩, hdrop⟩
      · exact Nat.le_trans (Nat.le_of_lt htakes.offset_lt) hsearch.start_le
      · intro place hfrom hto
        by_cases hfirst : place < cursor.advance.offset
        · exact htakes.kept ha hk hfrom hfirst
        · exact hsearch.kept place (Nat.not_lt.mp hfirst) hto
    · simp only [List.takeWhile_cons, hk, Bool.false_eq_true, if_false, List.length_nil, advanceBy,
        List.drop_zero]
      refine ⟨⟨Nat.le_refl _, hle, ?_, ?_⟩, ?_⟩
      · intro place hfrom hto
        exact absurd hto (Nat.not_lt.mpr hfrom)
      · intro _
        cases htakes with
        | one size byte => simpa [byte, ha.one _ size] using hk
        | more size => exact absurd (ha.more _ size) hk
      · rw [ahead_eq_cons hs hc he, hrest]

end Cursor

end Offside
