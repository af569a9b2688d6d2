import Offside.Cursor

/-!
# Cursors before a text

A cursor is before a text when the bytes from it to the end are the encoding of that text. Then the
characters ahead are exactly the text, whatever lies in front of the cursor.
-/

namespace Offside

set_option autoImplicit false

set_option maxRecDepth 8192 in
theorem leadWidth_eq_utf8ByteSize (lead : UInt8) (h : lead.IsUTF8FirstByte) :
    leadWidth lead = lead.utf8ByteSize h := by
  have hn : ∀ n : Fin 256, ∀ h : (UInt8.ofNat n.val).IsUTF8FirstByte,
      leadWidth (UInt8.ofNat n.val) = (UInt8.ofNat n.val).utf8ByteSize h := by
    decide +kernel
  have hl : UInt8.ofNat lead.toNat = lead := UInt8.ofNat_toNat
  have := hn ⟨lead.toNat, lead.toNat_lt⟩
  simp only [hl] at this
  exact this h

theorem length_le_size_utf8Encode (text : List Char) : text.length ≤ text.utf8Encode.size := by
  induction text with
  | nil => simp
  | cons c rest ih =>
    have := c.utf8Size_pos
    rw [List.utf8Encode_cons, List.utf8Encode_singleton]
    simp only [ByteArray.size_append, List.size_toByteArray, String.length_utf8EncodeChar,
      List.length_cons]
    omega

namespace Cursor

theorem width_eq_of_decode {cursor : Cursor} {c : Char}
    (h : cursor.source.bytes.utf8DecodeChar? cursor.offset = some c) :
    cursor.width = c.utf8Size := by
  have hs : (cursor.source.bytes.utf8DecodeChar? cursor.offset).isSome := by simp [h]
  have hw := ByteArray.utf8Size_utf8DecodeChar (h := hs)
  rw [width, Source.byteAt, getElem?_pos cursor.source.bytes cursor.offset
    (ByteArray.lt_size_of_isSome_utf8DecodeChar? hs), Option.getD_some,
    leadWidth_eq_utf8ByteSize _ (ByteArray.isUTF8FirstByte_of_isSome_utf8DecodeChar? hs), ← hw]
  simp [ByteArray.utf8DecodeChar, h]

/-- The bytes from the cursor to the end are the encoding of `text`. -/
structure Before (cursor : Cursor) (text : List Char) : Prop where
  bytes_eq : cursor.source.bytes.extract cursor.offset cursor.source.size = text.utf8Encode
  offset_le : cursor.offset ≤ cursor.source.size
  size_le : cursor.source.size ≤ maxOffset

namespace Before

variable {cursor : Cursor} {c : Char} {text rest : List Char}

theorem size_eq (h : cursor.Before text) :
    cursor.source.size = cursor.offset + text.utf8Encode.size := by
  have hs := congrArg ByteArray.size h.bytes_eq
  have := h.offset_le
  simp only [ByteArray.size_extract, Source.size] at hs this ⊢
  omega

theorem atEnd_iff (h : cursor.Before text) : cursor.atEnd ↔ text = [] := by
  have hs := h.size_eq
  rw [← List.utf8Encode_eq_empty, ← ByteArray.size_eq_zero_iff]
  simp only [atEnd, decide_eq_true_eq]
  omega

theorem atEnd_eq_false (h : cursor.Before (c :: rest)) : cursor.atEnd = false := by
  have := h.atEnd_iff
  simpa using this

theorem decode_eq (h : cursor.Before (c :: rest)) :
    cursor.source.bytes.utf8DecodeChar? cursor.offset = some c := by
  rw [ByteArray.utf8DecodeChar?_eq_utf8DecodeChar?_extract]
  exact (congrArg (ByteArray.utf8DecodeChar? · 0) h.bytes_eq).trans
    List.utf8DecodeChar?_utf8Encode_cons

theorem current_eq (h : cursor.Before (c :: rest)) : cursor.current = c := by
  simp [current, h.atEnd_eq_false, h.decode_eq]

theorem width_eq (h : cursor.Before (c :: rest)) : cursor.width = c.utf8Size :=
  width_eq_of_decode h.decode_eq

theorem offset_advance (h : cursor.Before (c :: rest)) :
    cursor.advance.offset = cursor.offset + c.utf8Size := by
  have hs := h.size_eq
  have hl := h.size_le
  rw [List.utf8Encode_cons, List.utf8Encode_singleton] at hs
  simp only [ByteArray.size_append, List.size_toByteArray, String.length_utf8EncodeChar,
    maxOffset] at hs hl
  simp only [Cursor.advance, h.atEnd_eq_false, h.width_eq, Bool.false_eq_true, if_false, maxOffset]
  omega

theorem advance (h : cursor.Before (c :: rest)) : cursor.advance.Before rest := by
  have hs := h.size_eq
  have ho := h.offset_advance
  have hb := congrArg
    (fun b => b.extract c.utf8Size (c.utf8Size + rest.utf8Encode.size)) h.bytes_eq
  rw [List.utf8Encode_cons, List.utf8Encode_singleton] at hs hb
  simp only [ByteArray.size_append, List.size_toByteArray, String.length_utf8EncodeChar] at hs
  refine ⟨?_, by rw [ho, source_advance]; omega, by simpa using h.size_le⟩
  rw [ByteArray.extract_append_eq_right (by simp) (by simp)] at hb
  simp only [ByteArray.extract_extract] at hb
  rw [ho, source_advance, ← hb]
  congr 1
  omega

theorem map_current_stopsWithin {count : Nat} (h : cursor.Before text)
    (hc : text.length ≤ count) : (stopsWithin count cursor).map current = text := by
  induction text generalizing cursor count with
  | nil =>
    cases count with
    | zero => rfl
    | succ count => simp [stopsWithin, h.atEnd_iff.mpr rfl]
  | cons c rest ih =>
    cases count with
    | zero => simp at hc
    | succ count =>
      simp only [List.length_cons] at hc
      have hr := ih h.advance (Nat.le_of_succ_le_succ hc)
      simp [stopsWithin, h.atEnd_eq_false, h.current_eq, hr]

theorem ahead_eq (h : cursor.Before text) : cursor.ahead = text := by
  refine h.map_current_stopsWithin ?_
  have := length_le_size_utf8Encode text
  have := h.size_eq
  omega

end Before

theorem before_of_append {front text : List Char}
    (h : (front ++ text).utf8Encode.size ≤ maxOffset) :
    Before ⟨Source.ofString (String.ofList (front ++ text)), front.utf8Encode.size⟩ text := by
  have hb : (Source.ofString (String.ofList (front ++ text))).bytes =
      (front ++ text).utf8Encode := by
    rw [Source.bytes_ofString (by rw [← String.size_toByteArray]; simpa using h)]
    simp
  have hs : (Source.ofString (String.ofList (front ++ text))).size =
      front.utf8Encode.size + text.utf8Encode.size := by
    rw [Source.size, hb, List.utf8Encode_append, ByteArray.size_append]
  rw [List.utf8Encode_append, ByteArray.size_append] at h
  refine ⟨?_, ?_, ?_⟩
  · rw [hs, hb, List.utf8Encode_append]
    exact ByteArray.extract_append_eq_right rfl rfl
  · rw [hs]
    exact Nat.le_add_right _ _
  · rw [hs]
    exact h

end Cursor

end Offside
