import Offside.Proofs.Bytes

/-!
# The buffer behind a cursor

A cursor reads out of a buffer, the source with zeros behind it up to a multiple of 64 bytes. No
zero stands inside of a character, so what is read there is what the bytes of the source say.
-/

namespace Offside

set_option autoImplicit false

/-- Reads the bytes that the one at `offset` announces, as far as there are any. -/
def readCharacter (bytes : ByteArray) (offset : Nat) : Char :=
  let lead := bytes[offset]?.getD 0
  if lead < 0x80 then Char.ofUInt8 lead
  else
    let stop := min (offset + leadWidth lead) bytes.size
    ((String.fromUTF8? (bytes.extract offset stop)).bind (·.toList.head?)).getD replacement

section Reading

variable {bytes : ByteArray} {offset stop : Nat} {c : Char}

theorem decode_of_extract {text : List Char} (hl : offset ≤ stop) (hs : stop ≤ bytes.size)
    (h : bytes.extract offset stop = (c :: text).utf8Encode) :
    bytes.utf8DecodeChar? offset = some c := by
  rw [ByteArray.utf8DecodeChar?_eq_utf8DecodeChar?_extract,
    ByteArray.extract_eq_extract_append_extract stop hl hs, h]
  exact ByteArray.utf8DecodeChar?_append_eq_some List.utf8DecodeChar?_utf8Encode_cons _

theorem leadWidth_of_decode (h : bytes.utf8DecodeChar? offset = some c) :
    leadWidth (bytes[offset]?.getD 0) = c.utf8Size := by
  have hc : Cursor.width ⟨⟨bytes⟩, offset⟩ = c.utf8Size := Cursor.width_eq_of_decode h
  exact hc

/-- A byte inside of a character starts none, and zero does. -/
theorem getElem?_ne_zero_of_decode {start place : Nat}
    (h : bytes.utf8DecodeChar? start = some c) (hfrom : start < place)
    (hto : place < start + c.utf8Size) : bytes[place]?.getD 0 ≠ 0 := by
  have hle := ByteArray.le_size_of_utf8DecodeChar?_eq_some h
  have he := extract_of_decode h
  have hplace : place < bytes.size := Nat.lt_of_lt_of_le hto hle
  have hindex : place - start < (bytes.extract start (start + c.utf8Size)).size := by
    rw [ByteArray.size_extract]
    omega
  have hencoded : place - start < (String.utf8EncodeChar c).length := by
    rw [String.length_utf8EncodeChar]
    omega
  have hbyte : bytes[place] = (String.utf8EncodeChar c)[place - start] := by
    have hget := ByteArray.getElem_extract hindex
    simp only [he, List.utf8Encode_singleton, List.getElem_toByteArray] at hget
    rw [hget]
    congr 1
    omega
  have hinner : ¬ bytes[place].IsUTF8FirstByte := by
    rw [hbyte, UInt8.isUTF8FirstByte_getElem_utf8EncodeChar]
    omega
  rw [getElem?_pos bytes place hplace, Option.getD_some]
  intro hzero
  rw [hzero] at hinner
  exact hinner (isUTF8FirstByte_of_lt 0 (by decide)).1

theorem decode_of_lt (h : offset < bytes.size) (hlow : bytes[offset]?.getD 0 < 0x80) :
    bytes.utf8DecodeChar? offset = some (Char.ofUInt8 (bytes[offset]?.getD 0)) := by
  rw [getElem?_pos bytes offset h, Option.getD_some] at hlow ⊢
  have hn : bytes[offset].toNat < 128 := hlow
  have hsize : (Char.ofUInt8 bytes[offset]).utf8Size = 1 := by
    rw [Char.utf8Size_eq_one_iff, UInt32.le_iff_toNat_le]
    change bytes[offset].toNat ≤ 127
    omega
  have hbyte : (Char.ofUInt8 bytes[offset]).val.toUInt8 = bytes[offset] := by
    apply UInt8.toNat_inj.mp
    change bytes[offset].toNat % 256 = bytes[offset].toNat
    omega
  have hextract : bytes.extract offset (offset + 1) =
      [Char.ofUInt8 bytes[offset]].utf8Encode := by
    rw [ByteArray.extract_add_one h, List.utf8Encode_singleton,
      String.utf8EncodeChar_eq_singleton hsize, hbyte]
  exact decode_of_extract (Nat.le_succ offset) h hextract

theorem readCharacter_eq (h : offset < bytes.size) :
    readCharacter bytes offset = (bytes.utf8DecodeChar? offset).getD replacement := by
  unfold readCharacter
  simp only
  split
  · rename_i hlow
    rw [decode_of_lt h hlow, Option.getD_some]
  congr 1
  cases hd : bytes.utf8DecodeChar? offset with
  | some c =>
    have hle := ByteArray.le_size_of_utf8DecodeChar?_eq_some hd
    rw [leadWidth_of_decode hd, Nat.min_eq_left hle, extract_of_decode hd, fromUTF8?_utf8Encode,
      Option.bind_some, String.toList_ofList, List.head?_cons]
  | none =>
    have hpos := leadWidth_pos (bytes[offset]?.getD 0)
    generalize hstop : min (offset + leadWidth (bytes[offset]?.getD 0)) bytes.size = stop
    rw [String.fromUTF8?]
    split
    · rename_i hvalid
      obtain ⟨text, htext⟩ := hvalid
      cases text with
      | nil =>
        have hsize := congrArg ByteArray.size htext
        rw [ByteArray.size_extract, List.utf8Encode_nil, ByteArray.size_empty] at hsize
        omega
      | cons c text =>
        have hc := decode_of_extract (by omega) (by omega) htext
        rw [hd] at hc
        cases hc
    · rfl

end Reading

namespace Source

/-- The source with zeros behind it, at least one and as many as fill 64 bytes. -/
def buffer (source : Source) : ByteArray :=
  source.bytes ++ (List.replicate (64 - source.size % 64) 0).toByteArray

variable {source : Source} {offset : Nat}

theorem size_buffer (source : Source) : source.buffer.size = (source.size / 64 + 1) * 64 := by
  have hdiv := Nat.div_add_mod source.size 64
  have hmod := Nat.mod_lt source.size (by decide : 0 < 64)
  simp only [buffer, ByteArray.size_append, List.size_toByteArray, List.length_replicate]
  simp only [size] at hdiv hmod ⊢
  omega

theorem size_lt_size_buffer (source : Source) : source.size < source.buffer.size := by
  rw [size_buffer]
  omega

theorem extract_buffer {start stop : Nat} (h : stop ≤ source.size) :
    source.buffer.extract start stop = source.bytes.extract start stop := by
  have hnone : stop - source.bytes.size = 0 := Nat.sub_eq_zero_of_le h
  rw [buffer, ByteArray.extract_append, hnone,
    ByteArray.extract_eq_empty_iff.mpr (Nat.le_trans (Nat.min_le_left _ _) (Nat.zero_le _)),
    ByteArray.append_empty]

/-- The zeros are what reading past the end of the source gives. -/
theorem getElem?_buffer (source : Source) (offset : Nat) :
    source.buffer[offset]?.getD 0 = source.byteAt offset := by
  rw [byteAt]
  by_cases hlt : offset < source.size
  · have hbuffer : offset < source.buffer.size := Nat.lt_trans hlt (size_lt_size_buffer source)
    rw [getElem?_pos source.buffer offset hbuffer, getElem?_pos source.bytes offset hlt]
    exact congrArg (Option.getD · 0) (congrArg some (ByteArray.getElem_append_left hlt))
  · rw [getElem?_neg source.bytes offset hlt]
    by_cases hbuffer : offset < source.buffer.size
    · rw [getElem?_pos source.buffer offset hbuffer]
      have hzero : source.buffer[offset] = 0 := by
        refine (ByteArray.getElem_append_right (h := hbuffer) (Nat.not_lt.mp hlt)).trans ?_
        rw [List.getElem_toByteArray, List.getElem_replicate]
      rw [hzero]
      rfl
    · rw [getElem?_neg source.buffer offset hbuffer]

theorem byteAt_of_size_le (h : source.size ≤ offset) : source.byteAt offset = 0 := by
  rw [byteAt, getElem?_neg source.bytes offset (Nat.not_lt.mpr h)]
  rfl

/-- No zero behind the source completes a character that begins in it. -/
theorem decode_buffer (h : offset < source.size) :
    source.buffer.utf8DecodeChar? offset = source.bytes.utf8DecodeChar? offset := by
  cases hd : source.bytes.utf8DecodeChar? offset with
  | some c => exact ByteArray.utf8DecodeChar?_append_eq_some hd _
  | none =>
    apply Option.eq_none_iff_forall_ne_some.mpr
    intro c hc
    have hle : offset + c.utf8Size ≤ source.size := by
      apply Nat.le_of_not_lt
      intro hover
      apply getElem?_ne_zero_of_decode hc h hover
      rw [getElem?_buffer, byteAt_of_size_le (Nat.le_refl _)]
    have hextract := extract_of_decode hc
    rw [extract_buffer hle] at hextract
    have hsome := decode_of_extract (Nat.le_add_right _ _) hle hextract
    rw [hd] at hsome
    cases hsome

end Source

theorem Cursor.current_eq_readCharacter (cursor : Cursor) :
    cursor.current = readCharacter cursor.source.buffer cursor.offset := by
  cases he : cursor.atEnd with
  | true =>
    have hend : cursor.source.size ≤ cursor.offset := by simpa [atEnd] using he
    rw [current_of_atEnd he, readCharacter, Source.getElem?_buffer,
      Source.byteAt_of_size_le hend]
    rfl
  | false =>
    have hlt := offset_lt_of_atEnd he
    have hbuffer := Nat.lt_trans hlt (Source.size_lt_size_buffer cursor.source)
    rw [readCharacter_eq hbuffer, Source.decode_buffer hlt, current, he]
    rfl

end Offside
