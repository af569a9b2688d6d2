import Offside.Cursor.Text
import Offside.Reader

/-!
# Reading a text by its characters

A cursor before a text moves by whole characters, so what it passes is again a text. Here is where a
token that a run of calls has cut out then lies.
-/

namespace Offside

set_option autoImplicit false

/-- The number of bytes that characters take in a source. -/
def encodedSize : List Char → Nat
  | [] => 0
  | c :: text => c.utf8Size + encodedSize text

@[simp] theorem encodedSize_nil : encodedSize [] = 0 := rfl

@[simp] theorem encodedSize_cons (c : Char) (text : List Char) :
    encodedSize (c :: text) = c.utf8Size + encodedSize text := rfl

@[simp] theorem encodedSize_append (first second : List Char) :
    encodedSize (first ++ second) = encodedSize first + encodedSize second := by
  induction first with
  | nil => simp
  | cons c first ih => simp [ih, Nat.add_assoc]

theorem size_utf8Encode (text : List Char) : text.utf8Encode.size = encodedSize text := by
  induction text with
  | nil => simp
  | cons c text ih =>
    rw [List.utf8Encode_cons, List.utf8Encode_singleton, ByteArray.size_append, ih]
    simp

theorem utf8ByteSize_ofList (text : List Char) :
    (String.ofList text).utf8ByteSize = encodedSize text := by
  rw [← String.size_toByteArray, String.toByteArray_ofList, size_utf8Encode]

theorem utf8ByteSize_eq (text : String) : text.utf8ByteSize = encodedSize text.toList := by
  rw [← utf8ByteSize_ofList, String.ofList_toList]

theorem fromUTF8?_utf8Encode (text : List Char) :
    String.fromUTF8? text.utf8Encode = some (String.ofList text) := by
  have hv : text.utf8Encode.IsValidUTF8 := ByteArray.isValidUTF8_utf8Encode
  rw [String.fromUTF8?, dif_pos hv, Option.some.injEq, ← String.toByteArray_inj]
  rw [String.toByteArray_ofList]
  rfl

namespace Cursor

namespace Before

variable {cursor : Cursor} {front text rest : List Char}

theorem before_advanceBy (h : cursor.Before text) (count : Nat) :
    (advanceBy count cursor).Before (text.drop count) := by
  induction count generalizing cursor text with
  | zero => exact h
  | succ count ih =>
    cases text with
    | nil =>
      have he : cursor.advance = cursor := advance_of_atEnd (h.atEnd_iff.mpr rfl)
      simp only [advanceBy, he]
      simpa using ih h
    | cons c rest => exact ih h.advance

theorem advanceBy_eq (h : cursor.Before text) (count : Nat) :
    advanceBy count cursor =
      ⟨cursor.source, cursor.offset + encodedSize (text.take count)⟩ := by
  induction count generalizing cursor text with
  | zero => rfl
  | succ count ih =>
    cases text with
    | nil =>
      have he : cursor.advance = cursor := advance_of_atEnd (h.atEnd_iff.mpr rfl)
      simp only [advanceBy, he]
      simpa using ih h
    | cons c rest =>
      simp only [advanceBy, ih h.advance, source_advance, h.offset_advance, List.take_succ_cons,
        encodedSize_cons, Nat.add_assoc]

theorem advanceBy_length (h : cursor.Before (front ++ rest)) :
    advanceBy front.length cursor = ⟨cursor.source, cursor.offset + encodedSize front⟩ := by
  rw [h.advanceBy_eq, List.take_left]

theorem behind (h : cursor.Before (front ++ rest)) :
    Before ⟨cursor.source, cursor.offset + encodedSize front⟩ rest := by
  have hb := h.before_advanceBy front.length
  rwa [h.advanceBy_length, List.drop_left] at hb

theorem slice_eq (h : cursor.Before (front ++ rest)) :
    cursor.source.slice cursor.offset (cursor.offset + encodedSize front) =
      String.ofList front := by
  have hs := h.size_eq
  rw [size_utf8Encode, encodedSize_append] at hs
  have hstop : cursor.offset + encodedSize front ≤ cursor.source.size := by omega
  have hb := congrArg (fun bytes => bytes.extract 0 (encodedSize front)) h.bytes_eq
  rw [List.utf8Encode_append] at hb
  simp only [ByteArray.extract_extract, Nat.add_zero, Nat.min_eq_left hstop] at hb
  rw [ByteArray.extract_append_eq_left (size_utf8Encode front).symm] at hb
  simp only [Source.slice, Nat.min_eq_left hstop, Nat.min_eq_left (Nat.le_add_right _ _), hb]
  rw [fromUTF8?_utf8Encode, Option.getD_some]

end Before

end Cursor

namespace Source

theorem eq_of_bytes_beq {first second : ByteArray} (h : (first == second) = true) :
    first = second := by
  cases first with
  | mk first =>
    cases second with
    | mk second =>
      have hd : (first == second) = true := h
      rw [eq_of_beq hd]

theorem before_of_toList_eq {text : String} {front rest : List Char}
    (h : text.toList = front ++ rest) (hs : text.utf8ByteSize ≤ maxOffset) :
    Cursor.Before ⟨ofString text, encodedSize front⟩ rest := by
  have ht : String.ofList (front ++ rest) = text := by rw [← h, String.ofList_toList]
  have hb : (front ++ rest).utf8Encode.size ≤ maxOffset := by
    rwa [size_utf8Encode, ← utf8ByteSize_ofList, ht]
  have hc := Cursor.before_of_append hb
  rwa [ht, size_utf8Encode] at hc

theorem utf8Encode_byteOrderMark : ['\uFEFF'].utf8Encode = byteOrderMark := by
  rw [List.utf8Encode_singleton]
  decide

theorem bytes_eq_utf8Encode {text : String} (hs : text.utf8ByteSize ≤ maxOffset) :
    (ofString text).bytes = text.toList.utf8Encode := by
  rw [bytes_ofString hs, String.utf8Encode_toList]
  rfl

theorem extract_eq_iff_isPrefix {text : String} (hs : text.utf8ByteSize ≤ maxOffset)
    (front : List Char) :
    (ofString text).bytes.extract 0 (encodedSize front) = front.utf8Encode ↔
      front <+: text.toList := by
  rw [bytes_eq_utf8Encode hs]
  constructor
  · intro h
    have hw := congrArg ByteArray.size h
    rw [ByteArray.size_extract, size_utf8Encode front] at hw
    have hsplit := ByteArray.extract_eq_extract_append_extract (a := text.toList.utf8Encode)
      (i := 0) (k := text.toList.utf8Encode.size) (encodedSize front) (Nat.zero_le _) (by omega)
    rw [ByteArray.extract_zero_size, h] at hsplit
    exact List.isPrefix_of_utf8Encode_append_eq_utf8Encode _ hsplit.symm
  · rintro ⟨rest, hr⟩
    rw [← hr, List.utf8Encode_append]
    exact ByteArray.extract_append_eq_left (size_utf8Encode front).symm

theorem hasByteOrderMark_iff {text : String} (hs : text.utf8ByteSize ≤ maxOffset) :
    (ofString text).hasByteOrderMark = true ↔ ∃ rest, text.toList = '\uFEFF' :: rest := by
  have hw : encodedSize ['\uFEFF'] = byteOrderMark.size := by decide
  have hp := extract_eq_iff_isPrefix hs ['\uFEFF']
  rw [hw, utf8Encode_byteOrderMark] at hp
  constructor
  · intro h
    obtain ⟨rest, hr⟩ := hp.mp (eq_of_bytes_beq h)
    exact ⟨rest, hr.symm⟩
  · rintro ⟨rest, hr⟩
    have he := hp.mpr ⟨rest, hr.symm⟩
    rw [hasByteOrderMark, he]
    decide

theorem contentStart_le_contentStart {first second : Source}
    (h : first.hasByteOrderMark = true → second.hasByteOrderMark = true) :
    first.contentStart ≤ second.contentStart := by
  cases hm : first.hasByteOrderMark with
  | false =>
    rw [contentStart, hm]
    exact Nat.zero_le _
  | true =>
    apply Nat.le_of_eq
    rw [contentStart, contentStart, hm, h hm]

theorem exists_before_contentStart {text : String} (hs : text.utf8ByteSize ≤ maxOffset) :
    ∃ rest, Cursor.Before ⟨ofString text, (ofString text).contentStart⟩ rest := by
  unfold contentStart
  split
  · rename_i h
    obtain ⟨rest, hr⟩ := (hasByteOrderMark_iff hs).mp h
    have hf : text.toList = ['\uFEFF'] ++ rest := hr
    exact ⟨rest, before_of_toList_eq hf hs⟩
  · have hf : text.toList = [] ++ text.toList := rfl
    exact ⟨text.toList, before_of_toList_eq hf hs⟩

theorem contentStart_le {text : String} {front rest : List Char} {c : Char}
    (h : text.toList = front ++ c :: rest) (hs : text.utf8ByteSize ≤ maxOffset)
    (hc : c ≠ '\uFEFF') : (ofString text).contentStart ≤ encodedSize front := by
  unfold contentStart
  split
  · rename_i hm
    obtain ⟨later, hl⟩ := (hasByteOrderMark_iff hs).mp hm
    rw [h] at hl
    cases front with
    | nil => exact absurd (List.cons.inj hl).1 hc
    | cons first front =>
      have hf : first = '\uFEFF' := (List.cons.inj hl).1
      have hw : '\uFEFF'.utf8Size = byteOrderMark.size := by decide
      rw [hf, encodedSize_cons, hw]
      exact Nat.le_add_right _ _
  · exact Nat.zero_le _

end Source

namespace Reader

def fresh (cursor : Cursor) : Reader := { cursor, tokenStart := cursor.offset }

theorem begin_eq_fresh {reader : Reader} {offset : Nat} {ahead : List Char}
    (hb : Cursor.Before ⟨reader.source, offset⟩ ahead)
    (hc : reader.source.contentStart ≤ offset) :
    reader.begin offset = fresh ⟨reader.source, offset⟩ := by
  have ho := hb.offset_le
  simp only [begin, Cursor.seek, Nat.max_eq_left hc] at ho ⊢
  simp only [source] at ho ⊢
  rw [Nat.min_eq_left ho]
  rfl

@[simp] theorem source_begin (reader : Reader) (offset : Nat) :
    (reader.begin offset).source = reader.source := rfl

@[simp] theorem source_ofSource (source : Source) : (ofSource source).source = source := rfl

theorem run_replicate_advance (reader : Reader) (count : Nat) :
    reader.run (List.replicate count .advance) =
      { reader with cursor := Cursor.advanceBy count reader.cursor } := by
  induction count generalizing reader with
  | zero => rfl
  | succ count ih =>
    rw [List.replicate_succ, run_cons, ih]
    rfl

theorem run_replicate_skip {reader : Reader} (h : reader.tokenStart = reader.offset)
    (count : Nat) :
    reader.run (List.replicate count .skip) =
      { reader with
        cursor := Cursor.advanceBy count reader.cursor
        tokenStart := (Cursor.advanceBy count reader.cursor).offset } := by
  induction count generalizing reader with
  | zero =>
    cases reader
    simp only [offset] at h
    simp [Cursor.advanceBy, h]
  | succ count ih =>
    rw [List.replicate_succ, run_cons, ih rfl]
    rfl

variable {cursor : Cursor} {gap text rest : List Char}

theorem span_mark_skip (h : cursor.Before text) (count : Nat) :
    ((fresh cursor).run (.mark :: List.replicate count .skip)).span =
      ⟨cursor.offset, cursor.offset⟩ := by
  have hm : ((fresh cursor).perform .mark).tokenStart = ((fresh cursor).perform .mark).offset := rfl
  rw [run_cons, run_replicate_skip hm]
  simp [span, perform, mark, fresh, offset, h.advanceBy_eq]

theorem span_advance_mark (h : cursor.Before (text ++ rest)) :
    ((fresh cursor).run (List.replicate text.length .advance ++ [.mark])).span =
      ⟨cursor.offset, cursor.offset + encodedSize text⟩ := by
  rw [run_append, run_replicate_advance]
  simp [span, perform, mark, fresh, offset, h.advanceBy_length]

/-- A token behind trivia covers what was advanced over, and its mark before the trivia is void. -/
theorem span_skip_advance_mark (h : cursor.Before (gap ++ (text ++ rest))) :
    ((fresh cursor).run
      (.mark :: (List.replicate gap.length .skip ++
        (List.replicate text.length .advance ++ [.mark])))).span =
      ⟨cursor.offset + encodedSize gap, cursor.offset + encodedSize gap + encodedSize text⟩ := by
  have hm : ((fresh cursor).perform .mark).tokenStart = ((fresh cursor).perform .mark).offset := rfl
  have hg := h.advanceBy_length
  have ht := h.behind.advanceBy_length
  rw [run_cons, run_append, run_replicate_skip hm, run_append, run_replicate_advance]
  simp [span, perform, mark, fresh, offset, hg, ht]

end Reader

end Offside
