import Offside.Proofs.Cut

/-!
# Characters of one byte

A cursor may stand anywhere, also inside of a character. But a character of one byte that it reads
is really there, and that byte cut out of the source is the character.
-/

namespace Offside

set_option autoImplicit false

theorem extract_of_decode {bytes : ByteArray} {offset : Nat} {c : Char}
    (h : bytes.utf8DecodeChar? offset = some c) :
    bytes.extract offset (offset + c.utf8Size) = [c].utf8Encode := by
  have hs : (bytes.utf8DecodeChar? offset).isSome := by simp [h]
  have hc : bytes.utf8DecodeChar offset hs = c := by simp [ByteArray.utf8DecodeChar, h]
  have he := ByteArray.utf8EncodeChar_utf8DecodeChar (h := hs)
  rw [hc] at he
  rw [← he, List.utf8Encode_singleton]

namespace Cursor

variable {cursor : Cursor} {c : Char} {front rest : List Char}

theorem ahead_eq_cons_iff :
    cursor.ahead = c :: rest ↔ cursor.atEnd = false ∧ cursor.current = c ∧
      (stopsWithin (cursor.source.size - cursor.offset - 1) cursor.advance).map current =
        rest := by
  unfold ahead stops
  cases hn : cursor.source.size - cursor.offset with
  | zero =>
    have he : cursor.atEnd = true := by
      simp only [atEnd, decide_eq_true_eq]
      omega
    simp [stopsWithin, he]
  | succ n =>
    have he : cursor.atEnd = false := by
      simp only [atEnd, decide_eq_false_iff_not]
      omega
    simp [stopsWithin, he]

theorem decode_of_ahead (h : cursor.ahead = c :: rest) (hc : c.utf8Size = 1) :
    cursor.source.bytes.utf8DecodeChar? cursor.offset = some c := by
  obtain ⟨he, hr, -⟩ := ahead_eq_cons_iff.mp h
  simp only [current, he, Bool.false_eq_true, if_false] at hr
  cases hd : cursor.source.bytes.utf8DecodeChar? cursor.offset with
  | none =>
    rw [hd] at hr
    subst hr
    cases hc
  | some decoded =>
    rw [hd] at hr
    exact congrArg some hr

theorem advance_of_ahead (h : cursor.ahead = c :: rest) (hc : c.utf8Size = 1)
    (hs : cursor.source.size ≤ maxOffset) :
    cursor.advance = ⟨cursor.source, cursor.offset + 1⟩ ∧ cursor.advance.ahead = rest := by
  obtain ⟨he, -, hr⟩ := ahead_eq_cons_iff.mp h
  have hw := width_eq_of_decode (decode_of_ahead h hc)
  have ha : cursor.advance = ⟨cursor.source, cursor.offset + 1⟩ := by
    have hl : cursor.offset < cursor.source.size := by simpa [atEnd] using he
    simp only [maxOffset] at hs
    simp only [advance, he, hw, hc, Bool.false_eq_true, if_false, maxOffset, mk.injEq, true_and]
    omega
  refine ⟨ha, ?_⟩
  rw [ahead, stops, ← hr, ha, Nat.sub_add_eq]

theorem advanceBy_of_ahead (h : cursor.ahead = front ++ rest) (hf : ∀ c ∈ front, c.utf8Size = 1)
    (hs : cursor.source.size ≤ maxOffset) :
    advanceBy front.length cursor = ⟨cursor.source, cursor.offset + front.length⟩ ∧
      (advanceBy front.length cursor).ahead = rest := by
  induction front generalizing cursor with
  | nil => exact ⟨rfl, h⟩
  | cons c front ih =>
    obtain ⟨ha, hr⟩ := advance_of_ahead h (hf c List.mem_cons_self) hs
    have hfront : ∀ d ∈ front, d.utf8Size = 1 := fun d hd => hf d (List.mem_cons_of_mem c hd)
    obtain ⟨hi, hl⟩ := ih hr hfront (by rwa [source_advance])
    simp only [List.length_cons, advanceBy]
    refine ⟨?_, hl⟩
    rw [hi, ha, Nat.add_right_comm]
    rfl

theorem slice_of_decode (h : cursor.source.bytes.utf8DecodeChar? cursor.offset = some c) :
    cursor.source.slice cursor.offset (cursor.offset + c.utf8Size) = String.singleton c := by
  have hl : cursor.offset + c.utf8Size ≤ cursor.source.size :=
    ByteArray.le_size_of_utf8DecodeChar?_eq_some h
  simp only [Source.slice, Nat.min_eq_left hl, Nat.min_eq_left (Nat.le_add_right _ _)]
  rw [extract_of_decode h, fromUTF8?_utf8Encode, Option.getD_some, String.singleton_eq_ofList]

theorem slice_of_ahead (h : cursor.ahead = c :: rest) (hc : c.utf8Size = 1) :
    cursor.source.slice cursor.offset (cursor.offset + 1) = String.singleton c := by
  have hd := slice_of_decode (decode_of_ahead h hc)
  rwa [hc] at hd

end Cursor

theorem Cut.text_run {calls : List Call} {gap rest : List Char} {c : Char} {cursor : Cursor}
    (h : Cut calls gap [c]) (ha : cursor.ahead = gap ++ c :: rest)
    (hg : ∀ d ∈ gap, d.utf8Size = 1) (hc : c.utf8Size = 1)
    (hs : cursor.source.size ≤ maxOffset) :
    ((Reader.fresh cursor).run calls).text = String.singleton c := by
  obtain ⟨hstop, hrest⟩ := Cursor.advanceBy_of_ahead ha hg hs
  rw [hstop] at hrest
  have ht := (Cursor.advance_of_ahead hrest hc hs).1
  have hslice := Cursor.slice_of_ahead hrest hc
  have hm : ((Reader.fresh cursor).perform .mark).tokenStart =
      ((Reader.fresh cursor).perform .mark).offset := rfl
  cases h with
  | opener =>
    rw [Reader.run_cons, Reader.run_append, Reader.run_replicate_skip hm, Reader.run_append,
      Reader.run_replicate_advance]
    simpa [Reader.text, Reader.slice, Reader.source, Reader.span, Reader.perform, Reader.mark,
      Reader.fresh, Reader.offset, Cursor.advanceBy, hstop, ht] using hslice
  | piece =>
    rw [Reader.run_append, Reader.run_replicate_advance]
    simp only [List.length_nil, Nat.add_zero] at ht hslice
    simpa [Reader.text, Reader.slice, Reader.source, Reader.span, Reader.perform, Reader.mark,
      Reader.fresh, Reader.offset, Cursor.advanceBy, ht] using hslice

end Offside
