import Offside.Proofs.Reading
import Offside.Scan

/-!
# Scans of the same text at another place

A scan decides by the characters ahead alone. Where two sources go on with the same text, the scans
give the same answer and the readers make the same calls side by side.
-/

namespace Offside

set_option autoImplicit false

namespace Call

def moves (calls : List Call) : Nat := calls.countP fun call => call != .mark

@[simp] theorem moves_append (first second : List Call) :
    moves (first ++ second) = moves first + moves second := List.countP_append

@[simp] theorem moves_mark_cons (calls : List Call) : moves (.mark :: calls) = moves calls := by
  simp [moves]

theorem moves_cons {call : Call} (h : call ≠ .mark) (calls : List Call) :
    moves (call :: calls) = moves calls + 1 := by
  simp [moves, h]

theorem moves_replicate {call : Call} (h : call ≠ .mark) (count : Nat) :
    moves (List.replicate count call) = count := by
  induction count with
  | zero => rfl
  | succ count ih => rw [List.replicate_succ, moves_cons h, ih]

end Call

def Span.shift (span : Span) (distance : Nat) : Span :=
  ⟨span.start + distance, span.stop + distance⟩

namespace Reader

/-- The second reader is where the first one is, moved on by a distance. -/
structure Displaced (distance : Nat) (first second : Reader) : Prop where
  offset_eq : second.offset = first.offset + distance
  tokenStart_eq : second.tokenStart = first.tokenStart + distance
  marked?_eq : second.marked? = first.marked?.map (· + distance)

namespace Displaced

variable {distance : Nat} {first second : Reader} {text other : List Char} {calls : List Call}

theorem span_eq (h : Displaced distance first second) :
    second.span = first.span.shift distance := by
  simp only [span, h.offset_eq, h.tokenStart_eq, h.marked?_eq]
  cases first.marked? with
  | none => simp [Span.shift]
  | some stop => simp [Span.shift]

theorem advance_offset (h : Displaced distance first second) (hf : first.cursor.Before text)
    (hs : second.cursor.Before other) (ht : other.head? = text.head?) :
    second.cursor.advance.offset = first.cursor.advance.offset + distance := by
  have ho : second.cursor.offset = first.cursor.offset + distance := h.offset_eq
  cases text with
  | nil =>
    have hn : other = [] := List.head?_eq_none_iff.mp ht
    rw [Cursor.advance_of_atEnd (hf.atEnd_iff.mpr rfl), Cursor.advance_of_atEnd
      (hs.atEnd_iff.mpr hn), ho]
  | cons c text =>
    obtain ⟨other, rfl⟩ := List.head?_eq_some_iff.mp ht
    rw [hf.offset_advance, hs.offset_advance, ho]
    omega

/-- Readers that go on with the same characters stay side by side for as long as those last. -/
theorem run (h : Displaced distance first second) (hf : first.cursor.Before text)
    (hs : second.cursor.Before other)
    (ht : other.take (Call.moves calls) = text.take (Call.moves calls)) :
    Displaced distance (first.run calls) (second.run calls) := by
  induction calls generalizing first second text other with
  | nil => exact h
  | cons call calls ih =>
    by_cases hm : call = .mark
    · subst hm
      rw [Call.moves_mark_cons] at ht
      refine ih ?_ hf hs ht
      exact ⟨h.offset_eq, h.tokenStart_eq, congrArg some h.offset_eq⟩
    rw [Call.moves_cons hm] at ht
    have hhead : other.head? = text.head? := by
      have hh := congrArg List.head? ht
      rwa [List.head?_take, List.head?_take, if_neg (Nat.succ_ne_zero _),
        if_neg (Nat.succ_ne_zero _)] at hh
    have hrest : (other.drop 1).take (Call.moves calls) =
        (text.drop 1).take (Call.moves calls) := by
      have hh := congrArg (List.drop 1) ht
      rwa [List.drop_take, List.drop_take, Nat.add_sub_cancel] at hh
    have ha := h.advance_offset hf hs hhead
    have hfirst := hf.before_advanceBy 1
    have hsecond := hs.before_advanceBy 1
    cases call with
    | mark => exact absurd rfl hm
    | advance => exact ih ⟨ha, h.tokenStart_eq, h.marked?_eq⟩ hfirst hsecond hrest
    | skip => exact ih ⟨ha, ha, h.marked?_eq⟩ hfirst hsecond hrest

end Displaced

theorem displaced_fresh (distance : Nat) (first second : Source) (offset : Nat) :
    Displaced distance (fresh ⟨first, offset⟩) (fresh ⟨second, offset + distance⟩) :=
  ⟨rfl, rfl, rfl⟩

theorem begin_max (reader : Reader) (offset : Nat) :
    reader.begin (max offset reader.source.contentStart) = reader.begin offset := by
  simp only [begin, Nat.max_assoc, Nat.max_self]

end Reader

namespace Source

variable {lead text : String} {front rest : List Char}

theorem begin_eq (hs : text.utf8ByteSize ≤ maxOffset) (h : text.toList = front ++ rest)
    {offset : Nat} (ho : max offset (ofString text).contentStart = encodedSize front) :
    (Reader.ofSource (ofString text)).begin offset =
      Reader.fresh ⟨ofString text, encodedSize front⟩ := by
  have hc : (ofString text).contentStart ≤ encodedSize front := by omega
  rw [← Reader.begin_max, Reader.source_ofSource, ho]
  exact Reader.begin_eq_fresh (before_of_toList_eq h hs) hc

theorem scan_eq (hs : text.utf8ByteSize ≤ maxOffset) (h : text.toList = front ++ rest)
    {offset : Nat} (ho : max offset (ofString text).contentStart = encodedSize front)
    (state : State) (requested : TokenSet) :
    (ofString text).scan offset state requested =
      ⟨Offside.scan state requested rest,
        (Reader.fresh ⟨ofString text, encodedSize front⟩).run
          (Offside.scan state requested rest).calls⟩ := by
  have hahead : (Reader.fresh ⟨ofString text, encodedSize front⟩).ahead = rest :=
    (before_of_toList_eq h hs).ahead_eq
  simp only [scan, Reader.scan, begin_eq hs h ho, hahead]

theorem contentStart_le_of_head? (hs : text.utf8ByteSize ≤ maxOffset)
    (h : text.toList = front ++ rest) (hm : rest.head? ≠ some '\uFEFF') :
    (ofString text).contentStart ≤ encodedSize front := by
  cases rest with
  | nil =>
    obtain ⟨ahead, hb⟩ := exists_before_contentStart hs
    have hz := (before_of_toList_eq h hs).size_eq
    have hle := hb.offset_le
    simp only [List.utf8Encode_nil, ByteArray.size_empty] at hz hle
    omega
  | cons c rest =>
    apply contentStart_le h hs
    rintro rfl
    exact hm rfl

theorem bytes_append (hs : (lead ++ text).utf8ByteSize ≤ maxOffset) :
    (ofString (lead ++ text)).bytes = lead.toByteArray ++ (ofString text).bytes := by
  have ht : text.utf8ByteSize ≤ maxOffset := by
    rw [String.utf8ByteSize_append] at hs
    omega
  rw [bytes_ofString hs, bytes_ofString ht]
  exact String.toByteArray_append

theorem slice_append (hs : (lead ++ text).utf8ByteSize ≤ maxOffset) (start stop : Nat) :
    (ofString (lead ++ text)).slice (lead.utf8ByteSize + start) (lead.utf8ByteSize + stop) =
      (ofString text).slice start stop := by
  have hb := bytes_append hs
  have hl : lead.utf8ByteSize = lead.toByteArray.size := String.size_toByteArray.symm
  have hz : (ofString (lead ++ text)).size = lead.utf8ByteSize + (ofString text).size := by
    rw [size, hb, ByteArray.size_append, ← hl]
    rfl
  simp only [slice, hz, hb, Nat.add_min_add_left]
  rw [ByteArray.extract_append_size_add' hl]

end Source

/-- The second scan gives the same answer as the first, with its token and its reader moved on by a
distance. -/
structure Scanned.Displaced (distance : Nat) (first second : Scanned) : Prop where
  answer_eq : second.answer = first.answer
  text_eq : second.reader.text = first.reader.text
  span_eq : second.reader.span = first.reader.span.shift distance
  offset_eq : second.reader.offset = first.reader.offset + distance

theorem Scanned.displaced_of_reader {distance : Nat} {first second : Scanned}
    (ha : second.answer = first.answer)
    (hr : Reader.Displaced distance first.reader second.reader)
    (hs : second.reader.source.slice (distance + first.reader.span.start)
        (distance + first.reader.span.stop) =
      first.reader.source.slice first.reader.span.start first.reader.span.stop) :
    first.Displaced distance second := by
  refine ⟨ha, ?_, hr.span_eq, hr.offset_eq⟩
  simp only [Reader.text, Reader.slice, hr.span_eq, Span.shift]
  rw [Nat.add_comm _ distance, Nat.add_comm _ distance, hs]

theorem Source.displaced_scan {lead text : String} {front rest : List Char} {offset : Nat}
    (hs : (lead ++ text).utf8ByteSize ≤ maxOffset) (hm : text.toList.head? ≠ some '\uFEFF')
    (h : text.toList = front ++ rest)
    (ho : max offset (ofString (lead ++ text)).contentStart =
      lead.utf8ByteSize + encodedSize front) (state : State) (requested : TokenSet) :
    ((ofString text).scan (encodedSize front) state requested).Displaced lead.utf8ByteSize
      ((ofString (lead ++ text)).scan offset state requested) := by
  have ht : text.utf8ByteSize ≤ maxOffset := by
    rw [String.utf8ByteSize_append] at hs
    omega
  have hl : lead.utf8ByteSize = encodedSize lead.toList := utf8ByteSize_eq lead
  have happend : (lead ++ text).toList = (lead.toList ++ front) ++ rest := by
    rw [String.toList_append, h, List.append_assoc]
  have hcontent : (ofString text).contentStart ≤ encodedSize front := by
    have hz : (ofString text).contentStart ≤ encodedSize [] := contentStart_le_of_head? ht rfl hm
    exact Nat.le_trans hz (Nat.zero_le _)
  have hfirst := scan_eq ht h (Nat.max_eq_left hcontent) state requested
  have hwhole : encodedSize (lead.toList ++ front) = encodedSize front + lead.utf8ByteSize := by
    rw [encodedSize_append, hl, Nat.add_comm]
  rw [Nat.add_comm, ← hwhole] at ho
  have hsecond := scan_eq hs happend ho state requested
  rw [hfirst, hsecond]
  refine Scanned.displaced_of_reader rfl ?_ ?_
  · have hb := before_of_toList_eq happend hs
    simp only [hwhole] at hb ⊢
    exact (Reader.displaced_fresh _ _ _ _).run (before_of_toList_eq h ht) hb rfl
  · simp only [Reader.source_run]
    exact slice_append hs _ _

/-- What stands in front of a text that begins with no byte order mark makes no difference to a
scan of that text, between whatever characters it begins. Behind a mark alone, a scan from inside
of the mark is one from the start of the text. -/
theorem scan_ignores_what_precedes (lead text : String) (hm : text.toList.head? ≠ some '\uFEFF')
    (hs : (lead ++ text).utf8ByteSize ≤ maxOffset) (state : State) (requested : TokenSet) :
    (∀ front rest, text.toList = front ++ rest →
      ((Source.ofString text).scan (encodedSize front) state requested).Displaced
        lead.utf8ByteSize
        ((Source.ofString (lead ++ text)).scan (lead.utf8ByteSize + encodedSize front) state
          requested)) ∧
      (lead = "\uFEFF" → ∀ offset < 3,
        ((Source.ofString text).scan 0 state requested).Displaced 3
          ((Source.ofString (lead ++ text)).scan offset state requested)) := by
  have hl : encodedSize lead.toList = lead.utf8ByteSize := by
    rw [← utf8ByteSize_ofList, String.ofList_toList]
  have happend : (lead ++ text).toList = lead.toList ++ text.toList := String.toList_append
  have hc := Source.contentStart_le_of_head? hs happend hm
  rw [hl] at hc
  constructor
  · intro front rest h
    exact Source.displaced_scan hs hm h (Nat.max_eq_left (by omega)) state requested
  · rintro rfl offset ho
    have hw : "\uFEFF".utf8ByteSize = 3 := by decide
    have hmark : (Source.ofString ("\uFEFF" ++ text)).contentStart = 3 := by
      rw [Source.contentStart, (Source.hasByteOrderMark_iff hs).mpr ⟨text.toList, happend⟩]
      rfl
    have hstart : max offset (Source.ofString ("\uFEFF" ++ text)).contentStart =
        "\uFEFF".utf8ByteSize + encodedSize [] := by
      rw [hmark, hw, encodedSize_nil]
      omega
    exact Source.displaced_scan hs hm (List.nil_append text.toList).symm hstart state requested

/-- An indented quote behind a mark is found from inside of the mark, three bytes on. -/
theorem scan_ignores_what_precedes_marked :
    let text := "\n  'é'"
    let requested : TokenSet := .ofTokens [.newline, .stringStart]
    text.toList.head? ≠ some '\uFEFF' ∧ ("\uFEFF" ++ text).utf8ByteSize ≤ maxOffset ∧
      text.toList = ['\n'] ++ [' ', ' ', '\'', 'é', '\''] ∧
      ((Source.ofString text).scan (encodedSize ['\n']) {} requested).Displaced
        "\uFEFF".utf8ByteSize
        ((Source.ofString ("\uFEFF" ++ text)).scan
          ("\uFEFF".utf8ByteSize + encodedSize ['\n']) {} requested) ∧
      ((Source.ofString text).scan 0 {} requested).Displaced 3
        ((Source.ofString ("\uFEFF" ++ text)).scan 2 {} requested) := by
  intro text requested
  have hm : text.toList.head? ≠ some '\uFEFF' := by decide
  have hs : ("\uFEFF" ++ text).utf8ByteSize ≤ maxOffset := by decide
  have ht : text.toList = ['\n'] ++ [' ', ' ', '\'', 'é', '\''] := by decide
  obtain ⟨hbehind, hmark⟩ := scan_ignores_what_precedes "\uFEFF" text hm hs {} requested
  exact ⟨hm, hs, ht, hbehind _ _ ht, hmark rfl 2 (by decide)⟩

end Offside
