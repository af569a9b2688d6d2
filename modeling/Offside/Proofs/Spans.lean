import Offside.Proofs.Draining
import Offside.Proofs.Slices
import Offside.Proofs.Walks

/-!
# The span of a token

A reader holds three offsets that change one by one: where it stands, where the token starts and
where its end is marked. The span of the token is made of these, and what holds of all offsets that
a reader ever comes to holds of the span.
-/

namespace Offside

set_option autoImplicit false

namespace Cursor

theorem isValid_advance {cursor : Cursor} {text : String} (hs : text.utf8ByteSize ≤ maxOffset)
    (hc : cursor.source = Source.ofString text)
    (hv : String.Pos.Raw.IsValid text ⟨cursor.offset⟩) :
    String.Pos.Raw.IsValid text ⟨cursor.advance.offset⟩ := by
  obtain ⟨source, offset⟩ := cursor
  obtain rfl : source = Source.ofString text := hc
  cases he : atEnd ⟨Source.ofString text, offset⟩ with
  | true => rwa [advance_of_atEnd he]
  | false =>
    have hlt : offset < (Source.ofString text).size := offset_lt_of_atEnd he
    obtain ⟨front, c, rest, -, -, -, hnext⟩ := decodes_character hs hlt hv
    exact hnext.isValid

end Cursor

namespace Source

variable {text : String} {offset : Nat}

theorem isValid_max_contentStart (hs : text.utf8ByteSize ≤ maxOffset)
    (hv : String.Pos.Raw.IsValid text ⟨offset⟩) :
    String.Pos.Raw.IsValid text ⟨max offset (ofString text).contentStart⟩ := by
  obtain ⟨front, rest, ht, rfl⟩ := isValid_iff_exists.mp hv
  obtain ⟨lead, ahead, hlead, hstart⟩ := exists_start hs ht
  rw [hstart]
  exact isValid_iff_exists.mpr ⟨lead, ahead, hlead, rfl⟩

theorem isValid_min_size (hs : text.utf8ByteSize ≤ maxOffset)
    (hv : String.Pos.Raw.IsValid text ⟨offset⟩) :
    String.Pos.Raw.IsValid text ⟨min offset (ofString text).size⟩ := by
  have hle : offset ≤ (ofString text).size := by
    rw [size_eq_utf8ByteSize hs]
    exact hv.le_rawEndPos
  rwa [Nat.min_eq_left hle]

end Source

/-- The offsets at which a token is begun at a boundary of the text. Those in a byte order mark and
behind the end are moved to one. -/
def MayBegin (text : String) (offset : Nat) : Prop :=
  String.Pos.Raw.IsValid text ⟨offset⟩ ∨ offset < (Source.ofString text).contentStart ∨
    text.utf8ByteSize < offset

namespace Reader

inductive Action where
  | begin (offset : Nat)
  | call (call : Call)
  deriving DecidableEq

def act (reader : Reader) : Action → Reader
  | .begin offset => reader.begin offset
  | .call call => reader.perform call

def after (reader : Reader) (actions : List Action) : Reader := actions.foldl act reader

@[simp] theorem source_act (reader : Reader) (action : Action) :
    (reader.act action).source = reader.source := by
  cases action with
  | begin offset => exact source_begin reader offset
  | call call => exact source_perform reader call

@[simp] theorem source_after (reader : Reader) (actions : List Action) :
    (reader.after actions).source = reader.source := by
  induction actions generalizing reader with
  | nil => rfl
  | cons action actions ih => exact (ih (reader.act action)).trans (source_act reader action)

/-- All offsets that a reader holds have a property. -/
structure Keeps (reader : Reader) (P : Nat → Prop) : Prop where
  offset : P reader.offset
  tokenStart : P reader.tokenStart
  marked : ∀ place, reader.marked? = some place → P place

section Keeps

variable {reader : Reader} {P Q : Nat → Prop} {action : Action} {actions : List Action}

theorem Keeps.mono (h : reader.Keeps P) (hpq : ∀ place, P place → Q place) : reader.Keeps Q :=
  ⟨hpq _ h.offset, hpq _ h.tokenStart, fun place hplace => hpq place (h.marked place hplace)⟩

theorem Keeps.span (h : reader.Keeps P) : P reader.span.start ∧ P reader.span.stop := by
  have hstop : P reader.span.stop := by
    simp only [Reader.span]
    cases hm : reader.marked? with
    | none => exact h.offset
    | some place => exact h.marked place hm
  have hstart : reader.span.start = min reader.tokenStart reader.span.stop := rfl
  refine ⟨?_, hstop⟩
  rcases Nat.le_total reader.tokenStart reader.span.stop with hle | hle
  · rw [hstart, Nat.min_eq_left hle]
    exact h.tokenStart
  · rwa [hstart, Nat.min_eq_right hle]

theorem keeps_begin {offset : Nat} (h : P (reader.begin offset).offset) :
    (reader.begin offset).Keeps P :=
  ⟨h, h, by rintro place ⟨⟩⟩

theorem keeps_ofSource {source : Source} (h : P (ofSource source).offset) :
    (ofSource source).Keeps P :=
  keeps_begin h

/-- An action replaces offsets by the one it comes to, and by no other. -/
theorem Keeps.act (h : reader.Keeps P) (hnext : P (reader.act action).offset) :
    (reader.act action).Keeps P := by
  cases action with
  | begin offset => exact keeps_begin hnext
  | call call =>
    cases call with
    | advance => exact ⟨hnext, h.tokenStart, h.marked⟩
    | skip => exact ⟨hnext, hnext, h.marked⟩
    | mark => exact ⟨hnext, h.tokenStart, by rintro place ⟨⟩; exact hnext⟩

theorem Keeps.after (h : reader.Keeps P)
    (hnext : ∀ other : Reader, other.source = reader.source → P other.offset →
      ∀ action ∈ actions, P (other.act action).offset) :
    (reader.after actions).Keeps P := by
  induction actions generalizing reader with
  | nil => exact h
  | cons action actions ih =>
    apply ih (h.act (hnext reader rfl h.offset action List.mem_cons_self))
    intro other hother hp later hlater
    exact hnext other (hother.trans (source_act reader action)) hp later
      (List.mem_cons_of_mem action hlater)

end Keeps

section Text

variable {reader : Reader} {text : String} {actions : List Action}

theorem le_offset_perform (hs : text.utf8ByteSize ≤ maxOffset)
    (hc : reader.source = Source.ofString text) (call : Call) :
    reader.offset ≤ (reader.perform call).offset := by
  cases call with
  | advance | skip => exact Cursor.le_offset_advance hs hc
  | mark => exact Nat.le_refl _

theorem le_offset_run (hs : text.utf8ByteSize ≤ maxOffset)
    (hc : reader.source = Source.ofString text) (calls : List Call) :
    reader.offset ≤ (reader.run calls).offset := by
  induction calls generalizing reader with
  | nil => exact Nat.le_refl _
  | cons call calls ih =>
    have hlater := ih ((source_perform reader call).trans hc)
    exact Nat.le_trans (le_offset_perform hs hc call) hlater

theorem offset_perform_le (h : reader.offset ≤ reader.source.size) (call : Call) :
    (reader.perform call).offset ≤ reader.source.size := by
  cases call with
  | advance | skip => exact Cursor.offset_advance_le h
  | mark => exact h

theorem isValid_perform (hs : text.utf8ByteSize ≤ maxOffset)
    (hc : reader.source = Source.ofString text)
    (hv : String.Pos.Raw.IsValid text ⟨reader.offset⟩) (call : Call) :
    String.Pos.Raw.IsValid text ⟨(reader.perform call).offset⟩ := by
  cases call with
  | advance | skip => exact Cursor.isValid_advance hs hc hv
  | mark => exact hv

theorem offset_begin (reader : Reader) (offset : Nat) :
    (reader.begin offset).offset = min (max offset reader.source.contentStart) reader.source.size :=
  rfl

theorem isValid_begin (hs : text.utf8ByteSize ≤ maxOffset)
    (hc : reader.source = Source.ofString text) {offset : Nat} (h : MayBegin text offset) :
    String.Pos.Raw.IsValid text ⟨(reader.begin offset).offset⟩ := by
  rw [offset_begin, hc]
  rcases h with hv | hmark | hend
  · exact Source.isValid_min_size hs (Source.isValid_max_contentStart hs hv)
  · have hmoved : max offset (Source.ofString text).contentStart =
        max 0 (Source.ofString text).contentStart := by omega
    rw [hmoved]
    exact Source.isValid_min_size hs (Source.isValid_max_contentStart hs
      String.Pos.Raw.isValid_zero)
  · have hsize : (Source.ofString text).size ≤ max offset (Source.ofString text).contentStart := by
      rw [Source.size_eq_utf8ByteSize hs]
      omega
    rw [Nat.min_eq_right hsize]
    exact Source.isValid_size hs

theorem offset_begin_bounds (reader : Reader) (offset : Nat) :
    reader.source.contentStart ≤ (reader.begin offset).offset ∧
      (reader.begin offset).offset ≤ reader.source.size := by
  have hstart := reader.source.contentStart_le_size
  rw [offset_begin]
  omega

theorem keeps_content (hs : text.utf8ByteSize ≤ maxOffset) (actions : List Action) :
    ((ofSource (.ofString text)).after actions).Keeps fun place =>
      (Source.ofString text).contentStart ≤ place ∧ place ≤ (Source.ofString text).size := by
  apply Keeps.after
  · apply keeps_ofSource
    exact offset_begin_bounds { cursor := (Source.ofString text).cursor, tokenStart := 0 } 0
  · rintro other hother ⟨hfrom, hto⟩ action -
    rw [source_ofSource] at hother
    cases action with
    | begin offset =>
      have hbounds := other.offset_begin_bounds offset
      rwa [hother] at hbounds
    | call call =>
      have hle := offset_perform_le (hother ▸ hto) call
      rw [hother] at hle
      exact ⟨Nat.le_trans hfrom (le_offset_perform hs hother call), hle⟩

theorem keeps_le_offset (hs : text.utf8ByteSize ≤ maxOffset)
    (hc : reader.source = Source.ofString text)
    (h : reader.Keeps fun place => place ≤ reader.offset) (actions : List Action) :
    (reader.after actions).Keeps fun place => place ≤ (reader.after actions).offset := by
  -- The bound moves with the reader, so this is not one property that all readers keep.
  induction actions generalizing reader with
  | nil => exact h
  | cons action actions ih =>
    apply ih ((source_act reader action).trans hc)
    cases action with
    | begin offset => exact keeps_begin (Nat.le_refl _)
    | call call =>
      apply Keeps.act
      · exact h.mono fun place hplace => Nat.le_trans hplace (le_offset_perform hs hc call)
      · exact Nat.le_refl _

theorem keeps_isValid (hs : text.utf8ByteSize ≤ maxOffset)
    (hbegin : ∀ offset, .begin offset ∈ actions → MayBegin text offset) :
    ((ofSource (.ofString text)).after actions).Keeps fun place =>
      String.Pos.Raw.IsValid text ⟨place⟩ := by
  apply Keeps.after
  · exact keeps_ofSource (isValid_begin hs rfl (.inl String.Pos.Raw.isValid_zero))
  · intro other hother hv action haction
    rw [source_ofSource] at hother
    cases action with
    | begin offset => exact isValid_begin hs hother (hbegin offset haction)
    | call call => exact isValid_perform hs hother hv call

end Text

/-- Where the span of a token lies, and where reading goes from there. -/
structure Bounded (reader : Reader) (text : String) : Prop where
  contentStart_le : reader.source.contentStart ≤ reader.span.start
  start_le_stop : reader.span.start ≤ reader.span.stop
  stop_le_offset : reader.span.stop ≤ reader.offset
  offset_le : reader.offset ≤ text.utf8ByteSize
  goes_on : ∀ calls, reader.offset ≤ (reader.run calls).offset
  atEnd_iff : reader.atEnd = true ↔ reader.offset = text.utf8ByteSize

/-- A token of whole characters. -/
structure Whole (reader : Reader) (text : String) : Prop where
  offset : String.Pos.Raw.IsValid text ⟨reader.offset⟩
  start : String.Pos.Raw.IsValid text ⟨reader.span.start⟩
  stop : String.Pos.Raw.IsValid text ⟨reader.span.stop⟩
  between : Between text reader.span.start reader.span.stop reader.text
  text_eq_empty_iff : reader.text = "" ↔ reader.span.isEmpty = true

theorem start_le_stop (reader : Reader) : reader.span.start ≤ reader.span.stop :=
  Nat.min_le_right _ _

theorem whole_of_keeps {reader : Reader} {text : String} (hs : text.utf8ByteSize ≤ maxOffset)
    (hc : reader.source = Source.ofString text)
    (h : reader.Keeps fun place => String.Pos.Raw.IsValid text ⟨place⟩) : reader.Whole text := by
  obtain ⟨hstart, hstop⟩ := h.span
  have hbetween : Between text reader.span.start reader.span.stop reader.text := by
    rw [Reader.text, slice, hc]
    exact Source.between_slice hs reader.start_le_stop hstart hstop
  refine ⟨h.offset, hstart, hstop, hbetween, ?_⟩
  obtain ⟨-, -, -, -, hsize⟩ := hbetween
  rw [Span.isEmpty_iff, ← String.utf8ByteSize_eq_zero_iff]
  omega

end Reader

/-- Whatever was done with a reader of a text, the span of its token begins in the content and ends
where reading has come to at the latest. If tokens are begun only where characters begin, or where
they are moved to such a place, the span is one of whole characters, and these are the text. -/
theorem span_lies_in_what_was_read (text : String) (hs : text.utf8ByteSize ≤ maxOffset)
    (actions : List Reader.Action) :
    let reader := (Reader.ofSource (Source.ofString text)).after actions
    reader.Bounded text ∧
      ((∀ offset, .begin offset ∈ actions → MayBegin text offset) → reader.Whole text) := by
  intro reader
  have hc : reader.source = Source.ofString text := Reader.source_after _ actions
  have hz := Source.size_eq_utf8ByteSize hs
  have hcontent := Reader.keeps_content hs actions
  have hfirst : (Reader.ofSource (.ofString text)).Keeps fun place =>
      place ≤ (Reader.ofSource (.ofString text)).offset :=
    Reader.keeps_ofSource (Nat.le_refl _)
  have hread := Reader.keeps_le_offset hs (Reader.source_ofSource _) hfirst actions
  constructor
  · constructor
    · rw [hc]
      exact hcontent.span.1.1
    · exact reader.start_le_stop
    · exact hread.span.2
    · rw [← hz]
      exact hcontent.offset.2
    · exact Reader.le_offset_run hs hc
    · have hle : reader.offset ≤ text.utf8ByteSize := hz ▸ hcontent.offset.2
      have hend : reader.atEnd = true ↔ reader.source.size ≤ reader.offset := decide_eq_true_iff
      rw [hend, hc, hz]
      omega
  · intro hbegin
    exact Reader.whole_of_keeps hs hc (Reader.keeps_isValid hs hbegin)

/-- Tokens that are begun at a boundary, behind the end and in the byte order mark. The last of them
is marked in front of a blank, and again behind the character that follows. -/
theorem span_lies_in_what_was_read_marked :
    let text := "\uFEFF é😀"
    let actions : List Reader.Action :=
      [.begin 4, .call .advance, .begin 99, .begin 1, .call .mark, .call .skip, .call .advance,
        .call .mark, .call .advance]
    let reader := (Reader.ofSource (Source.ofString text)).after actions
    text.utf8ByteSize ≤ maxOffset ∧ (∀ offset, .begin offset ∈ actions → MayBegin text offset) ∧
      reader.Bounded text ∧ reader.Whole text ∧
      reader.span = ⟨4, 6⟩ ∧ reader.text = "é" ∧ reader.offset = 10 := by
  intro text actions reader
  have hs : text.utf8ByteSize ≤ maxOffset := by decide +kernel
  have hbegin : ∀ offset, .begin offset ∈ actions → MayBegin text offset := by
    intro offset hoffset
    have hcases : offset = 4 ∨ offset = 99 ∨ offset = 1 := by simpa [actions] using hoffset
    rcases hcases with rfl | rfl | rfl
    · exact .inl (by decide +kernel)
    · exact .inr (.inr (by decide +kernel))
    · exact .inr (.inl (by decide +kernel))
  have hlies := span_lies_in_what_was_read text hs actions
  exact ⟨hs, hbegin, hlies.1, hlies.2 hbegin, by decide +kernel, by decide +kernel,
    by decide +kernel⟩

end Offside
