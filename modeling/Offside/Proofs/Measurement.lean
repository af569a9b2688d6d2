import Offside.Proofs.Bytes
import Offside.Proofs.Columns
import Offside.Proofs.Displacement
import Offside.Proofs.Transition

/-!
# Measuring the layout

Wherever a reader begins to measure, the longest sequence of trivia in front of it tells the layout,
and that sequence is all that it reads. Only a backslash that continues no line gives no layout.
-/

namespace Offside

set_option autoImplicit false

namespace Layout

theorem skips_of_begins {ahead rest : List Char} {items : List Trivia}
    (h : Trivia.Begins ahead items rest) (hb : brokenSkips rest = 0) :
    ahead.take (skips items rest) = items.flatMap Trivia.text ∧
      ahead.drop (skips items rest) = rest := by
  induction h with
  | nil rest => simp [skips, hb]
  | @cons item ahead rest items fits begins ih =>
    obtain ⟨htake, hdrop⟩ := ih hb
    have hskips : skips (item :: items) rest = item.skips + skips items rest := rfl
    by_cases hr : ahead = []
    · subst hr
      rw [List.take_nil] at htake
      rw [List.drop_nil] at hdrop
      have hl : item.text.length ≤ skips (item :: items) rest :=
        Nat.le_trans item.length_text_le_skips (Nat.le_add_right _ _)
      rw [List.append_nil, List.flatMap_cons, ← htake, ← hdrop, List.append_nil]
      rw [← hdrop] at hl
      exact ⟨List.take_of_length_le hl, List.drop_of_length_le hl⟩
    · rw [hskips, fits.skips_eq hr, List.flatMap_cons, List.take_length_add_append,
        List.drop_length_add_append, htake, hdrop]
      exact ⟨rfl, rfl⟩

end Layout

namespace Reader

/-- A scan outside of literals marks the end of a token and measures, and reports the outcome. -/
theorem scan_measures (reader : Reader) {state : State} {requested : TokenSet}
    (h : Mode.select state requested = .layout) :
    ∃ more, (more = [] ∨ more = [.advance, .mark]) ∧
      (reader.scan state requested).reader = reader.mark.measure.2.run more ∧
      (reader.scan state requested).answer.events.head? = some
        (reader.mark.measure.1.elim .brokenContinuation (.measured · state.baseline)) := by
  obtain ⟨more, hmore, hcalls, hevents⟩ := scanLayout_begins state requested reader.ahead
  have hscan : Offside.scan state requested reader.ahead = _ := scan_of_layout h
  refine ⟨more, hmore, ?_, ?_⟩
  · simp only [scan, hscan, Answer.calls_commit, hcalls, run_append]
    rfl
  · simp only [scan, hscan, Answer.commit]
    split
    · exact hevents
    · rw [List.head?_append, hevents]
      rfl

/-- What is measured is told by the longest trivia in front, and the reader stops behind it. -/
structure Measures (reader : Reader) (items : List Trivia) (rest : List Char) : Prop where
  longest_iff : ∀ others later,
    Trivia.Longest reader.ahead others later ↔ others = items ∧ later = rest
  none_iff : reader.measure.1 = none ↔ rest.headD '\x00' = '\\'
  layout_eq : rest.headD '\x00' ≠ '\\' → reader.measure.1 = some
    { indent := if rest.headD '\x00' = '\x00' then 0 else Trivia.indent items
      endOfLine := decide (.blank .lineFeed ∈ items ∨ rest.headD '\x00' = '\x00')
      comment? := Trivia.commentIndent? items }
  offset_eq : rest.headD '\x00' ≠ '\\' →
    reader.measure.2.offset = reader.offset + encodedSize (items.flatMap Trivia.text)
  ahead_eq : rest.headD '\x00' ≠ '\\' → reader.measure.2.ahead = rest

theorem measure_eq {reader : Reader} {items : List Trivia} {rest : List Char}
    (hs : Trivia.split reader.ahead = (items, rest)) :
    reader.measure = (Layout.measure? items rest,
      reader.run (List.replicate (Layout.skips items rest) .skip)) := by
  rw [measure, Layout.measure_of_split hs]

theorem measures_of_split {reader : Reader} {items : List Trivia} {rest : List Char}
    (hs : Trivia.split reader.ahead = (items, rest))
    (hr : rest.headD '\x00' ≠ '\\' →
      reader.measure.2.offset = reader.offset + encodedSize (items.flatMap Trivia.text) ∧
        reader.measure.2.ahead = rest) :
    reader.Measures items rest := by
  have hm : reader.measure.1 = Layout.measure? items rest := by rw [measure_eq hs]
  refine ⟨?_, ?_, ?_, fun hc => (hr hc).1, fun hc => (hr hc).2⟩
  · intro others later
    rw [Trivia.longest_iff, hs, Prod.mk.injEq]
    exact and_congr eq_comm eq_comm
  · rw [hm]
    exact Layout.measure?_eq_none_iff
  · intro hc
    rw [hm]
    exact Layout.measure?_eq items hc

theorem measures_of_before {cursor : Cursor} {ahead : List Char} (hb : cursor.Before ahead) :
    (fresh cursor).Measures (Trivia.split ahead).1 (Trivia.split ahead).2 := by
  have hahead : (fresh cursor).ahead = ahead := hb.ahead_eq
  have hsplit : Trivia.split (fresh cursor).ahead =
      ((Trivia.split ahead).1, (Trivia.split ahead).2) := by rw [hahead]
  apply measures_of_split hsplit
  intro hc
  obtain ⟨htake, hdrop⟩ :=
    Layout.skips_of_begins (Trivia.begins_split ahead) (Layout.brokenSkips_eq_zero hc)
  rw [measure_eq hsplit, run_replicate_skip rfl]
  constructor
  · simp only [offset, fresh, hb.advanceBy_eq, htake]
  · exact (hb.before_advanceBy _).ahead_eq.trans hdrop

theorem measures_of_replacement {cursor : Cursor} (he : cursor.atEnd = false)
    (hc : cursor.current = replacement) : (fresh cursor).Measures [] cursor.ahead := by
  obtain ⟨later, hahead⟩ : ∃ later, cursor.ahead = replacement :: later :=
    ⟨_, Cursor.ahead_eq_cons_iff.mpr ⟨he, hc, rfl⟩⟩
  have hnone : Trivia.next? cursor.ahead = none := by
    rw [hahead, Trivia.next?_cons_eq_none_iff (by decide)]
    exact ⟨by decide, by decide⟩
  have hsplit : Trivia.split (fresh cursor).ahead = ([], cursor.ahead) :=
    Trivia.split_of_next?_eq_none hnone
  apply measures_of_split hsplit
  intro _
  have hskips : Layout.skips [] cursor.ahead = 0 := by
    rw [hahead]
    rfl
  rw [measure_eq hsplit, hskips]
  exact ⟨rfl, rfl⟩

end Reader

/-- Wherever measuring begins in a text, the longest sequence of trivia there tells the layout, if
it does not stand in front of a backslash, and it is all that is read. -/
theorem trivia_tells_layout (input : String) (hs : input.utf8ByteSize ≤ maxOffset) (offset : Nat) :
    let source := Source.ofString input
    let reader := (Reader.ofSource source).begin offset
    (∀ front later, input.toList = front ++ later →
      max offset source.contentStart = encodedSize front →
        reader.offset = encodedSize front ∧ reader.ahead = later) ∧
      ∃ items rest, reader.Measures items rest := by
  intro source reader
  constructor
  · intro front later h hstart
    have hb := Source.before_of_toList_eq h hs
    have hreader : reader = Reader.fresh ⟨source, encodedSize front⟩ :=
      Source.begin_eq hs h hstart
    rw [hreader]
    exact ⟨rfl, hb.ahead_eq⟩
  · have ho : reader.offset ≤ source.size := Nat.min_le_right _ _
    have hreader : reader = Reader.fresh reader.cursor := rfl
    rw [hreader]
    rcases Source.before_or_replacement hs ho with ⟨front, later, h, hf⟩ | ⟨he, hc⟩
    · have hb := Source.before_of_toList_eq h hs
      rw [← hf] at hb
      exact ⟨_, _, Reader.measures_of_before hb⟩
    · exact ⟨_, _, Reader.measures_of_replacement he hc⟩

/-- A comment behind a tab, and a line that is indented on both sides of a continuation. -/
theorem trivia_tells_layout_commented :
    let input := "\n\t# é\n \\\n b"
    let reader := (Reader.ofSource (Source.ofString input)).begin 0
    input.utf8ByteSize ≤ maxOffset ∧
      reader.measure.1 = some { indent := 2, endOfLine := true, comment? := some 8 } ∧
      ∃ items rest, reader.Measures items rest := by
  intro input reader
  have hs : input.utf8ByteSize ≤ maxOffset := by decide
  obtain ⟨-, hmeasures⟩ := trivia_tells_layout input hs 0
  exact ⟨hs, by decide +kernel, hmeasures⟩

end Offside
