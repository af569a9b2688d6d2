import Offside.Proofs.Truncation

/-!
# The calls of a scan

A token ends at the last mark. Inside of a literal that is behind the text, and outside of literals
in front of the trivia, with a second mark behind an opener.
-/

namespace Offside

set_option autoImplicit false

namespace Token

def isLayout (token : Token) : Bool := token == newline || token == indent || token == dedent

def isOpener (token : Token) : Bool := token == stringStart || token == regexStart

end Token

/-- The layout is read: no literal is selected, or the one selected has no text left. -/
def ReadsLayout (state : State) (requested : TokenSet) (ahead : List Char) : Prop :=
  Mode.select state requested = .layout ∨ ahead.headD '\x00' = '\x00'

instance (state : State) (requested : TokenSet) (ahead : List Char) :
    Decidable (ReadsLayout state requested ahead) :=
  inferInstanceAs (Decidable (_ ∨ _))

theorem Literal.isExhausted_iff {literal : Literal} {ahead : List Char} :
    (literal.piece ahead).isExhausted = true ↔ ahead.headD '\x00' = '\x00' := by
  constructor
  · exact headD_of_isExhausted
  · intro h
    have hplain : literal.plainText ahead = [] := by
      cases ahead with
      | nil => rfl
      | cons c rest =>
        obtain rfl : c = '\x00' := h
        simp [plainText, isPlain, stop?_nul]
    rw [piece, hplain, List.length_nil, List.drop_zero, h, stop?_nul]
    rfl

section Scan

variable {state : State} {requested : TokenSet} {ahead : List Char}

theorem ReadsLayout.isExhausted (h : ReadsLayout state requested ahead) {literal : Literal}
    (hm : Mode.select state requested = .inside literal) :
    (literal.piece ahead).isExhausted = true := by
  rcases h with hl | hn
  · rw [hl] at hm
    cases hm
  · exact Literal.isExhausted_iff.mpr hn

theorem scan_of_readsLayout (h : ReadsLayout state requested ahead) :
    scan state requested ahead =
      (scanLayout state requested ahead).commit (Mode.select state requested) := by
  cases hm : Mode.select state requested with
  | layout => exact scan_of_layout hm
  | inside literal => exact scan_of_isExhausted hm (h.isExhausted hm)

theorem exists_literal_of_not_readsLayout (h : ¬ ReadsLayout state requested ahead) :
    ∃ literal, Mode.select state requested = .inside literal ∧
      (literal.piece ahead).isExhausted = false := by
  cases hm : Mode.select state requested with
  | layout => exact absurd (.inl hm) h
  | inside literal =>
    have hx : (literal.piece ahead).isExhausted = false := by
      rw [← Bool.not_eq_true, Literal.isExhausted_iff]
      exact fun hn => h (.inr hn)
    exact ⟨literal, rfl, hx⟩

/-- Trivia is skipped behind the mark, for a token of the layout or none. An opener is advanced over
and marked anew. -/
theorem ReadsLayout.calls_cases (h : ReadsLayout state requested ahead) :
    ∃ count,
      (∀ token, (scan state requested ahead).token? = some token → token.isLayout = true) ∧
          (scan state requested ahead).calls = .mark :: List.replicate count .skip ∨
        (∃ token, (scan state requested ahead).token? = some token ∧ token.isOpener = true) ∧
          (scan state requested ahead).calls =
            .mark :: (List.replicate count .skip ++ [.advance, .mark]) := by
  obtain ⟨answer, course, htoken, hcalls, -⟩ := exists_course state requested ahead
  rw [htoken, hcalls]
  cases course with
  | piece mode text =>
    rw [h.isExhausted mode] at text
    cases text
  | broken | idle | refused =>
    refine ⟨_, .inl ⟨?_, rfl⟩⟩
    intro token ht
    cases ht
  | due split measure token_due =>
    refine ⟨_, .inl ⟨?_, rfl⟩⟩
    intro token ht
    cases ht
    rcases Layout.token?_cases token_due with ⟨rfl, -⟩ | ⟨rfl, -⟩ | ⟨rfl, -⟩ <;> rfl
  | @opened _ _ _ literal => exact ⟨_, .inr ⟨⟨_, rfl, by cases literal <;> rfl⟩, rfl⟩⟩

/-- A piece is marked behind its text, unless it is no token. -/
theorem Piece.calls_cases (piece : Piece) (literal : Literal) :
    ∃ count, piece.calls = List.replicate count .advance ++ [.mark] ∨
      piece.calls = List.replicate count .advance ∧ piece.token? literal = none := by
  obtain ⟨length, ending⟩ := piece
  cases length with
  | zero =>
    cases ending with
    | yielded => exact ⟨0, .inl rfl⟩
    | closed => exact ⟨1, .inl rfl⟩
    | lineBreak | endOfInput => exact ⟨0, .inr ⟨rfl, rfl⟩⟩
  | succ length =>
    cases ending with
    | yielded | closed => exact ⟨length + 1, .inl rfl⟩
    | lineBreak | endOfInput => exact ⟨length + 1, .inr ⟨rfl, rfl⟩⟩

/-- A comment that runs to the end takes one skip more than it has characters. -/
theorem Trivia.Begins.skips_eq {items : List Trivia} {body : List Char}
    (h : Begins ahead (items ++ [comment body .endOfInput]) []) :
    Layout.skips (items ++ [comment body .endOfInput]) [] = ahead.length + 1 := by
  induction items generalizing ahead with
  | nil =>
    cases h with
    | cons fits later =>
      cases later
      simp [Layout.skips, Trivia.skips, Layout.brokenSkips, text, CommentEnd.text]
  | cons item items ih =>
    cases h with
    | @cons _ rest _ _ fits later =>
      have hrest : rest ≠ [] := by
        rintro rfl
        have htext := later.flatMap_text_append
        simp [text] at htext
      have hskips : Layout.skips (item :: (items ++ [comment body .endOfInput])) [] =
          item.skips + Layout.skips (items ++ [comment body .endOfInput]) [] := rfl
      rw [List.cons_append, hskips, ih later, fits.skips_eq hrest, List.length_append]
      omega

theorem ReadsLayout.moves_eq (h : ReadsLayout state requested ahead)
    (hc : Trivia.EndsInComment ahead) :
    Call.moves (scan state requested ahead).calls = ahead.length + 1 := by
  obtain ⟨items, body, hb⟩ := hc
  have hnil : Trivia.split [] = ([], []) := Trivia.split_of_next?_eq_none rfl
  have hsplit : Trivia.split ahead = (items ++ [.comment body .endOfInput], []) := by
    rw [hb.split_eq, hnil, List.append_nil]
  obtain ⟨answer, course, -, hcalls, -⟩ := exists_course state requested ahead
  rw [hcalls]
  cases course with
  | piece mode text =>
    rw [h.isExhausted mode] at text
    cases text
  | broken split | due split | idle split | refused split =>
    rw [hsplit] at split
    obtain ⟨rfl, rfl⟩ := Prod.mk.inj split
    rw [Layout.calls, Call.moves_mark_cons, Call.moves_replicate (by decide), hb.skips_eq]
  | opened split measure none_due no_comment opener =>
    rw [hsplit] at split
    obtain ⟨rfl, rfl⟩ := Prod.mk.inj split
    rw [List.headD_nil, Literal.ofOpener?_nul] at opener
    cases opener

theorem moves_scan_le (h : ¬ (ReadsLayout state requested ahead ∧ Trivia.EndsInComment ahead)) :
    Call.moves (scan state requested ahead).calls ≤ ahead.length := by
  by_cases hr : ReadsLayout state requested ahead
  · rw [scan_of_readsLayout hr, Answer.calls_commit]
    apply moves_scanLayout_le
    rw [← Trivia.not_endsInComment_iff]
    exact fun hc => h ⟨hr, hc⟩
  · obtain ⟨literal, hm, hx⟩ := exists_literal_of_not_readsLayout hr
    rw [(scan_of_not_isExhausted hm hx).2]
    exact moves_piece_le literal ahead

end Scan

namespace Reader

variable (reader : Reader)

theorem marked?_run_skips (count : Nat) :
    (reader.run (List.replicate count .skip)).marked? = reader.marked? := by
  induction count generalizing reader with
  | zero => rfl
  | succ count ih =>
    rw [List.replicate_succ, run_cons, ih]
    rfl

theorem tokenStart_run_skips (count : Nat) :
    (reader.run (List.replicate (count + 1) .skip)).tokenStart =
      (reader.run (List.replicate (count + 1) .skip)).offset := by
  rw [List.replicate_succ', run_append]
  rfl

theorem span_stop_run_mark (calls : List Call) :
    (reader.run (calls ++ [.mark])).span.stop = (reader.run (calls ++ [.mark])).offset := by
  rw [run_append]
  rfl

theorem span_stop_mark_skips (count : Nat) :
    (reader.run (.mark :: List.replicate count .skip)).span.stop = reader.offset := by
  simp only [run_cons, span, marked?_run_skips]
  rfl

theorem span_eq_iff {place : Nat} (h : reader.span.stop = place) :
    reader.span = ⟨place, place⟩ ↔ place ≤ reader.tokenStart := by
  have hspan : reader.span = ⟨min reader.tokenStart place, place⟩ := by
    rw [← h]
    rfl
  rw [hspan, Span.mk.injEq]
  omega

theorem span_mark_skips_iff {ahead : List Char} (hb : reader.cursor.Before ahead) (count : Nat) :
    (reader.run (.mark :: List.replicate count .skip)).span = ⟨reader.offset, reader.offset⟩ ↔
      count ≠ 0 ∨ reader.offset ≤ reader.tokenStart := by
  rw [span_eq_iff _ (reader.span_stop_mark_skips count)]
  cases count with
  | zero =>
    change reader.offset ≤ reader.tokenStart ↔ _
    omega
  | succ count =>
    have hoffset := offset_run hb (.mark :: List.replicate (count + 1) .skip)
    rw [run_cons] at hoffset ⊢
    rw [tokenStart_run_skips]
    omega

end Reader

/-- How the calls of a scan of `ahead` place its token, where the reader may have started and marked
a token before. -/
structure Scanned.Places (scanned : Scanned) (reader : Reader) (state : State)
    (requested : TokenSet) (ahead : List Char) : Prop where
  in_literal : ¬ ReadsLayout state requested ahead → ∃ count,
    scanned.answer.calls = List.replicate count .advance ++ [.mark] ∨
      scanned.answer.calls = List.replicate count .advance ∧ scanned.answer.token? = none
  in_layout : ReadsLayout state requested ahead → ∃ count,
    scanned.answer.calls = .mark :: (List.replicate count .skip ++
      if scanned.answer.token? = some .stringStart ∨ scanned.answer.token? = some .regexStart then
        [.advance, .mark]
      else [])
  /-- A comment that runs to the end of the input has one skip without a character. -/
  reads : ∃ read left, ahead = read ++ left ∧
    scanned.reader.offset = reader.offset + encodedSize read ∧
    (ReadsLayout state requested ahead ∧ Trivia.EndsInComment ahead →
      Call.moves scanned.answer.calls = read.length + 1) ∧
    (¬ (ReadsLayout state requested ahead ∧ Trivia.EndsInComment ahead) →
      Call.moves scanned.answer.calls = read.length)
  marks : ∀ token, scanned.answer.token? = some token → .mark ∈ scanned.answer.calls
  ends_before : ∀ token, scanned.answer.token? = some token → token.isLayout = true →
    scanned.reader.span.stop = reader.offset
  /-- It reaches back to where a token was started if nothing is skipped. -/
  is_empty : ∀ token, scanned.answer.token? = some token → token.isLayout = true →
    (scanned.reader.span = ⟨reader.offset, reader.offset⟩ ↔
      .skip ∈ scanned.answer.calls ∨ reader.offset ≤ reader.tokenStart)
  ends_behind : ∀ token, scanned.answer.token? = some token → token.isLayout = false →
    scanned.reader.span.stop = scanned.reader.offset

/-- The skip at the end of the input reads nothing, and every other call but a mark a character. -/
theorem exists_read {reader : Reader} {ahead : List Char} (hb : reader.cursor.Before ahead)
    (state : State) (requested : TokenSet) :
    let calls := (scan state requested ahead).calls
    ∃ read left, ahead = read ++ left ∧
      (reader.run calls).offset = reader.offset + encodedSize read ∧
      (ReadsLayout state requested ahead ∧ Trivia.EndsInComment ahead →
        Call.moves calls = read.length + 1) ∧
      (¬ (ReadsLayout state requested ahead ∧ Trivia.EndsInComment ahead) →
        Call.moves calls = read.length) := by
  intro calls
  refine ⟨_, _, (List.take_append_drop (Call.moves calls) ahead).symm, Reader.offset_run hb calls,
    ?_, ?_⟩
  · intro hc
    have hmoves : Call.moves calls = ahead.length + 1 := hc.1.moves_eq hc.2
    rw [List.length_take]
    omega
  · intro hc
    have hmoves : Call.moves calls ≤ ahead.length := moves_scan_le hc
    rw [List.length_take]
    omega

theorem Piece.isLayout_eq_false {literal : Literal} {piece : Piece} {token : Token}
    (h : piece.token? literal = some token) : token.isLayout = false := by
  rcases token?_cases h with rfl | ⟨rfl, -⟩
  · cases literal <;> rfl
  · cases literal <;> rfl

theorem places_of_not_readsLayout {reader : Reader} {state : State} {requested : TokenSet}
    {ahead : List Char} (hb : reader.cursor.Before ahead)
    (h : ¬ ReadsLayout state requested ahead) :
    Scanned.Places ⟨scan state requested ahead, reader.run (scan state requested ahead).calls⟩
      reader state requested ahead := by
  have hread := exists_read hb state requested
  obtain ⟨literal, hm, hx⟩ := exists_literal_of_not_readsLayout h
  obtain ⟨count, hcases⟩ := (literal.piece ahead).calls_cases literal
  obtain ⟨htoken, hcalls⟩ := scan_of_not_isExhausted hm hx
  have hlayout (token : Token) (ht : (scan state requested ahead).token? = some token) :
      token.isLayout = false := by
    rw [htoken] at ht
    exact Piece.isLayout_eq_false ht
  rw [← hcalls, ← htoken] at hcases
  have hmarked (token : Token) (ht : (scan state requested ahead).token? = some token) :
      (scan state requested ahead).calls = List.replicate count .advance ++ [.mark] := by
    rcases hcases with hc | ⟨-, hn⟩
    · exact hc
    · rw [hn] at ht
      cases ht
  refine ⟨fun _ => ⟨count, hcases⟩, fun hr => absurd hr h, hread, ?_, ?_, ?_, ?_⟩
  · intro token ht
    rw [hmarked token ht]
    exact List.mem_concat_self
  · intro token ht hk
    rw [hlayout token ht] at hk
    cases hk
  · intro token ht hk
    rw [hlayout token ht] at hk
    cases hk
  · intro token ht _
    simp only [hmarked token ht]
    exact reader.span_stop_run_mark _

theorem places_of_readsLayout {reader : Reader} {state : State} {requested : TokenSet}
    {ahead : List Char} (hb : reader.cursor.Before ahead)
    (h : ReadsLayout state requested ahead) :
    Scanned.Places ⟨scan state requested ahead, reader.run (scan state requested ahead).calls⟩
      reader state requested ahead := by
  have hread := exists_read hb state requested
  obtain ⟨count, hcases⟩ := h.calls_cases
  rcases hcases with ⟨hlayout, hcalls⟩ | ⟨⟨opener, hopener, hk⟩, hcalls⟩
  · refine ⟨fun hn => absurd h hn, fun _ => ⟨count, ?_⟩, hread, ?_, ?_, ?_, ?_⟩
    · rw [if_neg, List.append_nil]
      · exact hcalls
      · intro ht
        rcases ht with ht | ht
        · cases hlayout _ ht
        · cases hlayout _ ht
    · intro token _
      rw [hcalls]
      exact List.mem_cons_self
    · intro token _ _
      simp only [hcalls]
      exact reader.span_stop_mark_skips count
    · intro token _ _
      simp only [hcalls]
      rw [reader.span_mark_skips_iff hb count]
      simp
    · intro token ht hn
      rw [hlayout token ht] at hn
      cases hn
  · have hstart : opener = .stringStart ∨ opener = .regexStart := by
      simpa [Token.isOpener] using hk
    have hother (token : Token) (ht : (scan state requested ahead).token? = some token) :
        token.isLayout = false := by
      rw [hopener, Option.some.injEq] at ht
      subst ht
      rcases hstart with rfl | rfl
      · rfl
      · rfl
    refine ⟨fun hn => absurd h hn, fun _ => ⟨count, ?_⟩, hread, ?_, ?_, ?_, ?_⟩
    · rw [if_pos]
      · exact hcalls
      · simp only [hopener, Option.some.injEq]
        exact hstart
    · intro token _
      rw [hcalls]
      exact List.mem_cons_self
    · intro token ht hl
      rw [hother token ht] at hl
      cases hl
    · intro token ht hl
      rw [hother token ht] at hl
      cases hl
    · intro token _ _
      have hlast : Call.mark :: (List.replicate count .skip ++ [.advance, .mark]) =
          (.mark :: (List.replicate count .skip ++ [.advance])) ++ [.mark] := by simp
      simp only [hcalls, hlast]
      exact reader.span_stop_run_mark _

/-- However the token being read was started and marked before, a scan between two characters makes
its calls in one of two forms. Where text of a literal is ahead, it advances and marks at the end,
or it advances without a mark and finds nothing. Elsewhere it marks and skips, and only an opener is
advanced over and marked. So a token ends where the scan began if the layout tells it, and where the
scan stopped if not. -/
theorem calls_place_token (input : String) (hs : input.utf8ByteSize ≤ maxOffset)
    {front ahead : List Char} (h : input.toList = front ++ ahead) (tokenStart : Nat)
    (marked? : Option Nat) (state : State) (requested : TokenSet) :
    let reader : Reader :=
      { cursor := ⟨Source.ofString input, encodedSize front⟩, tokenStart, marked? }
    (reader.scan state requested).Places reader state requested ahead := by
  intro reader
  have hb : reader.cursor.Before ahead := Source.before_of_toList_eq h hs
  have hahead : reader.ahead = ahead := hb.ahead_eq
  simp only [Reader.scan, hahead]
  by_cases hr : ReadsLayout state requested ahead
  · exact places_of_readsLayout hb hr
  · exact places_of_not_readsLayout hb hr

/-- A NEWLINE behind a comment that runs to the end is empty, although a token was started and
marked in front of the scan. -/
theorem calls_place_token_restarted :
    let input := "é #x"
    let reader : Reader :=
      { cursor := ⟨Source.ofString input, 2⟩, tokenStart := 0, marked? := some 2 }
    let requested : TokenSet := .ofTokens [.newline]
    let scanned := reader.scan {} requested
    input.utf8ByteSize ≤ maxOffset ∧ input.toList = ['é'] ++ [' ', '#', 'x'] ∧
      scanned.answer.token? = some .newline ∧
      scanned.answer.calls = [.mark, .skip, .skip, .skip, .skip] ∧
      scanned.reader.span = ⟨2, 2⟩ ∧ scanned.Places reader {} requested [' ', '#', 'x'] := by
  intro input reader requested scanned
  have hs : input.utf8ByteSize ≤ maxOffset := by decide
  have h : input.toList = ['é'] ++ [' ', '#', 'x'] := by decide
  exact ⟨hs, h, by decide +kernel, by decide +kernel, by decide +kernel,
    calls_place_token input hs h 0 (some 2) {} requested⟩

/-- Where nothing is skipped, a token that was started before and never begun anew is not empty. -/
theorem newline_reaches_back :
    let reader := ((Reader.ofSource (Source.ofString "a")).begin 0).advance
    let scanned := reader.scan {} (.ofTokens [.newline])
    reader.offset = 1 ∧ scanned.answer.token? = some .newline ∧
      scanned.answer.calls = [.mark] ∧ scanned.reader.span = ⟨0, 1⟩ ∧
      scanned.reader.span.isEmpty = false ∧ scanned.reader.text = "a" := by
  decide +kernel

end Offside
