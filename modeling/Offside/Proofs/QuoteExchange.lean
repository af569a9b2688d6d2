import Mathlib.Logic.Equiv.Basic
import Offside.Proofs.Bytes
import Offside.Proofs.Calls
import Offside.Proofs.Influence

/-!
# Quotes are interchangeable

Exchange the three quotes for one another, in a text and in the strings that are open, and nothing
else changes. Only the quote that opened a string ends it, and a quote takes one byte, so every
offset keeps its meaning.
-/

namespace Offside

set_option autoImplicit false

namespace Quote

variable (swap : Equiv.Perm Quote) {c d : Char}

/-- A quote is exchanged and every other character is kept. -/
def exchange (c : Char) : Char := (ofChar? c).elim c fun quote => (swap quote).char

@[simp] theorem exchange_char (quote : Quote) :
    exchange swap quote.char = (swap quote).char := by
  rw [exchange, ofChar?_char, Option.elim_some]

theorem exchange_of_ofChar? (h : ofChar? c = none) : exchange swap c = c := by
  rw [exchange, h, Option.elim_none]

theorem ofChar?_exchange (c : Char) : ofChar? (exchange swap c) = (ofChar? c).map swap := by
  cases h : ofChar? c with
  | none => rw [exchange_of_ofChar? swap h, h, Option.map_none]
  | some quote =>
    obtain rfl := ofChar?_eq_some_iff.mp h
    rw [exchange_char, ofChar?_char, Option.map_some]

theorem exchange_symm_exchange (c : Char) : exchange swap.symm (exchange swap c) = c := by
  cases h : ofChar? c with
  | none => rw [exchange_of_ofChar? swap h, exchange_of_ofChar? swap.symm h]
  | some quote =>
    obtain rfl := ofChar?_eq_some_iff.mp h
    rw [exchange_char, exchange_char, Equiv.symm_apply_apply]

theorem exchange_inj : exchange swap c = exchange swap d ↔ c = d := by
  constructor
  · intro h
    rw [← exchange_symm_exchange swap c, h, exchange_symm_exchange]
  · intro h
    rw [h]

theorem exchange_eq_iff (h : ofChar? d = none) : exchange swap c = d ↔ c = d := by
  have hd := exchange_of_ofChar? swap h
  constructor
  · intro he
    exact (exchange_inj swap).mp (he.trans hd.symm)
  · intro he
    rw [he, hd]

theorem utf8Size_exchange (c : Char) : (exchange swap c).utf8Size = c.utf8Size := by
  cases h : ofChar? c with
  | none => rw [exchange_of_ofChar? swap h]
  | some quote =>
    obtain rfl := ofChar?_eq_some_iff.mp h
    rw [exchange_char, utf8Size_char, utf8Size_char]

def exchangeAll (text : List Char) : List Char := text.map (exchange swap)

variable (text : List Char)

theorem exchangeAll_symm : exchangeAll swap.symm (exchangeAll swap text) = text := by
  have hid : exchange swap.symm ∘ exchange swap = id := funext (exchange_symm_exchange swap)
  rw [exchangeAll, exchangeAll, List.map_map, hid, List.map_id]

theorem encodedSize_exchangeAll : encodedSize (exchangeAll swap text) = encodedSize text := by
  induction text with
  | nil => rfl
  | cons c text ih =>
    change (exchange swap c).utf8Size + encodedSize (exchangeAll swap text) = _
    rw [ih, utf8Size_exchange, encodedSize_cons]

theorem exchangeAll_cons (c : Char) :
    exchangeAll swap (c :: text) = exchange swap c :: exchangeAll swap text := rfl

theorem exchangeAll_append (other : List Char) :
    exchangeAll swap (text ++ other) = exchangeAll swap text ++ exchangeAll swap other :=
  List.map_append

theorem headD_exchangeAll :
    (exchangeAll swap text).headD '\x00' = exchange swap (text.headD '\x00') := by
  cases text with
  | nil => rfl
  | cons c text => rfl

theorem head?_exchangeAll_eq_iff (h : ofChar? d = none) :
    (exchangeAll swap text).head? = some d ↔ text.head? = some d := by
  cases text with
  | nil => rfl
  | cons c text =>
    rw [exchangeAll_cons, List.head?_cons, List.head?_cons, Option.some.injEq, Option.some.injEq]
    exact exchange_eq_iff swap h

end Quote

namespace Trivia

variable (swap : Equiv.Perm Quote) {item : Trivia} {ahead rest : List Char}

/-- Quotes stand in the bodies of comments only. -/
def exchange : Trivia → Trivia
  | comment body ending => comment (Quote.exchangeAll swap body) ending
  | blank kind => blank kind
  | continuation carriageReturn => continuation carriageReturn

theorem isCommentChar_exchange (c : Char) :
    isCommentChar (Quote.exchange swap c) = isCommentChar c := by
  have hbreak := Quote.exchange_eq_iff swap (c := c) (d := '\n') (by decide)
  have hnul := Quote.exchange_eq_iff swap (c := c) (d := '\x00') (by decide)
  rw [isCommentChar, isCommentChar, Bool.eq_iff_iff]
  simp [hbreak, hnul]

theorem text_exchange (item : Trivia) :
    (item.exchange swap).text = Quote.exchangeAll swap item.text := by
  cases item with
  | blank kind => cases kind <;> rfl
  | comment body ending =>
    have hending : Quote.exchangeAll swap ending.text = ending.text := by cases ending <;> rfl
    have hsharp : Quote.exchange swap '#' = '#' := rfl
    rw [exchange, text, text, Quote.exchangeAll_cons, Quote.exchangeAll_append, hending, hsharp]
  | continuation carriageReturn => cases carriageReturn <;> rfl

theorem Fits.exchange (h : item.Fits rest) :
    (item.exchange swap).Fits (Quote.exchangeAll swap rest) := by
  cases item with
  | blank kind => trivial
  | comment body ending =>
    obtain ⟨hbody, hend⟩ := h
    constructor
    · intro c hc
      obtain ⟨d, hd, rfl⟩ := List.mem_map.mp hc
      rw [isCommentChar_exchange]
      exact hbody d hd
    · intro he
      rw [hend he]
      rfl
  | continuation carriageReturn => trivial

theorem next?_exchange_of_some (h : next? ahead = some (item, rest)) :
    next? (Quote.exchangeAll swap ahead) =
      some (item.exchange swap, Quote.exchangeAll swap rest) := by
  obtain ⟨rfl, hf⟩ := next?_eq_some_iff.mp h
  rw [next?_eq_some_iff, text_exchange, Quote.exchangeAll_append]
  exact ⟨rfl, hf.exchange swap⟩

theorem next?_exchange_of_none (h : next? ahead = none) :
    next? (Quote.exchangeAll swap ahead) = none := by
  cases hn : next? (Quote.exchangeAll swap ahead) with
  | none => rfl
  | some found =>
    -- What is found in the exchanged text is found in the text itself when exchanged back.
    have hback := next?_exchange_of_some swap.symm hn
    rw [Quote.exchangeAll_symm, h] at hback
    cases hback

theorem split_exchange (ahead : List Char) :
    split (Quote.exchangeAll swap ahead) =
      ((split ahead).1.map (exchange swap), Quote.exchangeAll swap (split ahead).2) := by
  fun_induction split ahead with
  | case1 ahead h => rw [split_of_next?_eq_none (next?_exchange_of_none swap h)]; rfl
  | case2 ahead item rest h _ later ih =>
    rw [split_of_next?_eq_some (next?_exchange_of_some swap h), ih]
    rfl

end Trivia

namespace Layout

variable (swap : Equiv.Perm Quote)

theorem add_exchange (layout : Layout) (item : Trivia) :
    layout.add (item.exchange swap) = layout.add item := by
  cases item <;> rfl

theorem ofTrivia_exchange (items : List Trivia) :
    ofTrivia (items.map (Trivia.exchange swap)) = ofTrivia items := by
  simp only [ofTrivia, List.foldl_map, add_exchange]

theorem measure?_exchange (items : List Trivia) (rest : List Char) :
    measure? (items.map (Trivia.exchange swap)) (Quote.exchangeAll swap rest) =
      measure? items rest := by
  unfold measure?
  rw [Quote.headD_exchangeAll, ofTrivia_exchange]
  -- A quote is neither a backslash nor NUL, whichever it is.
  cases h : Quote.ofChar? (rest.headD '\x00') with
  | none => rw [Quote.exchange_of_ofChar? swap h]
  | some quote =>
    rw [← Quote.ofChar?_eq_some_iff.mp h, Quote.exchange_char]
    cases quote <;> cases swap _ <;> rfl

theorem brokenSkips_exchange (rest : List Char) :
    brokenSkips (Quote.exchangeAll swap rest) = brokenSkips rest := by
  cases rest with
  | nil => rfl
  | cons c rest =>
    rw [Quote.exchangeAll_cons]
    by_cases hc : c = '\\'
    · have hhead : (Quote.exchangeAll swap rest).head? = some '\r' ↔ rest.head? = some '\r' := by
        cases rest with
        | nil => rfl
        | cons d rest =>
          rw [Quote.exchangeAll_cons, List.head?_cons, List.head?_cons, Option.some.injEq,
            Option.some.injEq]
          exact Quote.exchange_eq_iff swap (by decide)
      rw [hc, (Quote.exchange_eq_iff swap (by decide)).mpr rfl, brokenSkips_backslash,
        brokenSkips_backslash]
      simp only [hhead]
    · have hne : Quote.exchange swap c ≠ '\\' := fun h =>
        hc ((Quote.exchange_eq_iff swap (by decide)).mp h)
      rw [brokenSkips_cons hne, brokenSkips_cons hc]

theorem skips_exchange (items : List Trivia) (rest : List Char) :
    skips (items.map (Trivia.exchange swap)) (Quote.exchangeAll swap rest) =
      skips items rest := by
  have hskips (item : Trivia) : (item.exchange swap).skips = item.skips := by
    cases item with
    | comment body ending => simp [Trivia.exchange, Trivia.skips, Quote.exchangeAll]
    | _ => rfl
  simp only [skips, List.foldr_map, hskips, brokenSkips_exchange]

end Layout

/-- Strings that were opened by the quotes, innermost first, in a block with that baseline. -/
def State.ofQuotes (quotes : List Quote) (baseline : UInt8) : State :=
  { stack := quotes.map .ofQuote, baseline }

/-- The second state is the first with the quotes of its strings exchanged. -/
inductive State.Exchanged (swap : Equiv.Perm Quote) : State → State → Prop
  | intro (quotes : List Quote) (baseline : UInt8) :
      Exchanged swap (ofQuotes quotes baseline) (ofQuotes (quotes.map swap) baseline)

inductive Literal.Exchanged (swap : Equiv.Perm Quote) : Literal → Literal → Prop
  | string (quote : Quote) :
      Exchanged swap (string (.ofQuote quote)) (string (.ofQuote (swap quote)))
  | regex : Exchanged swap regex regex

inductive Mode.Exchanged (swap : Equiv.Perm Quote) : Mode → Mode → Prop
  | layout : Exchanged swap layout layout
  | inside {literal other : Literal} (h : literal.Exchanged swap other) :
      Exchanged swap (inside literal) (inside other)

section Scan

variable {swap : Equiv.Perm Quote}

namespace Literal.Exchanged

variable {literal other : Literal}

theorem closing?_eq_iff (h : literal.Exchanged swap other) (c : Char) :
    other.closing? = some (Quote.exchange swap c) ↔ literal.closing? = some c := by
  cases h with
  | string quote =>
    simp only [closing?, Delimiter.closing?_ofQuote, Option.some.injEq]
    rw [← Quote.exchange_char, Quote.exchange_inj]
  | regex =>
    simp only [closing?, Option.some.injEq]
    rw [eq_comm, Quote.exchange_eq_iff swap (by decide), eq_comm]

theorem yields_eq (h : literal.Exchanged swap other) (c : Char) :
    other.yields (Quote.exchange swap c) = literal.yields c := by
  have hinterpolates : other.interpolates = literal.interpolates := by cases h <;> rfl
  have hescape := Quote.exchange_eq_iff swap (c := c) (d := '\\') (by decide)
  have hopen := Quote.exchange_eq_iff swap (c := c) (d := '\x7b') (by decide)
  have hclose := Quote.exchange_eq_iff swap (c := c) (d := '\x7d') (by decide)
  rw [yields, yields, hinterpolates, Bool.eq_iff_iff]
  simp [hescape, hopen, hclose]

/-- Only the quote that opened a string ends it, and all others are plain text. -/
theorem stop?_eq (h : literal.Exchanged swap other) (c : Char) :
    other.stop? (Quote.exchange swap c) = literal.stop? c := by
  have hnul := Quote.exchange_eq_iff swap (c := c) (d := '\x00') (by decide)
  simp only [stop?, hnul, h.yields_eq, h.closing?_eq_iff]

theorem plainText_eq (h : literal.Exchanged swap other) (ahead : List Char) :
    other.plainText (Quote.exchangeAll swap ahead) =
      Quote.exchangeAll swap (literal.plainText ahead) := by
  have hplain (c : Char) : other.isPlain (Quote.exchange swap c) = literal.isPlain c := by
    rw [isPlain, isPlain, h.stop?_eq]
  have hgoes (c : Char) : (other.isPlain (Quote.exchange swap c) &&
      Quote.exchange swap c != '\n') = (literal.isPlain c && c != '\n') := by
    have hbreak := Quote.exchange_eq_iff swap (c := c) (d := '\n') (by decide)
    rw [hplain, bne, bne, Bool.beq_eq_decide_eq, Bool.beq_eq_decide_eq, decide_eq_decide.mpr hbreak]
  cases ahead with
  | nil => rfl
  | cons c rest =>
    rw [Quote.exchangeAll_cons, plainText, plainText, hplain]
    split
    · rw [Quote.exchangeAll, Quote.exchangeAll, List.takeWhile_map, List.map_cons]
      congr 3
      funext next
      exact hgoes next
    · rfl

theorem piece_eq (h : literal.Exchanged swap other) (ahead : List Char) :
    other.piece (Quote.exchangeAll swap ahead) = literal.piece ahead := by
  have hlength : (other.plainText (Quote.exchangeAll swap ahead)).length =
      (literal.plainText ahead).length := by
    rw [h.plainText_eq, Quote.exchangeAll, List.length_map]
  have hdrop (count : Nat) : (Quote.exchangeAll swap ahead).drop count =
      Quote.exchangeAll swap (ahead.drop count) := List.map_drop.symm
  rw [piece, piece, hlength, hdrop, Quote.headD_exchangeAll, h.stop?_eq]

theorem token?_eq (h : literal.Exchanged swap other) (piece : Piece) :
    piece.token? other = piece.token? literal := by
  cases h with
  | string quote => exact piece.token?_string _ _
  | regex => rfl

end Literal.Exchanged

theorem Literal.ofOpener?_exchange (swap : Equiv.Perm Quote) (requested : TokenSet) (c : Char) :
    ofOpener? requested c = none ∧ ofOpener? requested (Quote.exchange swap c) = none ∨
      ∃ literal other, ofOpener? requested c = some literal ∧
        ofOpener? requested (Quote.exchange swap c) = some other ∧
        literal.Exchanged swap other := by
  have hslash : Quote.exchange swap c == '/' ↔ c == '/' := by
    rw [beq_iff_eq, beq_iff_eq]
    exact Quote.exchange_eq_iff swap (by decide)
  simp only [ofOpener?, Delimiter.ofOpener?, Quote.ofChar?_exchange, Bool.and_eq_true, hslash]
  cases hq : Quote.ofChar? c with
  | none =>
    simp only [Option.map_none, ite_self]
    split
    · exact .inr ⟨_, _, rfl, rfl, .regex⟩
    · exact .inl ⟨rfl, rfl⟩
  | some quote =>
    cases requested.allows .stringStart with
    | true => exact .inr ⟨_, _, rfl, rfl, .string quote⟩
    | false =>
      simp only [Bool.false_eq_true, if_false]
      split
      · exact .inr ⟨_, _, rfl, rfl, .regex⟩
      · exact .inl ⟨rfl, rfl⟩

namespace State.Exchanged

variable {state other : State}

theorem baseline_eq (h : state.Exchanged swap other) : other.baseline = state.baseline := by
  cases h with
  | intro quotes baseline => rfl

theorem exists_quotes (h : state.Exchanged swap other) :
    ∃ quotes baseline, state = .ofQuotes quotes baseline ∧
      other = .ofQuotes (quotes.map swap) baseline := by
  cases h with
  | intro quotes baseline => exact ⟨quotes, baseline, rfl, rfl⟩

theorem depth_eq (h : state.Exchanged swap other) : other.depth = state.depth := by
  cases h with
  | intro quotes baseline => simp [ofQuotes, depth]

theorem pop (h : state.Exchanged swap other) : state.pop.Exchanged swap other.pop := by
  cases h with
  | intro quotes baseline =>
    cases quotes with
    | nil => exact intro [] baseline
    | cons quote quotes => exact intro quotes baseline

theorem behind (h : state.Exchanged swap other) (token : Token) :
    (state.behind token).Exchanged swap (other.behind token) := by
  unfold State.behind
  split
  · exact h.pop
  · exact h

theorem settle (h : state.Exchanged swap other) (layout : Layout) (token : Token) :
    (layout.settle state token).Exchanged swap (layout.settle other token) := by
  cases h with
  | intro quotes baseline => cases token <;> exact intro quotes _

theorem open?_cases (h : state.Exchanged swap other) {literal exchanged : Literal}
    (hl : literal.Exchanged swap exchanged) :
    state.open? literal = none ∧ other.open? exchanged = none ∨
      ∃ inner opened, state.open? literal = some inner ∧ other.open? exchanged = some opened ∧
        inner.Exchanged swap opened := by
  cases hl with
  | regex => exact .inr ⟨state, other, rfl, rfl, h⟩
  | string quote =>
    simp only [open?, push?, h.depth_eq]
    split
    · exact .inl ⟨rfl, rfl⟩
    · cases h with
      | intro quotes baseline => exact .inr ⟨_, _, rfl, rfl, intro (quote :: quotes) baseline⟩

theorem select (h : state.Exchanged swap other) (requested : TokenSet) :
    (Mode.select state requested).Exchanged swap (Mode.select other requested) := by
  have hregex : (if requested.allows .regexContent then Mode.inside .regex else .layout).Exchanged
      swap (if requested.allows .regexContent then Mode.inside .regex else .layout) := by
    split
    · exact .inside .regex
    · exact .layout
  cases h with
  | intro quotes baseline =>
    unfold Mode.select
    split
    · exact .layout
    · cases requested.allows .stringContent with
      | false => exact hregex
      | true =>
        cases quotes with
        | nil => exact hregex
        | cons quote quotes => exact .inside (.string quote)

end State.Exchanged

/-- The same is found by the same calls, and behind it the quotes are exchanged. -/
structure Answer.Exchanged (swap : Equiv.Perm Quote) (answer other : Answer) : Prop where
  token?_eq : other.token? = answer.token?
  calls_eq : other.calls = answer.calls
  state : answer.state.Exchanged swap other.state

theorem Answer.Exchanged.commit {answer other : Answer} (h : answer.Exchanged swap other)
    (mode exchanged : Mode) : (answer.commit mode).Exchanged swap (other.commit exchanged) := by
  constructor
  · rw [token?_commit, token?_commit, h.token?_eq]
  · rw [calls_commit, calls_commit, h.calls_eq]
  · rw [state_commit, state_commit]
    exact h.state

variable {state other : State}

theorem openLiteral_exchange {answer found : Answer} (h : answer.Exchanged swap found)
    (requested : TokenSet) (c : Char) :
    (openLiteral answer requested c).Exchanged swap
      (openLiteral found requested (Quote.exchange swap c)) := by
  unfold openLiteral
  rcases Literal.ofOpener?_exchange swap requested c with
    ⟨hnone, hother⟩ | ⟨literal, exchanged, hsome, hother, hl⟩
  · simp only [hnone, hother]
    exact h
  · simp only [hsome, hother]
    rcases h.state.open?_cases hl with ⟨hfull, hotherFull⟩ | ⟨inner, opened, hin, hopened, hs⟩
    · simp only [hfull, hotherFull]
      exact ⟨h.token?_eq, h.calls_eq, h.state⟩
    · simp only [hin, hopened]
      refine ⟨?_, congrArg (· ++ _) h.calls_eq, hs⟩
      cases hl <;> rfl

theorem scanLayout_exchange (h : state.Exchanged swap other) (requested : TokenSet)
    (ahead : List Char) :
    (scanLayout state requested ahead).Exchanged swap
      (scanLayout other requested (Quote.exchangeAll swap ahead)) := by
  simp only [scanLayout, Layout.measure, Trivia.split_exchange, Layout.skips_exchange,
    Layout.measure?_exchange, Quote.headD_exchangeAll, h.baseline_eq]
  cases Layout.measure? (Trivia.split ahead).1 (Trivia.split ahead).2 with
  | none => exact ⟨rfl, rfl, h⟩
  | some layout =>
    cases ht : layout.token? requested state.baseline with
    | some token =>
      simp only [ht]
      exact ⟨rfl, rfl, h.settle layout token⟩
    | none =>
      simp only [ht]
      split
      · exact ⟨rfl, rfl, h⟩
      · apply openLiteral_exchange
        exact ⟨rfl, rfl, h⟩

theorem scanPiece_exchange (h : state.Exchanged swap other) {literal exchanged : Literal}
    (hl : literal.Exchanged swap exchanged) (piece : Piece) :
    (scanPiece state literal piece).Exchanged swap (scanPiece other exchanged piece) := by
  have htoken := hl.token?_eq piece
  refine ⟨htoken, rfl, ?_⟩
  simp only [scanPiece, htoken]
  cases piece.token? literal with
  | none => exact h
  | some token => exact h.behind token

theorem scan_exchange (h : state.Exchanged swap other) (requested : TokenSet)
    (ahead : List Char) :
    (scan state requested ahead).Exchanged swap
      (scan other requested (Quote.exchangeAll swap ahead)) := by
  have hlayout := scanLayout_exchange h requested ahead
  have hmode := h.select requested
  apply Answer.Exchanged.commit
  generalize Mode.select state requested = mode at hmode ⊢
  generalize Mode.select other requested = exchanged at hmode ⊢
  cases hmode with
  | layout => exact hlayout
  | inside hl =>
    simp only [scanIn, hl.piece_eq]
    split
    · exact hlayout
    · exact scanPiece_exchange h hl _

end Scan

/-- A cursor sees the exchanged character wherever it is, and takes as many bytes for it. -/
structure Source.Exchanged (swap : Equiv.Perm Quote) (first second : Source) : Prop where
  size_eq : second.size = first.size
  contentStart_eq : second.contentStart = first.contentStart
  current_eq {offset : Nat} (ho : offset < first.size) :
    Cursor.current ⟨second, offset⟩ = Quote.exchange swap (Cursor.current ⟨first, offset⟩)
  width_eq {offset : Nat} (ho : offset < first.size) :
    Cursor.width ⟨second, offset⟩ = Cursor.width ⟨first, offset⟩

def Cursor.over (cursor : Cursor) (source : Source) : Cursor := { cursor with source }

def Reader.over (reader : Reader) (source : Source) : Reader :=
  { reader with cursor := reader.cursor.over source }

theorem Reader.offset_over (reader : Reader) (source : Source) :
    (reader.over source).offset = reader.offset := rfl

theorem Reader.span_over (reader : Reader) (source : Source) :
    (reader.over source).span = reader.span := rfl

theorem Reader.text_over (reader : Reader) (source : Source) :
    (reader.over source).text = source.slice reader.span.start reader.span.stop := rfl

namespace Source.Exchanged

variable {swap : Equiv.Perm Quote} {first second : Source} {cursor : Cursor} {reader : Reader}

theorem atEnd_over (h : first.Exchanged swap second) (hc : cursor.source = first) :
    (cursor.over second).atEnd = cursor.atEnd := by
  rw [Cursor.over, Cursor.atEnd, Cursor.atEnd, hc, h.size_eq]

theorem current_over (h : first.Exchanged swap second) (hc : cursor.source = first)
    (he : cursor.atEnd = false) :
    (cursor.over second).current = Quote.exchange swap cursor.current := by
  obtain rfl := hc
  exact h.current_eq (Cursor.offset_lt_of_atEnd he)

theorem advance_over (h : first.Exchanged swap second) (hc : cursor.source = first) :
    (cursor.over second).advance = cursor.advance.over second := by
  have hend := h.atEnd_over hc
  cases he : cursor.atEnd with
  | true => rw [Cursor.advance_of_atEnd he, Cursor.advance_of_atEnd (hend.trans he)]
  | false =>
    obtain rfl := hc
    have hwidth : (cursor.over second).width = cursor.width :=
      h.width_eq (Cursor.offset_lt_of_atEnd he)
    simp only [Cursor.advance, hend, he, hwidth, Bool.false_eq_true, if_false]
    simp only [Cursor.over, h.size_eq]

theorem stopsWithin_over (h : first.Exchanged swap second) (hc : cursor.source = first)
    (count : Nat) :
    (Cursor.stopsWithin count (cursor.over second)).map Cursor.current =
      Quote.exchangeAll swap ((Cursor.stopsWithin count cursor).map Cursor.current) := by
  induction count generalizing cursor with
  | zero => rfl
  | succ count ih =>
    rw [Cursor.stopsWithin, Cursor.stopsWithin, h.atEnd_over hc]
    split
    · rfl
    · rename_i he
      have hlater := ih ((Cursor.source_advance cursor).trans hc)
      rw [List.map_cons, List.map_cons, Quote.exchangeAll_cons, h.advance_over hc, hlater,
        h.current_over hc (Bool.eq_false_iff.mpr he)]

theorem ahead_over (h : first.Exchanged swap second) (hc : cursor.source = first) :
    (cursor.over second).ahead = Quote.exchangeAll swap cursor.ahead := by
  rw [Cursor.ahead, Cursor.ahead, Cursor.stops, Cursor.stops, ← h.stopsWithin_over hc, hc,
    Cursor.over, h.size_eq]

theorem perform_over (h : first.Exchanged swap second) (hr : reader.source = first) (call : Call) :
    (reader.over second).perform call = (reader.perform call).over second := by
  have hadvance : (reader.over second).cursor.advance = reader.cursor.advance.over second :=
    h.advance_over hr
  cases call with
  | mark => rfl
  | advance =>
    exact congrArg (fun cursor => { reader with cursor }) hadvance
  | skip =>
    exact congrArg (fun cursor => { reader with cursor, tokenStart := cursor.offset }) hadvance

theorem run_over (h : first.Exchanged swap second) (hr : reader.source = first)
    (calls : List Call) : (reader.over second).run calls = (reader.run calls).over second := by
  induction calls generalizing reader with
  | nil => rfl
  | cons call calls ih =>
    rw [Reader.run_cons, Reader.run_cons, h.perform_over hr]
    exact ih ((Reader.source_perform reader call).trans hr)

theorem begin_over (h : first.Exchanged swap second) (offset : Nat) :
    (Reader.ofSource second).begin offset = ((Reader.ofSource first).begin offset).over second := by
  have hbegin (source : Source) : (Reader.ofSource source).begin offset =
      Reader.fresh ⟨source, min (max offset source.contentStart) source.size⟩ := rfl
  rw [hbegin, hbegin, h.contentStart_eq, h.size_eq]
  rfl

theorem scan_over (h : first.Exchanged swap second) {state other : State}
    (hstate : state.Exchanged swap other) (offset : Nat) (requested : TokenSet) :
    (first.scan offset state requested).answer.Exchanged swap
        (second.scan offset other requested).answer ∧
      (second.scan offset other requested).reader =
        (first.scan offset state requested).reader.over second := by
  have hahead : ((Reader.ofSource second).begin offset).ahead =
      Quote.exchangeAll swap ((Reader.ofSource first).begin offset).ahead := by
    rw [h.begin_over]
    exact h.ahead_over rfl
  have hanswer := scan_exchange hstate requested ((Reader.ofSource first).begin offset).ahead
  rw [← hahead] at hanswer
  refine ⟨hanswer, ?_⟩
  rw [scan, scan, Reader.scan, Reader.scan, hanswer.calls_eq, h.begin_over]
  exact h.run_over rfl _

end Source.Exchanged

def exchangeQuotes (swap : Equiv.Perm Quote) (text : String) : String :=
  String.ofList (Quote.exchangeAll swap text.toList)

section Text

variable (swap : Equiv.Perm Quote) {text : String}

@[simp] theorem toList_exchangeQuotes (text : String) :
    (exchangeQuotes swap text).toList = Quote.exchangeAll swap text.toList :=
  String.toList_ofList

theorem exchangeQuotes_symm (text : String) :
    exchangeQuotes swap.symm (exchangeQuotes swap text) = text := by
  rw [exchangeQuotes, toList_exchangeQuotes, Quote.exchangeAll_symm, String.ofList_toList]

theorem utf8ByteSize_exchangeQuotes (text : String) :
    (exchangeQuotes swap text).utf8ByteSize = text.utf8ByteSize := by
  rw [utf8ByteSize_eq, utf8ByteSize_eq, toList_exchangeQuotes, Quote.encodedSize_exchangeAll]

theorem size_le_exchangeQuotes (hs : text.utf8ByteSize ≤ maxOffset) :
    (exchangeQuotes swap text).utf8ByteSize ≤ maxOffset := by
  rwa [utf8ByteSize_exchangeQuotes]

namespace Source

theorem isValid_exchangeQuotes {offset : Nat} (h : String.Pos.Raw.IsValid text ⟨offset⟩) :
    String.Pos.Raw.IsValid (exchangeQuotes swap text) ⟨offset⟩ := by
  obtain ⟨front, rest, ht, rfl⟩ := isValid_iff_exists.mp h
  refine isValid_iff_exists.mpr ⟨Quote.exchangeAll swap front, Quote.exchangeAll swap rest, ?_, ?_⟩
  · rw [toList_exchangeQuotes, ht, Quote.exchangeAll_append]
  · rw [Quote.encodedSize_exchangeAll]

theorem isValid_exchangeQuotes_iff {offset : Nat} :
    String.Pos.Raw.IsValid (exchangeQuotes swap text) ⟨offset⟩ ↔
      String.Pos.Raw.IsValid text ⟨offset⟩ := by
  constructor
  · intro h
    have hback := isValid_exchangeQuotes swap.symm h
    rwa [exchangeQuotes_symm] at hback
  · exact isValid_exchangeQuotes swap

theorem size_exchangeQuotes (text : String) :
    (ofString (exchangeQuotes swap text)).size = (ofString text).size := by
  rw [size_ofString, size_ofString, utf8ByteSize_exchangeQuotes]

variable (hs : text.utf8ByteSize ≤ maxOffset)

include hs

theorem contentStart_exchangeQuotes :
    (ofString (exchangeQuotes swap text)).contentStart = (ofString text).contentStart := by
  have hother := size_le_exchangeQuotes swap hs
  have hmark : (ofString (exchangeQuotes swap text)).hasByteOrderMark =
      (ofString text).hasByteOrderMark := by
    have hhead := Quote.head?_exchangeAll_eq_iff swap text.toList (d := '\uFEFF') (by decide)
    rw [Bool.eq_iff_iff, hasByteOrderMark_iff hother, hasByteOrderMark_iff hs,
      toList_exchangeQuotes]
    simp only [← List.head?_eq_some_iff, hhead]
  rw [contentStart, contentStart, hmark]

theorem current_width_exchangeQuotes {offset : Nat} (ho : offset < (ofString text).size) :
    Cursor.current ⟨ofString (exchangeQuotes swap text), offset⟩ =
        Quote.exchange swap (Cursor.current ⟨ofString text, offset⟩) ∧
      Cursor.width ⟨ofString (exchangeQuotes swap text), offset⟩ =
        Cursor.width ⟨ofString text, offset⟩ := by
  have hother := size_le_exchangeQuotes swap hs
  have hlt : offset < (ofString (exchangeQuotes swap text)).size := by
    rwa [size_exchangeQuotes]
  -- The two texts have the same places between characters, and nothing else can be read elsewhere.
  by_cases hv : String.Pos.Raw.IsValid text ⟨offset⟩
  · obtain ⟨front, c, rest, ht, rfl⟩ := exists_char_of_isValid (size_eq_utf8ByteSize hs ▸ ho) hv
    have hexchanged : (exchangeQuotes swap text).toList =
        Quote.exchangeAll swap front ++ Quote.exchange swap c :: Quote.exchangeAll swap rest := by
      rw [toList_exchangeQuotes, ht, Quote.exchangeAll_append, Quote.exchangeAll_cons]
    have hfirst := before_of_toList_eq ht hs
    have hsecond := before_of_toList_eq hexchanged hother
    rw [Quote.encodedSize_exchangeAll] at hsecond
    rw [hsecond.current_eq, hfirst.current_eq, hsecond.width_eq, hfirst.width_eq,
      Quote.utf8Size_exchange]
    exact ⟨rfl, rfl⟩
  · have hnone : ¬ String.Pos.Raw.IsValid (exchangeQuotes swap text) ⟨offset⟩ := by
      rwa [isValid_exchangeQuotes_iff]
    obtain ⟨hcurrent, hwidth⟩ := current_width_of_not_isValid hs ho hv
    obtain ⟨hreplaced, hsame⟩ := current_width_of_not_isValid hother hlt hnone
    rw [hcurrent, hwidth, hreplaced, hsame]
    exact ⟨rfl, rfl⟩

theorem exchanged_exchangeQuotes :
    (ofString text).Exchanged swap (ofString (exchangeQuotes swap text)) where
  size_eq := size_exchangeQuotes swap text
  contentStart_eq := contentStart_exchangeQuotes swap hs
  current_eq ho := (current_width_exchangeQuotes swap hs ho).1
  width_eq ho := (current_width_exchangeQuotes swap hs ho).2

theorem slice_exchangeQuotes (start stop : Nat) :
    (ofString (exchangeQuotes swap text)).slice start stop =
      exchangeQuotes swap ((ofString text).slice start stop) := by
  have hother := size_le_exchangeQuotes swap hs
  have hsize := size_exchangeQuotes swap text
  rw [slice_eq_slice_min, slice_eq_slice_min (ofString text), hsize]
  have hstop := Nat.min_le_right stop (ofString text).size
  generalize min stop (ofString text).size = last at hstop ⊢
  have hstart := Nat.min_le_right start last
  generalize min start last = place at hstart ⊢
  by_cases hv : String.Pos.Raw.IsValid text ⟨place⟩ ∧ String.Pos.Raw.IsValid text ⟨last⟩
  · obtain ⟨front, inner, rest, ht, rfl, rfl⟩ := exists_append_of_isValid hstart hv.1 hv.2
    have hexchanged : (exchangeQuotes swap text).toList = Quote.exchangeAll swap front ++
        (Quote.exchangeAll swap inner ++ Quote.exchangeAll swap rest) := by
      rw [toList_exchangeQuotes, ht, Quote.exchangeAll_append, Quote.exchangeAll_append]
    have hfirst := (before_of_toList_eq ht hs).slice_eq
    have hsecond := (before_of_toList_eq hexchanged hother).slice_eq
    simp only [Quote.encodedSize_exchangeAll] at hsecond
    rw [hfirst, hsecond, exchangeQuotes, String.toList_ofList]
  · -- Neither range is UTF-8 by itself.
    rw [slice_of_not_isValid hs hstart hstop hv, slice_of_not_isValid hother hstart]
    · rfl
    · rwa [hsize]
    · rwa [isValid_exchangeQuotes_iff, isValid_exchangeQuotes_iff]

end Source

end Text

/-- Exchange the quotes of a text and of the open strings. From wherever a scan begins, between
characters or inside of one, it then finds the same token at the same place by the same calls and
leaves the same baseline, with the quotes exchanged in the text of the token and in the strings
that are open behind it. -/
theorem quotes_are_interchangeable (swap : Equiv.Perm Quote) (text : String)
    (hs : text.utf8ByteSize ≤ maxOffset) (offset : Nat) (quotes : List Quote) (baseline : UInt8)
    (requested : TokenSet) :
    let scanned := (Source.ofString text).scan offset (.ofQuotes quotes baseline) requested
    let other := (Source.ofString (exchangeQuotes swap text)).scan offset
      (.ofQuotes (quotes.map swap) baseline) requested
    other.answer.token? = scanned.answer.token? ∧
      other.reader.span = scanned.reader.span ∧
      other.reader.offset = scanned.reader.offset ∧
      other.answer.calls = scanned.answer.calls ∧
      other.reader.text = exchangeQuotes swap scanned.reader.text ∧
      ∃ inner later, scanned.answer.state = .ofQuotes inner later ∧
        other.answer.state = .ofQuotes (inner.map swap) later := by
  intro scanned other
  have hsource := Source.exchanged_exchangeQuotes swap hs
  obtain ⟨hanswer, hreader⟩ := hsource.scan_over (.intro quotes baseline) offset requested
  have hsame : scanned.reader.source = Source.ofString text := by
    simp only [scanned, Source.scan, Reader.scan, Reader.source_run, Reader.source_begin,
      Reader.source_ofSource]
  have htext : other.reader.text = exchangeQuotes swap scanned.reader.text := by
    rw [hreader, Reader.text_over, Source.slice_exchangeQuotes swap hs, Reader.text, Reader.slice,
      hsame]
  refine ⟨hanswer.token?_eq, ?_, ?_, hanswer.calls_eq, htext, hanswer.state.exists_quotes⟩
  · rw [hreader, Reader.span_over]
  · rw [hreader, Reader.offset_over]

/-- Plain text with another quote in it, inside of two strings, when each quote is exchanged for the
next one. -/
theorem quotes_are_interchangeable_nested :
    let swap := (Equiv.swap Quote.single .double).trans (Equiv.swap .single .back)
    let text := "é\x60'\""
    let requested : TokenSet := .ofTokens [.stringContent, .stringEnd]
    let scanned := (Source.ofString text).scan 0 (.ofQuotes [.single, .double] 4) requested
    let other := (Source.ofString "é'\"\x60").scan 0 (.ofQuotes [.double, .back] 4) requested
    text.utf8ByteSize ≤ maxOffset ∧ exchangeQuotes swap text = "é'\"\x60" ∧
      scanned.answer.token? = some .stringContent ∧
      other.answer.token? = scanned.answer.token? ∧
      other.reader.span = scanned.reader.span ∧
      other.reader.text = exchangeQuotes swap scanned.reader.text := by
  intro swap text requested scanned other
  have hs : text.utf8ByteSize ≤ maxOffset := by decide
  have htext : exchangeQuotes swap text = "é'\"\x60" := by decide +kernel
  have hquotes : [Quote.single, .double].map swap = [.double, .back] := by decide
  obtain ⟨htoken, hspan, -, -, hsame, -⟩ :=
    quotes_are_interchangeable swap text hs 0 [.single, .double] 4 requested
  rw [htext, hquotes] at htoken hspan hsame
  exact ⟨hs, htext, by decide +kernel, htoken, hspan, hsame⟩

end Offside
