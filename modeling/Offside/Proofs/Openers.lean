import Offside.Proofs.Bytes
import Offside.Proofs.Columns
import Offside.Proofs.Displacement
import Offside.Proofs.Legality

/-!
# Where literals are opened

An opener is found behind blanks and continuations, if it is requested and no token of the layout is
due in front of it. No comment may stand between, and no opener is found inside of a character.
-/

namespace Offside

set_option autoImplicit false

/-- A parser that accepts neither a new line nor a closing bracket wants a block to end, even if it
does not say so. -/
def TokenSet.WantsDedent (requested : TokenSet) : Prop :=
  requested.allows .dedent = true ∨
    ∀ other ∈ [Token.newline, .closeParen, .closeBracket, .closeBrace],
      requested.allows other = false

instance (requested : TokenSet) : Decidable requested.WantsDedent :=
  inferInstanceAs (Decidable (_ ∨ _))

/-- No token of the layout is due behind this trivia, which holds no comment. -/
def Trivia.NoneDue (items : List Trivia) (requested : TokenSet) (baseline : UInt8) : Prop :=
  .blank .lineFeed ∉ items ∨
    ¬ (requested.allows .indent ∧ baseline = 0 ∧ 0 < columns items) ∧
    ¬ (requested.WantsDedent ∧ baseline ≠ 0 ∧ columns items = 0) ∧
    ¬ (requested.allows .newline ∧ requested.isErrorRecovery = false)

instance (items : List Trivia) (requested : TokenSet) (baseline : UInt8) :
    Decidable (Trivia.NoneDue items requested baseline) :=
  inferInstanceAs (Decidable (_ ∨ _))

/-- Blanks and continuations lead to `c`, and no token of the layout is due in front of it. -/
def LeadsTo (ahead : List Char) (c : Char) (requested : TokenSet) (baseline : UInt8) : Prop :=
  ∃ items later, ahead = items.flatMap Trivia.text ++ c :: later ∧
    (∀ item ∈ items, item.isComment = false) ∧ Trivia.NoneDue items requested baseline

/-- The text that a scan at an offset of `input` reads. Inside of a character there is none. -/
def ReadsFrom (input : String) (offset : Nat) (ahead : List Char) : Prop :=
  ∃ front, input.toList = front ++ ahead ∧
    max offset (Source.ofString input).contentStart = encodedSize front

namespace Layout

variable {layout : Layout} {requested : TokenSet} {baseline : UInt8} {items : List Trivia}

theorem token?_eq_none_iff :
    layout.token? requested baseline = none ↔
      layout.endOfLine = false ∨ layout.indents requested baseline = false ∧
        layout.dedents requested baseline = false ∧ breaksLine requested = false := by
  unfold token?
  cases layout.endOfLine <;> cases layout.indents requested baseline <;>
    cases layout.dedents requested baseline <;> cases breaksLine requested <;> simp

theorem token?_eq_none_iff_noneDue (h : layout =
      { indent := Trivia.indent items, endOfLine := decide (.blank .lineFeed ∈ items) }) :
    layout.token? requested baseline = none ↔ Trivia.NoneDue items requested baseline := by
  have hpos : 0 < Trivia.indent items ↔ 0 < Trivia.columns items := by
    rw [Trivia.indent]
    omega
  have hzero : Trivia.indent items = 0 ↔ Trivia.columns items = 0 := by
    rw [Trivia.indent]
    omega
  have hindents : layout.indents requested baseline = false ↔
      ¬ (requested.allows .indent ∧ baseline = 0 ∧ 0 < Trivia.columns items) := by
    rw [← Bool.not_eq_true]
    simp [h, indents, hpos, and_assoc]
  have hdedents : layout.dedents requested baseline = false ↔
      ¬ (requested.WantsDedent ∧ baseline ≠ 0 ∧ Trivia.columns items = 0) := by
    rw [← Bool.not_eq_true, TokenSet.WantsDedent, ← wantsDedent_iff]
    simp [h, dedents, commentsSettled, hzero, and_assoc]
  have hbreaks : breaksLine requested = false ↔
      ¬ (requested.allows .newline ∧ requested.isErrorRecovery = false) := by
    rw [← Bool.not_eq_true, breaksLine_iff]
  rw [token?_eq_none_iff, hindents, hdedents, hbreaks, Trivia.NoneDue]
  simp [h]

end Layout

namespace Trivia

variable {items : List Trivia} {rest : List Char} {c : Char}

theorem head?_ne_replacement (h : ∀ item ∈ items, item.isComment = false) (hc : c.utf8Size = 1) :
    (items.flatMap text ++ c :: rest).head? ≠ some replacement := by
  have hr : replacement.utf8Size ≠ 1 := by decide
  intro hh
  cases hgap : items.flatMap text with
  | nil =>
    rw [hgap] at hh
    exact hr (Option.some.inj hh ▸ hc)
  | cons d gap =>
    rw [hgap] at hh
    have hd : d ∈ items.flatMap text := hgap ▸ List.mem_cons_self
    obtain ⟨item, hitem, hmem⟩ := List.mem_flatMap.mp hd
    exact hr (Option.some.inj hh ▸ utf8Size_of_mem_text (h item hitem) hmem)

end Trivia

namespace Literal

variable {requested : TokenSet} {c : Char} {literal : Literal}

theorem ofOpener?_eq_string_iff {delimiter : Delimiter} :
    ofOpener? requested c = some (.string delimiter) ↔
      requested.allows .stringStart = true ∧ Delimiter.ofOpener? c = some delimiter := by
  unfold ofOpener?
  cases requested.allows .stringStart with
  | false => simp
  | true =>
    cases Delimiter.ofOpener? c with
    | none => simp
    | some other => simp

theorem ofOpener?_eq_regex_iff :
    ofOpener? requested c = some .regex ↔ requested.allows .regexStart = true ∧ c = '/' := by
  have hslash : Delimiter.ofOpener? '/' = none := by decide
  unfold ofOpener?
  constructor
  · intro h
    split at h
    · cases h
    · simpa using h
  · rintro ⟨ha, rfl⟩
    simp [hslash, ha]

theorem next?_of_closing? (h : literal.closing? = some c) (rest : List Char) :
    Trivia.next? (c :: rest) = none ∧ c ≠ '\\' ∧ c ≠ '\x00' := by
  have hc : c ∈ ['\'', '"', '\x60', '/'] := by
    cases literal with
    | string delimiter =>
      obtain ⟨quote, rfl⟩ := Delimiter.exists_quote_of_closing? h
      cases quote <;> decide
    | regex =>
      cases h
      decide
  have hstart : Blank.ofChar? c = none ∧ c ≠ '#' ∧ c ≠ '\\' ∧ c ≠ '\x00' := by
    simp only [List.mem_cons, List.not_mem_nil, or_false] at hc
    rcases hc with rfl | rfl | rfl | rfl <;> decide
  obtain ⟨hblank, hsharp, hbackslash, hnul⟩ := hstart
  exact ⟨(Trivia.next?_cons_eq_none_iff hbackslash rest).mpr ⟨hblank, hsharp⟩, hbackslash, hnul⟩

end Literal

theorem Layout.measure?_of_isComment {items : List Trivia} {c : Char}
    (h : ∀ item ∈ items, item.isComment = false) (hb : c ≠ '\\') (hn : c ≠ '\x00')
    (later : List Char) :
    measure? items (c :: later) = some
      { indent := Trivia.indent items, endOfLine := decide (.blank .lineFeed ∈ items) } := by
  have hhead : (c :: later).headD '\x00' ≠ '\\' := hb
  rw [measure?_eq items hhead, Trivia.commentIndent?_eq_none h]
  simp only [List.headD_cons, hn, if_false, or_false]

section Scan

variable {state : State} {requested : TokenSet} {ahead : List Char} {token : Token}

/-- What leads to a character that may open a literal is all the trivia in front of it. -/
theorem leadsTo_iff {literal : Literal} {c : Char} {baseline : UInt8}
    (hc : literal.closing? = some c) :
    LeadsTo ahead c requested baseline ↔ ∃ trivia later layout,
      Trivia.split ahead = (trivia, c :: later) ∧
        Layout.measure? trivia (c :: later) = some layout ∧
        layout.token? requested baseline = none ∧ layout.comment? = none := by
  constructor
  · intro h
    obtain ⟨items, later, rfl, hitems, hdue⟩ := h
    obtain ⟨hnext, hbackslash, hnul⟩ := Literal.next?_of_closing? hc later
    exact ⟨items, later, _, Trivia.split_of_isComment hitems hnext,
      Layout.measure?_of_isComment hitems hbackslash hnul later,
      (Layout.token?_eq_none_iff_noneDue rfl).mpr hdue, rfl⟩
  · intro h
    obtain ⟨trivia, later, layout, split, measure, none_due, no_comment⟩ := h
    obtain ⟨-, hbackslash, hnul⟩ := Literal.next?_of_closing? hc later
    have hitems := (Layout.calls_eq_of_comment? measure no_comment).1
    have hwhole := Trivia.flatMap_text_append_split ahead
    rw [split] at hwhole
    rw [Layout.measure?_of_isComment hitems hbackslash hnul] at measure
    have hdue := (Layout.token?_eq_none_iff_noneDue (Option.some.inj measure).symm).mp none_due
    exact ⟨trivia, later, hwhole.symm, hitems, hdue⟩

theorem scanLayout_eq_opener_iff (hk : token ∈ [Token.stringStart, .regexStart]) :
    (scanLayout state requested ahead).token? = some token ↔
      ∃ literal inner c, literal.startToken = token ∧
        Literal.ofOpener? requested c = some literal ∧ state.open? literal = some inner ∧
        LeadsTo ahead c requested state.baseline := by
  constructor
  · intro h
    have hcourse := scanLayout_course state requested ahead
    generalize scanLayout state requested ahead = answer at h hcourse
    cases hcourse with
    | piece => exact absurd hk (Piece.token?_not_opener h)
    | broken => cases h
    | due _ _ token_due =>
      cases h
      exact absurd hk (Layout.token?_not_opener token_due)
    | idle => cases h
    | refused => cases h
    | @opened trivia rest layout literal inner split measure none_due no_comment opener room =>
      cases h
      obtain ⟨c, later, rfl, hclosing⟩ := Literal.exists_cons_of_ofOpener? opener
      exact ⟨literal, inner, c, rfl, opener, room, (leadsTo_iff hclosing).mpr
        ⟨trivia, later, layout, split, measure, none_due, no_comment⟩⟩
  · intro h
    obtain ⟨literal, inner, c, rfl, opener, room, hleads⟩ := h
    obtain ⟨trivia, later, layout, split, measure, none_due, no_comment⟩ :=
      (leadsTo_iff (Literal.closing?_of_ofOpener? opener)).mp hleads
    simp only [scanLayout, Layout.measure_of_split split, measure, none_due, no_comment,
      Option.isSome_none, Bool.false_eq_true, if_false, openLiteral, List.headD_cons, opener, room]

theorem LeadsTo.headD_ne_nul {c : Char} {baseline : UInt8}
    (h : LeadsTo ahead c requested baseline) (hc : c ≠ '\x00') : ahead.headD '\x00' ≠ '\x00' := by
  obtain ⟨items, later, rfl, hitems, -⟩ := h
  cases items with
  | nil => exact hc
  | cons item items =>
    have hitem := hitems item List.mem_cons_self
    cases item with
    | blank kind =>
      have hkind : kind.char ≠ '\x00' := by cases kind <;> decide
      exact hkind
    | comment body ending => cases hitem
    | continuation carriageReturn =>
      have hbackslash : '\\' ≠ '\x00' := by decide
      cases carriageReturn <;> exact hbackslash

/-- Inside of a literal no opener is found, even where the literal gives way to the layout. -/
theorem scan_eq_opener_iff (hk : token ∈ [Token.stringStart, .regexStart]) :
    (scan state requested ahead).token? = some token ↔
      Mode.select state requested = .layout ∧
        (scanLayout state requested ahead).token? = some token := by
  cases hm : Mode.select state requested with
  | layout => simp only [scan, hm, scanIn, Answer.token?_commit, true_and]
  | inside literal =>
    simp only [reduceCtorEq, false_and, iff_false]
    intro h
    cases hx : (literal.piece ahead).isExhausted with
    | true =>
      rw [scan_of_isExhausted hm hx, Answer.token?_commit] at h
      obtain ⟨opened, -, c, -, opener, -, hleads⟩ := (scanLayout_eq_opener_iff hk).mp h
      obtain ⟨-, -, hnul⟩ := Literal.next?_of_closing? (Literal.closing?_of_ofOpener? opener) []
      exact hleads.headD_ne_nul hnul (Literal.headD_of_isExhausted hx)
    | false =>
      rw [(scan_of_not_isExhausted hm hx).1] at h
      exact Piece.token?_not_opener h hk

theorem scan_eq_stringStart_iff :
    (scan state requested ahead).token? = some .stringStart ↔
      Mode.select state requested = .layout ∧ requested.allows .stringStart = true ∧
        state.depth < State.maxDepth ∧
        ∃ quote : Quote, LeadsTo ahead quote.char requested state.baseline := by
  have hk : Token.stringStart ∈ [Token.stringStart, .regexStart] := by decide
  rw [scan_eq_opener_iff hk, scanLayout_eq_opener_iff hk]
  apply and_congr_right
  intro _
  constructor
  · rintro ⟨literal, inner, c, hstart, opener, room, hleads⟩
    cases literal with
    | regex => cases hstart
    | string delimiter =>
      obtain ⟨quote, rfl, -⟩ := Literal.exists_quote_of_ofOpener? opener
      have hdepth := (State.push?_eq_some_iff.mp room).1
      exact ⟨(Literal.ofOpener?_eq_string_iff.mp opener).1, hdepth, quote, hleads⟩
  · rintro ⟨hallows, hdepth, quote, hleads⟩
    have hopener : Literal.ofOpener? requested quote.char = some (.string (.ofQuote quote)) :=
      Literal.ofOpener?_eq_string_iff.mpr
        ⟨hallows, Delimiter.ofOpener?_eq_some_iff.mpr ⟨quote, rfl, rfl⟩⟩
    exact ⟨_, _, _, rfl, hopener, State.push?_eq_some_iff.mpr ⟨hdepth, rfl⟩, hleads⟩

theorem scan_eq_regexStart_iff :
    (scan state requested ahead).token? = some .regexStart ↔
      Mode.select state requested = .layout ∧ requested.allows .regexStart = true ∧
        LeadsTo ahead '/' requested state.baseline := by
  have hk : Token.regexStart ∈ [Token.stringStart, .regexStart] := by decide
  rw [scan_eq_opener_iff hk, scanLayout_eq_opener_iff hk]
  apply and_congr_right
  intro _
  constructor
  · rintro ⟨literal, inner, c, hstart, opener, -, hleads⟩
    cases literal with
    | string delimiter => cases hstart
    | regex =>
      obtain ⟨hallows, rfl⟩ := Literal.ofOpener?_eq_regex_iff.mp opener
      exact ⟨hallows, hleads⟩
  · rintro ⟨hallows, hleads⟩
    have hopener := Literal.ofOpener?_eq_regex_iff.mpr ⟨hallows, rfl⟩
    exact ⟨.regex, state, '/', rfl, hopener, rfl, hleads⟩

end Scan

theorem ahead_begin_eq_iff {input : String} (hs : input.utf8ByteSize ≤ maxOffset) (offset : Nat)
    {ahead : List Char} (hn : ahead ≠ []) (hr : ahead.head? ≠ some replacement) :
    ((Reader.ofSource (Source.ofString input)).begin offset).ahead = ahead ↔
      ReadsFrom input offset ahead := by
  generalize hstart : max offset (Source.ofString input).contentStart = start
  have hcursor : ((Reader.ofSource (Source.ofString input)).begin offset).ahead =
      Cursor.ahead ⟨Source.ofString input, min start (Source.ofString input).size⟩ := by
    rw [← hstart]
    rfl
  constructor
  · intro h
    rw [hcursor] at h
    rcases Source.before_or_replacement hs (Nat.min_le_right start _) with
      ⟨front, rest, ht, hfront⟩ | ⟨hend, hcurrent⟩
    · have hb := Source.before_of_toList_eq ht hs
      rw [hfront, hb.ahead_eq] at h
      subst h
      -- Something is ahead, so the offset has not been moved back to the end.
      have hbefore : ¬ (Source.ofString input).size ≤ encodedSize front := by
        intro hend
        exact hn (hb.atEnd_iff.mp (decide_eq_true hend))
      refine ⟨front, ht, hstart.trans ?_⟩
      omega
    · obtain ⟨later, hlater⟩ : ∃ later, ahead = replacement :: later :=
        ⟨_, h.symm.trans (Cursor.ahead_eq_cons_iff.mpr ⟨hend, hcurrent, rfl⟩)⟩
      exact absurd (congrArg List.head? hlater) hr
  · rintro ⟨front, ht, hfront⟩
    have hb := Source.before_of_toList_eq ht hs
    rw [Source.begin_eq hs ht hfront]
    exact hb.ahead_eq

theorem leadsTo_begin_iff {input : String} (hs : input.utf8ByteSize ≤ maxOffset) (offset : Nat)
    {c : Char} (hc : c.utf8Size = 1) {requested : TokenSet} {baseline : UInt8} :
    LeadsTo ((Reader.ofSource (Source.ofString input)).begin offset).ahead c requested baseline ↔
      ∃ ahead, ReadsFrom input offset ahead ∧ LeadsTo ahead c requested baseline := by
  have hreads {ahead : List Char} (h : LeadsTo ahead c requested baseline) :
      ((Reader.ofSource (Source.ofString input)).begin offset).ahead = ahead ↔
        ReadsFrom input offset ahead := by
    obtain ⟨items, later, rfl, hitems, -⟩ := h
    exact ahead_begin_eq_iff hs offset (by simp) (Trivia.head?_ne_replacement hitems hc)
  constructor
  · intro h
    exact ⟨_, (hreads h).mp rfl, h⟩
  · rintro ⟨ahead, hahead, h⟩
    rw [(hreads h).mpr hahead]
    exact h

/-- Wherever a scan begins, it finds the start of a string just if it is outside of literals, a
string is requested, there is room for one more, and blanks and continuations lead to a quote with
no token of the layout due in front of it. The start of a regex needs no room. -/
theorem opener_found_iff (input : String) (hs : input.utf8ByteSize ≤ maxOffset) (offset : Nat)
    (state : State) (requested : TokenSet) :
    let found := ((Source.ofString input).scan offset state requested).answer.token?
    (found = some .stringStart ↔
        Mode.select state requested = .layout ∧ requested.allows .stringStart = true ∧
          state.depth < State.maxDepth ∧ ∃ ahead, ReadsFrom input offset ahead ∧
            ∃ quote : Quote, LeadsTo ahead quote.char requested state.baseline) ∧
      (found = some .regexStart ↔
        Mode.select state requested = .layout ∧ requested.allows .regexStart = true ∧
          ∃ ahead, ReadsFrom input offset ahead ∧
            LeadsTo ahead '/' requested state.baseline) := by
  intro found
  have hfound : found = (scan state requested
      ((Reader.ofSource (Source.ofString input)).begin offset).ahead).token? := rfl
  rw [hfound]
  constructor
  · rw [scan_eq_stringStart_iff]
    simp only [leadsTo_begin_iff hs offset (Quote.utf8Size_char _)]
    constructor
    · rintro ⟨hm, hallows, hdepth, quote, ahead, hahead, hleads⟩
      exact ⟨hm, hallows, hdepth, ahead, hahead, quote, hleads⟩
    · rintro ⟨hm, hallows, hdepth, ahead, hahead, quote, hleads⟩
      exact ⟨hm, hallows, hdepth, quote, ahead, hahead, hleads⟩
  · rw [scan_eq_regexStart_iff, leadsTo_begin_iff hs offset (by decide)]

/-- In a block a quote on a deeper line is found, and from inside of the character in front of it
none is. -/
theorem opener_found_iff_deeper :
    let input := "é\n  \\\n'"
    let state : State := { baseline := 4 }
    let requested : TokenSet := .ofTokens [.indent, .dedent, .stringStart]
    input.utf8ByteSize ≤ maxOffset ∧
      ((Source.ofString input).scan 2 state requested).answer.token? = some .stringStart ∧
      ((Source.ofString input).scan 1 state requested).answer.token? ≠ some .stringStart := by
  intro input state requested
  have hs : input.utf8ByteSize ≤ maxOffset := by decide
  have hstart : (Source.ofString input).contentStart = 0 := by decide +kernel
  have h : input.toList = ['é'] ++ ['\n', ' ', ' ', '\\', '\n', '\''] := by decide
  have hleads : LeadsTo ['\n', ' ', ' ', '\\', '\n', '\''] Quote.single.char requested 4 := by
    refine ⟨[.blank .lineFeed, .blank .space, .blank .space, .continuation false], [], ?_, ?_, ?_⟩
    · decide
    · decide
    · decide
  refine ⟨hs, ?_, ?_⟩
  · apply (opener_found_iff input hs 2 state requested).1.mpr
    refine ⟨by decide +kernel, by decide, by decide, _, ⟨['é'], h, ?_⟩, .single, hleads⟩
    rw [hstart]
    decide
  · intro hfound
    obtain ⟨-, -, -, ahead, ⟨front, hfront, hoffset⟩, -⟩ :=
      (opener_found_iff input hs 1 state requested).1.mp hfound
    rw [hstart] at hoffset
    cases front with
    | nil => cases hoffset
    | cons c front =>
      obtain ⟨rfl, -⟩ := List.cons.inj (h.symm.trans hfront)
      have hsize : 'é'.utf8Size = 2 := by decide
      rw [encodedSize_cons, hsize] at hoffset
      omega

end Offside
