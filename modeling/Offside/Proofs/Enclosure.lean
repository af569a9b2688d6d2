import Offside.Proofs.Cut

/-!
# Scans inside of a literal and in front of one

A literal stands between two quotes of one kind or between slashes. Here is what a scan finds in
front of it, in its text, at an escape or a brace, and at its closing character.
-/

namespace Offside

set_option autoImplicit false

inductive Enclosure where
  | quotes (quote : Quote)
  | slashes
  deriving DecidableEq, Repr

namespace Enclosure

def literal : Enclosure → Literal
  | quotes quote => .string (.ofQuote quote)
  | slashes => .regex

def char : Enclosure → Char
  | quotes quote => quote.char
  | slashes => '/'

def reserved : Enclosure → List Char
  | quotes quote => [quote.char, '\\', '\x7b', '\x7d', '\x00']
  | slashes => ['/', '\\', '\x00']

theorem isPlain_of_not_mem_reserved {enclosure : Enclosure} {c : Char}
    (h : c ∉ enclosure.reserved) : enclosure.literal.isPlain c := by
  cases enclosure with
  | quotes quote =>
    simp only [reserved, List.mem_cons, List.not_mem_nil, or_false, not_or] at h
    obtain ⟨hq, he, hl, hr, hn⟩ := h
    simp [Literal.isPlain, Literal.stop?, Literal.yields, literal, Literal.interpolates,
      Literal.closing?, hn, he, hl, hr, Ne.symm hq]
  | slashes =>
    simp only [reserved, List.mem_cons, List.not_mem_nil, or_false, not_or] at h
    obtain ⟨hs, he, hn⟩ := h
    simp [Literal.isPlain, Literal.stop?, Literal.yields, literal, Literal.interpolates,
      Literal.closing?, hn, he, Ne.symm hs]

theorem stop?_char (enclosure : Enclosure) :
    enclosure.literal.stop? enclosure.char = some .closed := by
  cases enclosure with
  | quotes quote => cases quote <;> decide
  | slashes => decide

theorem stop?_backslash (enclosure : Enclosure) :
    enclosure.literal.stop? '\\' = some .yielded := by
  simp [Literal.stop?, Literal.yields]

theorem stop?_openBrace (quote : Quote) :
    (quotes quote).literal.stop? '\x7b' = some .yielded := by
  simp [Literal.stop?, Literal.yields, literal, Literal.interpolates]

theorem stop?_closeBrace (quote : Quote) :
    (quotes quote).literal.stop? '\x7d' = some .yielded := by
  simp [Literal.stop?, Literal.yields, literal, Literal.interpolates]

end Enclosure

/-- The innermost open string is the one that the enclosure belongs to. An open regex leaves no
trace in the state. -/
def State.Inside (state : State) : Enclosure → Prop
  | .quotes quote => state.top? = some (.ofQuote quote)
  | .slashes => True

namespace Literal

variable {literal : Literal} {run rest : List Char} {ending : PieceEnd}

theorem isPlain_eq_false_of_stop? {c : Char} (h : literal.stop? c = some ending) :
    literal.isPlain c = false := by
  simp [isPlain, h]

theorem plainText_append (hp : ∀ c ∈ run, literal.isPlain c) (hl : '\n' ∉ run.tail)
    (hs : literal.stop? (rest.headD '\x00') = some ending) :
    literal.plainText (run ++ rest) = run := by
  have hh := isPlain_eq_false_of_stop? hs
  have hr : ∀ p : Char → Bool, (∀ c, literal.isPlain c = false → p c = false) →
      rest.takeWhile p = [] := by
    intro p hf
    cases rest with
    | nil => rfl
    | cons c later =>
      have hc : p c = false := hf c hh
      simp [hc]
  cases run with
  | nil =>
    cases rest with
    | nil => rfl
    | cons c later =>
      have hc : literal.isPlain c = false := hh
      simp [plainText, hc]
  | cons first run =>
    have hfirst := hp first List.mem_cons_self
    simp only [List.cons_append, plainText, hfirst, if_true]
    congr 1
    rw [List.takeWhile_append_of_pos, hr, List.append_nil]
    · intro c hc
      simp [hc]
    · intro c hc
      have hn : c ≠ '\n' := by
        rintro rfl
        exact hl hc
      simp [hp c (List.mem_cons_of_mem _ hc), hn]

theorem piece_append (hp : ∀ c ∈ run, literal.isPlain c) (hl : '\n' ∉ run.tail)
    (hs : literal.stop? (rest.headD '\x00') = some ending) :
    literal.piece (run ++ rest) = ⟨run.length, ending⟩ := by
  rw [piece, plainText_append hp hl hs, List.drop_left, hs]
  rfl

end Literal

namespace State

variable {state inner : State} {enclosure : Enclosure}

theorem inside_of_open? (h : state.open? enclosure.literal = some inner) :
    inner.Inside enclosure := by
  cases enclosure with
  | quotes quote =>
    obtain ⟨-, rfl⟩ := push?_eq_some_iff.mp h
    rfl
  | slashes => trivial

theorem behind_endToken_of_open? (h : state.open? enclosure.literal = some inner) :
    inner.behind enclosure.literal.endToken = state := by
  cases enclosure with
  | quotes quote => exact pop_of_push? h
  | slashes =>
    cases h
    rfl

end State

def Answer.refuses (answer : Answer) : Bool :=
  answer.events.any fun event => event matches .nestingLimit _

structure Answer.Finds (answer : Answer) (token : Token) (gap text : List Char) (state : State) :
    Prop where
  token_eq : answer.token? = some token
  calls_cut : Cut answer.calls gap text
  state_eq : answer.state = state
  not_refuses : answer.refuses = false

structure Answer.Passes (answer : Answer) (state : State) (refuses : Bool) : Prop where
  token_eq : answer.token? = none
  state_eq : answer.state = state
  refuses_eq : answer.refuses = refuses

namespace Answer

variable {answer : Answer} {mode : Mode} {token : Token} {gap text : List Char} {state : State}
  {refuses : Bool}

theorem refuses_commit (answer : Answer) (mode : Mode) :
    (answer.commit mode).refuses = answer.refuses := by
  unfold commit
  split
  · rfl
  · simp [Answer.refuses]

theorem Finds.commit (h : answer.Finds token gap text state) (mode : Mode) :
    (answer.commit mode).Finds token gap text state := by
  refine ⟨?_, ?_, ?_, ?_⟩
  · rw [token?_commit, h.token_eq]
  · rw [calls_commit]
    exact h.calls_cut
  · rw [state_commit, h.state_eq]
  · rw [refuses_commit, h.not_refuses]

theorem Passes.commit (h : answer.Passes state refuses) (mode : Mode) :
    (answer.commit mode).Passes state refuses := by
  refine ⟨?_, ?_, ?_⟩
  · rw [token?_commit, h.token_eq]
  · rw [state_commit, h.state_eq]
  · rw [refuses_commit, h.refuses_eq]

end Answer

namespace Enclosure

variable {enclosure : Enclosure} {state inner : State} {run rest : List Char}

theorem select_content (h : state.Inside enclosure) :
    Mode.select state (.singleton enclosure.literal.contentToken) =
      .inside enclosure.literal := by
  cases enclosure with
  | quotes quote =>
    apply Mode.select_eq_string_iff.mpr
    exact ⟨by simp [TokenSet.isErrorRecovery, literal, Literal.contentToken],
      by simp [literal, Literal.contentToken], h⟩
  | slashes =>
    apply Mode.select_eq_regex_iff.mpr
    exact ⟨by simp [TokenSet.isErrorRecovery, literal, Literal.contentToken],
      by simp [literal, Literal.contentToken], by simp [literal, Literal.contentToken]⟩

theorem scan_content {ending : PieceEnd} (hi : state.Inside enclosure)
    (hp : ∀ c ∈ run, enclosure.literal.isPlain c) (hl : '\n' ∉ run.tail)
    (hs : enclosure.literal.stop? (rest.headD '\x00') = some ending)
    (he : ending ≠ .endOfInput) :
    scan state (.singleton enclosure.literal.contentToken) (run ++ rest) =
      (scanPiece state enclosure.literal ⟨run.length, ending⟩).commit
        (.inside enclosure.literal) := by
  have hx : (Piece.mk run.length ending).isExhausted = false := by
    simp [Piece.isExhausted, he]
  simp only [scan, select_content hi, scanIn, Literal.piece_append hp hl hs, hx,
    Bool.false_eq_true, if_false]

theorem scan_text {ending : PieceEnd} (hi : state.Inside enclosure) (hr : run ≠ [])
    (hp : ∀ c ∈ run, enclosure.literal.isPlain c) (hl : '\n' ∉ run.tail)
    (hs : enclosure.literal.stop? (rest.headD '\x00') = some ending)
    (he : ending = .yielded ∨ ending = .closed) :
    (scan state (.singleton enclosure.literal.contentToken) (run ++ rest)).Finds
      enclosure.literal.contentToken [] run state := by
  obtain ⟨c, run, rfl⟩ := List.exists_cons_of_ne_nil hr
  rcases he with rfl | rfl
  · rw [scan_content hi hp hl hs (by decide)]
    apply Answer.Finds.commit
    refine ⟨rfl, .piece (c :: run), ?_, rfl⟩
    cases enclosure <;> rfl
  · rw [scan_content hi hp hl hs (by decide)]
    apply Answer.Finds.commit
    refine ⟨rfl, .piece (c :: run), ?_, rfl⟩
    cases enclosure <;> rfl

theorem scan_closing (hi : state.Inside enclosure) :
    (scan state (.singleton enclosure.literal.contentToken) (enclosure.char :: rest)).Finds
      enclosure.literal.endToken [] [enclosure.char]
      (state.behind enclosure.literal.endToken) := by
  have ha : scan state _ ([] ++ enclosure.char :: rest) = _ :=
    scan_content hi (by simp) (by simp) enclosure.stop?_char (by decide)
  rw [List.nil_append] at ha
  rw [ha]
  apply Answer.Finds.commit
  exact ⟨rfl, .piece [enclosure.char], rfl, rfl⟩

theorem scan_yielded (hi : state.Inside enclosure)
    (hs : enclosure.literal.stop? (rest.headD '\x00') = some .yielded) :
    (scan state (.singleton enclosure.literal.contentToken) rest).Passes state false := by
  have ha : scan state _ ([] ++ rest) = _ :=
    scan_content hi (by simp) (by simp) hs (by decide)
  rw [List.nil_append] at ha
  rw [ha]
  apply Answer.Passes.commit
  exact ⟨rfl, rfl, rfl⟩

theorem next?_char (enclosure : Enclosure) (rest : List Char) :
    Trivia.next? (enclosure.char :: rest) = none := by
  cases enclosure with
  | quotes quote => cases quote <;> rfl
  | slashes => rfl

theorem ofOpener?_char (enclosure : Enclosure) :
    Literal.ofOpener? (.singleton enclosure.literal.startToken) enclosure.char =
      some enclosure.literal := by
  cases enclosure with
  | quotes quote => cases quote <;> decide
  | slashes => decide

theorem select_start (state : State) (enclosure : Enclosure) :
    Mode.select state (.singleton enclosure.literal.startToken) = .layout := by
  cases enclosure <;> simp [Mode.select, literal, Literal.startToken]

theorem measure?_char (enclosure : Enclosure) (trivia : List Trivia) (rest : List Char) :
    Layout.measure? trivia (enclosure.char :: rest) = some (.ofTrivia trivia) := by
  cases enclosure with
  | quotes quote => cases quote <;> rfl
  | slashes => rfl

end Enclosure

namespace Trivia

theorem flatMap_text_blanks (blanks : List Blank) :
    (blanks.map blank).flatMap text = blanks.map Blank.char := by
  rw [List.flatMap_map, List.map_eq_flatMap]
  rfl

theorem split_blanks (blanks : List Blank) {rest : List Char} (h : next? rest = none) :
    split (blanks.map Blank.char ++ rest) = (blanks.map blank, rest) := by
  have hitems : ∀ item ∈ blanks.map blank, item.isComment = false := by simp [isComment]
  rw [← flatMap_text_blanks]
  exact split_of_isComment hitems h

end Trivia

namespace Layout

theorem foldl_add_blanks {blanks : List Blank} (h : .lineFeed ∉ blanks) (layout : Layout) :
    ((blanks.map Trivia.blank).foldl add layout).endOfLine = layout.endOfLine ∧
      ((blanks.map Trivia.blank).foldl add layout).comment? = layout.comment? := by
  induction blanks generalizing layout with
  | nil => exact ⟨rfl, rfl⟩
  | cons kind blanks ih =>
    rw [List.mem_cons, not_or] at h
    obtain ⟨hk, hb⟩ := h
    obtain ⟨he, hc⟩ := ih hb (layout.add (.blank kind))
    rw [List.map_cons, List.foldl_cons, he, hc]
    cases kind with
    | lineFeed => exact absurd rfl hk
    | _ => exact ⟨rfl, rfl⟩

end Layout

namespace Enclosure

section Opener

variable {enclosure : Enclosure} {state inner : State} {margin : List Blank} {rest : List Char}

theorem scan_opener (hm : .lineFeed ∉ margin) :
    let trivia := margin.map Trivia.blank
    let ahead := enclosure.char :: rest
    scan state (.singleton enclosure.literal.startToken) (margin.map Blank.char ++ ahead) =
      (openLiteral
        { calls := Layout.calls trivia ahead, state
          events := [.measured (.ofTrivia trivia) state.baseline] }
        (.singleton enclosure.literal.startToken) enclosure.char).commit .layout := by
  intro trivia ahead
  obtain ⟨he, hc⟩ := Layout.foldl_add_blanks hm {}
  have ht : (Layout.ofTrivia trivia).token? (.singleton enclosure.literal.startToken)
      state.baseline = none := by
    have hl : (Layout.ofTrivia trivia).endOfLine = false := he
    simp [Layout.token?, hl]
  have hn : (Layout.ofTrivia trivia).comment? = none := hc
  have hs : Trivia.split (margin.map Blank.char ++ ahead) = (trivia, ahead) :=
    Trivia.split_blanks margin (enclosure.next?_char rest)
  simp only [scan, select_start, scanIn, scanLayout, Layout.measure_of_split hs, measure?_char,
    ahead, ht, hn, Option.isSome_none, Bool.false_eq_true, if_false, List.headD_cons, Layout.calls]

theorem scan_opening (hm : .lineFeed ∉ margin) (ho : state.open? enclosure.literal = some inner) :
    (scan state (.singleton enclosure.literal.startToken)
      (margin.map Blank.char ++ enclosure.char :: rest)).Finds
      enclosure.literal.startToken (margin.map Blank.char) [enclosure.char] inner := by
  have hc : Layout.calls (margin.map Trivia.blank) (enclosure.char :: rest) =
      .mark :: List.replicate (margin.map Blank.char).length .skip := by
    have hl := Layout.calls_eq_of_comment? (measure?_char enclosure (margin.map .blank) rest)
      (Layout.foldl_add_blanks hm {}).2
    rw [hl.2, Trivia.flatMap_text_blanks]
  rw [scan_opener hm]
  apply Answer.Finds.commit
  simp only [openLiteral, ofOpener?_char, ho]
  refine ⟨rfl, ?_, rfl, rfl⟩
  rw [hc]
  exact .opener (margin.map Blank.char) [enclosure.char]

theorem scan_refused (hm : .lineFeed ∉ margin) (ho : state.open? enclosure.literal = none) :
    (scan state (.singleton enclosure.literal.startToken)
      (margin.map Blank.char ++ enclosure.char :: rest)).Passes state true := by
  rw [scan_opener hm]
  apply Answer.Passes.commit
  simp only [openLiteral, ofOpener?_char, ho]
  exact ⟨rfl, rfl, rfl⟩

end Opener

end Enclosure

end Offside
