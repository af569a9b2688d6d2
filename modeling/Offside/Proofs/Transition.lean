import Offside.Proofs.OneByte

/-!
# The token tells what a scan does to the state

Entering and leaving a block change the baseline only, opening and closing a string change the stack
only, and all other scans change nothing. So a state is followed by looking at the texts of the
tokens and at the layouts measured.
-/

namespace Offside

set_option autoImplicit false

/-- What the trivia at the front of `ahead` says about the line that it leads to. -/
def Layout.read? (ahead : List Char) : Option Layout := (measure ahead).layout?

theorem Layout.read?_of_split {ahead rest : List Char} {trivia : List Trivia}
    (h : Trivia.split ahead = (trivia, rest)) : read? ahead = measure? trivia rest := by
  rw [read?, measure_of_split h]

def Source.layout? (source : Source) (offset : Nat) : Option Layout :=
  Layout.read? ((Reader.ofSource source).begin offset).ahead

/-- The states before and behind a scan, as the layout there and the text of the token, if any,
relate them. The last four tokens are never found. -/
def Transition (layout? : Option Layout) (text : String) (before : State) :
    Option Token → State → Prop
  | none, after | some .newline, after | some .stringContent, after
  | some .regexStart, after | some .regexContent, after | some .regexEnd, after => after = before
  | some .indent, after =>
    before.baseline = 0 ∧ ∃ layout, layout? = some layout ∧ 0 < layout.indent ∧
      after.stack = before.stack ∧ after.baseline.toNat = min layout.indent State.maxBaseline
  | some .dedent, after =>
    before.baseline ≠ 0 ∧ ∃ layout, layout? = some layout ∧ layout.indent = 0 ∧
      after.stack = before.stack ∧ after.baseline = 0
  | some .stringStart, after =>
    before.depth < State.maxDepth ∧ ∃ quote c, after.stack = .ofQuote quote :: before.stack ∧
      (Delimiter.ofQuote quote).closing? = some c ∧ text = String.singleton c ∧
      after.baseline = before.baseline
  | some .stringEnd, after =>
    ∃ delimiter c, before.stack = delimiter :: after.stack ∧ delimiter.closing? = some c ∧
      text = String.singleton c ∧ after.baseline = before.baseline
  | some .comment, _ | some .closeParen, _ | some .closeBracket, _ | some .closeBrace, _ => False

theorem Quote.utf8Size_char (quote : Quote) : quote.char.utf8Size = 1 := by
  cases quote <;> decide

theorem Delimiter.exists_quote_of_closing? {delimiter : Delimiter} {c : Char}
    (h : delimiter.closing? = some c) : ∃ quote : Quote, quote.char = c := by
  obtain ⟨quote, -, hq⟩ := Option.map_eq_some_iff.mp h
  exact ⟨quote, hq⟩

theorem Trivia.utf8Size_of_mem_text {item : Trivia} {c : Char} (h : item.isComment = false)
    (hc : c ∈ item.text) : c.utf8Size = 1 := by
  cases item with
  | blank kind =>
    obtain rfl : c = kind.char := by simpa [text] using hc
    cases kind <;> decide
  | comment body ending => cases h
  | continuation carriageReturn =>
    have hb : c ∈ ['\\', '\r', '\n'] := by
      cases carriageReturn with
      | false => exact List.mem_cons.mpr ((List.mem_cons.mp hc).imp_right (List.mem_cons_of_mem _))
      | true => exact hc
    simp only [List.mem_cons, List.not_mem_nil, or_false] at hb
    rcases hb with rfl | rfl | rfl <;> decide

namespace Literal

variable {literal : Literal} {ahead : List Char} {token : Token}

theorem closing?_of_stop? {c : Char} (h : literal.stop? c = some .closed) :
    literal.closing? = some c := by
  unfold stop? at h
  split at h
  · cases h
  · split at h
    · cases h
    · split at h
      · assumption
      · cases h

theorem stop?_of_closing? {c : Char} (h : literal.closing? = some c) :
    literal.stop? c = some .closed := by
  cases literal with
  | string delimiter =>
    obtain ⟨quote, rfl⟩ := Delimiter.exists_quote_of_closing? h
    have hplain : quote.char ∉ ['\x00', '\\', '\x7b', '\x7d'] := by cases quote <;> decide
    simp only [List.mem_cons, List.not_mem_nil, or_false, not_or] at hplain
    obtain ⟨hnul, hescape, hopen, hclose⟩ := hplain
    simp [stop?, yields, h, hnul, hescape, hopen, hclose]
  | regex =>
    cases h
    decide

theorem piece_eq_zero_iff {ending : PieceEnd} :
    literal.piece ahead = ⟨0, ending⟩ ↔ literal.stop? (ahead.headD '\x00') = some ending := by
  cases ahead with
  | nil => simp [piece, plainText, stop?_nul]
  | cons c later =>
    cases hs : literal.stop? c with
    | none => simp [piece, plainText, isPlain, hs]
    | some other => simp [piece, plainText, isPlain, hs]

theorem exists_closing_of_piece (h : literal.piece ahead = ⟨0, .closed⟩) :
    ∃ c rest, ahead = c :: rest ∧ literal.closing? = some c := by
  have hl := length_piece literal ahead
  have he : (literal.piece ahead).ending = .closed := by rw [h]
  rw [h] at hl
  simp only [piece, ← hl, List.drop_zero] at he
  cases ahead with
  | nil => simp [stop?_nul] at he
  | cons c rest =>
    cases hs : literal.stop? c with
    | none => simp [hs] at he
    | some ending =>
      simp only [List.headD_cons, hs, Option.getD_some] at he
      subst he
      exact ⟨c, rest, rfl, closing?_of_stop? hs⟩

theorem exists_quote_of_ofOpener? {requested : TokenSet} {c : Char} {delimiter : Delimiter}
    (h : ofOpener? requested c = some (.string delimiter)) :
    ∃ quote : Quote, quote.char = c ∧ delimiter = .ofQuote quote := by
  unfold ofOpener? at h
  split at h
  · rename_i opened hd
    cases h
    split at hd
    · obtain ⟨quote, hc, hq⟩ := Delimiter.ofOpener?_eq_some_iff.mp hd
      exact ⟨quote, hc, hq.symm⟩
    · cases hd
  · split at h <;> cases h

end Literal

theorem Piece.token?_cases {literal : Literal} {piece : Piece} {token : Token}
    (h : piece.token? literal = some token) :
    token = literal.contentToken ∨ token = literal.endToken ∧ piece = ⟨0, .closed⟩ := by
  obtain ⟨length, ending⟩ := piece
  cases length with
  | zero =>
    cases ending with
    | closed =>
      cases h
      exact .inr ⟨rfl, rfl⟩
    | _ => cases h
  | succ length => cases ending <;> cases h <;> exact .inl rfl

theorem Piece.token?_not_opener {literal : Literal} {piece : Piece} {token : Token}
    (h : piece.token? literal = some token) : token ∉ [Token.stringStart, .regexStart] := by
  rcases token?_cases h with rfl | ⟨rfl, -⟩
  · cases literal <;> simp [Literal.contentToken]
  · cases literal <;> simp [Literal.endToken]

section Course

variable {state : State} {requested : TokenSet} {ahead : List Char} {answer : Answer}

/-- Of a token that is one character of one byte, behind others of the kind, `text` is the text. -/
def Answer.Reads (answer : Answer) (ahead : List Char) (text : String) : Prop :=
  ∀ gap c rest, Cut answer.calls gap [c] → ahead = gap ++ c :: rest →
    (∀ d ∈ gap, d.utf8Size = 1) → c.utf8Size = 1 → text = String.singleton c

theorem transition_scanPiece {literal : Literal} {text : String}
    (hm : Mode.select state requested = .inside literal)
    (ht : (scanPiece state literal (literal.piece ahead)).Reads ahead text)
    (layout? : Option Layout) :
    Transition layout? text state (scanPiece state literal (literal.piece ahead)).token?
      (scanPiece state literal (literal.piece ahead)).state := by
  simp only [scanPiece]
  cases hp : (literal.piece ahead).token? literal with
  | none => exact rfl
  | some token =>
    rcases Piece.token?_cases hp with rfl | ⟨rfl, hc⟩
    · cases literal <;> exact rfl
    · cases literal with
      | regex => exact rfl
      | string delimiter =>
        obtain ⟨c, rest, rfl, hd⟩ := Literal.exists_closing_of_piece hc
        obtain ⟨quote, rfl⟩ := Delimiter.exists_quote_of_closing? hd
        obtain ⟨-, -, htop⟩ := Mode.select_eq_string_iff.mp hm
        obtain ⟨later, hs⟩ := List.head?_eq_some_iff.mp htop
        have hcut : Cut ((Literal.string delimiter).piece (quote.char :: rest)).calls []
            [quote.char] := by
          rw [hc]
          exact .piece [quote.char]
        refine ⟨delimiter, quote.char, ?_, hd, ?_, rfl⟩
        · rw [hs]
          simp [State.behind, Literal.endToken, State.pop, hs]
        · exact ht [] quote.char rest hcut rfl (by simp) quote.utf8Size_char

theorem Course.transition (course : Course state requested ahead answer) {text : String}
    (ht : answer.Reads ahead text) :
    Transition (Layout.read? ahead) text state answer.token? answer.state := by
  cases course with
  | piece mode => exact transition_scanPiece mode ht _
  | broken => exact rfl
  | @due trivia rest layout token split measure token_due =>
    have hl : Layout.read? ahead = some layout := by
      rw [Layout.read?_of_split split, measure]
    rcases Layout.token?_cases token_due with ⟨rfl, h⟩ | ⟨rfl, h⟩ | ⟨rfl, h⟩
    · simp only [Layout.indents, Bool.and_eq_true, beq_iff_eq, decide_eq_true_eq] at h
      exact ⟨h.1.2, layout, hl, h.2, rfl, State.baseline_enterBlock state layout.indent⟩
    · simp only [Layout.dedents, Bool.and_eq_true, beq_iff_eq, bne_iff_ne] at h
      exact ⟨h.1.1.2, layout, hl, h.1.2, rfl, rfl⟩
    · exact rfl
  | idle => exact rfl
  | refused => exact rfl
  | @opened trivia rest layout literal inner split measure none_due no_comment opener room =>
    cases literal with
    | regex =>
      cases room
      exact rfl
    | string delimiter =>
      obtain ⟨hd, rfl⟩ := State.push?_eq_some_iff.mp room
      obtain ⟨hi, hcalls⟩ := Layout.calls_eq_of_comment? measure no_comment
      obtain ⟨c, later, rfl, -⟩ := Literal.exists_cons_of_ofOpener? opener
      obtain ⟨quote, rfl, rfl⟩ := Literal.exists_quote_of_ofOpener? opener
      have hw := Trivia.flatMap_text_append_split ahead
      rw [split] at hw
      have hcut : Cut (Layout.calls trivia (quote.char :: later) ++ [.advance, .mark])
          (trivia.flatMap Trivia.text) [quote.char] := by
        rw [hcalls]
        exact .opener _ [quote.char]
      refine ⟨hd, quote, quote.char, rfl, Delimiter.closing?_ofQuote quote, ?_, rfl⟩
      apply ht _ quote.char later hcut hw.symm ?_ quote.utf8Size_char
      intro d hmem
      obtain ⟨item, hitem, hmem⟩ := List.mem_flatMap.mp hmem
      exact Trivia.utf8Size_of_mem_text (hi item hitem) hmem

end Course

theorem Source.scan_transition {source : Source} (hs : source.size ≤ maxOffset) (offset : Nat)
    (state : State) (requested : TokenSet) :
    Transition (source.layout? offset) (source.scan offset state requested).reader.text state
      (source.scan offset state requested).answer.token?
      (source.scan offset state requested).answer.state := by
  let cursor : Cursor := ((Reader.ofSource source).begin offset).cursor
  obtain ⟨answer, course, htoken, hcalls, hstate⟩ := exists_course state requested cursor.ahead
  have hreads : answer.Reads cursor.ahead (source.scan offset state requested).reader.text := by
    intro gap c rest hcut hahead hgap hc
    rw [← hcalls] at hcut
    exact hcut.text_run hahead hgap hc hs
  have ht := course.transition hreads
  rw [← htoken, ← hstate] at ht
  exact ht

/-- Wherever a scan begins in a text, its token tells what has become of the state: without a token
nothing, an INDENT enters a block from the outermost level and a DEDENT leaves it, the start and
the end of a string push and pop a delimiter that their text closes, and no other token changes
anything. -/
theorem token_tells_change (input : String) (offset : Nat) (state : State)
    (requested : TokenSet) :
    let source := Source.ofString input
    let scanned := source.scan offset state requested
    Transition (source.layout? offset) scanned.reader.text state scanned.answer.token?
      scanned.answer.state :=
  Source.scan_transition (Source.size_ofString_le input) offset state requested

end Offside
