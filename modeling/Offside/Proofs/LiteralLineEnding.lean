import Offside.Proofs.Diagnostics
import Offside.Proofs.LineEnding

/-!
# Line endings in literals

Inside of a literal a carriage return is plain text, and a line feed is so only in front. Behind the
first character it makes no difference how a line ends. In front of the text it does: behind a
carriage return the line feed comes second and ends the text.
-/

namespace Offside

set_option autoImplicit false

theorem headD_crlf {ahead : List Char} (h : ahead.head? ≠ some '\n') :
    (crlf ahead).headD '\x00' = ahead.headD '\x00' := by
  cases ahead with
  | nil => rfl
  | cons c later =>
    have hc : c ≠ '\n' := fun he => h (congrArg some he)
    rw [crlf_cons hc]
    rfl

namespace Literal

variable {literal : Literal} {ahead rest : List Char} {ending : PieceEnd} {length : Nat}

theorem charEnd?_carriageReturn (literal : Literal) : literal.charEnd? '\r' = none := by
  have hstop : literal.stop? '\r' = none := literal.stop?_blank .carriageReturn
  rw [charEnd?, hstop]
  rfl

theorem not_mem_of_charEnd? {text : List Char} (h : ∀ c ∈ text, literal.charEnd? c = none) :
    '\n' ∉ text := by
  intro hm
  have hend : literal.charEnd? '\n' = some .lineBreak := charEnd?_eq_lineBreak_iff.mpr rfl
  rw [h _ hm] at hend
  cases hend

theorem piece_crlf_of_lineBreak (hh : ahead.head? ≠ some '\n')
    (h : literal.piece ahead = ⟨length + 1, .lineBreak⟩) :
    literal.piece (crlf ahead) = ⟨length + 2, .lineBreak⟩ := by
  obtain ⟨first, text, rest, rfl, hfirst, htext, hend, rfl⟩ := piece_eq_succ_iff.mp h
  have hc : first ≠ '\n' := fun he => hh (congrArg some he)
  obtain ⟨later, rfl⟩ : ∃ later, rest = '\n' :: later := by
    rw [charEnd?_eq_lineBreak_iff] at hend
    cases rest with
    | nil => cases hend
    | cons c later => exact ⟨later, congrArg (· :: later) hend⟩
  rw [crlf_cons hc, crlf_append, crlf_eq_self (not_mem_of_charEnd? htext), crlf_lineFeed]
  refine piece_eq_succ_iff.mpr ⟨first, text ++ ['\r'], '\n' :: crlf later, ?_, hfirst, ?_, hend, ?_⟩
  · rw [List.append_assoc]
    rfl
  · intro c hm
    rcases List.mem_append.mp hm with hm | hm
    · exact htext c hm
    · rw [List.mem_singleton.mp hm]
      exact charEnd?_carriageReturn literal
  · simp

theorem piece_crlf_of_ne_lineBreak (hh : ahead.head? ≠ some '\n')
    (h : (literal.piece ahead).ending ≠ .lineBreak) :
    literal.piece (crlf ahead) = literal.piece ahead := by
  cases hp : literal.piece ahead with
  | mk length ending =>
    rw [hp] at h
    cases length with
    | zero =>
      rw [piece_eq_zero_iff] at hp ⊢
      rw [headD_crlf hh, hp]
    | succ length =>
      obtain ⟨first, text, rest, rfl, hfirst, htext, hend, rfl⟩ := piece_eq_succ_iff.mp hp
      have hc : first ≠ '\n' := fun he => hh (congrArg some he)
      have hrest : rest.head? ≠ some '\n' := by
        intro hhead
        have hline : rest.headD '\x00' = '\n' := by rw [List.headD_eq_head?_getD, hhead]; rfl
        rw [charEnd?_eq_lineBreak_iff.mpr hline] at hend
        exact h (Option.some.inj hend).symm
      rw [crlf_cons hc, crlf_append, crlf_eq_self (not_mem_of_charEnd? htext)]
      refine piece_eq_succ_iff.mpr ⟨first, text, crlf rest, rfl, hfirst, htext, ?_, rfl⟩
      rw [headD_crlf hrest, hend]

theorem piece_crlf_lineFeed (rest : List Char) :
    literal.piece (crlf ('\n' :: rest)) = ⟨1, .lineBreak⟩ := by
  have hplain : literal.isPlain Blank.carriageReturn.char = true := by
    rw [isPlain, stop?_blank]
    rfl
  rw [crlf_lineFeed]
  exact piece_eq_succ_iff.mpr ⟨'\r', [], '\n' :: crlf rest, rfl, hplain, by simp,
    charEnd?_eq_lineBreak_iff.mpr rfl, rfl⟩

theorem not_mem_of_closing? {c : Char} (h : literal.closing? = some c) : '\n' ∉ [c] := by
  intro hm
  obtain rfl : '\n' = c := List.mem_singleton.mp hm
  have hstop := literal.stop?_lineFeed
  rw [stop?_of_closing? h] at hstop
  cases hstop

theorem exists_text_of_token? {token : Token} (hh : ahead.head? ≠ some '\n')
    (h : (literal.piece ahead).token? literal = some token) :
    (literal.piece ahead).ending ≠ .lineBreak ∧
      ∃ text rest, ahead = text ++ rest ∧ '\n' ∉ text ∧
        (literal.piece ahead).calls = List.replicate text.length .advance ++ [.mark] := by
  cases hp : literal.piece ahead with
  | mk length ending =>
    rw [hp] at h
    cases length with
    | zero =>
      cases ending with
      | closed =>
        obtain ⟨c, rest, rfl, hclosing⟩ := exists_closing_of_piece hp
        exact ⟨by decide, [c], rest, rfl, not_mem_of_closing? hclosing, rfl⟩
      | yielded | lineBreak | endOfInput => cases h
    | succ length =>
      obtain ⟨first, text, rest, rfl, -, htext, -, rfl⟩ := piece_eq_succ_iff.mp hp
      have hc : '\n' ∉ first :: text := by
        rw [List.mem_cons, not_or]
        exact ⟨fun he => hh (congrArg some he.symm), not_mem_of_charEnd? htext⟩
      cases ending with
      | yielded | closed => exact ⟨by simp, first :: text, rest, rfl, hc, rfl⟩
      | lineBreak | endOfInput => cases h

end Literal

section Scan

variable {state : State} {requested : TokenSet} {literal : Literal} {ahead : List Char}

theorem scan_crlf_alike_inside (hm : Mode.select state requested = .inside literal)
    (hr : '\r' ∉ ahead) (hh : ahead.head? ≠ some '\n') :
    (scan state requested ahead).Alike (scan state requested (crlf ahead)) := by
  have hagain : (literal.piece (crlf ahead)).isExhausted = (literal.piece ahead).isExhausted := by
    rw [Bool.eq_iff_iff, Literal.isExhausted_iff, Literal.isExhausted_iff, headD_crlf hh]
  cases hx : (literal.piece ahead).isExhausted with
  | true =>
    have hhead := (Trivia.next?_crlf (Trivia.next?_split ahead) (Trivia.not_mem_split hr)).2
    rw [scan_of_isExhausted hm hx, scan_of_isExhausted hm (hagain.trans hx)]
    apply Answer.Alike.commit
    apply scanLayout_alike (Layout.measure?_crlf hr)
    rw [Trivia.split_crlf hr, hhead]
  | false =>
    rw [scan_eq_scanPiece hm hx, scan_eq_scanPiece hm (hagain.trans hx)]
    apply Answer.Alike.commit
    by_cases hend : (literal.piece ahead).ending = .lineBreak
    · cases hp : literal.piece ahead with
      | mk length ending =>
        rw [hp] at hend
        cases hend
        cases length with
        | zero => exact absurd (Literal.piece_eq_zero_iff.mp hp) (Literal.stop?_ne_lineBreak _)
        | succ length =>
          rw [Literal.piece_crlf_of_lineBreak hh hp]
          exact ⟨rfl, rfl, rfl⟩
    · rw [Literal.piece_crlf_of_ne_lineBreak hh hend]
      exact ⟨rfl, rfl, rfl⟩

/-- Inside of a literal that has no text left no opener is found, so the end is marked in front of
the trivia. -/
theorem cut_of_isExhausted (hm : Mode.select state requested = .inside literal)
    (hx : (literal.piece ahead).isExhausted = true) :
    Cut (scan state requested ahead).calls [] [] := by
  have hreads : ReadsLayout state requested ahead := .inr (Literal.isExhausted_iff.mp hx)
  obtain ⟨count, ⟨-, hcalls⟩ | ⟨⟨opener, hopener, hk⟩, -⟩⟩ := hreads.calls_cases
  · rw [hcalls]
    exact .layout count
  · have hmem : opener ∈ [Token.stringStart, .regexStart] := by
      simpa [Token.isOpener] using hk
    have hlayout := ((scan_eq_opener_iff hmem).mp hopener).1
    rw [hm] at hlayout
    cases hlayout

theorem scan_crlf_cut_inside (hm : Mode.select state requested = .inside literal)
    (hh : ahead.head? ≠ some '\n')
    (ht : (scan state requested ahead).token?.isSome) :
    ∃ text rest, ahead = text ++ rest ∧ '\n' ∉ text ∧
      Cut (scan state requested ahead).calls [] text ∧
      Cut (scan state requested (crlf ahead)).calls [] text := by
  obtain ⟨token, ht⟩ := Option.isSome_iff_exists.mp ht
  cases hx : (literal.piece ahead).isExhausted with
  | true =>
    have hxagain : (literal.piece (crlf ahead)).isExhausted = true := by
      rw [Literal.isExhausted_iff] at hx ⊢
      rw [headD_crlf hh, hx]
    exact ⟨[], ahead, rfl, by simp, cut_of_isExhausted hm hx, cut_of_isExhausted hm hxagain⟩
  | false =>
    obtain ⟨htoken, hcalls⟩ := scan_of_not_isExhausted hm hx
    rw [htoken] at ht
    obtain ⟨hend, text, rest, hahead, hline, htext⟩ := Literal.exists_text_of_token? hh ht
    have hpiece := Literal.piece_crlf_of_ne_lineBreak hh hend
    have hcallsagain := (scan_of_not_isExhausted hm (hpiece ▸ hx)).2
    refine ⟨text, rest, hahead, hline, ?_, ?_⟩
    · rw [hcalls, htext]
      exact .piece text
    · rw [hcallsagain, hpiece, htext]
      exact .piece text

theorem scan_crlf_lineFeed (hm : Mode.select state requested = .inside literal)
    (rest : List Char) : (scan state requested (crlf ('\n' :: rest))).token? = none ∧
      (scan state requested (crlf ('\n' :: rest))).state = state := by
  have hpiece := literal.piece_crlf_lineFeed rest
  have hx : (literal.piece (crlf ('\n' :: rest))).isExhausted = false := by rw [hpiece]; rfl
  rw [scan_eq_scanPiece hm hx, Answer.token?_commit, Answer.state_commit, hpiece]
  exact ⟨rfl, rfl⟩

end Scan

/-- The second scan is one of the text with a carriage return in front of each line feed. It finds
the same token with the same state, and the token lies at the place that corresponds. -/
structure Scanned.SameInCrlf (text : List Char) (scanned again : Scanned) : Prop where
  token?_eq : again.answer.token? = scanned.answer.token?
  state_eq : again.answer.state = scanned.answer.state
  span_eq : scanned.answer.token?.isSome → again.reader.span = scanned.reader.span.crlf text

namespace Source

variable {input : String} {front rest : List Char}

theorem scan_crlf_eq (hs : (crlfText input).utf8ByteSize ≤ maxOffset)
    (h : input.toList = front ++ rest) (hc : (ofString input).contentStart ≤ encodedSize front)
    (state : State) (requested : TokenSet) :
    (ofString (crlfText input)).scan (crlfOffset input.toList (encodedSize front)) state requested =
      ⟨Offside.scan state requested (crlf rest),
        (Reader.fresh ⟨ofString (crlfText input), encodedSize (crlf front)⟩).run
          (Offside.scan state requested (crlf rest)).calls⟩ := by
  have hcrlf : (crlfText input).toList = crlf front ++ crlf rest := by
    rw [toList_crlfText, h, crlf_append]
  have hstart : (ofString (crlfText input)).contentStart ≤ encodedSize (crlf front) :=
    Nat.le_trans (contentStart_crlf_le hs) (Nat.le_trans hc (encodedSize_le_crlf front))
  rw [h, crlfOffset_append]
  exact scan_eq hs hcrlf (Nat.max_eq_left hstart) state requested

/-- What is cut out in front of the same text without line feeds lies at the place that
corresponds. -/
theorem span_crlf_of_cut (hs : (crlfText input).utf8ByteSize ≤ maxOffset) {text later : List Char}
    (h : input.toList = front ++ (text ++ later)) (hline : '\n' ∉ text) {first second : List Call}
    (hfirst : Cut first [] text) (hsecond : Cut second [] text) :
    ((Reader.fresh ⟨ofString (crlfText input), encodedSize (crlf front)⟩).run second).span =
      ((Reader.fresh ⟨ofString input, encodedSize front⟩).run first).span.crlf input.toList := by
  have hcrlf : (crlfText input).toList = crlf front ++ (text ++ crlf later) := by
    rw [toList_crlfText, h, crlf_append, crlf_append, crlf_eq_self hline]
  have hb := before_of_toList_eq h (size_le_of_crlf hs)
  have hbagain := before_of_toList_eq hcrlf hs
  have hfront := crlfOffset_append front (text ++ later)
  have hbehind := crlfOffset_append (front ++ text) later
  rw [← h] at hfront
  rw [List.append_assoc, ← h, encodedSize_append, crlf_append, crlf_eq_self hline,
    encodedSize_append] at hbehind
  rw [hfirst.span_run hb, hsecond.span_run hbagain]
  simp only [Span.crlf, encodedSize_nil, Nat.add_zero, hfront, hbehind]

end Source

/-- Inside of a literal a scan does not depend on how lines end, but for one place. In front of a
line feed nothing is found in the text with carriage returns, so there the scans agree just if
nothing is found in the one without. -/
theorem literal_ignores_line_ending_iff (input : String) (hr : '\r' ∉ input.toList)
    (hs : (crlfText input).utf8ByteSize ≤ maxOffset) {front rest : List Char}
    (h : input.toList = front ++ rest)
    (hc : (Source.ofString input).contentStart ≤ encodedSize front) (state : State)
    (requested : TokenSet) (literal : Literal) (hm : Mode.select state requested = .inside literal) :
    let offset := encodedSize front
    let scanned := (Source.ofString input).scan offset state requested
    let again :=
      (Source.ofString (crlfText input)).scan (crlfOffset input.toList offset) state requested
    (scanned.SameInCrlf input.toList again ↔
        (rest.head? = some '\n' → scanned.answer.token? = none)) ∧
      (rest.head? = some '\n' → again.answer.token? = none ∧ again.answer.state = state) := by
  intro offset scanned again
  have hscanned : scanned = _ :=
    Source.scan_eq (Source.size_le_of_crlf hs) h (Nat.max_eq_left hc) state requested
  have hagain : again = _ := Source.scan_crlf_eq hs h hc state requested
  have hnone : rest.head? = some '\n' → again.answer.token? = none ∧ again.answer.state = state := by
    intro hhead
    obtain ⟨later, rfl⟩ := List.head?_eq_some_iff.mp hhead
    rw [hagain]
    exact scan_crlf_lineFeed hm later
  refine ⟨⟨?_, ?_⟩, hnone⟩
  · intro hsame hhead
    rw [← hsame.token?_eq]
    exact (hnone hhead).1
  · intro htoken
    by_cases hhead : rest.head? = some '\n'
    · have ht := Source.scan_transition (Source.size_ofString_le input) offset state requested
      have hfirst := htoken hhead
      change Transition _ _ state scanned.answer.token? scanned.answer.state at ht
      rw [hfirst] at ht
      refine ⟨(hnone hhead).1.trans hfirst.symm, (hnone hhead).2.trans ht.symm, ?_⟩
      rw [hfirst]
      intro hsome
      cases hsome
    · have hreturn : '\r' ∉ rest := fun hmem => hr (h ▸ List.mem_append_right front hmem)
      have halike := scan_crlf_alike_inside hm hreturn hhead
      rw [hscanned, hagain]
      refine ⟨halike.token?_eq, halike.state_eq, ?_⟩
      intro hsome
      obtain ⟨text, later, rfl, hline, hfirst, hsecond⟩ := scan_crlf_cut_inside hm hhead hsome
      exact Source.span_crlf_of_cut hs h hline hfirst hsecond

/-- Behind a line feed the text of a string corresponds, and in front of the one that begins another
text it does not. -/
theorem literal_ignores_line_ending_iff_both :
    let input := "\n'é\x7b\nx'"
    let state : State := { stack := [.ofQuote .double] }
    let requested : TokenSet := .ofTokens [.stringContent]
    let behind := (Source.ofString input).scan 1 state requested
    let front := (Source.ofString input).scan 0 state requested
    '\r' ∉ input.toList ∧ (crlfText input).utf8ByteSize ≤ maxOffset ∧
      (Source.ofString input).contentStart ≤ 0 ∧
      Mode.select state requested = .inside (.string (.ofQuote .double)) ∧
      behind.Finds .stringContent ⟨1, 4⟩ ∧ front.Finds .stringContent ⟨0, 4⟩ ∧
      behind.SameInCrlf input.toList
        ((Source.ofString (crlfText input)).scan (crlfOffset input.toList 1) state requested) ∧
      ¬ front.SameInCrlf input.toList
        ((Source.ofString (crlfText input)).scan (crlfOffset input.toList 0) state requested) := by
  intro input state requested behind front
  have hr : '\r' ∉ input.toList := by decide
  have hs : (crlfText input).utf8ByteSize ≤ maxOffset := by decide +kernel
  have hc : (Source.ofString input).contentStart ≤ 0 := by decide +kernel
  have hm : Mode.select state requested = .inside (.string (.ofQuote .double)) := by decide +kernel
  have hbehind : behind.Finds .stringContent ⟨1, 4⟩ := ⟨by decide +kernel, by decide +kernel⟩
  have hfront : front.Finds .stringContent ⟨0, 4⟩ := ⟨by decide +kernel, by decide +kernel⟩
  have hsplit : input.toList = ['\n'] ++ ['\'', 'é', '{', '\n', 'x', '\''] := by decide
  have hwhole : input.toList = [] ++ input.toList := rfl
  refine ⟨hr, hs, hc, hm, hbehind, hfront, ?_, ?_⟩
  · apply (literal_ignores_line_ending_iff input hr hs hsplit (Nat.le_trans hc (Nat.zero_le _)) state
      requested _ hm).1.mpr
    intro hhead
    exact absurd hhead (by decide)
  · intro hsame
    have hnone := (literal_ignores_line_ending_iff input hr hs hwhole hc state requested _
      hm).1.mp hsame (by decide)
    have hsome : front.answer.token? = some .stringContent := hfront.1
    have hfirst : front.answer.token? = none := hnone
    rw [hfirst] at hsome
    cases hsome

/-- A line feed in front of the text is content, and a carriage return with a line feed is not. -/
theorem leading_line_ending_is_refused :
    let input := "\nabc'"
    let state : State := { stack := [.ofQuote .single] }
    let requested : TokenSet := .ofTokens [.stringContent]
    let again := (Source.ofString (crlfText input)).scan (crlfOffset input.toList 0) state requested
    '\r' ∉ input.toList ∧ (crlfText input).utf8ByteSize ≤ maxOffset ∧
      Mode.select state requested = .inside (.string (.ofQuote .single)) ∧
      ((Source.ofString input).scan 0 state requested).Finds .stringContent ⟨0, 4⟩ ∧
      again.answer.token? = none := by
  intro input state requested again
  have hscanned : ((Source.ofString input).scan 0 state requested).Finds .stringContent ⟨0, 4⟩ :=
    ⟨by decide +kernel, by decide +kernel⟩
  exact ⟨by decide, by decide +kernel, by decide +kernel, hscanned, by decide +kernel⟩

end Offside
