import Offside.Proofs.Cut
import Offside.Proofs.Displacement

/-!
# Line endings

A line may end with a line feed or with a carriage return in front of it. Between tokens nothing
that is measured depends on it, so the layout gives the same token at the place that corresponds.
-/

namespace Offside

set_option autoImplicit false

/-- The text with a carriage return in front of each line feed. -/
def crlf (text : List Char) : List Char :=
  text.flatMap fun c => if c = '\n' then ['\r', '\n'] else [c]

def charsBefore : List Char → Nat → List Char
  | [], _ => []
  | c :: text, offset =>
    if c.utf8Size ≤ offset then c :: charsBefore text (offset - c.utf8Size) else []

/-- Where a boundary of a text lies when each line feed has a carriage return in front. -/
def crlfOffset (text : List Char) (offset : Nat) : Nat :=
  encodedSize (crlf (charsBefore text offset))

def Span.crlf (span : Span) (text : List Char) : Span :=
  ⟨crlfOffset text span.start, crlfOffset text span.stop⟩

def crlfText (input : String) : String := String.ofList (crlf input.toList)

@[simp] theorem toList_crlfText (input : String) : (crlfText input).toList = crlf input.toList :=
  String.toList_ofList

@[simp] theorem crlf_append (first second : List Char) :
    crlf (first ++ second) = crlf first ++ crlf second := List.flatMap_append

theorem crlf_lineFeed (text : List Char) : crlf ('\n' :: text) = '\r' :: '\n' :: crlf text := rfl

theorem crlf_cons {c : Char} (hc : c ≠ '\n') (text : List Char) :
    crlf (c :: text) = c :: crlf text := by
  simp [crlf, hc]

theorem crlf_eq_self {text : List Char} (h : '\n' ∉ text) : crlf text = text := by
  induction text with
  | nil => rfl
  | cons c text ih =>
    rw [List.mem_cons, not_or] at h
    rw [crlf_cons (Ne.symm h.1), ih h.2]

theorem encodedSize_le_crlf (text : List Char) : encodedSize text ≤ encodedSize (crlf text) := by
  induction text with
  | nil => exact Nat.le_refl _
  | cons c text ih =>
    by_cases hc : c = '\n'
    · rw [hc, crlf_lineFeed]
      simp only [encodedSize_cons]
      omega
    · rw [crlf_cons hc]
      exact Nat.add_le_add_left ih _

theorem charsBefore_append (front rest : List Char) :
    charsBefore (front ++ rest) (encodedSize front) = front := by
  induction front with
  | nil =>
    cases rest with
    | nil => rfl
    | cons c rest => exact if_neg (Nat.not_le.mpr c.utf8Size_pos)
  | cons c front ih =>
    rw [List.cons_append, encodedSize_cons, charsBefore, if_pos (Nat.le_add_right _ _),
      Nat.add_sub_cancel_left, ih]

theorem crlfOffset_append (front rest : List Char) :
    crlfOffset (front ++ rest) (encodedSize front) = encodedSize (crlf front) := by
  rw [crlfOffset, charsBefore_append]

namespace Trivia

def crlfForm : Trivia → List Trivia
  | blank .lineFeed => [blank .carriageReturn, blank .lineFeed]
  | comment body .lineBreak => [comment (body ++ ['\r']) .lineBreak]
  | continuation _ => [continuation true]
  | item => [item]

variable {item : Trivia} {ahead rest : List Char} {items : List Trivia}

theorem Fits.begins_crlf_comment {body : List Char} {ending : CommentEnd}
    (h : (comment body ending).Fits ahead) (later : Begins (crlf ahead) items rest) :
    Begins (crlf ((comment body ending).text ++ ahead))
      ((comment body ending).crlfForm ++ items) rest := by
  obtain ⟨hbody, hend⟩ := h
  have hb : '\n' ∉ body := fun hm => absurd (hbody _ hm) (by decide)
  have hc : '#' ≠ '\n' := by decide
  cases ending with
  | lineBreak =>
    have hfits : (comment (body ++ ['\r']) .lineBreak).Fits (crlf ahead) := by
      refine ⟨?_, fun he => absurd he (by decide)⟩
      intro c hm
      rcases List.mem_append.mp hm with hm | hm
      · exact hbody c hm
      · rw [List.mem_singleton.mp hm]
        decide
    have hbegins := Begins.cons hfits later
    simpa [text, CommentEnd.text, crlfForm, crlf_cons hc, crlf_eq_self hb, crlf_lineFeed]
      using hbegins
  | nul =>
    have hn : '\x00' ≠ '\n' := by decide
    have hfits : (comment body .nul).Fits (crlf ahead) := ⟨hbody, fun he => absurd he (by decide)⟩
    have hbegins := Begins.cons hfits later
    simpa [text, CommentEnd.text, crlfForm, crlf_cons hc, crlf_cons hn, crlf_eq_self hb]
      using hbegins
  | endOfInput =>
    have hfits : (comment body .endOfInput).Fits (crlf ahead) := by
      rw [hend rfl]
      exact ⟨hbody, fun _ => rfl⟩
    have hbegins := Begins.cons hfits later
    simpa [text, CommentEnd.text, crlfForm, crlf_cons hc, crlf_eq_self hb] using hbegins

theorem Fits.begins_crlf (h : item.Fits ahead) (hr : '\r' ∉ item.text)
    (later : Begins (crlf ahead) items rest) :
    Begins (crlf (item.text ++ ahead)) (item.crlfForm ++ items) rest := by
  cases item with
  | blank kind =>
    have hfits (kind : Blank) : (blank kind).Fits (crlf ahead) := trivial
    cases kind with
    | lineFeed =>
      have hbegins : Begins ((blank .carriageReturn).text ++ ((blank .lineFeed).text ++ crlf ahead))
          (blank .carriageReturn :: blank .lineFeed :: items) rest :=
        .cons trivial (.cons (hfits .lineFeed) later)
      exact hbegins
    | carriageReturn => exact absurd List.mem_cons_self hr
    | space => exact .cons (hfits .space) later
    | tab => exact .cons (hfits .tab) later
    | formFeed => exact .cons (hfits .formFeed) later
  | comment body ending => exact h.begins_crlf_comment later
  | continuation carriageReturn =>
    cases carriageReturn with
    | true => simp [text] at hr
    | false =>
      have hbegins : Begins ((continuation true).text ++ crlf ahead)
          (continuation true :: items) rest := .cons trivial later
      exact hbegins

theorem Begins.begins_crlf (h : Begins ahead items rest) (hr : '\r' ∉ ahead) :
    Begins (crlf ahead) (items.flatMap crlfForm) (crlf rest) := by
  induction h with
  | nil rest => exact .nil _
  | @cons item ahead rest items fits later ih =>
    rw [List.mem_append, not_or] at hr
    rw [List.flatMap_cons]
    exact fits.begins_crlf hr.1 (ih hr.2)

theorem next?_crlf (hn : next? rest = none) (hr : '\r' ∉ rest) :
    next? (crlf rest) = none ∧ (crlf rest).headD '\x00' = rest.headD '\x00' := by
  cases rest with
  | nil => exact ⟨rfl, rfl⟩
  | cons c later =>
    by_cases hc : c = '\\'
    · subst hc
      rw [crlf_cons (by decide)]
      refine ⟨?_, rfl⟩
      rw [next?_backslash_eq_none_iff] at hn ⊢
      cases later with
      | nil => exact hn
      | cons next later =>
        have hnext : next ≠ '\n' := by simpa using hn.1
        have hreturn : next ≠ '\r' := by
          rintro rfl
          simp at hr
        rw [crlf_cons hnext]
        simp [hnext, hreturn]
    · rw [next?_cons_eq_none_iff hc] at hn
      have hl : c ≠ '\n' := by
        rintro rfl
        exact absurd hn.1 (by decide)
      rw [crlf_cons hl, next?_cons_eq_none_iff hc]
      exact ⟨hn, rfl⟩

theorem not_mem_split (hr : '\r' ∉ ahead) : '\r' ∉ (split ahead).2 := by
  intro hm
  apply hr
  rw [← flatMap_text_append_split ahead]
  exact List.mem_append_right _ hm

theorem split_crlf (hr : '\r' ∉ ahead) :
    split (crlf ahead) = ((split ahead).1.flatMap crlfForm, crlf (split ahead).2) := by
  have hb := (begins_split ahead).begins_crlf hr
  have hn := (next?_crlf (next?_split ahead) (not_mem_split hr)).1
  rw [hb.split_eq, split_of_next?_eq_none hn, List.append_nil]

end Trivia

namespace Layout

theorem foldl_add_crlfForm (layout : Layout) (item : Trivia) :
    item.crlfForm.foldl add layout = layout.add item := by
  cases item with
  | blank kind => cases kind <;> rfl
  | comment body ending => cases ending <;> rfl
  | continuation carriageReturn => rfl

theorem ofTrivia_crlfForm (items : List Trivia) :
    ofTrivia (items.flatMap Trivia.crlfForm) = ofTrivia items := by
  simp only [ofTrivia, List.foldl_flatMap, foldl_add_crlfForm]

theorem measure?_crlf {ahead : List Char} (hr : '\r' ∉ ahead) :
    measure? (Trivia.split (crlf ahead)).1 (Trivia.split (crlf ahead)).2 =
      measure? (Trivia.split ahead).1 (Trivia.split ahead).2 := by
  have hhead := (Trivia.next?_crlf (Trivia.next?_split ahead) (Trivia.not_mem_split hr)).2
  simp only [Trivia.split_crlf hr, measure?, hhead, ofTrivia_crlfForm]

end Layout

/-- Answers that differ in nothing but the calls. -/
structure Answer.Alike (first second : Answer) : Prop where
  token?_eq : second.token? = first.token?
  state_eq : second.state = first.state
  events_eq : second.events = first.events

theorem Answer.Alike.commit {first second : Answer} (h : first.Alike second) (mode : Mode) :
    (first.commit mode).Alike (second.commit mode) := by
  obtain ⟨ht, hs, he⟩ := h
  refine ⟨by simpa using ht, by simpa using hs, ?_⟩
  simp only [Answer.commit, ht]
  split <;> simp only [hs, he]

theorem Answer.Alike.openLiteral {first second : Answer} (h : first.Alike second)
    (requested : TokenSet) (c : Char) :
    (Offside.openLiteral first requested c).Alike (Offside.openLiteral second requested c) := by
  simp only [Offside.openLiteral, h.state_eq]
  cases Literal.ofOpener? requested c with
  | none => exact h
  | some literal =>
    simp only
    cases first.state.open? literal with
    | none => exact ⟨h.token?_eq, rfl, congrArg (· ++ _) h.events_eq⟩
    | some opened => exact ⟨rfl, rfl, h.events_eq⟩

section Scan

variable {state : State} {requested : TokenSet} {ahead other : List Char}

theorem scanLayout_alike
    (hm : Layout.measure? (Trivia.split other).1 (Trivia.split other).2 =
      Layout.measure? (Trivia.split ahead).1 (Trivia.split ahead).2)
    (hh : (Trivia.split other).2.headD '\x00' = (Trivia.split ahead).2.headD '\x00') :
    (scanLayout state requested ahead).Alike (scanLayout state requested other) := by
  simp only [scanLayout, Layout.measure, hm, hh]
  cases Layout.measure? (Trivia.split ahead).1 (Trivia.split ahead).2 with
  | none => exact ⟨rfl, rfl, rfl⟩
  | some layout =>
    cases ht : layout.token? requested state.baseline with
    | some token =>
      simp only [ht]
      exact ⟨rfl, rfl, rfl⟩
    | none =>
      simp only [ht]
      split
      · exact ⟨rfl, rfl, rfl⟩
      · apply Answer.Alike.openLiteral
        exact ⟨rfl, rfl, rfl⟩

theorem scan_crlf_alike (hm : Mode.select state requested = .layout) (hr : '\r' ∉ ahead) :
    (scan state requested ahead).Alike (scan state requested (crlf ahead)) := by
  have hhead := (Trivia.next?_crlf (Trivia.next?_split ahead) (Trivia.not_mem_split hr)).2
  simp only [scan, hm, scanIn]
  apply Answer.Alike.commit
  apply scanLayout_alike (Layout.measure?_crlf hr)
  rw [Trivia.split_crlf hr, hhead]

/-- Of the tokens that the layout gives only an opener takes text, behind all of the trivia. -/
theorem scan_layout_cut {token : Token} (hm : Mode.select state requested = .layout)
    (ht : (scan state requested ahead).token? = some token) :
    token ∉ [Token.stringStart, .regexStart] ∧ Cut (scan state requested ahead).calls [] [] ∨
      token ∈ [Token.stringStart, .regexStart] ∧
        ∃ c later, (Trivia.split ahead).2 = c :: later ∧
          Cut (scan state requested ahead).calls ((Trivia.split ahead).1.flatMap Trivia.text)
            [c] := by
  obtain ⟨answer, course, htoken, hcalls, -⟩ := exists_course state requested ahead
  rw [htoken] at ht
  rw [hcalls]
  cases course with
  | piece mode =>
    rw [hm] at mode
    cases mode
  | broken => cases ht
  | due _ _ token_due =>
    cases ht
    exact .inl ⟨Layout.token?_not_opener token_due, .layout _⟩
  | idle => cases ht
  | refused => cases ht
  | @opened trivia rest _ literal _ split measure _ no_comment opener _ =>
    cases ht
    right
    obtain ⟨c, later, rfl, -⟩ := Literal.exists_cons_of_ofOpener? opener
    refine ⟨?_, c, later, by rw [split], ?_⟩
    · cases literal <;> simp [Literal.startToken]
    · rw [split, (Layout.calls_eq_of_comment? measure no_comment).2]
      exact .opener _ [c]

/-- The token is cut out in front of the same text, and the gap is the one with returns. -/
theorem scan_crlf_cut (hm : Mode.select state requested = .layout) (hr : '\r' ∉ ahead)
    (ht : (scan state requested ahead).token?.isSome) :
    ∃ gap text rest, ahead = gap ++ (text ++ rest) ∧ '\n' ∉ text ∧
      Cut (scan state requested ahead).calls gap text ∧
      Cut (scan state requested (crlf ahead)).calls (crlf gap) text := by
  obtain ⟨token, ht⟩ := Option.isSome_iff_exists.mp ht
  have hagain := (scan_crlf_alike hm hr).token?_eq.trans ht
  have hwhole := Trivia.flatMap_text_append_split ahead
  have hcrlf := Trivia.flatMap_text_append_split (crlf ahead)
  have hn := Trivia.next?_split ahead
  rcases scan_layout_cut hm ht with ⟨hk, hfirst⟩ | ⟨hk, c, later, hrest, hfirst⟩
  · rcases scan_layout_cut hm hagain with ⟨-, hsecond⟩ | ⟨hother, -⟩
    · exact ⟨[], [], ahead, rfl, by simp, hfirst, hsecond⟩
    · exact absurd hother hk
  · rcases scan_layout_cut hm hagain with ⟨hother, -⟩ | ⟨-, d, behind, hsame, hsecond⟩
    · exact absurd hk hother
    · rw [hrest] at hn hwhole
      have hc : c ≠ '\n' := by
        rintro rfl
        cases hn
      have hsplit := congrArg Prod.snd (Trivia.split_crlf hr)
      rw [hsame, hrest, crlf_cons hc] at hsplit
      obtain ⟨rfl, rfl⟩ := List.cons.inj hsplit
      have hgap : (Trivia.split (crlf ahead)).1.flatMap Trivia.text =
          crlf ((Trivia.split ahead).1.flatMap Trivia.text) := by
        have hall := congrArg crlf hwhole
        rw [crlf_append, crlf_cons hc] at hall
        rw [hsame] at hcrlf
        exact List.append_cancel_right (hcrlf.trans hall.symm)
      rw [hgap] at hsecond
      refine ⟨_, [d], later, hwhole.symm, ?_, hfirst, hsecond⟩
      simpa using Ne.symm hc

end Scan

namespace Source

variable {text : String} {front rest : List Char}

theorem size_le_of_crlf (hs : (crlfText text).utf8ByteSize ≤ maxOffset) :
    text.utf8ByteSize ≤ maxOffset := by
  rw [utf8ByteSize_eq] at hs ⊢
  rw [toList_crlfText] at hs
  exact Nat.le_trans (encodedSize_le_crlf text.toList) hs

theorem contentStart_crlf_le (hs : (crlfText text).utf8ByteSize ≤ maxOffset) :
    (ofString (crlfText text)).contentStart ≤ (ofString text).contentStart := by
  apply contentStart_le_contentStart
  rw [hasByteOrderMark_iff hs, hasByteOrderMark_iff (size_le_of_crlf hs), toList_crlfText]
  rintro ⟨later, hlater⟩
  cases ht : text.toList with
  | nil =>
    rw [ht] at hlater
    cases hlater
  | cons c rest =>
    rw [ht] at hlater
    by_cases hc : c = '\n'
    · rw [hc, crlf_lineFeed] at hlater
      exact absurd (List.cons.inj hlater).1 (by decide)
    · rw [crlf_cons hc] at hlater
      exact ⟨rest, congrArg (· :: rest) (List.cons.inj hlater).1⟩

end Source

/-- Outside of literals a scan does not depend on how lines end. In the text with a carriage return
in front of each line feed it finds the same at the place that corresponds. -/
theorem layout_ignores_line_ending (input : String) (hr : '\r' ∉ input.toList)
    (hs : (crlfText input).utf8ByteSize ≤ maxOffset) {front rest : List Char}
    (h : input.toList = front ++ rest)
    (hc : (Source.ofString input).contentStart ≤ encodedSize front) (state : State)
    (requested : TokenSet) (hm : Mode.select state requested = .layout) :
    let offset := encodedSize front
    let scanned := (Source.ofString input).scan offset state requested
    let again :=
      (Source.ofString (crlfText input)).scan (crlfOffset input.toList offset) state requested
    scanned.answer.Alike again.answer ∧
      (scanned.answer.token?.isSome →
        again.reader.span = scanned.reader.span.crlf input.toList) := by
  intro offset scanned again
  have hfirst := Source.size_le_of_crlf hs
  have hcrlf : (crlfText input).toList = crlf front ++ crlf rest := by
    rw [toList_crlfText, h, crlf_append]
  have hoffset : crlfOffset input.toList offset = encodedSize (crlf front) := by
    rw [h]
    exact crlfOffset_append front rest
  have hstart : (Source.ofString (crlfText input)).contentStart ≤ encodedSize (crlf front) :=
    Nat.le_trans (Source.contentStart_crlf_le hs) (Nat.le_trans hc (encodedSize_le_crlf front))
  have hreturn : '\r' ∉ rest := fun hmem => hr (h ▸ List.mem_append_right front hmem)
  have hscanned : scanned = _ := Source.scan_eq hfirst h (Nat.max_eq_left hc) state requested
  have hagain : again =
      (Source.ofString (crlfText input)).scan (encodedSize (crlf front)) state requested := by
    rw [← hoffset]
  rw [hscanned, hagain, Source.scan_eq hs hcrlf (Nat.max_eq_left hstart)]
  refine ⟨scan_crlf_alike hm hreturn, ?_⟩
  intro htoken
  obtain ⟨gap, text, later, rfl, hplain, hcut, hcut'⟩ := scan_crlf_cut hm hreturn htoken
  have hb := Source.before_of_toList_eq h hfirst
  have hb' := Source.before_of_toList_eq hcrlf hs
  rw [crlf_append, crlf_append, crlf_eq_self hplain] at hb'
  have hgap := crlfOffset_append (front ++ gap) (text ++ later)
  have htext := crlfOffset_append (front ++ (gap ++ text)) later
  simp only [List.append_assoc, ← h, crlf_append, crlf_eq_self hplain, encodedSize_append]
    at hgap htext
  simp only [hcut.span_run hb, hcut'.span_run hb', Span.crlf, hgap, Nat.add_assoc, htext]

/-- An opener behind a continuation and a line feed. -/
theorem layout_ignores_line_ending_opener :
    let input := " \\\n\n  'é"
    let requested : TokenSet := .ofTokens [.stringStart]
    let scanned := (Source.ofString input).scan 1 {} requested
    let again := (Source.ofString (crlfText input)).scan 1 {} requested
    '\r' ∉ input.toList ∧ (crlfText input).utf8ByteSize ≤ maxOffset ∧
      input.toList = [' '] ++ ['\\', '\n', '\n', ' ', ' ', '\'', 'é'] ∧
      (Source.ofString input).contentStart ≤ 1 ∧ Mode.select {} requested = .layout ∧
      scanned.answer.token? = some .stringStart ∧ scanned.reader.span = ⟨6, 7⟩ ∧
      scanned.answer.Alike again.answer ∧ again.reader.span = ⟨8, 9⟩ := by
  intro input requested scanned again
  have hr : '\r' ∉ input.toList := by decide
  have hs : (crlfText input).utf8ByteSize ≤ maxOffset := by decide +kernel
  have h : input.toList = [' '] ++ ['\\', '\n', '\n', ' ', ' ', '\'', 'é'] := by decide
  have hc : (Source.ofString input).contentStart ≤ 1 := by decide +kernel
  have hm : Mode.select {} requested = .layout := by decide +kernel
  have ht : scanned.answer.token? = some .stringStart := by decide +kernel
  have hspan : scanned.reader.span = ⟨6, 7⟩ := by decide +kernel
  have hoffset : crlfOffset input.toList 1 = 1 := by decide +kernel
  obtain ⟨halike, hagain⟩ := layout_ignores_line_ending input hr hs h hc {} requested hm
  have hsize : encodedSize [' '] = 1 := rfl
  rw [hsize, hoffset] at halike hagain
  have hsame : again.reader.span = scanned.reader.span.crlf input.toList := by
    apply hagain
    change scanned.answer.token?.isSome = true
    rw [ht]
    rfl
  rw [hspan] at hsame
  exact ⟨hr, hs, h, hc, hm, ht, hspan, halike, hsame.trans (by decide +kernel)⟩

end Offside
