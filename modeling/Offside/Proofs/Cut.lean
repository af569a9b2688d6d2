import Offside.Proofs.Course
import Offside.Proofs.Reading
import Offside.Proofs.Splitting

/-!
# How a token is cut out of the text

The text ahead of a scan falls into a gap, the token and the rest, and the span of the token is the
place of the second part. Only the opener of a literal has a gap in front of it.
-/

namespace Offside

set_option autoImplicit false

namespace Trivia

def isComment : Trivia → Bool
  | comment _ _ => true
  | blank _ | continuation _ => false

variable {items : List Trivia}

theorem AllClosed.of_isComment (h : ∀ item ∈ items, item.isComment = false) : AllClosed items := by
  intro body hb
  cases h _ hb

theorem begins_of_isComment (h : ∀ item ∈ items, item.isComment = false) (rest : List Char) :
    Begins (items.flatMap text ++ rest) items rest := by
  induction items with
  | nil => exact .nil rest
  | cons item items ih =>
    have hfits : item.Fits (items.flatMap text ++ rest) := by
      cases item with
      | comment body ending => cases h _ List.mem_cons_self
      | blank kind => trivial
      | continuation carriageReturn => trivial
    rw [List.flatMap_cons, List.append_assoc]
    exact .cons hfits (ih fun other ho => h other (List.mem_cons_of_mem item ho))

theorem split_of_isComment (h : ∀ item ∈ items, item.isComment = false) {rest : List Char}
    (hn : next? rest = none) : split (items.flatMap text ++ rest) = (items, rest) := by
  rw [(begins_of_isComment h rest).split_eq, split_of_next?_eq_none hn, List.append_nil]

end Trivia

namespace Layout

variable {trivia : List Trivia} {rest : List Char} {layout : Layout}

theorem comment?_add_of_isComment {item : Trivia} (h : item.isComment = false) :
    (layout.add item).comment? = layout.comment? := by
  cases item with
  | blank kind => cases kind <;> rfl
  | comment body ending => cases h
  | continuation carriageReturn => rfl

theorem comment?_foldl_add_eq_none (h : (trivia.foldl add layout).comment? = none) :
    layout.comment? = none ∧ ∀ item ∈ trivia, item.isComment = false := by
  induction trivia generalizing layout with
  | nil => exact ⟨h, by simp⟩
  | cons item trivia ih =>
    obtain ⟨hl, ht⟩ := ih h
    cases hi : item.isComment with
    | true =>
      cases item with
      | comment body ending => simp [add] at hl
      | _ => cases hi
    | false =>
      rw [comment?_add_of_isComment hi] at hl
      refine ⟨hl, ?_⟩
      intro other ho
      rcases List.mem_cons.mp ho with rfl | ho
      · exact hi
      · exact ht other ho

theorem headD_ne_of_measure? (h : measure? trivia rest = some layout) :
    rest.headD '\x00' ≠ '\\' := by
  intro hc
  rw [measure?, hc] at h
  cases h

theorem comment?_of_measure? (h : measure? trivia rest = some layout) :
    layout.comment? = (ofTrivia trivia).comment? := by
  unfold measure? at h
  split at h
  · cases h
  · cases h
    rfl
  · cases h
    rfl

theorem brokenSkips_eq_zero (h : rest.headD '\x00' ≠ '\\') : brokenSkips rest = 0 := by
  unfold brokenSkips
  split <;> simp_all

theorem skips_eq_length (h : Trivia.AllClosed trivia) :
    skips trivia rest = (trivia.flatMap Trivia.text).length + brokenSkips rest := by
  induction trivia with
  | nil => simp [skips]
  | cons item trivia ih =>
    obtain ⟨hitem, htrivia⟩ := h.of_cons
    have hskips : skips (item :: trivia) rest = item.skips + skips trivia rest := rfl
    rw [hskips, Trivia.skips_eq_length_text hitem, ih htrivia, List.flatMap_cons,
      List.length_append]
    omega

/-- Only these tokens are due, and none of them opens a literal. -/
theorem token?_not_opener {requested : TokenSet} {baseline : UInt8} {token : Token}
    (h : layout.token? requested baseline = some token) :
    token ∉ [Token.stringStart, .regexStart] := by
  rcases token?_cases h with ⟨rfl, -⟩ | ⟨rfl, -⟩ | ⟨rfl, -⟩
  · decide
  · decide
  · decide

theorem calls_eq_of_comment? (hm : measure? trivia rest = some layout)
    (hc : layout.comment? = none) :
    (∀ item ∈ trivia, item.isComment = false) ∧
      calls trivia rest =
        .mark :: List.replicate (trivia.flatMap Trivia.text).length .skip := by
  rw [comment?_of_measure? hm] at hc
  have ht := (comment?_foldl_add_eq_none hc).2
  refine ⟨ht, ?_⟩
  rw [calls, skips_eq_length (.of_isComment ht), brokenSkips_eq_zero (headD_ne_of_measure? hm),
    Nat.add_zero]

end Layout

namespace Literal

variable {literal : Literal} {requested : TokenSet} {ahead : List Char} {token : Token} {c : Char}

theorem stop?_nul (literal : Literal) : literal.stop? '\x00' = some .endOfInput := by
  simp [stop?]

theorem eq_nul_of_stop? (h : literal.stop? c = some .endOfInput) : c = '\x00' := by
  unfold stop? at h
  split at h
  · assumption
  · split at h
    · cases h
    · split at h <;> cases h

theorem headD_of_isExhausted (h : (literal.piece ahead).isExhausted = true) :
    ahead.headD '\x00' = '\x00' := by
  simp only [Piece.isExhausted, piece, Bool.and_eq_true, beq_iff_eq] at h
  obtain ⟨hl, he⟩ := h
  rw [hl, List.drop_zero] at he
  cases hs : literal.stop? (ahead.headD '\x00') with
  | none =>
    rw [hs] at he
    cases he
  | some ending =>
    rw [hs, Option.getD_some] at he
    exact eq_nul_of_stop? (hs.trans (congrArg some he))

theorem closing?_of_ofOpener? (h : ofOpener? requested c = some literal) :
    literal.closing? = some c := by
  unfold ofOpener? at h
  split at h
  · rename_i delimiter hd
    cases h
    split at hd
    · exact Delimiter.closing?_of_ofOpener? hd
    · cases hd
  · split at h
    · cases h
      simp_all [closing?]
    · cases h

theorem ofOpener?_nul (requested : TokenSet) : ofOpener? requested '\x00' = none := by
  have hd : Delimiter.ofOpener? '\x00' = none := by decide
  simp [ofOpener?, hd]

theorem exists_cons_of_ofOpener? (h : ofOpener? requested (ahead.headD '\x00') = some literal) :
    ∃ c later, ahead = c :: later ∧ literal.closing? = some c := by
  cases ahead with
  | nil => simp [ofOpener?_nul] at h
  | cons c later => exact ⟨c, later, rfl, closing?_of_ofOpener? h⟩

theorem length_piece (literal : Literal) (ahead : List Char) :
    (literal.piece ahead).length = (literal.plainText ahead).length := rfl

theorem plainText_append_drop (literal : Literal) (ahead : List Char) :
    literal.plainText ahead ++ ahead.drop (literal.piece ahead).length = ahead := by
  have hp := List.prefix_iff_eq_append.mp (literal.plainText_prefix ahead)
  exact hp

theorem drop_ne_nil_of_ending (h : (literal.piece ahead).ending = .closed) :
    ahead.drop (literal.piece ahead).length ≠ [] := by
  intro hn
  simp only [piece] at h hn
  simp [hn, stop?_nul] at h

theorem exists_append_of_token? (h : (literal.piece ahead).token? literal = some token) :
    ∃ text rest, ahead = text ++ rest ∧
      (literal.piece ahead).calls = List.replicate text.length .advance ++ [.mark] := by
  have ha := plainText_append_drop literal ahead
  have hl := length_piece literal ahead
  have hn : (literal.piece ahead).ending = .closed →
      ahead.drop (literal.piece ahead).length ≠ [] := drop_ne_nil_of_ending
  generalize literal.piece ahead = piece at h ha hl hn ⊢
  obtain ⟨length, ending⟩ := piece
  simp only at ha hl hn
  cases ending with
  | yielded =>
    cases length with
    | zero => cases h
    | succ length => exact ⟨_, _, ha.symm, by simp [Piece.calls, ← hl]⟩
  | closed =>
    cases length with
    | zero =>
      cases ahead with
      | nil => exact absurd rfl (hn rfl)
      | cons c later => exact ⟨[c], later, rfl, rfl⟩
    | succ length => exact ⟨_, _, ha.symm, by simp [Piece.calls, ← hl]⟩
  | lineBreak => cases length <;> cases h
  | endOfInput => cases length <;> cases h

end Literal

/-- How calls cut a token out of the text ahead: what is left in front of it, and its text. -/
inductive Cut : List Call → List Char → List Char → Prop where
  | layout (count : Nat) : Cut (.mark :: List.replicate count .skip) [] []
  | opener (gap text : List Char) :
      Cut (.mark :: (List.replicate gap.length .skip ++
        (List.replicate text.length .advance ++ [.mark]))) gap text
  | piece (text : List Char) : Cut (List.replicate text.length .advance ++ [.mark]) [] text

theorem Cut.span_run {calls : List Call} {gap text rest : List Char} {cursor : Cursor}
    (h : Cut calls gap text) (hb : cursor.Before (gap ++ (text ++ rest))) :
    ((Reader.fresh cursor).run calls).span =
      ⟨cursor.offset + encodedSize gap,
        cursor.offset + encodedSize gap + encodedSize text⟩ := by
  cases h with
  | layout count => exact Reader.span_mark_skip hb count
  | opener => exact Reader.span_skip_advance_mark hb
  | piece => exact Reader.span_advance_mark hb

/-- What may be left in front of a token: nothing, or blanks and continuations in front of the
opener of a literal. -/
def GapAllowed (token : Token) (gap : List Char) : Prop :=
  gap = [] ∨ (token = .stringStart ∨ token = .regexStart) ∧
    ∃ trivia : List Trivia, (∀ item ∈ trivia, item.isComment = false) ∧
      gap = trivia.flatMap Trivia.text

theorem scan_cut {state : State} {requested : TokenSet} {ahead : List Char} {token : Token}
    (h : (scan state requested ahead).token? = some token) :
    ∃ gap text rest, ahead = gap ++ (text ++ rest) ∧
      Cut (scan state requested ahead).calls gap text ∧ GapAllowed token gap := by
  obtain ⟨answer, course, ht, hc, -⟩ := exists_course state requested ahead
  rw [ht] at h
  rw [hc]
  cases course with
  | piece =>
    obtain ⟨text, rest, ha, hp⟩ := Literal.exists_append_of_token? h
    refine ⟨[], text, rest, ha, ?_, .inl rfl⟩
    simpa only [scanPiece, hp] using Cut.piece text
  | broken => cases h
  | due => exact ⟨[], [], ahead, rfl, .layout _, .inl rfl⟩
  | idle => cases h
  | refused => cases h
  | @opened trivia rest _ literal _ split measure _ no_comment opener _ =>
    obtain ⟨hi, hs⟩ := Layout.calls_eq_of_comment? measure no_comment
    obtain ⟨c, later, rfl, -⟩ := Literal.exists_cons_of_ofOpener? opener
    have hw := Trivia.flatMap_text_append_split ahead
    rw [split] at hw
    refine ⟨trivia.flatMap Trivia.text, [c], later, hw.symm, ?_, .inr ⟨?_, trivia, hi, rfl⟩⟩
    · simp only [hs]
      exact .opener _ [c]
    · cases h
      cases literal with
      | string delimiter => exact .inl rfl
      | regex => exact .inr rfl

end Offside
