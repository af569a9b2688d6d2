import Offside.Trivia

/-!
# What a text splits into

Trivia in front of a text can be told by its form alone, and at most one piece fits what follows. So
taking one after the other from the front gives the longest sequence there is.
-/

namespace Offside

set_option autoImplicit false

namespace Trivia

/-- The trivia is well formed where `rest` stands behind it. The body of a comment holds nothing
that ends it, and a comment without an end of its own has nothing behind it. -/
def Fits (item : Trivia) (rest : List Char) : Prop :=
  match item with
  | blank _ | continuation _ => True
  | comment body ending =>
    (∀ c ∈ body, isCommentChar c = true) ∧ (ending = .endOfInput → rest = [])

variable {item : Trivia} {ahead rest later : List Char} {items others : List Trivia}

theorem length_text_le_skips (item : Trivia) : item.text.length ≤ item.skips := by
  cases item with
  | blank kind => exact Nat.le_refl _
  | comment body ending => cases ending <;> simp [text, skips, CommentEnd.text]
  | continuation carriageReturn => cases carriageReturn <;> exact Nat.le_refl _

/-- Only a comment that runs into the end takes a skip that reads nothing. -/
theorem skips_eq_length_text (h : ∀ body, item ≠ comment body .endOfInput) :
    item.skips = item.text.length := by
  cases item with
  | blank kind => rfl
  | comment body ending =>
    cases ending with
    | endOfInput => exact absurd rfl (h body)
    | lineBreak => simp [text, skips, CommentEnd.text]
    | nul => simp [text, skips, CommentEnd.text]
  | continuation carriageReturn => cases carriageReturn <;> rfl

theorem Fits.skips_eq (h : item.Fits rest) (hr : rest ≠ []) : item.skips = item.text.length := by
  apply skips_eq_length_text
  rintro body rfl
  exact hr (h.2 rfl)

def AllClosed (items : List Trivia) : Prop := ∀ body, comment body .endOfInput ∉ items

theorem AllClosed.of_cons (h : AllClosed (item :: items)) :
    (∀ body, item ≠ comment body .endOfInput) ∧ AllClosed items := by
  constructor
  · rintro body rfl
    exact h body List.mem_cons_self
  · intro body hb
    exact h body (List.mem_cons_of_mem item hb)

theorem readComment_append {body : List Char} {ending : CommentEnd}
    (h : (comment body ending).Fits rest) :
    readComment (body ++ (ending.text ++ rest)) = (comment body ending, rest) := by
  obtain ⟨hb, he⟩ := h
  have ht : (body ++ (ending.text ++ rest)).takeWhile isCommentChar =
      body ++ (ending.text ++ rest).takeWhile isCommentChar := List.takeWhile_append_of_pos hb
  have hd : (body ++ (ending.text ++ rest)).dropWhile isCommentChar =
      (ending.text ++ rest).dropWhile isCommentChar := List.dropWhile_append_of_pos hb
  unfold readComment
  rw [ht, hd]
  cases ending with
  | lineBreak => simp [CommentEnd.text, isCommentChar]
  | nul => simp [CommentEnd.text, isCommentChar]
  | endOfInput =>
    obtain rfl := he rfl
    simp [CommentEnd.text]

theorem fits_of_readComment (h : readComment ahead = (item, rest)) : item.Fits rest := by
  have hb : ∀ c ∈ ahead.takeWhile isCommentChar, isCommentChar c = true :=
    List.all_eq_true.mp List.all_takeWhile
  unfold readComment at h
  split at h
  · cases h
    exact ⟨hb, fun _ => rfl⟩
  · cases h
    refine ⟨hb, ?_⟩
    intro he
    split at he <;> cases he

theorem next?_text_append (h : item.Fits rest) : next? (item.text ++ rest) = some (item, rest) := by
  cases item with
  | blank kind => simp [text, next?]
  | comment body ending =>
    have hc : Blank.ofChar? '#' = none := by decide
    simp [text, next?, hc, readComment_append h]
  | continuation carriageReturn =>
    have hc : Blank.ofChar? '\\' = none := by decide
    cases carriageReturn <;> simp [text, next?, hc]

theorem next?_cons_eq_none_iff {c : Char} (hc : c ≠ '\\') (rest : List Char) :
    next? (c :: rest) = none ↔ Blank.ofChar? c = none ∧ c ≠ '#' := by
  simp only [next?, hc, if_false]
  cases Blank.ofChar? c with
  | some kind => simp
  | none => simp

theorem next?_backslash_eq_none_iff (rest : List Char) :
    next? ('\\' :: rest) = none ↔ rest.head? ≠ some '\n' ∧ rest.take 2 ≠ ['\r', '\n'] := by
  have hk : Blank.ofChar? '\\' = none := by decide
  have hc : '\\' ≠ '#' := by decide
  simp only [next?, hk, hc, if_false, if_true]
  split
  · simp
  · simp
  · rename_i hr hn
    simp only [true_iff]
    constructor
    · intro hh
      obtain ⟨later, rfl⟩ := List.head?_eq_some_iff.mp hh
      exact hn later rfl
    · intro ht
      rcases rest with _ | ⟨first, _ | ⟨second, later⟩⟩
      · cases ht
      · cases ht
      · simp only [List.take_succ_cons, List.take_zero, List.cons.injEq, and_true] at ht
        obtain ⟨rfl, rfl⟩ := ht
        exact hr later rfl

theorem fits_of_next? (h : next? ahead = some (item, rest)) : item.Fits rest := by
  cases ahead with
  | nil => cases h
  | cons c later =>
    simp only [next?] at h
    split at h
    · cases h
      trivial
    · split at h
      · exact fits_of_readComment (Option.some.inj h)
      · split at h
        · split at h <;> cases h <;> trivial
        · cases h

theorem next?_eq_some_iff : next? ahead = some (item, rest) ↔
    item.text ++ rest = ahead ∧ item.Fits rest := by
  constructor
  · intro h
    exact ⟨text_append_of_next? h, fits_of_next? h⟩
  · rintro ⟨rfl, h⟩
    exact next?_text_append h

/-- `ahead` begins with the trivia, each fit for what follows it, and goes on with `rest`. -/
inductive Begins : List Char → List Trivia → List Char → Prop
  | nil (rest : List Char) : Begins rest [] rest
  | cons {item : Trivia} {ahead rest : List Char} {items : List Trivia} (fits : item.Fits ahead)
      (later : Begins ahead items rest) : Begins (item.text ++ ahead) (item :: items) rest

/-- No other sequence of trivia in front of `ahead` is longer. -/
def Longest (ahead : List Char) (items : List Trivia) (rest : List Char) : Prop :=
  Begins ahead items rest ∧
    ∀ others later, Begins ahead others later → others.length ≤ items.length

theorem begins_split (ahead : List Char) : Begins ahead (split ahead).1 (split ahead).2 := by
  fun_induction split ahead with
  | case1 ahead => exact .nil ahead
  | case2 ahead item rest h _ later ih =>
    obtain ⟨rfl, hf⟩ := next?_eq_some_iff.mp h
    exact .cons hf ih

theorem Begins.split_eq (h : Begins ahead items rest) :
    split ahead = (items ++ (split rest).1, (split rest).2) := by
  induction h with
  | nil rest => rfl
  | cons fits later ih => rw [split_of_next?_eq_some (next?_text_append fits), ih]; rfl

theorem longest_iff : Longest ahead items rest ↔ split ahead = (items, rest) := by
  constructor
  · rintro ⟨hl, hmax⟩
    have hs := hl.split_eq
    have hlength := hmax _ _ (begins_split ahead)
    rw [hs, List.length_append] at hlength
    have hn : (split rest).1 = [] := List.eq_nil_of_length_eq_zero (by omega)
    have hr := flatMap_text_append_split rest
    rw [hn, List.flatMap_nil, List.nil_append] at hr
    rw [hs, hn, hr, List.append_nil]
  · intro hs
    have hl := begins_split ahead
    rw [hs] at hl
    refine ⟨hl, ?_⟩
    intro others later ho
    have hother := ho.split_eq
    rw [hs] at hother
    rw [(Prod.mk.inj hother).1, List.length_append]
    exact Nat.le_add_right _ _

end Trivia

end Offside
