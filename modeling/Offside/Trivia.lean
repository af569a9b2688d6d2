import Offside.Reader

/-!
# Trivia

Between tokens stand blanks, comments and continuations. A comment runs up to and including its line
break or a NUL, and a continuation is a backslash right before a line break. Splitting a text takes
trivia from the front for as long as there is one.
-/

namespace Offside

set_option autoImplicit false

/-- A single character between tokens. -/
inductive Blank where
  | space
  | tab
  | lineFeed
  | carriageReturn
  | formFeed
  deriving DecidableEq, Repr

namespace Blank

def char : Blank → Char
  | space => ' '
  | tab => '\t'
  | lineFeed => '\n'
  | carriageReturn => '\r'
  | formFeed => '\x0c'

def ofChar? (c : Char) : Option Blank :=
  [space, tab, lineFeed, carriageReturn, formFeed].find? fun blank => blank.char == c

@[simp] theorem ofChar?_char (blank : Blank) : ofChar? blank.char = some blank := by
  cases blank <;> decide

theorem ofChar?_eq_some_iff {c : Char} {blank : Blank} :
    ofChar? c = some blank ↔ blank.char = c := by
  constructor
  · intro h
    simpa using List.find?_some h
  · rintro rfl
    exact ofChar?_char blank

end Blank

/-- What a comment runs up to. -/
inductive CommentEnd where
  | lineBreak
  | nul
  | endOfInput
  deriving DecidableEq, Repr

def CommentEnd.text : CommentEnd → List Char
  | lineBreak => ['\n']
  | nul => ['\x00']
  | endOfInput => []

inductive Trivia where
  | blank (kind : Blank)
  | comment (body : List Char) (ending : CommentEnd)
  | continuation (carriageReturn : Bool)
  deriving DecidableEq, Repr

namespace Trivia

def text : Trivia → List Char
  | blank kind => [kind.char]
  | comment body ending => '#' :: (body ++ ending.text)
  | continuation carriageReturn =>
    if carriageReturn then ['\\', '\r', '\n'] else ['\\', '\n']

/-- The skips that read it. A comment takes one for its end even where the input is over. -/
def skips : Trivia → Nat
  | blank _ => 1
  | comment body _ => body.length + 2
  | continuation carriageReturn => if carriageReturn then 3 else 2

def isCommentChar (c : Char) : Bool := c != '\n' && c != '\x00'

/-- The comment that goes on with `ahead` behind its `#`, with what follows it. -/
def readComment (ahead : List Char) : Trivia × List Char :=
  let body := ahead.takeWhile isCommentChar
  match ahead.dropWhile isCommentChar with
  | [] => (comment body .endOfInput, [])
  | c :: rest => (comment body (if c = '\n' then .lineBreak else .nul), rest)

def next? : List Char → Option (Trivia × List Char)
  | [] => none
  | c :: rest =>
    match Blank.ofChar? c with
    | some kind => some (blank kind, rest)
    | none =>
      if c = '#' then some (readComment rest)
      else if c = '\\' then
        match rest with
        | '\r' :: '\n' :: rest => some (continuation true, rest)
        | '\n' :: rest => some (continuation false, rest)
        | _ => none
      else none

theorem text_append_of_readComment {ahead rest : List Char} {item : Trivia}
    (h : readComment ahead = (item, rest)) : item.text ++ rest = '#' :: ahead := by
  have hs := List.takeWhile_append_dropWhile (p := isCommentChar) (l := ahead)
  unfold readComment at h
  split at h
  · rename_i hd
    cases h
    rw [hd] at hs
    simpa [text, CommentEnd.text] using hs
  · rename_i c later hd
    have hc : isCommentChar c = false := by
      have := List.head?_dropWhile_not isCommentChar ahead
      simpa [hd] using this
    cases h
    rw [hd] at hs
    by_cases hl : c = '\n'
    · simpa [text, CommentEnd.text, hl] using hs
    · have hn : c = '\x00' := by simpa [isCommentChar, hl] using hc
      simpa [text, CommentEnd.text, hl, hn] using hs

theorem text_append_of_next? {ahead rest : List Char} {item : Trivia}
    (h : next? ahead = some (item, rest)) : item.text ++ rest = ahead := by
  cases ahead with
  | nil => simp [next?] at h
  | cons c later =>
    simp only [next?] at h
    split at h
    · rename_i kind hk
      cases h
      simpa [text] using Blank.ofChar?_eq_some_iff.mp hk
    · split at h
      · rename_i hc
        rw [text_append_of_readComment (Option.some.inj h), hc]
      · split at h
        · rename_i hc
          split at h
          · cases h
            simp [text, hc]
          · cases h
            simp [text, hc]
          · cases h
        · cases h

theorem text_ne_nil (item : Trivia) : item.text ≠ [] := by
  cases item with
  | blank kind => simp [text]
  | comment body ending => simp [text]
  | continuation carriageReturn => cases carriageReturn <;> simp [text]

theorem length_lt_of_next? {ahead rest : List Char} {item : Trivia}
    (h : next? ahead = some (item, rest)) : rest.length < ahead.length := by
  rw [← text_append_of_next? h, List.length_append]
  have := List.length_pos_iff.mpr item.text_ne_nil
  omega

/-- The trivia in front of `ahead`, for as long as there is one, with what follows. -/
def split (ahead : List Char) : List Trivia × List Char :=
  match h : next? ahead with
  | none => ([], ahead)
  | some (item, rest) =>
    have := length_lt_of_next? h
    let later := split rest
    (item :: later.1, later.2)
termination_by ahead.length

theorem split_of_next?_eq_none {ahead : List Char} (h : next? ahead = none) :
    split ahead = ([], ahead) := by
  rw [split]
  split
  · rfl
  · rename_i hs
    simp [h] at hs

theorem split_of_next?_eq_some {ahead rest : List Char} {item : Trivia}
    (h : next? ahead = some (item, rest)) :
    split ahead = (item :: (split rest).1, (split rest).2) := by
  rw [split]
  split
  · rename_i hs
    simp [h] at hs
  · rename_i hs
    rw [h] at hs
    cases hs
    rfl

theorem flatMap_text_append_split (ahead : List Char) :
    (split ahead).1.flatMap text ++ (split ahead).2 = ahead := by
  fun_induction split ahead with
  | case1 => rfl
  | case2 ahead item rest h _ later ih =>
    rw [List.flatMap_cons, List.append_assoc, ih]
    exact text_append_of_next? h

theorem next?_split (ahead : List Char) : next? (split ahead).2 = none := by
  fun_induction split ahead with
  | case1 _ h => exact h
  | case2 _ _ _ _ _ _ ih => exact ih

end Trivia

end Offside
