import Offside.Scan

/-!
# The courses of a scan

A scan comes to its answer in one of six ways. Everything that holds of a single scan is read off
these six, so that no later proof opens the scan itself.
-/

namespace Offside

set_option autoImplicit false

namespace Layout

/-- The calls that read the layout: the end of a token comes before all trivia. -/
def calls (trivia : List Trivia) (rest : List Char) : List Call :=
  .mark :: List.replicate (skips trivia rest) .skip

end Layout

/-- How a scan comes to its answer, the report of a token left out. -/
inductive Course (state : State) (requested : TokenSet) (ahead : List Char) : Answer → Prop where
  | piece {literal : Literal}
      (mode : Mode.select state requested = .inside literal)
      (text : (literal.piece ahead).isExhausted = false) :
      Course state requested ahead (scanPiece state literal (literal.piece ahead))
  | broken {trivia : List Trivia} {rest : List Char}
      (split : Trivia.split ahead = (trivia, rest))
      (measure : Layout.measure? trivia rest = none) :
      Course state requested ahead
        { calls := Layout.calls trivia rest, state, events := [.brokenContinuation] }
  | due {trivia : List Trivia} {rest : List Char} {layout : Layout} {token : Token}
      (split : Trivia.split ahead = (trivia, rest))
      (measure : Layout.measure? trivia rest = some layout)
      (token_due : layout.token? requested state.baseline = some token) :
      Course state requested ahead
        { token? := some token, calls := Layout.calls trivia rest
          state := layout.settle state token, events := [.measured layout state.baseline] }
  | idle {trivia : List Trivia} {rest : List Char} {layout : Layout}
      (split : Trivia.split ahead = (trivia, rest))
      (measure : Layout.measure? trivia rest = some layout)
      (none_due : layout.token? requested state.baseline = none)
      (no_opener : layout.comment?.isSome ∨
        Literal.ofOpener? requested (rest.headD '\x00') = none) :
      Course state requested ahead
        { calls := Layout.calls trivia rest, state, events := [.measured layout state.baseline] }
  | refused {trivia : List Trivia} {rest : List Char} {layout : Layout} {literal : Literal}
      (split : Trivia.split ahead = (trivia, rest))
      (measure : Layout.measure? trivia rest = some layout)
      (none_due : layout.token? requested state.baseline = none)
      (no_comment : layout.comment? = none)
      (opener : Literal.ofOpener? requested (rest.headD '\x00') = some literal)
      (no_room : state.open? literal = none) :
      Course state requested ahead
        { calls := Layout.calls trivia rest, state
          events := [.measured layout state.baseline, .nestingLimit state.depth] }
  | opened {trivia : List Trivia} {rest : List Char} {layout : Layout} {literal : Literal}
      {inner : State}
      (split : Trivia.split ahead = (trivia, rest))
      (measure : Layout.measure? trivia rest = some layout)
      (none_due : layout.token? requested state.baseline = none)
      (no_comment : layout.comment? = none)
      (opener : Literal.ofOpener? requested (rest.headD '\x00') = some literal)
      (room : state.open? literal = some inner) :
      Course state requested ahead
        { token? := some literal.startToken
          calls := Layout.calls trivia rest ++ [.advance, .mark]
          state := inner, events := [.measured layout state.baseline] }

theorem openLiteral_begins (answer : Answer) (requested : TokenSet) (c : Char) :
    ∃ more later, (more = [] ∨ more = [.advance, .mark]) ∧
      (openLiteral answer requested c).calls = answer.calls ++ more ∧
      (openLiteral answer requested c).events = answer.events ++ later := by
  unfold openLiteral
  cases Literal.ofOpener? requested c with
  | none => exact ⟨[], [], .inl rfl, (List.append_nil _).symm, (List.append_nil _).symm⟩
  | some literal =>
    cases hr : answer.state.open? literal with
    | none =>
      simp only [hr]
      exact ⟨[], _, .inl rfl, (List.append_nil _).symm, rfl⟩
    | some opened =>
      simp only [hr]
      exact ⟨_, [], .inr rfl, rfl, (List.append_nil _).symm⟩

/-- Whatever comes of it, reading the layout begins with the calls that measure it and with a report
of what was measured. Only an opener is read behind them. -/
theorem scanLayout_begins (state : State) (requested : TokenSet) (ahead : List Char) :
    let parts := Trivia.split ahead
    ∃ more, (more = [] ∨ more = [.advance, .mark]) ∧
      (scanLayout state requested ahead).calls = Layout.calls parts.1 parts.2 ++ more ∧
      (scanLayout state requested ahead).events.head? = some
        ((Layout.measure ahead).layout?.elim .brokenContinuation (.measured · state.baseline)) := by
  intro parts
  simp only [scanLayout]
  cases (Layout.measure ahead).layout? with
  | none => exact ⟨[], .inl rfl, (List.append_nil _).symm, rfl⟩
  | some layout =>
    cases ht : layout.token? requested state.baseline with
    | some token =>
      simp only [ht]
      exact ⟨[], .inl rfl, (List.append_nil _).symm, rfl⟩
    | none =>
      simp only [ht]
      split
      · exact ⟨[], .inl rfl, (List.append_nil _).symm, rfl⟩
      · obtain ⟨more, later, hmore, hcalls, hevents⟩ := openLiteral_begins
          { calls := Layout.calls parts.1 parts.2, state
            events := [.measured layout state.baseline] }
          requested (parts.2.headD '\x00')
        refine ⟨more, hmore, hcalls, ?_⟩
        exact congrArg List.head? hevents

theorem scanLayout_course (state : State) (requested : TokenSet) (ahead : List Char) :
    Course state requested ahead (scanLayout state requested ahead) := by
  obtain ⟨trivia, rest, hs⟩ : ∃ trivia rest, Trivia.split ahead = (trivia, rest) := ⟨_, _, rfl⟩
  simp only [scanLayout, Layout.measure_of_split hs]
  cases hm : Layout.measure? trivia rest with
  | none => exact .broken hs hm
  | some layout =>
    cases ht : layout.token? requested state.baseline with
    | some token => simpa only [ht] using .due hs hm ht
    | none =>
      cases hc : layout.comment? with
      | some column =>
        simp only [ht, hc, Option.isSome_some, if_true]
        exact .idle hs hm ht (.inl (by simp [hc]))
      | none =>
        simp only [ht, hc, Option.isSome_none, Bool.false_eq_true, if_false, openLiteral]
        cases ho : Literal.ofOpener? requested (rest.headD '\x00') with
        | none => exact .idle hs hm ht (.inr ho)
        | some literal =>
          cases hr : state.open? literal with
          | none => simpa only [hr] using .refused hs hm ht hc ho hr
          | some inner => simpa only [hr] using .opened hs hm ht hc ho hr

theorem scanIn_course (state : State) (requested : TokenSet) (ahead : List Char) :
    Course state requested ahead
      (scanIn (Mode.select state requested) state requested ahead) := by
  cases hm : Mode.select state requested with
  | layout => exact scanLayout_course state requested ahead
  | inside literal =>
    simp only [scanIn]
    split
    · exact scanLayout_course state requested ahead
    · rename_i ht
      exact .piece hm (by simpa using ht)

namespace Answer

variable (answer : Answer) (mode : Mode)

@[simp] theorem token?_commit : (answer.commit mode).token? = answer.token? := by
  unfold commit
  split <;> rfl

@[simp] theorem calls_commit : (answer.commit mode).calls = answer.calls := by
  unfold commit
  split <;> rfl

@[simp] theorem state_commit : (answer.commit mode).state = answer.state := by
  unfold commit
  split <;> rfl

end Answer

theorem exists_course (state : State) (requested : TokenSet) (ahead : List Char) :
    ∃ answer, Course state requested ahead answer ∧
      (scan state requested ahead).token? = answer.token? ∧
      (scan state requested ahead).calls = answer.calls ∧
      (scan state requested ahead).state = answer.state := by
  refine ⟨_, scanIn_course state requested ahead, ?_, ?_, ?_⟩
  · exact Answer.token?_commit _ _
  · exact Answer.calls_commit _ _
  · exact Answer.state_commit _ _

section Mode

variable {state : State} {requested : TokenSet} {literal : Literal} {ahead : List Char}

theorem scan_of_layout (hm : Mode.select state requested = .layout) :
    scan state requested ahead = (scanLayout state requested ahead).commit .layout := by
  rw [scan, hm]
  rfl

theorem scan_of_isExhausted (hm : Mode.select state requested = .inside literal)
    (hx : (literal.piece ahead).isExhausted = true) :
    scan state requested ahead = (scanLayout state requested ahead).commit (.inside literal) := by
  simp only [scan, hm, scanIn, hx, if_true]

theorem scan_eq_scanPiece (hm : Mode.select state requested = .inside literal)
    (hx : (literal.piece ahead).isExhausted = false) :
    scan state requested ahead =
      (scanPiece state literal (literal.piece ahead)).commit (.inside literal) := by
  simp only [scan, hm, scanIn, hx, Bool.false_eq_true, if_false]

theorem scan_of_not_isExhausted (hm : Mode.select state requested = .inside literal)
    (hx : (literal.piece ahead).isExhausted = false) :
    (scan state requested ahead).token? = (literal.piece ahead).token? literal ∧
      (scan state requested ahead).calls = (literal.piece ahead).calls := by
  rw [scan_eq_scanPiece hm hx, Answer.token?_commit, Answer.calls_commit]
  exact ⟨rfl, rfl⟩

end Mode

end Offside
