import Offside.Literal
import Offside.State
import Offside.TokenSet

/-!
# Modes

A scan reads either the inside of a literal or the layout. The innermost string comes first, then a
regex, then the layout. During error recovery everything is requested, so no literal is read.
-/

namespace Offside

set_option autoImplicit false

inductive Mode where
  | inside (literal : Literal)
  | layout
  deriving DecidableEq

namespace Mode

def select (state : State) (requested : TokenSet) : Mode :=
  if requested.isErrorRecovery then layout
  else
    match (if requested.allows .stringContent then state.top? else none) with
    | some delimiter => inside (.string delimiter)
    | none => if requested.allows .regexContent then inside .regex else layout

def text : Mode → String
  | inside (.string delimiter) => "StringContent(" ++ delimiter.text ++ ")"
  | inside .regex => "RegexContent"
  | layout => "Layout"

theorem select_eq_string_iff {state : State} {requested : TokenSet} {delimiter : Delimiter} :
    select state requested = inside (.string delimiter) ↔
      requested.isErrorRecovery = false ∧ requested.allows .stringContent ∧
        state.top? = some delimiter := by
  unfold select
  split
  · simp_all
  · by_cases hs : requested.allows .stringContent
    · cases ht : state.top? with
      | none => simp_all; split <;> simp
      | some top => simp_all
    · simp_all; split <;> simp

theorem select_eq_regex_iff {state : State} {requested : TokenSet} :
    select state requested = inside .regex ↔
      requested.isErrorRecovery = false ∧ requested.allows .regexContent ∧
        (requested.allows .stringContent → state.top? = none) := by
  unfold select
  split
  · simp_all
  · by_cases hs : requested.allows .stringContent
    · cases ht : state.top? with
      | none => simp_all
      | some top => simp_all
    · simp_all

end Mode

end Offside
