import Offside.Layout
import Offside.Mode

/-!
# Events

An event reports what a scan found, or that a state was read back from a snapshot.
-/

namespace Offside

set_option autoImplicit false

inductive Event where
  /-- The layout in front of a token, and the baseline before any token is due. -/
  | measured (layout : Layout) (baseline : UInt8)
  /-- A backslash without a line break behind it. -/
  | brokenContinuation
  /-- A quote that would open one string too many. -/
  | nestingLimit (depth : Nat)
  /-- Text of a literal that no closing character follows on its line. -/
  | unterminated (content : Token) (ending : PieceEnd)
  /-- A token with the state behind it. -/
  | committed (token : Token) (mode : Mode) (depth : Nat) (baseline : UInt8)
  /-- A state that was read from a snapshot. -/
  | restored (depth : Nat) (baseline : UInt8)
  deriving DecidableEq

namespace Event

inductive Level where
  | trace
  | debug
  deriving DecidableEq, Repr

def Level.text : Level → String
  | trace => "TRACE"
  | debug => "DEBUG"

/-- Only what keeps a token from being found is worth more than a trace. -/
def level : Event → Level
  | brokenContinuation | nestingLimit _ | unterminated _ _ => .debug
  | measured _ _ | committed _ _ _ _ | restored _ _ => .trace

def target : Event → String
  | measured _ _ | brokenContinuation | nestingLimit _ => "talon_scanner::layout"
  | unterminated _ _ => "talon_scanner::content"
  | committed _ _ _ _ => "talon_scanner::scanner"
  | restored _ _ => "talon_scanner::state"

def message : Event → String
  | measured _ _ => "measured layout"
  | brokenContinuation => "backslash not followed by a line break"
  | nestingLimit _ => "string nesting limit reached"
  | unterminated _ .endOfInput => "unterminated literal at end of input"
  | unterminated _ _ => "unterminated literal at end of line"
  | committed _ _ _ _ => "committed token"
  | restored _ _ => "restored scanner state"

def columnText : Option Nat → String
  | none => "None"
  | some column => "Some(" ++ toString column ++ ")"

/-- The named values, in the order in which they are written. -/
def fields : Event → List (String × String)
  | measured layout baseline =>
    [("indent", toString layout.indent),
      ("end_of_line", if layout.endOfLine then "true" else "false"),
      ("comment", columnText layout.comment?),
      ("baseline", toString baseline.toNat)]
  | brokenContinuation => []
  | nestingLimit depth => [("depth", toString depth)]
  | unterminated content _ => [("kind", content.name)]
  | committed token mode depth baseline =>
    [("kind", token.name), ("mode", mode.text), ("depth", toString depth),
      ("baseline", toString baseline.toNat)]
  | restored depth baseline =>
    [("depth", toString depth), ("baseline", toString baseline.toNat)]

def text (event : Event) : String :=
  event.level.text ++ " " ++ event.target ++ ": " ++
    " ".intercalate (event.message :: event.fields.map fun field => field.1 ++ "=" ++ field.2)

end Event

end Offside
