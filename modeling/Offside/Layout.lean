import Offside.State
import Offside.TokenSet
import Offside.Trivia

/-!
# Layout

The trivia in front of a token tells whether a line has ended and how far the new one is indented,
and from that follows whether a NEWLINE, an INDENT or a DEDENT is due. The parser keeps a state for
every place, so one baseline is enough.
-/

namespace Offside

set_option autoImplicit false

/-- What the trivia in front of a token says about the line that the token is on. -/
structure Layout where
  /-- The columns in front of the token. -/
  indent : Nat := 0
  endOfLine : Bool := false
  /-- The column of the first comment. -/
  comment? : Option Nat := none
  deriving DecidableEq, Repr

namespace Layout

/-- A tab takes as many columns wherever it starts. -/
def tabWidth : Nat := 8

/-- Columns are counted up to the largest 32-bit word. -/
def maxIndent : Nat := 0xFFFFFFFF

def addColumns (layout : Layout) (columns : Nat) : Layout :=
  { layout with indent := min (layout.indent + columns) maxIndent }

/-- The layout behind one more piece of trivia. The line break of a comment belongs to the comment
and ends no line, and a continuation changes nothing. -/
def add (layout : Layout) : Trivia → Layout
  | .blank .space => layout.addColumns 1
  | .blank .tab => layout.addColumns tabWidth
  | .blank .lineFeed => { layout with indent := 0, endOfLine := true }
  | .blank .carriageReturn | .blank .formFeed => { layout with indent := 0 }
  | .comment _ _ =>
    { layout with indent := 0, comment? := some (layout.comment?.getD layout.indent) }
  | .continuation _ => layout

def ofTrivia (trivia : List Trivia) : Layout := trivia.foldl add {}

/-- The end of the input ends a line and is not indented. -/
def atEndOfInput (layout : Layout) : Layout := { layout with indent := 0, endOfLine := true }

/-- The layout at the first character of `rest`, behind `trivia`. There is none at a backslash,
which continues no line there. -/
def measure? (trivia : List Trivia) (rest : List Char) : Option Layout :=
  match rest.headD '\x00' with
  | '\\' => none
  | '\x00' => some (ofTrivia trivia).atEndOfInput
  | _ => some (ofTrivia trivia)

/-- The skips that find no line break behind the backslash at the front of `rest`. -/
def brokenSkips : List Char → Nat
  | '\\' :: '\r' :: _ => 2
  | '\\' :: _ => 1
  | _ => 0

/-- The skips that read the trivia, with the broken continuation that may follow it. -/
def skips (trivia : List Trivia) (rest : List Char) : Nat :=
  trivia.foldr (fun item count => item.skips + count) (brokenSkips rest)

/-- What measuring gives: the layout, if there is one, the skips that it takes, and the characters
behind the trivia. -/
structure Measurement where
  layout? : Option Layout
  skips : Nat
  rest : List Char

def measure (ahead : List Char) : Measurement :=
  let parts := Trivia.split ahead
  { layout? := measure? parts.1 parts.2, skips := skips parts.1 parts.2, rest := parts.2 }

def indents (layout : Layout) (requested : TokenSet) (baseline : UInt8) : Bool :=
  requested.allows .indent && baseline == 0 && decide (0 < layout.indent)

/-- A block has to end where the parser accepts neither a new line nor a closing bracket, whether
it asks for the end or not. -/
def wantsDedent (requested : TokenSet) : Bool :=
  requested.allows .dedent || (!requested.allows .newline && !requested.withinBrackets)

/-- Comments that are indented like the block still belong to it, and are read before it ends. -/
def commentsSettled (layout : Layout) (baseline : UInt8) : Bool :=
  layout.comment?.all fun column => decide (column < baseline.toNat)

def dedents (layout : Layout) (requested : TokenSet) (baseline : UInt8) : Bool :=
  wantsDedent requested && baseline != 0 && layout.indent == 0 && layout.commentsSettled baseline

/-- A parser that recovers from an error gets no NEWLINE. -/
def breaksLine (requested : TokenSet) : Bool :=
  requested.allows .newline && !requested.isErrorRecovery

def token? (layout : Layout) (requested : TokenSet) (baseline : UInt8) : Option Token :=
  if !layout.endOfLine then none
  else if layout.indents requested baseline then some .indent
  else if layout.dedents requested baseline then some .dedent
  else if breaksLine requested then some .newline
  else none

def settle (layout : Layout) (state : State) : Token → State
  | .indent => state.enterBlock layout.indent
  | .dedent => state.leaveBlock
  | _ => state

theorem measure_of_split {ahead rest : List Char} {trivia : List Trivia}
    (h : Trivia.split ahead = (trivia, rest)) :
    measure ahead = { layout? := measure? trivia rest, skips := skips trivia rest, rest } := by
  rw [measure, h]

@[simp] theorem ofTrivia_nil : ofTrivia [] = {} := rfl

theorem ofTrivia_append_singleton (trivia : List Trivia) (item : Trivia) :
    ofTrivia (trivia ++ [item]) = (ofTrivia trivia).add item := by
  simp [ofTrivia]

@[simp] theorem stack_settle (layout : Layout) (state : State) (token : Token) :
    (layout.settle state token).stack = state.stack := by
  cases token <;> rfl

theorem endOfLine_of_token? {layout : Layout} {requested : TokenSet} {baseline : UInt8}
    {token : Token} (h : layout.token? requested baseline = some token) : layout.endOfLine := by
  unfold token? at h
  split at h
  · cases h
  · simp_all

theorem token?_cases {layout : Layout} {requested : TokenSet} {baseline : UInt8} {token : Token}
    (h : layout.token? requested baseline = some token) :
    token = .indent ∧ layout.indents requested baseline ∨
      token = .dedent ∧ layout.dedents requested baseline ∨
      token = .newline ∧ breaksLine requested := by
  unfold token? at h
  split at h
  · cases h
  · split at h
    · rename_i hi
      cases h
      exact .inl ⟨rfl, hi⟩
    · split at h
      · rename_i hd
        cases h
        exact .inr (.inl ⟨rfl, hd⟩)
      · split at h
        · rename_i hb
          cases h
          exact .inr (.inr ⟨rfl, hb⟩)
        · cases h

end Layout

end Offside
