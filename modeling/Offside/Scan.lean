import Offside.Event
import Offside.Snapshot

/-!
# Scans

A scan looks for one requested token at the front of the characters ahead, and depends on nothing
but these, the state and the requested tokens. Where the token lies in its source is what the calls
make of a reader.
-/

namespace Offside

set_option autoImplicit false

/-- What a scan found. Without a token the state is the one before. -/
structure Answer where
  token? : Option Token := none
  calls : List Call
  state : State
  events : List Event := []
  deriving DecidableEq

namespace Answer

/-- Without a token there is nothing to report at the end. -/
def commit (answer : Answer) (mode : Mode) : Answer :=
  match answer.token? with
  | none => answer
  | some token =>
    let event := .committed token mode answer.state.depth answer.state.baseline
    { answer with events := answer.events ++ [event] }

end Answer

/-- The state inside of a literal that is opened here. Regexes do not nest and leave no trace. -/
def State.open? (state : State) : Literal → Option State
  | .string delimiter => state.push? delimiter
  | .regex => some state

def State.behind (state : State) (token : Token) : State :=
  if token = .stringEnd then state.pop else state

/-- What is reported of a piece that is no token although it holds text. -/
def Piece.events (literal : Literal) : Piece → List Event
  | ⟨_ + 1, .lineBreak⟩ => [.unterminated literal.contentToken .lineBreak]
  | ⟨_ + 1, .endOfInput⟩ => [.unterminated literal.contentToken .endOfInput]
  | _ => []

def scanPiece (state : State) (literal : Literal) (piece : Piece) : Answer :=
  let token? := piece.token? literal
  { token?
    calls := piece.calls
    state := token?.elim state state.behind
    events := piece.events literal }

/-- Opens the literal that starts with `c`, if any, behind a layout without a token. -/
def openLiteral (answer : Answer) (requested : TokenSet) (c : Char) : Answer :=
  match Literal.ofOpener? requested c with
  | none => answer
  | some literal =>
    match answer.state.open? literal with
    | none => { answer with events := answer.events ++ [.nestingLimit answer.state.depth] }
    | some opened =>
      { answer with
        token? := some literal.startToken
        calls := answer.calls ++ [.advance, .mark]
        state := opened }

/-- Reads the trivia in front. A token of the layout is marked before it and takes no text, and
the opener of a literal stands right behind it. A comment and an opener are never one token. -/
def scanLayout (state : State) (requested : TokenSet) (ahead : List Char) : Answer :=
  let measured := Layout.measure ahead
  let calls := .mark :: List.replicate measured.skips .skip
  match measured.layout? with
  | none => { calls, state, events := [.brokenContinuation] }
  | some layout =>
    let answer : Answer := { calls, state, events := [.measured layout state.baseline] }
    match layout.token? requested state.baseline with
    | some token => { answer with token? := some token, state := layout.settle state token }
    | none =>
      if layout.comment?.isSome then answer
      else openLiteral answer requested (measured.rest.headD '\x00')

/-- Reads in the given mode. A literal at the end of the input has no text left, and the layout is
read instead. -/
def scanIn (mode : Mode) (state : State) (requested : TokenSet) (ahead : List Char) : Answer :=
  match mode with
  | .layout => scanLayout state requested ahead
  | .inside literal =>
    let piece := literal.piece ahead
    if piece.isExhausted then scanLayout state requested ahead
    else scanPiece state literal piece

def scan (state : State) (requested : TokenSet) (ahead : List Char) : Answer :=
  let mode := Mode.select state requested
  (scanIn mode state requested ahead).commit mode

/-- What reading a snapshot back reports. An empty one restores the first state silently. -/
def State.restoreEvents (bytes : List UInt8) : List Event :=
  if bytes.isEmpty then []
  else [.restored (ofSnapshot bytes).depth (ofSnapshot bytes).baseline]

structure Scanned where
  answer : Answer
  reader : Reader
  deriving DecidableEq

/-- Measures the layout from where the reader stands, and stops behind the trivia. -/
def Reader.measure (reader : Reader) : Option Layout × Reader :=
  let measured := Layout.measure reader.ahead
  (measured.layout?, reader.run (List.replicate measured.skips .skip))

def Reader.scan (reader : Reader) (state : State) (requested : TokenSet) : Scanned :=
  let answer := Offside.scan state requested reader.ahead
  ⟨answer, reader.run answer.calls⟩

def Source.scan (source : Source) (offset : Nat) (state : State) (requested : TokenSet) :
    Scanned :=
  ((Reader.ofSource source).begin offset).scan state requested

end Offside
