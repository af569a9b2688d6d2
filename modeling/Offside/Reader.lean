import Offside.Cursor
import Offside.Span

/-!
# Readers

A reader is the view of a source that a token is cut from: `advance` takes a character into the
token, `skip` takes it as trivia, and `mark` fixes where the token ends. Without a mark a token ends
where reading stopped.
-/

namespace Offside

set_option autoImplicit false

/-- One step of reading. -/
inductive Call where
  | advance
  | skip
  | mark
  deriving DecidableEq, Repr

namespace Call

def letter : Call → Char
  | advance => 'A'
  | skip => 'S'
  | mark => 'M'

/-- Equal neighbours, each with the number of times it stands in a row. -/
def runs : List Call → List (Call × Nat)
  | [] => []
  | call :: rest =>
    match runs rest with
    | [] => [(call, 1)]
    | (next, count) :: later =>
      if call = next then (call, count + 1) :: later else (call, 1) :: (next, count) :: later

theorem flatMap_replicate_runs (calls : List Call) :
    ((runs calls).flatMap fun run => List.replicate run.2 run.1) = calls := by
  induction calls with
  | nil => rfl
  | cons call rest ih =>
    simp only [runs]
    cases h : runs rest with
    | nil => simpa [h] using ih
    | cons run later =>
      rw [h, List.flatMap_cons] at ih
      by_cases he : call = run.1
      · simp only [he, if_true, List.flatMap_cons, List.replicate_succ, List.cons_append]
        rw [ih]
      · simp only [he, if_false, List.flatMap_cons]
        rw [ih]
        rfl

def runText : Call × Nat → String
  | (call, 1) => call.letter.toString
  | (call, count) => call.letter.toString ++ toString count

/-- The runs of equal calls, with a blank between them. -/
def summary (calls : List Call) : String := " ".intercalate ((runs calls).map runText)

end Call

/-- A cursor with the start and the marked end of the token being read. -/
structure Reader where
  cursor : Cursor
  tokenStart : Nat
  marked? : Option Nat := none
  deriving DecidableEq

namespace Reader

def source (reader : Reader) : Source := reader.cursor.source

def offset (reader : Reader) : Nat := reader.cursor.offset

def atEnd (reader : Reader) : Bool := reader.cursor.atEnd

/-- The next character, NUL at the end. -/
def lookahead (reader : Reader) : Char := reader.cursor.current

def ahead (reader : Reader) : List Char := reader.cursor.ahead

/-- Starts a token at `offset`, or at the content when that lies inside a byte order mark. -/
def begin (reader : Reader) (offset : Nat) : Reader :=
  let cursor := reader.cursor.seek (max offset reader.source.contentStart)
  { cursor, tokenStart := cursor.offset }

def ofSource (source : Source) : Reader :=
  begin { cursor := source.cursor, tokenStart := 0 } 0

def advance (reader : Reader) : Reader := { reader with cursor := reader.cursor.advance }

def skip (reader : Reader) : Reader :=
  let cursor := reader.cursor.advance
  { reader with cursor, tokenStart := cursor.offset }

def mark (reader : Reader) : Reader := { reader with marked? := some reader.offset }

def perform (reader : Reader) : Call → Reader
  | .advance => reader.advance
  | .skip => reader.skip
  | .mark => reader.mark

def run (reader : Reader) (calls : List Call) : Reader := calls.foldl perform reader

def advanceBy (reader : Reader) (count : Nat) : Reader :=
  reader.run (List.replicate count .advance)

/-- The place of the token, were it cut now. -/
def span (reader : Reader) : Span :=
  let stop := reader.marked?.getD reader.offset
  ⟨min reader.tokenStart stop, stop⟩

def slice (reader : Reader) (start stop : Nat) : String := reader.source.slice start stop

def text (reader : Reader) : String := reader.slice reader.span.start reader.span.stop

/-- Where a token begins, and what it reads, does not depend on what was read before. -/
theorem begin_congr {left right : Reader} (h : left.source = right.source) (offset : Nat) :
    left.begin offset = right.begin offset := by
  simp only [source] at h
  simp [begin, source, Cursor.seek, h]

@[simp] theorem source_perform (reader : Reader) (call : Call) :
    (reader.perform call).source = reader.source := by
  cases call <;> simp [perform, advance, skip, mark, source]

@[simp] theorem source_run (reader : Reader) (calls : List Call) :
    (reader.run calls).source = reader.source := by
  induction calls generalizing reader with
  | nil => rfl
  | cons call rest ih => simpa [run] using ih (reader.perform call)

@[simp] theorem run_nil (reader : Reader) : reader.run [] = reader := rfl

@[simp] theorem run_cons (reader : Reader) (call : Call) (rest : List Call) :
    reader.run (call :: rest) = (reader.perform call).run rest := rfl

theorem run_append (reader : Reader) (first second : List Call) :
    reader.run (first ++ second) = (reader.run first).run second := by
  simp [run]

end Reader

end Offside
