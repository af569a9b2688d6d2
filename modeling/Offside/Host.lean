import Offside.Scan

/-!
# Hosts

A host drives scans over one source, and moves on only when there is a token. What no scan finds it
reads by itself, and snapshots let it come back to an earlier place with the state of that place.
-/

namespace Offside

set_option autoImplicit false

structure Bookmark where
  position : Nat
  snapshot : List UInt8
  deriving DecidableEq

structure Host where
  reader : Reader
  position : Nat
  state : State := {}
  bookmarks : List Bookmark := []
  deriving DecidableEq

namespace Host

def start (source : Source) (state : State) : Host :=
  let reader := Reader.ofSource source
  { reader, position := reader.offset, state }

/-- Scans from where the reader stands, and stays at its position. -/
def rescan (host : Host) (requested : TokenSet) : Answer × Host :=
  let scanned := host.reader.scan host.state requested
  (scanned.answer, { host with reader := scanned.reader, state := scanned.answer.state })

/-- Scans at the position, and moves behind the token that is found. -/
def scan (host : Host) (requested : TokenSet) : Answer × Host :=
  let (answer, scanned) := { host with reader := host.reader.begin host.position }.rescan requested
  match answer.token? with
  | none => (answer, scanned)
  | some _ => (answer, { scanned with position := scanned.reader.span.stop })

/-- Moves behind what a reader has read from the position. -/
def readBy (host : Host) (read : Reader → Reader) : Host :=
  let reader := read (host.reader.begin host.position)
  { host with reader, position := reader.offset }

def take (host : Host) (count : Nat) : Host := host.readBy (Reader.advanceBy · count)

/-- The blanks that a host reads by itself; a form feed is not among them. -/
def isBlank (c : Char) : Bool := c == ' ' || c == '\t' || c == '\r' || c == '\n'

def skipBlanks (host : Host) : Host :=
  host.readBy fun reader => reader.advanceBy (reader.ahead.takeWhile isBlank).length

def seek (host : Host) (offset : Nat) : Host :=
  let reader := host.reader.begin offset
  { host with reader, position := reader.offset }

def restore (host : Host) (snapshot : List UInt8) : Host :=
  { host with state := host.state.restore snapshot }

def save (host : Host) : Host :=
  let bookmark : Bookmark := ⟨host.position, host.state.snapshot⟩
  { host with bookmarks := host.bookmarks ++ [bookmark] }

/-- Comes back to a bookmark. The reader moves with the next scan. -/
def load (host : Host) (bookmark : Bookmark) : Host :=
  { host.restore bookmark.snapshot with position := bookmark.position }

end Host

end Offside
