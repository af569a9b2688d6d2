import Offside.Host
import Offside.Proofs.Persistence
import Offside.Proofs.Reading

/-!
# Branches do not see each other

A parser that tries several readings keeps a bookmark for each and shares one host among them. What
a branch has seen is still what its own moves give on a scanner that nobody else uses, whose state
is never written to a snapshot.
-/

namespace Offside

set_option autoImplicit false

def Event.isRestored : Event → Bool
  | restored _ _ => true
  | _ => false

/-- What a parser sees of a scan. That a state was restored is not part of it. -/
structure Sight where
  token? : Option Token
  span : Span
  text : String
  offset : Nat
  calls : List Call
  snapshot : List UInt8
  events : List Event
  deriving DecidableEq

def Sight.ofScan (answer : Answer) (reader : Reader) (events : List Event) : Sight :=
  { token? := answer.token?, span := reader.span, text := reader.text, offset := reader.offset
    calls := answer.calls, snapshot := answer.state.snapshot
    events := events.filter fun event => !event.isRestored }

inductive Move where
  | step (branch : Nat) (requested : TokenSet)
  | fork (branch : Nat)
  deriving DecidableEq

structure Branch where
  bookmark : Bookmark
  sights : List Sight := []
  deriving DecidableEq

structure Party where
  host : Host
  branches : List Branch
  deriving DecidableEq

namespace Party

/-- A branch that does not exist makes no move. -/
def play (party : Party) : Move → Party
  | .step index requested =>
    match party.branches[index]? with
    | none => party
    | some branch =>
      let (answer, next) := (party.host.load branch.bookmark).scan requested
      let events := State.restoreEvents branch.bookmark.snapshot ++ answer.events
      let moved : Branch :=
        { bookmark := ⟨next.position, next.state.snapshot⟩
          sights := branch.sights ++ [Sight.ofScan answer next.reader events] }
      { host := next, branches := party.branches.set index moved }
  | .fork index => { party with branches := party.branches ++ party.branches[index]?.toList }

def run (party : Party) (schedule : List Move) : Party := schedule.foldl play party

end Party

/-- A scanner of its own: a state and the position of the next scan. -/
structure Place where
  state : State
  position : Nat
  deriving DecidableEq

namespace Place

def ofBookmark (bookmark : Bookmark) : Place :=
  ⟨State.ofSnapshot bookmark.snapshot, bookmark.position⟩

def scan (source : Source) (place : Place) (requested : TokenSet) : Sight × Place :=
  let scanned := source.scan place.position place.state requested
  let position := match scanned.answer.token? with
    | none => place.position
    | some _ => scanned.reader.span.stop
  (Sight.ofScan scanned.answer scanned.reader scanned.answer.events,
    ⟨scanned.answer.state, position⟩)

def run (source : Source) (place : Place) : List TokenSet → List Sight × Place
  | [] => ([], place)
  | requested :: later =>
    let (sight, next) := place.scan source requested
    let (sights, last) := next.run source later
    (sight :: sights, last)

end Place

/-- The moves of a branch, with those it shares with the branch it was forked from. -/
structure History where
  origin : Bookmark
  requests : List TokenSet := []
  deriving DecidableEq

namespace History

def record (histories : List History) : Move → List History
  | .step index requested =>
    match histories[index]? with
    | none => histories
    | some history =>
      histories.set index { history with requests := history.requests ++ [requested] }
  | .fork index => histories ++ histories[index]?.toList

def ofSchedule (bookmarks : List Bookmark) (schedule : List Move) : List History :=
  schedule.foldl record (bookmarks.map fun bookmark => { origin := bookmark })

def alone (source : Source) (history : History) : List Sight × Place :=
  (Place.ofBookmark history.origin).run source history.requests

end History

namespace Place

variable {source : Source} {place : Place}

theorem run_append_singleton (requests : List TokenSet) (requested : TokenSet) :
    place.run source (requests ++ [requested]) =
      let before := place.run source requests
      let last := before.2.scan source requested
      (before.1 ++ [last.1], last.2) := by
  induction requests generalizing place with
  | nil => rfl
  | cons first later ih =>
    simp only [List.cons_append, run, ih]

end Place

namespace History

variable {source : Source}

theorem alone_append (history : History) (requested : TokenSet) :
    alone source { history with requests := history.requests ++ [requested] } =
      let last := (history.alone source).2.scan source requested
      ((history.alone source).1 ++ [last.1], last.2) :=
  Place.run_append_singleton history.requests requested

end History

theorem Host.scan_eq (host : Host) (requested : TokenSet) :
    host.scan requested =
      let scanned := host.reader.source.scan host.position host.state requested
      let position := match scanned.answer.token? with
        | none => host.position
        | some _ => scanned.reader.span.stop
      (scanned.answer, { host with
        reader := scanned.reader, state := scanned.answer.state, position }) := by
  have hs : host.reader.source = (Reader.ofSource host.reader.source).source :=
    (Reader.source_ofSource _).symm
  have hb := Reader.begin_congr hs host.position
  simp only [scan, rescan, hb, Source.scan]
  cases (((Reader.ofSource host.reader.source).begin host.position).scan host.state
    requested).answer.token? <;> rfl

theorem source_scan (source : Source) (offset : Nat) (state : State) (requested : TokenSet) :
    (source.scan offset state requested).reader.source = source := by
  simp only [Source.scan, Reader.scan, Reader.source_run, Reader.source_begin,
    Reader.source_ofSource]

theorem Sight.ofScan_restoreEvents (answer : Answer) (reader : Reader) (bytes : List UInt8) :
    Sight.ofScan answer reader (State.restoreEvents bytes ++ answer.events) =
      Sight.ofScan answer reader answer.events := by
  unfold State.restoreEvents
  split
  · rfl
  · simp [Sight.ofScan, Event.isRestored]

theorem Host.load_eq (host : Host) (bookmark : Bookmark) :
    host.load bookmark =
      { host with
        state := State.ofSnapshot bookmark.snapshot
        position := bookmark.position } := by
  rw [load, restore, State.restore_eq_ofSnapshot]

/-- One move of a branch on a shared host is one scan on a scanner of its own. That its state
passes through a snapshot makes no difference, since a scan leaves no stack too deep. -/
theorem Host.scan_load (host : Host) (bookmark : Bookmark) (requested : TokenSet) :
    let moved := (host.load bookmark).scan requested
    let alone := (Place.ofBookmark bookmark).scan host.reader.source requested
    Sight.ofScan moved.1 moved.2.reader
        (State.restoreEvents bookmark.snapshot ++ moved.1.events) = alone.1 ∧
      Place.ofBookmark ⟨moved.2.position, moved.2.state.snapshot⟩ = alone.2 ∧
      moved.2.reader.source = host.reader.source := by
  intro moved alone
  have hm : moved = (host.load bookmark).scan requested := rfl
  rw [load_eq, scan_eq] at hm
  rw [hm]
  refine ⟨Sight.ofScan_restoreEvents _ _ _, ?_, source_scan _ _ _ _⟩
  have hd := depth_scan_le (State.depth_ofSnapshot_le bookmark.snapshot) requested
  have hr := State.ofSnapshot_snapshot (hd ((Reader.ofSource host.reader.source).begin
    bookmark.position).ahead)
  exact congrArg (Place.mk · _) hr

namespace Branch

def view (branch : Branch) : List Sight × Place :=
  (branch.sights, Place.ofBookmark branch.bookmark)

end Branch

namespace Party

variable {party : Party} {histories : List History} {source : Source}

/-- Every branch is where its own moves alone would have brought it, and has seen the same. -/
structure Follows (source : Source) (party : Party) (histories : List History) : Prop where
  source_eq : party.host.reader.source = source
  views_eq : party.branches.map Branch.view = histories.map (History.alone source)

theorem Follows.getElem? (h : Follows source party histories) (index : Nat) :
    (party.branches[index]?).map Branch.view = (histories[index]?).map (History.alone source) := by
  rw [← List.getElem?_map, h.views_eq, List.getElem?_map]

/-- A move of one branch is the next move on its own scanner, and no other branch notices it. -/
theorem Follows.step (h : Follows source party histories) (index : Nat) (requested : TokenSet) :
    Follows source (party.play (.step index requested))
      (History.record histories (.step index requested)) := by
  have hi := h.getElem? index
  simp only [play, History.record]
  cases hb : party.branches[index]? with
  | none =>
    cases hh : histories[index]? with
    | none => exact h
    | some history => simp [hb, hh] at hi
  | some branch =>
    cases hh : histories[index]? with
    | none => simp [hb, hh] at hi
    | some history =>
      rw [hb, hh, Option.map_some, Option.map_some, Option.some.injEq] at hi
      obtain ⟨hs, hp, hr⟩ := Host.scan_load party.host branch.bookmark requested
      refine ⟨hr.trans h.source_eq, ?_⟩
      simp only [List.map_set, h.views_eq, History.alone_append, ← hi, Branch.view, hs, hp,
        h.source_eq]

theorem Follows.fork (h : Follows source party histories) (index : Nat) :
    Follows source (party.play (.fork index)) (History.record histories (.fork index)) := by
  refine ⟨h.source_eq, ?_⟩
  simp only [play, History.record, List.map_append, h.views_eq]
  congr 1
  have hi := h.getElem? index
  cases hb : party.branches[index]? <;> cases hh : histories[index]? <;> simp_all

theorem Follows.run (h : Follows source party histories) (schedule : List Move) :
    Follows source (party.run schedule) (schedule.foldl History.record histories) := by
  induction schedule generalizing party histories with
  | nil => exact h
  | cons move later ih =>
    cases move with
    | step index requested => exact ih (h.step index requested)
    | fork index => exact ih (h.fork index)

end Party

/-- Let branches begin at any bookmarks and share any host. Behind any schedule of moves, each
branch has seen what its own moves give on a scanner of its own, and its bookmark restores the
state and the position of that scanner. -/
theorem branches_are_isolated (host : Host) (bookmarks : List Bookmark) (schedule : List Move) :
    let party : Party := ⟨host, bookmarks.map fun bookmark => { bookmark }⟩
    let histories := History.ofSchedule bookmarks schedule
    (party.run schedule).branches.map Branch.sights =
        histories.map (fun history => (history.alone host.reader.source).1) ∧
      (party.run schedule).branches.map (fun branch => Place.ofBookmark branch.bookmark) =
        histories.map fun history => (history.alone host.reader.source).2 := by
  intro party histories
  have hstart : Party.Follows host.reader.source party
      (bookmarks.map fun bookmark => { origin := bookmark }) := by
    refine ⟨rfl, ?_⟩
    simp only [party, List.map_map]
    rfl
  have hv := (hstart.run schedule).views_eq
  constructor
  · have hs := congrArg (List.map Prod.fst) hv
    rw [List.map_map, List.map_map] at hs
    exact hs
  · have hp := congrArg (List.map Prod.snd) hv
    rw [List.map_map, List.map_map] at hp
    exact hp

end Offside
