import Offside.Host
import Offside.Proofs.Cut

/-!
# A host covers its source

Each step of a host starts where the one before has stopped. So the gaps and texts of a run, put
together in order, are the source from the start of its content to where the host has come.
-/

namespace Offside

set_option autoImplicit false

namespace Host

inductive Step where
  | scan (requested : TokenSet)
  | take (count : Nat)
  | blank
  deriving DecidableEq

/-- What a step has covered. A scan without a token covers nothing. -/
structure Entry where
  before : Nat
  after : Nat
  token? : Option Token := none
  span? : Option Span := none
  gap : String := ""
  text : String := ""
  deriving DecidableEq

def covered (host next : Host) (token? : Option Token) : Entry :=
  let span := next.reader.span
  { before := host.position, after := next.position, token?, span? := some span
    gap := next.reader.slice host.position span.start, text := next.reader.text }

def step (host : Host) : Step → Entry × Host
  | .scan requested =>
    let (answer, next) := host.scan requested
    match answer.token? with
    | none => ({ before := host.position, after := next.position }, next)
    | some token => (host.covered next (some token), next)
  | .take count => (host.covered (host.take count) none, host.take count)
  | .blank => (host.covered host.skipBlanks none, host.skipBlanks)

def run (host : Host) : List Step → List Entry × Host
  | [] => ([], host)
  | step :: later =>
    let (entry, next) := host.step step
    let (entries, last) := next.run later
    (entry :: entries, last)

theorem run_cons (host : Host) (step : Step) (later : List Step) :
    host.run (step :: later) =
      ((host.step step).1 :: ((host.step step).2.run later).1,
        ((host.step step).2.run later).2) := rfl

structure At (host : Host) (ahead : List Char) : Prop where
  before : Cursor.Before ⟨host.reader.source, host.position⟩ ahead
  content_le : host.reader.source.contentStart ≤ host.position

namespace At

variable {host : Host} {ahead front rest : List Char}

theorem begin_eq (h : host.At ahead) :
    host.reader.begin host.position = Reader.fresh ⟨host.reader.source, host.position⟩ :=
  Reader.begin_eq_fresh h.before h.content_le

theorem ahead_eq (h : host.At ahead) : (host.reader.begin host.position).ahead = ahead := by
  rw [h.begin_eq]
  exact h.before.ahead_eq

theorem scan_fst {requested : TokenSet} (h : host.At ahead) :
    (host.scan requested).1 = Offside.scan host.state requested ahead := by
  have ha : (Reader.fresh ⟨host.reader.source, host.position⟩).ahead = ahead := h.before.ahead_eq
  simp only [scan, rescan, Reader.scan, h.begin_eq, ha]
  split <;> rfl

theorem step_scan_of_none {requested : TokenSet} (h : host.At ahead)
    (ht : (Offside.scan host.state requested ahead).token? = none) :
    let answer := Offside.scan host.state requested ahead
    let reader := (Reader.fresh ⟨host.reader.source, host.position⟩).run answer.calls
    host.step (.scan requested) =
      ({ before := host.position, after := host.position },
        { host with reader, state := answer.state }) := by
  have ha : (Reader.fresh ⟨host.reader.source, host.position⟩).ahead = ahead := h.before.ahead_eq
  simp only [step, scan, rescan, Reader.scan, h.begin_eq, ha, ht]

theorem step_scan_of_some {requested : TokenSet} {token : Token} (h : host.At ahead)
    (ht : (Offside.scan host.state requested ahead).token? = some token) :
    let answer := Offside.scan host.state requested ahead
    let reader := (Reader.fresh ⟨host.reader.source, host.position⟩).run answer.calls
    let next := { host with reader, position := reader.span.stop, state := answer.state }
    host.step (.scan requested) = (host.covered next (some token), next) := by
  have ha : (Reader.fresh ⟨host.reader.source, host.position⟩).ahead = ahead := h.before.ahead_eq
  simp only [step, scan, rescan, Reader.scan, h.begin_eq, ha, ht]

theorem state_step_scan {requested : TokenSet} (h : host.At ahead) :
    (host.step (.scan requested)).2.state =
      (Offside.scan host.state requested ahead).state := by
  cases ht : (Offside.scan host.state requested ahead).token? with
  | none => rw [h.step_scan_of_none ht]
  | some token => rw [h.step_scan_of_some ht]

theorem moved {next : Host} (h : host.At (front ++ rest))
    (hs : next.reader.source = host.reader.source)
    (hp : next.position = host.position + encodedSize front) : next.At rest := by
  refine ⟨?_, ?_⟩
  · rw [hs, hp]
    exact h.before.behind
  · have := h.content_le
    rw [hs, hp]
    omega

theorem take_eq (h : host.At ahead) (count : Nat) :
    host.take count =
      let stop := host.position + encodedSize (ahead.take count)
      { host with
        reader := ⟨⟨host.reader.source, stop⟩, host.position, none⟩
        position := stop } := by
  have hc := h.before.advanceBy_eq count
  simp only [take, readBy, Reader.advanceBy, h.begin_eq, Reader.run_replicate_advance,
    Reader.offset, Reader.fresh, hc]

theorem skipBlanks_eq (h : host.At ahead) :
    host.skipBlanks = host.take (ahead.takeWhile isBlank).length := by
  simp only [skipBlanks, take, readBy, h.ahead_eq]

end At

/-- The entry says that its step has left `gap` and covered `text`. -/
structure Entry.Covers (entry : Entry) (gap text : List Char) : Prop where
  after_eq : entry.after = entry.before + encodedSize gap + encodedSize text
  gap_eq : entry.gap = String.ofList gap
  text_eq : entry.text = String.ofList text
  span_eq : ∀ span, entry.span? = some span →
    span = ⟨entry.before + encodedSize gap, entry.after⟩
  gap_allowed : gap = [] ∨ ∃ token, entry.token? = some token ∧ GapAllowed token gap

variable {host next : Host} {ahead gap text rest : List Char} {token? : Option Token}

def Entry.cut (before : Nat) (token? : Option Token) (gap text : List Char) : Entry :=
  let start := before + encodedSize gap
  let stop := start + encodedSize text
  { before, after := stop, token?, span? := some ⟨start, stop⟩
    gap := String.ofList gap, text := String.ofList text }

theorem Entry.cut_covers (before : Nat)
    (h : gap = [] ∨ ∃ token, token? = some token ∧ GapAllowed token gap) :
    (Entry.cut before token? gap text).Covers gap text := by
  refine ⟨rfl, rfl, rfl, ?_, h⟩
  rintro span ⟨⟩
  rfl

def Entry.idle (position : Nat) : Entry := { before := position, after := position }

theorem Entry.idle_covers (position : Nat) : (Entry.idle position).Covers [] [] := by
  refine ⟨rfl, rfl, rfl, ?_, .inl rfl⟩
  rintro span ⟨⟩

theorem covered_eq_cut (h : host.At (gap ++ (text ++ rest)))
    (hs : next.reader.source = host.reader.source)
    (hp : next.position = next.reader.span.stop)
    (hc : next.reader.span =
      ⟨host.position + encodedSize gap, host.position + encodedSize gap + encodedSize text⟩) :
    host.covered next token? = .cut host.position token? gap text ∧ next.At rest := by
  have hn := h.before.slice_eq
  have ht := h.before.behind.slice_eq
  constructor
  · simp only [covered, Entry.cut, Reader.text, Reader.slice, hs, hp, hc, hn, ht]
  · rw [← List.append_assoc] at h
    apply h.moved hs
    rw [hp, hc, encodedSize_append, Nat.add_assoc]

theorem step_take (h : host.At ahead) (count : Nat) :
    (host.step (.take count)).1 = .cut host.position none [] (ahead.take count) ∧
      (host.step (.take count)).2.At (ahead.drop count) := by
  have ht := h.take_eq count
  have ha : host.At ([] ++ (ahead.take count ++ ahead.drop count)) := by
    simpa only [List.nil_append, List.take_append_drop] using h
  apply covered_eq_cut ha
  · rw [ht]
    rfl
  · rw [ht]
    rfl
  · rw [ht]
    simp [Reader.span, Reader.offset]

theorem step_scan_cut {requested : TokenSet} {token : Token}
    (h : host.At (gap ++ (text ++ rest)))
    (ht : (Offside.scan host.state requested (gap ++ (text ++ rest))).token? = some token)
    (hc : Cut (Offside.scan host.state requested (gap ++ (text ++ rest))).calls gap text) :
    (host.step (.scan requested)).1 = .cut host.position (some token) gap text ∧
      (host.step (.scan requested)).2.At rest := by
  rw [h.step_scan_of_some ht]
  apply covered_eq_cut h
  · rw [Reader.source_run]
    rfl
  · rfl
  · exact hc.span_run h.before

theorem step_scan_idle {requested : TokenSet} (h : host.At ahead)
    (ht : (Offside.scan host.state requested ahead).token? = none) :
    (host.step (.scan requested)).1 = .idle host.position ∧
      (host.step (.scan requested)).2.At ahead := by
  rw [h.step_scan_of_none ht]
  have ha : host.At ([] ++ ahead) := h
  refine ⟨rfl, ha.moved ?_ rfl⟩
  rw [Reader.source_run]
  rfl

/-- A step covers what stands in front of the host, and the host is then at the rest. -/
theorem step_covers (h : host.At ahead) (step : Step) :
    ∃ gap text rest, ahead = gap ++ (text ++ rest) ∧ (host.step step).1.Covers gap text ∧
      (host.step step).2.At rest := by
  have taken (count : Nat) : ∃ gap text rest, ahead = gap ++ (text ++ rest) ∧
      (host.step (.take count)).1.Covers gap text ∧ (host.step (.take count)).2.At rest := by
    obtain ⟨he, hr⟩ := step_take h count
    refine ⟨[], _, _, (List.take_append_drop count ahead).symm, ?_, hr⟩
    rw [he]
    exact Entry.cut_covers host.position (.inl rfl)
  cases step with
  | scan requested =>
    cases ht : (Offside.scan host.state requested ahead).token? with
    | none =>
      obtain ⟨he, hr⟩ := step_scan_idle h ht
      refine ⟨[], [], ahead, rfl, ?_, hr⟩
      rw [he]
      exact Entry.idle_covers host.position
    | some token =>
      obtain ⟨gap, text, rest, rfl, hc, hg⟩ := scan_cut ht
      obtain ⟨he, hr⟩ := step_scan_cut h ht hc
      refine ⟨gap, text, rest, rfl, ?_, hr⟩
      rw [he]
      exact Entry.cut_covers host.position (.inr ⟨token, rfl, hg⟩)
  | take count => exact taken count
  | blank =>
    have hb : host.step .blank = host.step (.take (ahead.takeWhile isBlank).length) := by
      simp only [Host.step, h.skipBlanks_eq]
    rw [hb]
    exact taken _

theorem step_before (host : Host) (step : Step) : (host.step step).1.before = host.position := by
  cases step with
  | scan requested =>
    simp only [Host.step]
    split <;> rfl
  | take count => rfl
  | blank => rfl

theorem step_after (host : Host) (step : Step) :
    (host.step step).1.after = (host.step step).2.position := by
  cases step with
  | scan requested =>
    simp only [Host.step]
    split <;> rfl
  | take count => simp only [Host.step, covered]
  | blank => simp only [Host.step, covered]

theorem source_step (host : Host) (step : Step) :
    (host.step step).2.reader.source = host.reader.source := by
  cases step with
  | scan requested =>
    simp only [Host.step, scan, rescan, Reader.scan]
    cases ha : (Offside.scan host.state requested
        (host.reader.begin host.position).ahead).token? with
    | none => simp only [ha, Reader.source_run, Reader.source_begin]
    | some token => simp only [ha, Reader.source_run, Reader.source_begin]
  | take count =>
    simp only [Host.step, Host.take, readBy, Reader.advanceBy, Reader.source_run,
      Reader.source_begin]
  | blank =>
    simp only [Host.step, skipBlanks, readBy, Reader.advanceBy, Reader.source_run,
      Reader.source_begin]

theorem Entry.Covers.before_le_after {entry : Entry} (h : entry.Covers gap text) :
    entry.before ≤ entry.after := by
  have := h.after_eq
  omega

theorem Entry.Covers.le_span {entry : Entry} {span : Span} (h : entry.Covers gap text)
    (hs : entry.span? = some span) :
    entry.before ≤ span.start ∧ span.start ≤ span.stop ∧ span.stop = entry.after := by
  have ha := h.after_eq
  rw [h.span_eq span hs]
  refine ⟨?_, ?_, rfl⟩
  · exact Nat.le_add_right _ _
  · simp only
    omega

section Run

variable (steps : List Step)

theorem run_entries (h : host.At ahead) :
    ∀ entry ∈ (host.run steps).1, host.position ≤ entry.before ∧
      ∃ gap text, entry.Covers gap text := by
  induction steps generalizing host ahead with
  | nil => simp [run]
  | cons step later ih =>
    obtain ⟨gap, text, rest, rfl, hc, hr⟩ := step_covers h step
    have hb := step_before host step
    have ha := step_after host step
    have hl := hc.before_le_after
    rw [run_cons]
    intro entry he
    rcases List.mem_cons.mp he with rfl | he
    · exact ⟨Nat.le_of_eq hb.symm, gap, text, hc⟩
    · obtain ⟨hp, hg⟩ := ih hr entry he
      exact ⟨by omega, hg⟩

theorem run_covers (h : host.At ahead) :
    ∃ covered rest, ahead = covered ++ rest ∧ (host.run steps).2.At rest ∧
      (host.run steps).2.position = host.position + encodedSize covered ∧
      String.join ((host.run steps).1.map fun entry => entry.gap ++ entry.text) =
        String.ofList covered := by
  induction steps generalizing host ahead with
  | nil => exact ⟨[], ahead, rfl, h, rfl, rfl⟩
  | cons step later ih =>
    obtain ⟨gap, text, rest, rfl, hc, hr⟩ := step_covers h step
    obtain ⟨covered, last, rfl, hl, hp, hj⟩ := ih hr
    have hb := step_before host step
    have ha := step_after host step
    have he := hc.after_eq
    rw [run_cons]
    refine ⟨gap ++ text ++ covered, last, by simp, hl, ?_, ?_⟩
    · simp only [encodedSize_append]
      omega
    · rw [List.map_cons, String.join_cons, hj, hc.gap_eq, hc.text_eq, ← String.ofList_append,
        ← String.ofList_append]

theorem run_positions (h : host.At ahead) :
    (host.position :: (host.run steps).1.map Entry.after).Pairwise (· ≤ ·) := by
  induction steps generalizing host ahead with
  | nil => exact List.pairwise_singleton _ _
  | cons step later ih =>
    obtain ⟨gap, text, rest, rfl, hc, hr⟩ := step_covers h step
    have hi := ih hr
    rw [← step_after] at hi
    rw [run_cons]
    refine List.pairwise_cons.mpr ⟨?_, hi⟩
    intro position hp
    rw [← run_cons] at hp
    obtain ⟨entry, he, rfl⟩ := List.mem_map.mp hp
    obtain ⟨hb, _, _, hg⟩ := run_entries (step :: later) h entry he
    exact Nat.le_trans hb hg.before_le_after

theorem run_spans (h : host.At ahead) :
    ((host.run steps).1.filterMap Entry.span?).Pairwise fun earlier later =>
      earlier.stop ≤ later.start := by
  induction steps generalizing host ahead with
  | nil => exact List.Pairwise.nil
  | cons step later ih =>
    obtain ⟨gap, text, rest, rfl, hc, hr⟩ := step_covers h step
    have hi := ih hr
    rw [run_cons]
    cases hs : (host.step step).1.span? with
    | none => rwa [List.filterMap_cons_none hs]
    | some span =>
      rw [List.filterMap_cons_some hs]
      refine List.pairwise_cons.mpr ⟨?_, hi⟩
      intro other ho
      obtain ⟨entry, he, hes⟩ := List.mem_filterMap.mp ho
      obtain ⟨hb, _, _, hg⟩ := run_entries later hr entry he
      have hf := (hg.le_span hes).1
      have hl := (hc.le_span hs).2.2
      have ha := step_after host step
      omega

end Run

theorem source_start (source : Source) (state : State) :
    (start source state).reader.source = source := rfl

section Start

variable {source : Source} {ahead : List Char}

theorem position_start (h : Cursor.Before ⟨source, source.contentStart⟩ ahead) (state : State) :
    (start source state).position = source.contentStart := by
  have ho := h.offset_le
  simp only at ho
  change min (max 0 source.contentStart) source.size = source.contentStart
  rw [Nat.zero_max, Nat.min_eq_left ho]

theorem at_start (h : Cursor.Before ⟨source, source.contentStart⟩ ahead) (state : State) :
    (start source state).At ahead := by
  have hp := position_start h state
  refine ⟨?_, Nat.le_of_eq hp.symm⟩
  rw [hp]
  exact h

end Start

/-- A run from the start of a source never moves back. Each token lies between the positions
before and after its step and ends at the latter, and no two overlap. The gaps and texts are the
source from its content to the last position, and a gap that is not empty consists of blanks and
continuations in front of the opener of a literal. -/
theorem run_covers_source (text : String) (hs : text.utf8ByteSize ≤ maxOffset) (state : State)
    (steps : List Step) :
    let source := Source.ofString text
    let entries := ((start source state).run steps).1
    let last := ((start source state).run steps).2
    (source.contentStart :: entries.map Entry.after).Pairwise (· ≤ ·) ∧
      (∀ entry ∈ entries, ∀ span, entry.span? = some span →
        entry.before ≤ span.start ∧ span.start ≤ span.stop ∧ span.stop = entry.after) ∧
      (entries.filterMap Entry.span?).Pairwise (fun earlier later => earlier.stop ≤ later.start) ∧
      String.join (entries.map fun entry => entry.gap ++ entry.text) =
        source.slice source.contentStart last.position ∧
      ∀ entry ∈ entries, entry.gap ≠ "" →
        (entry.token? = some .stringStart ∨ entry.token? = some .regexStart) ∧
          ∃ trivia : List Trivia, (∀ item ∈ trivia, item.isComment = false) ∧
            entry.gap.toList = trivia.flatMap Trivia.text := by
  obtain ⟨ahead, hb⟩ := Source.exists_before_contentStart hs
  generalize Source.ofString text = source at hb ⊢
  intro source entries last
  have hp := position_start hb state
  have ha := at_start hb state
  obtain ⟨covered, rest, rfl, -, hl, hj⟩ := run_covers steps ha
  have hpositions := run_positions steps ha
  rw [hp] at hpositions
  refine ⟨hpositions, ?_, run_spans steps ha, ?_, ?_⟩
  · intro entry he span hspan
    obtain ⟨-, _, _, hc⟩ := run_entries steps ha entry he
    exact hc.le_span hspan
  · have hslice := ha.before.slice_eq
    rw [hp] at hl hslice
    rw [hj, ← hslice, ← hl, source_start]
  · intro entry he hg
    obtain ⟨-, gap, _, hc⟩ := run_entries steps ha entry he
    rcases hc.gap_allowed with rfl | ⟨token, ht, rfl | ⟨hk, trivia, hi, hw⟩⟩
    · exact absurd hc.gap_eq hg
    · exact absurd hc.gap_eq hg
    · refine ⟨?_, trivia, hi, ?_⟩
      · rcases hk with rfl | rfl
        · exact .inl ht
        · exact .inr ht
      · rw [hc.gap_eq, String.toList_ofList, hw]

/-- A string behind a mark, a wide character, blanks and a continuation. -/
theorem run_covers_marked_text :
    let text := "\uFEFFé \\\n 'a\x7bb\x7d'"
    let source := Source.ofString text
    let steps : List Step := [.take 1, .scan (.singleton .stringStart),
      .scan (.singleton .stringContent), .take 3, .blank, .scan (.singleton .stringContent)]
    let entries := ((start source {}).run steps).1
    let last := ((start source {}).run steps).2
    text.utf8ByteSize ≤ maxOffset ∧
      String.join (entries.map fun entry => entry.gap ++ entry.text) =
        source.slice source.contentStart last.position := by
  intro text source steps entries last
  have hs : text.utf8ByteSize ≤ maxOffset := by decide
  obtain ⟨-, -, -, hj, -⟩ := run_covers_source text hs {} steps
  exact ⟨hs, hj⟩

end Host

end Offside
