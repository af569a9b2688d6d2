import Offside.Proofs.Blocks

/-!
# Strings in a history

The ends of strings are brackets, and what they leave open is exactly the stack. Together with the
blocks this says that the tokens of a history determine the state behind it.
-/

namespace Offside

set_option autoImplicit false

namespace Record.Told

variable {record : Record}

theorem opens (h : record.Told) (ht : record.token? = some .stringStart) :
    record.before.depth < State.maxDepth ∧
      ∃ quote : Quote, record.text = String.singleton quote.char ∧
        record.after.stack = .ofQuote quote :: record.before.stack := by
  rcases h.stack_cases with ⟨-, hopens⟩ | ⟨hc, -⟩ | ⟨hn, -⟩
  · exact hopens
  · rw [ht] at hc
    cases hc
  · simp [isQuote, ht] at hn

theorem closes (h : record.Told) (ht : record.token? = some .stringEnd) :
    ∃ delimiter c, record.before.stack = delimiter :: record.after.stack ∧
      delimiter.closing? = some c ∧ record.text = String.singleton c := by
  rcases h.stack_cases with ⟨ho, -⟩ | ⟨-, hcloses⟩ | ⟨hn, -⟩
  · rw [ht] at ho
    cases ho
  · exact hcloses
  · simp [isQuote, ht] at hn

theorem stack_of_plain (h : record.Told) (hp : record.isQuote = false) :
    record.after.stack = record.before.stack := by
  simp only [isQuote, Bool.or_eq_false_iff, beq_eq_false_iff_ne] at hp
  rcases h.stack_cases with ⟨ht, -⟩ | ⟨ht, -⟩ | ⟨-, hs⟩
  · exact absurd ht hp.1
  · exact absurd ht hp.2
  · exact hs

theorem depth_le (h : record.Told) (hd : record.before.depth ≤ State.maxDepth) :
    record.after.depth ≤ State.maxDepth := by
  simp only [State.depth] at hd ⊢
  rcases h.stack_cases with ⟨-, hl, quote, -, hs⟩ | ⟨-, delimiter, c, hs, -⟩ | ⟨-, hs⟩
  · rw [hs]
    exact hl
  · rw [hs, List.length_cons] at hd
    omega
  · rwa [hs]

end Record.Told

/-- Every string that is opened is closed again, and no other. -/
inductive Balanced : List Record → Prop
  | nil : Balanced []
  | other {record : Record} {later : List Record} (plain : record.isQuote = false)
      (rest : Balanced later) : Balanced (record :: later)
  | enclosed {opening closing : Record} {inner later : List Record}
      (opens : opening.token? = some .stringStart) (closes : closing.token? = some .stringEnd)
      (inside : Balanced inner) (rest : Balanced later) :
      Balanced (opening :: (inner ++ closing :: later))

def tally (token : Token) (records : List Record) : Nat :=
  records.countP fun record => record.token? == some token

namespace Balanced

variable {inner later records : List Record}

theorem append (h : Balanced inner) (hl : Balanced later) : Balanced (inner ++ later) := by
  induction h with
  | nil => exact hl
  | other plain _ ih => exact .other plain ih
  | enclosed opens closes inside _ _ ih =>
    simpa using Balanced.enclosed opens closes inside ih

theorem tally_eq (h : Balanced records) : tally .stringStart records = tally .stringEnd records := by
  induction h with
  | nil => rfl
  | other plain _ ih =>
    simp only [Record.isQuote, Bool.or_eq_false_iff] at plain
    simpa [tally, List.countP_cons, plain] using ih
  | enclosed opens closes _ _ hi hr =>
    simp only [tally] at hi hr
    simp [tally, List.countP_append, opens, closes, hi, hr]
    omega

theorem stack_eq (h : Balanced records) {first last : State} (hl : Linked first records last) :
    last.stack = first.stack := by
  induction h generalizing first last with
  | nil =>
    cases hl with
    | nil => rfl
  | other plain _ ih =>
    obtain ⟨rfl, told, hrest⟩ := hl.of_cons
    rw [ih hrest, told.stack_of_plain plain]
  | enclosed opens closes _ _ hi hr =>
    obtain ⟨rfl, told, hrest⟩ := hl.of_cons
    obtain ⟨middle, hinner, hlater⟩ := hrest.split
    obtain ⟨rfl, hclosing, hlater⟩ := hlater.of_cons
    obtain ⟨-, quote, -, hpush⟩ := told.opens opens
    obtain ⟨delimiter, c, hpop, -⟩ := hclosing.closes closes
    rw [hi hinner, hpush] at hpop
    rw [hr hlater]
    exact (List.cons.inj hpop).2.symm

end Balanced

/-- The delimiters of the strings that records leave open, innermost first. -/
inductive LeavesOpen : List Record → List Delimiter → Prop
  | balanced {records : List Record} (h : Balanced records) : LeavesOpen records []
  | opened {outer inner : List Record} {opening : Record} {stack : List Delimiter} {quote : Quote}
      (around : LeavesOpen outer stack) (opens : opening.token? = some .stringStart)
      (text_eq : opening.text = String.singleton quote.char) (inside : Balanced inner) :
      LeavesOpen (outer ++ opening :: inner) (.ofQuote quote :: stack)

namespace LeavesOpen

variable {records later front : List Record} {stack : List Delimiter} {record : Record}

theorem append (h : LeavesOpen records stack) (hl : Balanced later) :
    LeavesOpen (records ++ later) stack := by
  cases h with
  | balanced h => exact .balanced (h.append hl)
  | opened around opens text_eq inside =>
    rw [List.append_assoc, List.cons_append]
    exact .opened around opens text_eq (inside.append hl)

theorem tally_eq (h : LeavesOpen records stack) :
    tally .stringStart records = tally .stringEnd records + stack.length := by
  induction h with
  | balanced h => exact h.tally_eq
  | opened around opens text_eq inside ih =>
    have hi := inside.tally_eq
    simp only [tally] at ih hi
    simp [tally, List.countP_append, opens, ih, hi]
    omega

theorem exists_opening {delimiter : Delimiter} (h : LeavesOpen records (delimiter :: stack)) :
    ∃ outer opening inner, records = outer ++ opening :: inner ∧
      opening.token? = some .stringStart ∧ Balanced inner ∧ LeavesOpen outer stack := by
  cases h with
  | opened around opens text_eq inside => exact ⟨_, _, _, rfl, opens, inside, around⟩

theorem step (ht : record.Told) (h : LeavesOpen front record.before.stack) :
    LeavesOpen (front ++ [record]) record.after.stack := by
  rcases ht.stack_cases with ⟨ho, -, quote, hq, hs⟩ | ⟨hc, delimiter, c, hs, -⟩ | ⟨hn, hs⟩
  · rw [hs]
    exact .opened h ho hq .nil
  · rw [hs] at h
    obtain ⟨outer, opening, inner, rfl, hopens, hinner, houter⟩ := h.exists_opening
    -- The end and its start close what stands between them off from the strings around it.
    have hb : Balanced (opening :: (inner ++ record :: [])) := .enclosed hopens hc hinner .nil
    simpa using houter.append hb
  · rw [hs]
    exact h.append (.other hn .nil)

end LeavesOpen

namespace Linked

variable {first last : State} {records outer inner front later : List Record}
  {opening closing : Record}

theorem leavesOpen (h : Linked {} records last) : LeavesOpen records last.stack :=
  h.keep (fun front state => LeavesOpen front state.stack) (fun _ _ => LeavesOpen.step)
    (.balanced .nil)

theorem depth_le (h : Linked {} records last) : last.depth ≤ State.maxDepth :=
  h.keep (fun _ state => state.depth ≤ State.maxDepth) (fun _ _ ht => ht.depth_le)
    (Nat.zero_le _)

theorem exists_opening (h : Linked {} (front ++ closing :: later) last)
    (hc : closing.token? = some .stringEnd) :
    ∃ outer opening inner, front = outer ++ opening :: inner ∧
      opening.token? = some .stringStart ∧ Balanced inner := by
  obtain ⟨middle, hf, hl⟩ := h.split
  obtain ⟨rfl, told, -⟩ := hl.of_cons
  obtain ⟨delimiter, c, hs, -⟩ := told.closes hc
  have ho := hf.leavesOpen
  rw [hs] at ho
  obtain ⟨outer, opening, inner, he, hopens, hinner, -⟩ := ho.exists_opening
  exact ⟨outer, opening, inner, he, hopens, hinner⟩

theorem text_eq_of_match
    (h : Linked first (outer ++ opening :: (inner ++ closing :: later)) last)
    (ho : opening.token? = some .stringStart) (hi : Balanced inner)
    (hc : closing.token? = some .stringEnd) :
    ∃ quote : Quote, opening.text = String.singleton quote.char ∧ closing.text = opening.text := by
  obtain ⟨middle, -, hrest⟩ := h.split
  obtain ⟨rfl, hopening, hrest⟩ := hrest.of_cons
  obtain ⟨middle, hinner, hrest⟩ := hrest.split
  obtain ⟨rfl, hclosing, -⟩ := hrest.of_cons
  obtain ⟨-, quote, hq, hpush⟩ := hopening.opens ho
  obtain ⟨delimiter, c, hpop, hd, ht⟩ := hclosing.closes hc
  rw [hi.stack_eq hinner, hpush] at hpop
  rw [← (List.cons.inj hpop).1, Delimiter.closing?_ofQuote, Option.some.injEq] at hd
  exact ⟨quote, hq, by rw [ht, hq, hd]⟩

theorem tally_le (h : Linked {} records last) (hf : front <+: records) :
    tally .stringEnd front ≤ tally .stringStart front := by
  obtain ⟨later, rfl⟩ := hf
  obtain ⟨middle, hl, -⟩ := h.split
  have := hl.leavesOpen.tally_eq
  omega

end Linked

/-- In every prefix there are at most as many ends as starts of strings, and the rest are open.
Each end has a start that it matches, and wherever two match, their texts are one quote. -/
structure WellNested (records : List Record) (depth : Nat) : Prop where
  tally_le : ∀ front, front <+: records → tally .stringEnd front ≤ tally .stringStart front
  tally_eq : tally .stringStart records = tally .stringEnd records + depth
  depth_le : depth ≤ State.maxDepth
  exists_opening : ∀ front closing later, records = front ++ closing :: later →
    closing.token? = some .stringEnd → ∃ outer opening inner, front = outer ++ opening :: inner ∧
      opening.token? = some .stringStart ∧ Balanced inner
  text_eq : ∀ outer opening inner closing later,
    records = outer ++ opening :: (inner ++ closing :: later) →
    opening.token? = some .stringStart → Balanced inner → closing.token? = some .stringEnd →
    ∃ quote : Quote, opening.text = String.singleton quote.char ∧ closing.text = opening.text

theorem Linked.wellNested {records : List Record} {last : State} (h : Linked {} records last) :
    WellNested records last.depth := by
  refine ⟨?_, h.leavesOpen.tally_eq, h.depth_le, ?_, ?_⟩
  · exact fun front hf => h.tally_le hf
  · rintro front closing later rfl hc
    exact h.exists_opening hc
  · rintro outer opening inner closing later rfl ho hi hc
    exact h.text_eq_of_match ho hi hc

theorem Linked.inTurn {records : List Record} {last : State} (h : Linked {} records last) :
    InTurn (blockRecords records) last.baseline :=
  h.keep (fun front state => InTurn (blockRecords front) state.baseline)
    (fun _ _ => InTurn.step) InTurn.nil

/-- The tokens of a history from the first state determine the state behind it. INDENT and DEDENT
alternate, and there is a baseline just if the last of them was an INDENT, of the width measured
there; a block never turns into another. The strings that are open are those whose start has not
been matched by an end of the same quote. -/
theorem tokens_determine_state (attempts : List Attempt) :
    let records := (State.history {} attempts).1
    let last := (State.history {} attempts).2
    InTurn (records.filter Record.isBlock) last.baseline ∧
      (∀ record ∈ records, record.before.baseline ≠ 0 → record.after.baseline ≠ 0 →
        record.after.baseline = record.before.baseline) ∧
      WellNested records last.depth ∧
      ∀ others : List Attempt,
        (State.history {} others).1.map Record.seen = records.map Record.seen →
          (State.history {} others).2 = last := by
  intro records last
  have h : Linked {} records last := State.linked_history {} attempts
  refine ⟨h.inTurn, ?_, h.wellNested, ?_⟩
  · exact fun record hr => (h.told record hr).baseline_eq
  · exact fun others hs => (State.linked_history {} others).eq_of_seen h hs

end Offside
