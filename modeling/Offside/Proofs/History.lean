import Offside.Proofs.Transition

/-!
# Histories of scans

A history records scans made one after the other, of any texts at any places. It is a chain of
transitions, and what every transition preserves holds behind all of them.
-/

namespace Offside

set_option autoImplicit false

attribute [ext] State

/-- A scan to be made of a text, at an offset, for the tokens that are requested. -/
structure Attempt where
  input : String
  offset : Nat
  requested : TokenSet

structure Record where
  token? : Option Token
  text : String
  layout? : Option Layout
  before : State
  after : State

def Attempt.record (attempt : Attempt) (state : State) : Record :=
  let source := Source.ofString attempt.input
  let scanned := source.scan attempt.offset state attempt.requested
  { token? := scanned.answer.token?, text := scanned.reader.text
    layout? := source.layout? attempt.offset, before := state, after := scanned.answer.state }

/-- The records of attempts made one after the other, and the state behind the last. -/
def State.history (state : State) : List Attempt → List Record × State
  | [] => ([], state)
  | attempt :: later =>
    let record := attempt.record state
    let (records, last) := record.after.history later
    (record :: records, last)

namespace Record

def Told (record : Record) : Prop :=
  Transition record.layout? record.text record.before record.token? record.after

def isBlock (record : Record) : Bool :=
  record.token? == some .indent || record.token? == some .dedent

def isQuote (record : Record) : Bool :=
  record.token? == some .stringStart || record.token? == some .stringEnd

variable {record : Record}

theorem Told.baseline_cases (h : record.Told) :
    (record.token? = some .indent ∧ record.before.baseline = 0 ∧
      ∃ layout, record.layout? = some layout ∧ 0 < layout.indent ∧
        record.after.baseline.toNat = min layout.indent State.maxBaseline) ∨
    (record.token? = some .dedent ∧ record.before.baseline ≠ 0 ∧
      (∃ layout, record.layout? = some layout ∧ layout.indent = 0) ∧
        record.after.baseline = 0) ∨
    (record.isBlock = false ∧ record.after.baseline = record.before.baseline) := by
  unfold Told at h
  cases ht : record.token? with
  | none =>
    rw [ht] at h
    exact .inr (.inr ⟨by simp [isBlock, ht], congrArg State.baseline h⟩)
  | some token =>
    rw [ht] at h
    cases token with
    | indent =>
      obtain ⟨hb, layout, hl, hw, -, ha⟩ := h
      exact .inl ⟨rfl, hb, layout, hl, hw, ha⟩
    | dedent =>
      obtain ⟨hb, layout, hl, hw, -, ha⟩ := h
      exact .inr (.inl ⟨rfl, hb, ⟨layout, hl, hw⟩, ha⟩)
    | stringStart =>
      obtain ⟨-, quote, c, -, -, -, ha⟩ := h
      exact .inr (.inr ⟨by simp [isBlock, ht], ha⟩)
    | stringEnd =>
      obtain ⟨delimiter, c, -, -, -, ha⟩ := h
      exact .inr (.inr ⟨by simp [isBlock, ht], ha⟩)
    | newline | stringContent | regexStart | regexContent | regexEnd =>
      exact .inr (.inr ⟨by simp [isBlock, ht], congrArg State.baseline h⟩)
    | comment | closeParen | closeBracket | closeBrace => exact h.elim

theorem Told.stack_cases (h : record.Told) :
    (record.token? = some .stringStart ∧ record.before.depth < State.maxDepth ∧
      ∃ quote : Quote, record.text = String.singleton quote.char ∧
        record.after.stack = .ofQuote quote :: record.before.stack) ∨
    (record.token? = some .stringEnd ∧ ∃ delimiter c,
      record.before.stack = delimiter :: record.after.stack ∧ delimiter.closing? = some c ∧
        record.text = String.singleton c) ∨
    (record.isQuote = false ∧ record.after.stack = record.before.stack) := by
  unfold Told at h
  cases ht : record.token? with
  | none =>
    rw [ht] at h
    exact .inr (.inr ⟨by simp [isQuote, ht], congrArg State.stack h⟩)
  | some token =>
    rw [ht] at h
    cases token with
    | stringStart =>
      obtain ⟨hd, quote, c, hs, hc, hq, -⟩ := h
      rw [Delimiter.closing?_ofQuote, Option.some.injEq] at hc
      rw [← hc] at hq
      exact .inl ⟨rfl, hd, quote, hq, hs⟩
    | stringEnd =>
      obtain ⟨delimiter, c, hs, hc, hq, -⟩ := h
      exact .inr (.inl ⟨rfl, delimiter, c, hs, hc, hq⟩)
    | indent | dedent =>
      obtain ⟨-, layout, -, -, hs, -⟩ := h
      exact .inr (.inr ⟨by simp [isQuote, ht], hs⟩)
    | newline | stringContent | regexStart | regexContent | regexEnd =>
      exact .inr (.inr ⟨by simp [isQuote, ht], congrArg State.stack h⟩)
    | comment | closeParen | closeBracket | closeBrace => exact h.elim

end Record

/-- Each record starts in the state that the one before has left. -/
inductive Linked : State → List Record → State → Prop
  | nil (state : State) : Linked state [] state
  | cons {record : Record} {later : List Record} {last : State} (told : record.Told)
      (rest : Linked record.after later last) : Linked record.before (record :: later) last

theorem Attempt.told_record (attempt : Attempt) (state : State) : (attempt.record state).Told := by
  have hs := Source.size_ofString_le attempt.input
  have ht := Source.scan_transition hs attempt.offset state attempt.requested
  simpa only [Record.Told, record] using ht

theorem State.linked_history (state : State) (attempts : List Attempt) :
    Linked state (state.history attempts).1 (state.history attempts).2 := by
  induction attempts generalizing state with
  | nil => exact .nil state
  | cons attempt later ih => exact .cons (attempt.told_record state) (ih _)

namespace Linked

variable {first middle last : State} {front later records : List Record}

theorem split (h : Linked first (front ++ later) last) :
    ∃ middle, Linked first front middle ∧ Linked middle later last := by
  induction front generalizing first with
  | nil => exact ⟨first, .nil first, h⟩
  | cons record front ih =>
    cases h with
    | cons told rest =>
      obtain ⟨middle, hf, hl⟩ := ih rest
      exact ⟨middle, .cons told hf, hl⟩

/-- What every transition preserves of the records so far and the state behind them holds to the
end. -/
theorem keep (Kept : List Record → State → Prop)
    (step : ∀ front record, record.Told → Kept front record.before →
      Kept (front ++ [record]) record.after)
    (h : Linked first records last) (start : Kept [] first) : Kept records last := by
  -- The records so far grow at their end, while the chain is taken from its front.
  suffices hk : ∀ front, Kept front first → Kept (front ++ records) last from hk [] start
  clear start
  induction h with
  | nil state =>
    intro front hk
    rwa [List.append_nil]
  | @cons record later last told rest ih =>
    intro front hk
    rw [List.append_cons]
    exact ih _ (step front record told hk)

theorem of_cons {record : Record} (h : Linked first (record :: later) last) :
    first = record.before ∧ record.Told ∧ Linked record.after later last := by
  cases h with
  | cons told rest => exact ⟨rfl, told, rest⟩

theorem told (h : Linked first records last) : ∀ record ∈ records, record.Told := by
  induction h with
  | nil state => simp
  | cons told rest ih => exact List.forall_mem_cons.mpr ⟨told, ih⟩

end Linked

/-- The state before, the token with its text, and the layout leave one state only. -/
theorem Transition.eq_of_eq {layout? : Option Layout} {text : String}
    {before first second : State} {token? : Option Token}
    (hf : Transition layout? text before token? first)
    (hs : Transition layout? text before token? second) : first = second := by
  cases token? with
  | none => exact Eq.trans hf (Eq.symm hs)
  | some token =>
    cases token with
    | indent =>
      obtain ⟨-, layout, hl, -, hstack, hb⟩ := hf
      obtain ⟨-, other, ho, -, hother, hc⟩ := hs
      rw [hl, Option.some.injEq] at ho
      rw [← ho, ← hb, UInt8.toNat_inj] at hc
      exact State.ext (hstack.trans hother.symm) hc.symm
    | dedent =>
      obtain ⟨-, -, -, -, hstack, hb⟩ := hf
      obtain ⟨-, -, -, -, hother, hc⟩ := hs
      exact State.ext (hstack.trans hother.symm) (hb.trans hc.symm)
    | stringStart =>
      obtain ⟨-, quote, c, hstack, hq, hc, hb⟩ := hf
      obtain ⟨-, other, d, hother, ho, hd, hl⟩ := hs
      rw [hc, String.singleton_inj] at hd
      rw [Delimiter.closing?_ofQuote, Option.some.injEq] at hq ho
      have he : quote = other := Quote.char_inj.mp (by rw [hq, ho, hd])
      rw [← he, ← hstack] at hother
      exact State.ext hother.symm (hb.trans hl.symm)
    | stringEnd =>
      obtain ⟨delimiter, _, hstack, -, -, hb⟩ := hf
      obtain ⟨popped, _, hother, -, -, hc⟩ := hs
      rw [hstack] at hother
      exact State.ext (List.cons.inj hother).2 (hb.trans hc.symm)
    | newline | stringContent | regexStart | regexContent | regexEnd =>
      exact Eq.trans hf (Eq.symm hs)
    | comment | closeParen | closeBracket | closeBrace => exact hf.elim

def Record.seen (record : Record) : Option Token × String × Option Layout :=
  (record.token?, record.text, record.layout?)

theorem Linked.eq_of_seen {first last other : State} {records others : List Record}
    (h : Linked first records last) (ho : Linked first others other)
    (hs : records.map Record.seen = others.map Record.seen) : last = other := by
  induction h generalizing others with
  | nil state =>
    cases ho with
    | nil => rfl
    | cons => cases hs
  | @cons record later last told rest ih =>
    cases others with
    | nil => cases hs
    | cons second others =>
      obtain ⟨hb, htold, hrest⟩ := ho.of_cons
      obtain ⟨hseen, hlater⟩ := List.cons.inj hs
      simp only [Record.seen, Prod.mk.injEq] at hseen
      obtain ⟨htoken, htext, hlayout⟩ := hseen
      rw [Record.Told, ← htoken, ← htext, ← hlayout, ← hb] at htold
      rw [← Transition.eq_of_eq told htold] at hrest
      exact ih hrest hlater

end Offside
