import Offside.Proofs.Nesting

/-!
# Delimiters without a quote

A snapshot may hold a delimiter byte with none of the three known bits. Nothing closes the string of
such a byte, so it stays open, and so do the strings around it.
-/

namespace Offside

set_option autoImplicit false

namespace Delimiter

def Sets (delimiter : Delimiter) (bit : Nat) : Prop := delimiter.byte.toNat.testBit bit = true

/-- The byte has no known bit. -/
def IsForeign (delimiter : Delimiter) : Prop := ∀ bit < 3, ¬ delimiter.Sets bit

/-- The lowest known bit of the byte is the one of `quote`. -/
structure HasLowest (delimiter : Delimiter) (quote : Quote) : Prop where
  sets : delimiter.Sets quote.bit
  lowest : ∀ bit < quote.bit, ¬ delimiter.Sets bit

instance (delimiter : Delimiter) (bit : Nat) : Decidable (delimiter.Sets bit) :=
  inferInstanceAs (Decidable (_ = true))

instance (delimiter : Delimiter) : Decidable delimiter.IsForeign :=
  inferInstanceAs (Decidable (∀ bit < 3, _))

variable {delimiter : Delimiter} {quote : Quote} {c : Char}

theorem hasBit_iff : delimiter.hasBit quote = true ↔ delimiter.Sets quote.bit := Iff.rfl

theorem bit_getElem_all : ∀ (index : Nat) (h : index < Quote.all.length),
    (Quote.all[index]).bit = index := by
  decide

theorem quote?_eq_none_iff : delimiter.quote? = none ↔ delimiter.IsForeign := by
  rw [quote?, List.find?_eq_none]
  constructor
  · intro h bit hlt
    have hbit : bit < Quote.all.length := hlt
    have hnone := h _ (List.getElem_mem hbit)
    rwa [hasBit_iff, bit_getElem_all] at hnone
  · intro h quote hquote
    rw [hasBit_iff]
    obtain ⟨bit, hbit, rfl⟩ := List.getElem_of_mem hquote
    rw [bit_getElem_all]
    exact h bit hbit

theorem quote?_eq_some_iff : delimiter.quote? = some quote ↔ delimiter.HasLowest quote := by
  rw [quote?, List.find?_eq_some_iff_getElem]
  constructor
  · rintro ⟨hsets, index, hindex, rfl, hlower⟩
    refine ⟨hsets, ?_⟩
    intro bit hbit hset
    rw [bit_getElem_all] at hbit
    have hnone := hlower bit hbit
    rw [Bool.not_eq_true', ← Bool.not_eq_true, hasBit_iff, bit_getElem_all] at hnone
    exact hnone hset
  · rintro ⟨hsets, hlowest⟩
    have hindex : quote.bit < Quote.all.length := by cases quote <;> decide
    have hquote : Quote.all[quote.bit] = quote := by cases quote <;> rfl
    refine ⟨hsets, quote.bit, hindex, hquote, ?_⟩
    intro bit hbit
    rw [Bool.not_eq_true', ← Bool.not_eq_true, hasBit_iff, bit_getElem_all]
    exact hlowest bit hbit

theorem HasLowest.unique {other : Quote} (h : delimiter.HasLowest quote)
    (ho : delimiter.HasLowest other) : quote = other := by
  rw [← quote?_eq_some_iff] at h ho
  exact Option.some.inj (h.symm.trans ho)

theorem closing?_eq_none_iff : delimiter.closing? = none ↔ delimiter.IsForeign := by
  rw [closing?, Option.map_eq_none_iff, quote?_eq_none_iff]

theorem closing?_eq_some_iff :
    delimiter.closing? = some c ↔ ∃ quote, delimiter.HasLowest quote ∧ quote.char = c := by
  simp only [closing?, Option.map_eq_some_iff, quote?_eq_some_iff]

end Delimiter

theorem scan_eq_stringEnd_iff {state : State} {requested : TokenSet} {ahead : List Char} :
    (scan state requested ahead).token? = some .stringEnd ↔
      ∃ delimiter, Mode.select state requested = .inside (.string delimiter) ∧
        ∃ c rest, ahead = c :: rest ∧ delimiter.closing? = some c := by
  constructor
  · intro h
    obtain ⟨answer, course, htoken, -, -⟩ := exists_course state requested ahead
    rw [htoken] at h
    cases course with
    | @piece literal mode text =>
      rcases Piece.token?_cases h with hcontent | ⟨hend, hpiece⟩
      · cases literal <;> cases hcontent
      · cases literal with
        | string delimiter =>
          exact ⟨delimiter, mode, Literal.exists_closing_of_piece hpiece⟩
        | regex => cases hend
    | broken => cases h
    | due _ _ token_due =>
      cases h
      rcases Layout.token?_cases token_due with ⟨he, -⟩ | ⟨he, -⟩ | ⟨he, -⟩ <;> cases he
    | idle => cases h
    | refused => cases h
    | @opened _ _ _ literal => cases literal <;> cases h
  · rintro ⟨delimiter, mode, c, rest, rfl, hclosing⟩
    have hpiece : (Literal.string delimiter).piece (c :: rest) = ⟨0, .closed⟩ :=
      Literal.piece_eq_zero_iff.mpr (Literal.stop?_of_closing? hclosing)
    rw [(scan_of_not_isExhausted mode (by rw [hpiece]; rfl)).1, hpiece]
    rfl

theorem Cursor.exists_ahead_iff {cursor : Cursor} {c : Char} (hc : c ≠ '\x00') :
    (∃ rest, cursor.ahead = c :: rest) ↔ cursor.current = c := by
  constructor
  · rintro ⟨rest, h⟩
    exact (ahead_eq_cons_iff.mp h).2.1
  · intro h
    cases he : cursor.atEnd with
    | true => exact absurd (h.symm.trans (current_of_atEnd he)) hc
    | false => exact ⟨_, ahead_eq_cons_iff.mpr ⟨he, h, rfl⟩⟩

def Attempt.lookahead (attempt : Attempt) : Char :=
  ((Reader.ofSource (Source.ofString attempt.input)).begin attempt.offset).lookahead

theorem Attempt.token?_eq_stringEnd_iff {attempt : Attempt} {state : State} :
    (attempt.record state).token? = some .stringEnd ↔
      ∃ delimiter quote, Mode.select state attempt.requested = .inside (.string delimiter) ∧
        delimiter.HasLowest quote ∧ attempt.lookahead = quote.char := by
  have hahead (quote : Quote) : (∃ rest, ((Reader.ofSource (Source.ofString attempt.input)).begin
      attempt.offset).ahead = quote.char :: rest) ↔ attempt.lookahead = quote.char := by
    apply Cursor.exists_ahead_iff
    cases quote <;> decide
  change (scan state attempt.requested _).token? = _ ↔ _
  rw [scan_eq_stringEnd_iff]
  simp only [Delimiter.closing?_eq_some_iff]
  constructor
  · rintro ⟨delimiter, mode, c, rest, h, quote, hlowest, rfl⟩
    exact ⟨delimiter, quote, mode, hlowest, (hahead quote).mp ⟨rest, h⟩⟩
  · rintro ⟨delimiter, quote, mode, hlowest, h⟩
    obtain ⟨rest, h⟩ := (hahead quote).mpr h
    exact ⟨delimiter, mode, quote.char, rest, h, quote, hlowest, rfl⟩

def State.outermost (state : State) (count : Nat) : List Delimiter :=
  state.stack.reverse.take count

namespace Record

variable {record : Record}

theorem Told.ne_stringEnd (h : record.Told) {delimiter : Delimiter}
    (htop : record.before.top? = some delimiter) (hforeign : delimiter.IsForeign) :
    record.token? ≠ some .stringEnd := by
  intro ht
  obtain ⟨closed, c, hstack, hclosing, -⟩ := h.closes ht
  rw [State.top?, hstack, List.head?_cons, Option.some.injEq] at htop
  rw [htop, Delimiter.closing?_eq_none_iff.mpr hforeign] at hclosing
  cases hclosing

/-- Strings are opened and closed at the inside of those that begin the stack, and the last of
these is not closed. -/
theorem Told.prefix_stack (h : record.Told) {outer : List Delimiter} {foreign : Delimiter}
    (hforeign : foreign.IsForeign) (hp : outer ++ [foreign] <+: record.before.stack.reverse) :
    outer ++ [foreign] <+: record.after.stack.reverse := by
  rcases h.stack_cases with ⟨-, -, quote, -, hs⟩ | ⟨-, closed, c, hs, hclosing, -⟩ | ⟨-, hs⟩
  · rw [hs, List.reverse_cons]
    exact hp.trans (List.prefix_append _ _)
  · rw [hs, List.reverse_cons, List.prefix_concat_iff] at hp
    rcases hp with heq | hp
    · have hlast : foreign = closed := by simpa using (List.append_inj' heq rfl).2
      rw [← hlast, Delimiter.closing?_eq_none_iff.mpr hforeign] at hclosing
      cases hclosing
    · exact hp
  · rwa [hs]

end Record

theorem Linked.prefix_stack {first last : State} {records : List Record}
    (h : Linked first records last) {outer : List Delimiter} {foreign : Delimiter}
    (hforeign : foreign.IsForeign) (hp : outer ++ [foreign] <+: first.stack.reverse) :
    outer ++ [foreign] <+: last.stack.reverse :=
  h.keep (fun _ state => outer ++ [foreign] <+: state.stack.reverse)
    (fun _ _ told => told.prefix_stack hforeign) hp

namespace State

variable {state other : State} {index : Nat} {delimiter : Delimiter}

theorem outermost_of_getElem? (h : state.stack.reverse[index]? = some delimiter) :
    state.outermost (index + 1) = state.outermost index ++ [delimiter] := by
  rw [outermost, List.take_add_one, h]
  rfl

theorem length_outermost_of_getElem? (h : state.stack.reverse[index]? = some delimiter) :
    (state.outermost (index + 1)).length = index + 1 := by
  obtain ⟨hlt, -⟩ := List.getElem?_eq_some_iff.mp h
  rw [outermost, List.length_take]
  exact Nat.min_eq_left hlt

theorem outermost_eq_of_prefix (h : state.stack.reverse[index]? = some delimiter)
    (hp : state.outermost (index + 1) <+: other.stack.reverse) :
    index < other.depth ∧ other.outermost (index + 1) = state.outermost (index + 1) := by
  have hlength := length_outermost_of_getElem? h
  have htake := List.prefix_iff_eq_take.mp hp
  have hle := hp.length_le
  rw [hlength] at htake hle
  rw [List.length_reverse] at hle
  exact ⟨hle, htake.symm⟩

end State

/-- A string whose delimiter has no known bit stays open over all scans that follow a snapshot, with
all the strings around it, and while it is the innermost one no end of a string is found. A
delimiter with known bits is closed by the quote of the lowest, where its end is requested. -/
theorem foreign_delimiter_is_never_closed (bytes : List UInt8) (attempts : List Attempt) :
    let first := State.ofSnapshot bytes
    let records := (first.history attempts).1
    let last := (first.history attempts).2
    (∀ index delimiter, first.stack.reverse[index]? = some delimiter → delimiter.IsForeign →
        index < last.depth ∧ last.outermost (index + 1) = first.outermost (index + 1)) ∧
      (∀ record ∈ records, ∀ delimiter, record.before.top? = some delimiter →
        delimiter.IsForeign → record.token? ≠ some .stringEnd) ∧
      ∀ (state : State) (attempt : Attempt) (delimiter : Delimiter) (quote : Quote),
        state.top? = some delimiter → delimiter.HasLowest quote →
          delimiter.closing? = some quote.char ∧
            ((attempt.record state).token? = some .stringEnd ↔
              attempt.requested.isErrorRecovery = false ∧
                attempt.requested.allows .stringContent = true ∧
                  attempt.lookahead = quote.char) := by
  intro first records last
  have hlinked : Linked first records last := first.linked_history attempts
  refine ⟨?_, ?_, ?_⟩
  · intro index delimiter hindex hforeign
    apply State.outermost_eq_of_prefix hindex
    rw [State.outermost_of_getElem? hindex]
    apply hlinked.prefix_stack hforeign
    rw [← State.outermost_of_getElem? hindex]
    exact List.take_prefix _ _
  · intro record hrecord delimiter htop hforeign
    exact (hlinked.told record hrecord).ne_stringEnd htop hforeign
  · intro state attempt delimiter quote htop hlowest
    refine ⟨Delimiter.closing?_eq_some_iff.mpr ⟨quote, hlowest, rfl⟩, ?_⟩
    rw [Attempt.token?_eq_stringEnd_iff]
    simp only [Mode.select_eq_string_iff, htop, Option.some.injEq]
    constructor
    · rintro ⟨_, other, ⟨hrecovery, hallows, rfl⟩, hother, hahead⟩
      refine ⟨hrecovery, hallows, ?_⟩
      rw [hahead, Quote.char_inj]
      exact hother.unique hlowest
    · rintro ⟨hrecovery, hallows, hahead⟩
      exact ⟨delimiter, quote, ⟨hrecovery, hallows, rfl⟩, hlowest, hahead⟩

/-- Behind a string that is closed by the lowest of its bits no quote closes the one with unknown
bits, in which another is opened. -/
theorem foreign_delimiter_is_never_closed_above :
    let first := State.ofSnapshot [3, 0x01, 0xF8, 0x0E, 4]
    let text : TokenSet := .ofTokens [.stringContent]
    let attempts : List Attempt :=
      [⟨"\"", 0, text⟩, ⟨"'", 0, text⟩, ⟨"\"", 0, text⟩, ⟨"'", 0, .ofTokens [.stringStart]⟩]
    let records := (first.history attempts).1
    let last := (first.history attempts).2
    first.stack.reverse[1]? = some ⟨0xF8⟩ ∧ Delimiter.IsForeign ⟨0xF8⟩ ∧
      records.map Record.token? = [some .stringEnd, none, none, some .stringStart] ∧
      1 < last.depth ∧ last.outermost 2 = [⟨0x01⟩, ⟨0xF8⟩] := by
  intro first text attempts records last
  have hindex : first.stack.reverse[1]? = some ⟨0xF8⟩ := by decide
  have hforeign : Delimiter.IsForeign ⟨0xF8⟩ := by decide
  have htokens : records.map Record.token? =
      [some .stringEnd, none, none, some .stringStart] := by decide +kernel
  have houtermost : first.outermost 2 = [⟨0x01⟩, ⟨0xF8⟩] := by decide
  obtain ⟨hkept, -⟩ := foreign_delimiter_is_never_closed [3, 0x01, 0xF8, 0x0E, 4] attempts
  obtain ⟨hdepth, hlast⟩ := hkept 1 ⟨0xF8⟩ hindex hforeign
  exact ⟨hindex, hforeign, htokens, hdepth, hlast.trans houtermost⟩

end Offside
