import Offside.Proofs.Calls
import Offside.Proofs.Openers

/-!
# Scans at the end of the input

At the end of the input a literal gives way to the layout, which is that of a line that has ended
and is not indented. One DEDENT at most is found there, and else only NEWLINE.
-/

namespace Offside

set_option autoImplicit false

namespace Layout

def final : Layout := { endOfLine := true }

theorem measure?_nil : measure? [] [] = some final := rfl

variable {requested : TokenSet} {baseline : UInt8}

theorem dedents_final_iff :
    final.dedents requested baseline = true ↔ baseline ≠ 0 ∧ requested.WantsDedent := by
  unfold TokenSet.WantsDedent
  rw [← wantsDedent_iff, and_comm]
  simp [dedents, final, commentsSettled]

theorem token?_final (requested : TokenSet) (baseline : UInt8) :
    final.token? requested baseline =
      if baseline ≠ 0 ∧ requested.WantsDedent then some .dedent
      else if requested.allows .newline = true ∧ requested.isErrorRecovery = false then
        some .newline
      else none := by
  have hindents : final.indents requested baseline = false := by simp [indents, final]
  unfold token?
  rw [hindents]
  simp only [← dedents_final_iff, ← breaksLine_iff]
  rfl

theorem token?_final_eq_dedent_iff :
    final.token? requested baseline = some .dedent ↔ baseline ≠ 0 ∧ requested.WantsDedent := by
  rw [token?_final]
  split
  · rename_i h
    exact iff_of_true rfl h
  · rename_i h
    apply iff_of_false _ h
    split <;> simp

end Layout

section Scan

variable (state : State) (requested : TokenSet)

theorem scanLayout_nil :
    let token? := Layout.final.token? requested state.baseline
    (scanLayout state requested []).token? = token? ∧
      (scanLayout state requested []).calls = [.mark] ∧
      (scanLayout state requested []).state = token?.elim state (Layout.final.settle state) := by
  have hsplit : Trivia.split [] = ([], []) := Trivia.split_of_next?_eq_none rfl
  have hopener : Literal.ofOpener? requested '\x00' = none := Literal.ofOpener?_nul requested
  simp only [scanLayout, Layout.measure_of_split hsplit, Layout.measure?_nil]
  cases Layout.final.token? requested state.baseline with
  | some token => exact ⟨rfl, rfl, rfl⟩
  | none =>
    simp only [openLiteral, List.headD_nil, hopener, ite_self]
    exact ⟨trivial, rfl, rfl⟩

theorem scan_nil :
    let token? := Layout.final.token? requested state.baseline
    (scan state requested []).token? = token? ∧ (scan state requested []).calls = [.mark] ∧
      (scan state requested []).state = token?.elim state (Layout.final.settle state) := by
  have hread : ReadsLayout state requested [] := .inr rfl
  rw [scan_of_readsLayout hread, Answer.token?_commit, Answer.calls_commit, Answer.state_commit]
  exact scanLayout_nil state requested

end Scan

namespace Source

theorem contentStart_le_size (source : Source) : source.contentStart ≤ source.size := by
  unfold contentStart
  split
  · rename_i h
    have hs := congrArg ByteArray.size (eq_of_bytes_beq h)
    rw [ByteArray.size_extract] at hs
    unfold size
    omega
  · exact Nat.zero_le _

theorem scan_size (source : Source) (state : State) (requested : TokenSet) :
    (source.scan source.size state requested).answer = Offside.scan state requested [] ∧
      (source.scan source.size state requested).reader.span = ⟨source.size, source.size⟩ := by
  let cursor : Cursor := ⟨source, source.size⟩
  have hbegin : (Reader.ofSource source).begin source.size = Reader.fresh cursor := by
    have hstart := source.contentStart_le_size
    simp only [Reader.begin, Reader.source_ofSource, Nat.max_eq_left hstart]
    change Reader.fresh ⟨source, min source.size source.size⟩ = _
    rw [Nat.min_self]
  have hahead : (Reader.fresh cursor).ahead = [] := by
    apply Cursor.ahead_of_atEnd
    simp [cursor, Reader.fresh, Cursor.atEnd]
  simp only [scan, Reader.scan, hbegin, hahead, (scan_nil state requested).2.1]
  refine ⟨trivial, ?_⟩
  change Span.mk (min source.size source.size) source.size = _
  rw [Nat.min_self]

/-- Scans made one after the other at the end of a source, each in the state that the one before
has left. -/
def drain (source : Source) (state : State) : List TokenSet → List Scanned
  | [] => []
  | requested :: later =>
    let scanned := source.scan source.size state requested
    scanned :: source.drain scanned.answer.state later

end Source

def State.drained (state : State) (requests : List TokenSet) : State :=
  if ∃ requested ∈ requests, requested.WantsDedent then state.leaveBlock else state

namespace State

variable (state : State)

theorem drained_append (first second : List TokenSet) :
    (state.drained first).drained second = state.drained (first ++ second) := by
  have hleft : state.leaveBlock.leaveBlock = state.leaveBlock := rfl
  simp only [drained, List.mem_append, or_and_right, exists_or]
  by_cases hf : ∃ requested ∈ first, requested.WantsDedent
  · simp only [hf, true_or, if_true, hleft, ite_self]
  · simp only [hf, false_or, if_false]

@[simp] theorem stack_drained (requests : List TokenSet) :
    (state.drained requests).stack = state.stack := by
  unfold drained
  split <;> rfl

theorem baseline_drained (requests : List TokenSet) :
    (state.drained requests).baseline =
      if ∃ requested ∈ requests, requested.WantsDedent then 0 else state.baseline := by
  unfold drained
  split <;> rfl

theorem baseline_drained_ne_zero_iff (requests : List TokenSet) :
    (state.drained requests).baseline ≠ 0 ↔
      state.baseline ≠ 0 ∧ ∀ requested ∈ requests, ¬ requested.WantsDedent := by
  rw [baseline_drained]
  split
  · rename_i h
    obtain ⟨requested, hmem, hwants⟩ := h
    constructor
    · intro hne
      exact absurd rfl hne
    · intro hnone
      exact absurd hwants (hnone.2 requested hmem)
  · rename_i h
    constructor
    · intro hne
      exact ⟨hne, fun requested hmem hwants => h ⟨requested, hmem, hwants⟩⟩
    · exact And.left

/-- Only a DEDENT changes the state, and where no block is open there is nothing to change. -/
theorem state_scan_nil (requested : TokenSet) :
    (scan state requested []).state = state.drained [requested] := by
  have hopen (h : ¬ (state.baseline ≠ 0 ∧ requested.WantsDedent)) :
      state.drained [requested] = state := by
    unfold drained
    split
    · rename_i hwants
      have hzero : state.baseline = 0 := by
        apply Decidable.byContradiction
        intro hne
        exact h ⟨hne, by simpa using hwants⟩
      rw [leaveBlock, ← hzero]
    · rfl
  rw [(scan_nil state requested).2.2, Layout.token?_final]
  split
  · rename_i h
    simp [drained, h.2, Layout.settle]
  · rename_i h
    rw [hopen h]
    split <;> rfl

end State

/-- What becomes of a request at the end of the input depends on the requests before it only by the
state that they leave. -/
theorem Source.getElem?_drain (source : Source) (state : State) (front : List TokenSet)
    (requested : TokenSet) (later : List TokenSet) :
    (source.drain state (front ++ requested :: later))[front.length]? =
      some (source.scan source.size (state.drained front) requested) := by
  induction front generalizing state with
  | nil => rfl
  | cons first front ih =>
    have hstate := state.state_scan_nil first
    rw [← (source.scan_size state first).1] at hstate
    rw [List.cons_append, drain, List.length_cons, List.getElem?_cons_succ, hstate, ih,
      State.drained_append]
    rfl

/-- Whatever strings are open and whatever the requests select, of those made at the end of the
input the first that wants a block to end finds a DEDENT, if a block is open. Each other finds a
NEWLINE if it accepts one and nothing if not. Nothing is read for any of them. -/
theorem end_of_input_drains (source : Source) (state : State) (front : List TokenSet)
    (requested : TokenSet) (later : List TokenSet) :
    ∃ scanned, (source.drain state (front ++ requested :: later))[front.length]? = some scanned ∧
      (scanned.answer.token? = some .dedent ↔
        state.baseline ≠ 0 ∧ requested.WantsDedent ∧ ∀ earlier ∈ front, ¬ earlier.WantsDedent) ∧
      (scanned.answer.token? ≠ some .dedent → scanned.answer.token? =
        if requested.allows .newline = true ∧ requested.isErrorRecovery = false then some .newline
        else none) ∧
      scanned.reader.span = ⟨source.size, source.size⟩ ∧
      scanned.answer.state.stack = state.stack ∧
      scanned.answer.state.baseline =
        if ∃ wanting ∈ front ++ [requested], wanting.WantsDedent then 0 else state.baseline := by
  obtain ⟨hanswer, hspan⟩ := source.scan_size (state.drained front) requested
  have htoken := (scan_nil (state.drained front) requested).1
  have hstate := (state.drained front).state_scan_nil requested
  rw [State.drained_append] at hstate
  rw [← hanswer] at htoken hstate
  refine ⟨_, source.getElem?_drain state front requested later, ?_, ?_, hspan, ?_, ?_⟩
  · rw [htoken, Layout.token?_final_eq_dedent_iff, state.baseline_drained_ne_zero_iff, and_assoc]
    exact and_congr_right fun _ => and_comm
  · intro hne
    rw [htoken] at hne ⊢
    rw [Layout.token?_final]
    exact if_neg fun h => hne (Layout.token?_final_eq_dedent_iff.mpr h)
  · rw [hstate, State.stack_drained]
  · rw [hstate, State.baseline_drained]

end Offside
