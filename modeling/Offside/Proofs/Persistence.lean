import Offside.Proofs.Course

/-!
# States that survive a snapshot

The count of a snapshot is one byte, so a snapshot is exact only for a stack that is not too deep.
No operation makes a stack too deep.
-/

namespace Offside

set_option autoImplicit false

namespace State

variable {state inner : State}

theorem depth_pop_le : state.pop.depth ≤ state.depth := by
  simp [depth, pop]

theorem depth_behind_le (token : Token) : (state.behind token).depth ≤ state.depth := by
  unfold behind
  split
  · exact depth_pop_le
  · exact Nat.le_refl _

theorem depth_le_of_push? {delimiter : Delimiter} (h : state.push? delimiter = some inner) :
    inner.depth ≤ maxDepth := by
  obtain ⟨hd, rfl⟩ := push?_eq_some_iff.mp h
  exact hd

theorem depth_le_of_open? {literal : Literal} (hd : state.depth ≤ maxDepth)
    (h : state.open? literal = some inner) : inner.depth ≤ maxDepth := by
  cases literal with
  | string delimiter => exact depth_le_of_push? h
  | regex =>
    cases h
    exact hd

end State

theorem depth_scan_le {state : State} (hd : state.depth ≤ State.maxDepth) (requested : TokenSet)
    (ahead : List Char) : (scan state requested ahead).state.depth ≤ State.maxDepth := by
  obtain ⟨answer, hc, -, -, hs⟩ := exists_course state requested ahead
  rw [hs]
  cases hc with
  | @piece literal _ _ =>
    simp only [scanPiece]
    cases (literal.piece ahead).token? literal with
    | none => exact hd
    | some token => exact Nat.le_trans (State.depth_behind_le token) hd
  | broken => exact hd
  | due => simpa [State.depth] using hd
  | idle => exact hd
  | refused => exact hd
  | opened _ _ _ _ _ room => exact State.depth_le_of_open? hd room

namespace State

inductive Operation where
  | push (delimiter : Delimiter)
  | pop
  | enter (width : Nat)
  | leave
  | restore (bytes : List UInt8)
  | scan (source : Source) (offset : Nat) (requested : TokenSet)

/-- A full stack stays as it is when one more string is opened. -/
def perform (state : State) : Operation → State
  | .push delimiter => (state.push? delimiter).getD state
  | .pop => state.pop
  | .enter width => state.enterBlock width
  | .leave => state.leaveBlock
  | .restore bytes => state.restore bytes
  | .scan source offset requested => (source.scan offset state requested).answer.state

def after (operations : List Operation) : State := operations.foldl perform {}

theorem depth_perform_le {state : State} (hd : state.depth ≤ maxDepth) (operation : Operation) :
    (state.perform operation).depth ≤ maxDepth := by
  cases operation with
  | push delimiter =>
    simp only [perform]
    cases hp : state.push? delimiter with
    | none => exact hd
    | some inner => exact depth_le_of_push? hp
  | pop => exact Nat.le_trans depth_pop_le hd
  | enter width => exact hd
  | leave => exact hd
  | restore bytes =>
    rw [perform, restore_eq_ofSnapshot]
    exact depth_ofSnapshot_le bytes
  | scan source offset requested => exact depth_scan_le hd requested _

theorem depth_after_le (operations : List Operation) : (after operations).depth ≤ maxDepth := by
  suffices h : ∀ state : State, state.depth ≤ maxDepth →
      (operations.foldl perform state).depth ≤ maxDepth from h {} (Nat.zero_le _)
  induction operations with
  | nil => exact fun _ hd => hd
  | cons operation rest ih =>
    intro state hd
    exact ih _ (depth_perform_le hd operation)

theorem snapshotSize_eq {state : State} (hd : state.depth ≤ maxDepth) :
    state.snapshotSize = state.depth + 2 := by
  simp only [snapshotSize, keptDepth, Nat.min_eq_left hd]
  omega

theorem snapshot_inj {first second : State} (hf : first.depth ≤ maxDepth)
    (hs : second.depth ≤ maxDepth) (h : first.snapshot = second.snapshot) : first = second := by
  have hr := congrArg ofSnapshot h
  rwa [ofSnapshot_snapshot hf, ofSnapshot_snapshot hs] at hr

/-- A state that was reached by operations is not too deep, and its snapshot is two bytes longer
than its stack. Any other such state is turned into it by reading the snapshot back, and none
other has the same snapshot. -/
theorem after_survives_snapshot (operations : List Operation) :
    (after operations).depth ≤ maxDepth ∧
      (after operations).snapshot.length = (after operations).snapshotSize ∧
      (after operations).snapshotSize = (after operations).depth + 2 ∧
      (after operations).snapshotSize ≤ maxSnapshotSize ∧
      (∀ others : List Operation,
        (after others).perform (.restore (after operations).snapshot) = after operations) ∧
      ∀ others : List Operation,
        (after others).snapshot = (after operations).snapshot →
          after others = after operations := by
  have hd := depth_after_le operations
  have hs := snapshotSize_eq hd
  refine ⟨hd, length_snapshot _, hs, ?_, ?_, ?_⟩
  · simp only [maxSnapshotSize]
    omega
  · intro others
    rw [perform, restore_eq_ofSnapshot, ofSnapshot_snapshot hd]
  · intro others h
    exact snapshot_inj (depth_after_le others) hd h

end State

end Offside
