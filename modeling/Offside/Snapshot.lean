import Offside.State

/-!
# Snapshots

A snapshot is a state as bytes: the depth of the stack, one byte for each delimiter from the
outermost to the innermost, and the baseline. Any bytes can be read back.
-/

namespace Offside

set_option autoImplicit false

namespace State

/-- The delimiters that a snapshot keeps; its count is one byte. -/
def keptDepth (state : State) : Nat := min state.depth maxDepth

def snapshotSize (state : State) : Nat := 1 + state.keptDepth + 1

def maxSnapshotSize : Nat := 1 + maxDepth + 1

/-- The size of the buffer that a parser keeps for each snapshot. -/
def snapshotBufferSize : Nat := 1024

variable {capacity : Nat}

theorem room_of_snapshotSize_le {state : State} (h : state.snapshotSize ≤ capacity) :
    1 + state.keptDepth < capacity := by
  rw [snapshotSize] at h
  omega

/-- Writes delimiters one by one from `place` on, until there is none or `slots` are filled. -/
def writeDelimiters (buffer : Vector UInt8 capacity) (place : Nat) :
    (slots : Nat) → List Delimiter → place + slots ≤ capacity → Vector UInt8 capacity
  | slots + 1, delimiter :: rest, h =>
    writeDelimiters (buffer.set place delimiter.byte) (place + 1) slots rest (by omega)
  | 0, _, _ | _, [], _ => buffer

/-- Writes the snapshot to the front of a buffer that is large enough. The answer is the number of
bytes written, with the buffer as it is afterwards. -/
def writeTo (state : State) (buffer : Vector UInt8 capacity) (h : state.snapshotSize ≤ capacity) :
    Nat × Vector UInt8 capacity :=
  have := room_of_snapshotSize_le h
  -- The count does not wrap, whatever the limit is.
  let counted := buffer.set 0 (UInt8.ofNat (min state.keptDepth 255))
  let place := 1
  let filled := writeDelimiters counted place state.keptDepth state.stack.reverse (by omega)
  let place := place + state.keptDepth
  (place + 1, filled.set place state.baseline)

/-- The snapshot is what is written into a buffer of zeros. -/
def snapshot (state : State) : List UInt8 :=
  let written := state.writeTo (Vector.replicate state.snapshotSize 0) (Nat.le_refl _)
  written.2.toList.take written.1

/-- Forgets the state and reads the one of a snapshot. -/
def restore (state : State) (bytes : List UInt8) : State :=
  let cleared := { state with stack := [] }.leaveBlock
  match bytes with
  | [] => cleared
  | count :: rest =>
    let present := min count.toNat rest.length
    let opened := ((rest.take present).map Delimiter.mk).reverse
    { cleared with
      stack := opened ++ cleared.stack
      baseline := rest[count.toNat]?.getD 0 }

def ofSnapshot (bytes : List UInt8) : State := restore {} bytes

inductive WriteError where
  | bufferTooSmall (needed capacity : Nat)
  deriving DecidableEq, Repr

def WriteError.message : WriteError → String
  | bufferTooSmall needed capacity =>
    "scanner state needs " ++ toString needed ++ " bytes but the buffer holds " ++
      toString capacity

/-- Writes the snapshot to the front of a buffer, unless the buffer is too small. -/
def writeSnapshot (state : State) (buffer : Vector UInt8 capacity) :
    Except WriteError Nat × Vector UInt8 capacity :=
  if h : capacity < state.snapshotSize then
    (.error (.bufferTooSmall state.snapshotSize capacity), buffer)
  else
    let written := state.writeTo buffer (Nat.le_of_not_lt h)
    (.ok written.1, written.2)

section Writing

variable {state : State} {buffer : Vector UInt8 capacity}

theorem toList_set {place : Nat} {byte : UInt8} (h : place < capacity) :
    (buffer.set place byte).toList =
      buffer.toList.take place ++ byte :: buffer.toList.drop (place + 1) := by
  rw [Vector.toList_set, List.set_eq_take_append_cons_drop, if_pos (by simpa using h)]

theorem take_toList_set {place : Nat} {byte : UInt8} (h : place < capacity) :
    (buffer.set place byte).toList.take (place + 1) = buffer.toList.take place ++ [byte] := by
  have hfront : (buffer.toList.take place ++ [byte]).length = place + 1 := by
    rw [List.length_append, List.length_take, Vector.length_toList, Nat.min_eq_left (by omega),
      List.length_singleton]
  rw [toList_set, List.append_cons, List.take_left' hfront]

/-- Only the slots that get a delimiter change. -/
theorem toList_writeDelimiters {place slots : Nat} {delimiters : List Delimiter}
    (h : place + slots ≤ capacity) :
    (writeDelimiters buffer place slots delimiters h).toList =
      buffer.toList.take place ++ (delimiters.take slots).map Delimiter.byte ++
        buffer.toList.drop (place + min slots delimiters.length) := by
  induction delimiters generalizing buffer place slots with
  | nil => cases slots <;> simp [writeDelimiters]
  | cons delimiter rest ih =>
    cases slots with
    | zero => simp [writeDelimiters]
    | succ slots =>
      have hrear : place + 1 + min slots rest.length =
          place + min (slots + 1) (rest.length + 1) := by
        omega
      rw [writeDelimiters, ih, take_toList_set, Vector.toList_set, List.drop_set_of_lt (by omega),
        List.length_cons, hrear, List.take_succ_cons, List.map_cons, List.append_assoc,
        List.append_assoc, List.append_assoc, List.singleton_append, List.cons_append]

theorem length_take_keptDepth (state : State) :
    (state.stack.reverse.take state.keptDepth).length = state.keptDepth := by
  rw [List.length_take, List.length_reverse]
  exact Nat.min_eq_left (Nat.min_le_left _ _)

@[simp] theorem writeTo_fst (h : state.snapshotSize ≤ capacity) :
    (state.writeTo buffer h).1 = state.snapshotSize := rfl

/-- Behind the snapshot the buffer is as it was. -/
theorem toList_writeTo (h : state.snapshotSize ≤ capacity) :
    (state.writeTo buffer h).2.toList =
      UInt8.ofNat state.keptDepth ::
        ((state.stack.reverse.take state.keptDepth).map Delimiter.byte ++
          state.baseline :: buffer.toList.drop state.snapshotSize) := by
  have hkept : min state.keptDepth state.stack.reverse.length = state.keptDepth := by
    rw [← List.length_take, length_take_keptDepth]
  have hcount : min state.keptDepth 255 = state.keptDepth :=
    Nat.min_eq_left (Nat.min_le_right _ _)
  have hfront : (UInt8.ofNat state.keptDepth ::
      (state.stack.reverse.take state.keptDepth).map Delimiter.byte).length =
        1 + state.keptDepth := by
    rw [List.length_cons, List.length_map, length_take_keptDepth, Nat.add_comm]
  have hroom := room_of_snapshotSize_le h
  have hfilled : (writeDelimiters (buffer.set 0 (UInt8.ofNat state.keptDepth)) 1 state.keptDepth
      state.stack.reverse (by omega)).toList =
        (UInt8.ofNat state.keptDepth :: (state.stack.reverse.take state.keptDepth).map
          Delimiter.byte) ++ buffer.toList.drop (1 + state.keptDepth) := by
    rw [toList_writeDelimiters, toList_set, hkept, Nat.add_comm 1]
    simp
  simp only [writeTo, hcount]
  rw [toList_set, hfilled, List.take_left' hfront, ← List.drop_drop, List.drop_left' hfront,
    List.drop_drop, List.cons_append, snapshotSize]

@[simp] theorem length_snapshot (state : State) : state.snapshot.length = state.snapshotSize := by
  rw [snapshot, writeTo_fst, List.length_take, Vector.length_toList, Nat.min_self]

theorem snapshot_eq (state : State) :
    state.snapshot = UInt8.ofNat state.keptDepth ::
      ((state.stack.reverse.take state.keptDepth).map Delimiter.byte ++ [state.baseline]) := by
  rw [snapshot, writeTo_fst, List.take_of_length_le (Nat.le_of_eq Vector.length_toList),
    toList_writeTo, List.drop_of_length_le (Nat.le_of_eq Vector.length_toList)]

theorem toList_writeTo_eq_append (h : state.snapshotSize ≤ capacity) :
    (state.writeTo buffer h).2.toList =
      state.snapshot ++ buffer.toList.drop state.snapshotSize := by
  rw [toList_writeTo, snapshot_eq, List.cons_append, List.append_assoc, List.singleton_append]

end Writing

theorem restore_cons (state : State) (count : UInt8) (rest : List UInt8) :
    state.restore (count :: rest) =
      { stack := ((rest.take count.toNat).map Delimiter.mk).reverse
        baseline := rest[count.toNat]?.getD 0 } := by
  simp only [restore, leaveBlock, List.append_nil, ← List.take_eq_take_min]

/-- Nothing is left of the state before. -/
theorem restore_eq_ofSnapshot (state : State) (bytes : List UInt8) :
    state.restore bytes = ofSnapshot bytes := by
  cases bytes with
  | nil => rfl
  | cons count rest => rw [ofSnapshot, restore_cons, restore_cons]

theorem ofSnapshot_cons (count : UInt8) (rest : List UInt8) :
    ofSnapshot (count :: rest) =
      { stack := ((rest.take count.toNat).map Delimiter.mk).reverse
        baseline := rest[count.toNat]?.getD 0 } :=
  restore_cons {} count rest

theorem toNat_ofNat_depth {state : State} (h : state.depth ≤ maxDepth) :
    (UInt8.ofNat state.depth).toNat = state.depth := by
  have hlt : state.depth < 256 := by
    simp only [maxDepth] at h
    omega
  simp [UInt8.toNat_ofNat', Nat.mod_eq_of_lt hlt]

theorem snapshot_of_depth_le {state : State} (h : state.depth ≤ maxDepth) :
    state.snapshot = UInt8.ofNat state.depth ::
      (state.stack.reverse.map Delimiter.byte ++ [state.baseline]) := by
  have hk : state.keptDepth = state.depth := Nat.min_eq_left h
  have ht : state.stack.reverse.take state.depth = state.stack.reverse :=
    List.take_of_length_le (by simp [depth])
  rw [snapshot_eq, hk, ht]

theorem ofSnapshot_snapshot_append {state : State} (h : state.depth ≤ maxDepth)
    (later : List UInt8) : ofSnapshot (state.snapshot ++ later) = state := by
  have hn := toNat_ofNat_depth h
  have hl : (state.stack.reverse.map Delimiter.byte).length = state.depth := by simp [depth]
  simp only [snapshot_of_depth_le h, ofSnapshot_cons, List.cons_append, hn, List.append_assoc]
  rw [List.take_append_of_le_length (by omega), List.take_of_length_le (by omega),
    List.getElem?_append_right (by omega), hl]
  cases state
  simp [Function.comp_def]

theorem ofSnapshot_snapshot {state : State} (h : state.depth ≤ maxDepth) :
    ofSnapshot state.snapshot = state := by
  simpa using ofSnapshot_snapshot_append h []

theorem depth_ofSnapshot_le (bytes : List UInt8) : (ofSnapshot bytes).depth ≤ maxDepth := by
  cases bytes with
  | nil => exact Nat.zero_le _
  | cons count rest =>
    have := count.toNat_lt
    simp only [ofSnapshot_cons, depth, maxDepth, List.length_reverse, List.length_map,
      List.length_take]
    omega

end State

end Offside
