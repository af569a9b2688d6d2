import Offside.Host
import Offside.Proofs.Persistence

/-!
# Bytes that are read as snapshots

The count in front of the bytes need not fit what follows it. Reading and writing again puts them
into the one form that snapshots have, and behind the baseline nothing is looked at.
-/

namespace Offside

set_option autoImplicit false

namespace State

/-- The snapshot of the state that the bytes are read as. -/
def normalize (bytes : List UInt8) : List UInt8 := (ofSnapshot bytes).snapshot

/-- The longest run of delimiters from the front whose bytes are there. -/
structure LongestPresent (kept delimiters : List Delimiter) (bytes : List UInt8) : Prop where
  in_front : kept <+: delimiters
  present : kept.map Delimiter.byte <+: bytes
  longest : ∀ others, others <+: delimiters → others.map Delimiter.byte <+: bytes →
    others.length ≤ kept.length

variable {state : State} {bytes rest : List UInt8} {count : UInt8}

section Normalize

theorem map_byte_ofSnapshot (count : UInt8) (rest : List UInt8) :
    (ofSnapshot (count :: rest)).stack.reverse.map Delimiter.byte = rest.take count.toNat := by
  simp [ofSnapshot_cons, Function.comp_def]

theorem depth_ofSnapshot_cons (count : UInt8) (rest : List UInt8) :
    (ofSnapshot (count :: rest)).depth = min count.toNat rest.length := by
  simp [ofSnapshot_cons, depth]

theorem normalize_cons (count : UInt8) (rest : List UInt8) :
    normalize (count :: rest) = UInt8.ofNat (min count.toNat rest.length) ::
      (rest.take count.toNat ++ [rest[count.toNat]?.getD 0]) := by
  rw [normalize, snapshot_of_depth_le (depth_ofSnapshot_le _), depth_ofSnapshot_cons,
    map_byte_ofSnapshot, ofSnapshot_cons]

theorem normalize_normalize (bytes : List UInt8) :
    normalize (normalize bytes) = normalize bytes := by
  rw [normalize, normalize, ofSnapshot_snapshot (depth_ofSnapshot_le bytes)]

theorem length_normalize_cons (count : UInt8) (rest : List UInt8) :
    (normalize (count :: rest)).length = min count.toNat rest.length + 2 := by
  rw [normalize, length_snapshot, snapshotSize_eq (depth_ofSnapshot_le _), depth_ofSnapshot_cons]

theorem normalize_eq_self_iff :
    normalize bytes = bytes ↔
      ∃ count rest, bytes = count :: rest ∧ bytes.length = count.toNat + 2 := by
  constructor
  · intro h
    cases bytes with
    | nil => cases h
    | cons count rest =>
      refine ⟨count, rest, rfl, ?_⟩
      have hlength := congrArg List.length h
      rw [length_normalize_cons] at hlength
      rw [List.length_cons] at hlength ⊢
      omega
  · rintro ⟨count, rest, rfl, hlength⟩
    have hrest : rest.length = count.toNat + 1 := by
      rw [List.length_cons] at hlength
      omega
    have hlast : count.toNat < rest.length := by omega
    rw [normalize_cons, Nat.min_eq_left (Nat.le_of_lt hlast), UInt8.ofNat_toNat,
      List.getElem?_eq_getElem hlast, Option.getD_some, List.take_append_getElem, ← hrest,
      List.take_length]

theorem ofSnapshot_append (h : count.toNat < rest.length) (later : List UInt8) :
    ofSnapshot (count :: rest ++ later) = ofSnapshot (count :: rest) := by
  simp only [ofSnapshot_cons, List.cons_append]
  rw [List.take_append_of_le_length (Nat.le_of_lt h), List.getElem?_append_left h]

end Normalize

section Truncated

variable {kept : List Delimiter}

/-- Behind the count, the bytes of a snapshot that was cut off are those of outer delimiters. -/
theorem exists_kept_of_truncated (hd : state.depth ≤ maxDepth) (hp : bytes <+: state.snapshot)
    (hn : bytes ≠ state.snapshot) :
    bytes = [] ∨ ∃ kept, kept <+: state.stack.reverse ∧
      bytes = UInt8.ofNat state.depth :: kept.map Delimiter.byte := by
  rw [snapshot_of_depth_le hd] at hp hn
  cases bytes with
  | nil => exact .inl rfl
  | cons count rest =>
    obtain ⟨rfl, hrest⟩ := List.cons_prefix_cons.mp hp
    -- The baseline comes last, so what is not the whole ends among the delimiters.
    rcases List.prefix_concat_iff.mp hrest with rfl | hrest
    · exact absurd rfl hn
    · obtain ⟨kept, hkept, rfl⟩ := List.prefix_map_iff.mp hrest
      exact .inr ⟨kept, hkept, rfl⟩

theorem ofSnapshot_map_byte (h : kept.length ≤ count.toNat) :
    ofSnapshot (count :: kept.map Delimiter.byte) = { stack := kept.reverse } := by
  have htake : (kept.map Delimiter.byte).take count.toNat = kept.map Delimiter.byte := by
    apply List.take_of_length_le
    rwa [List.length_map]
  have hnone : (kept.map Delimiter.byte)[count.toNat]? = none := by
    apply List.getElem?_eq_none
    rwa [List.length_map]
  rw [ofSnapshot_cons, htake, hnone]
  simp [Function.comp_def]

theorem longestPresent_map_byte {delimiters : List Delimiter} (h : kept <+: delimiters) :
    LongestPresent kept delimiters (kept.map Delimiter.byte) := by
  refine ⟨h, List.prefix_refl _, ?_⟩
  intro others _ hothers
  simpa using hothers.length_le

theorem ofSnapshot_truncated (hd : state.depth ≤ maxDepth) (hp : bytes <+: state.snapshot)
    (hn : bytes ≠ state.snapshot) :
    LongestPresent (ofSnapshot bytes).stack.reverse state.stack.reverse bytes.tail ∧
      (ofSnapshot bytes).baseline = 0 := by
  rcases exists_kept_of_truncated hd hp hn with rfl | ⟨kept, hkept, rfl⟩
  · exact ⟨longestPresent_map_byte List.nil_prefix, rfl⟩
  · have hlength : kept.length ≤ (UInt8.ofNat state.depth).toNat := by
      rw [toNat_ofNat_depth hd]
      simpa [depth] using hkept.length_le
    rw [ofSnapshot_map_byte hlength, List.reverse_reverse]
    exact ⟨longestPresent_map_byte hkept, rfl⟩

end Truncated

/-- Bytes are read back as the same state, whatever it was before. Written again they are in normal
form, and they were so before just if their count fits their number. The bytes of delimiters are
kept as they are. What stands behind a baseline makes no difference, and what is cut off a snapshot
is missing from the inside. -/
theorem restoring_normalizes (bytes : List UInt8) :
    (∀ state : State, state.restore bytes = ofSnapshot bytes) ∧
      (∀ host : Host, (host.restore bytes).state = ofSnapshot bytes) ∧
      normalize (normalize bytes) = normalize bytes ∧
      (normalize bytes = bytes ↔
        ∃ count rest, bytes = count :: rest ∧ bytes.length = count.toNat + 2) ∧
      (∀ count rest, bytes = count :: rest →
        (ofSnapshot bytes).stack.reverse.map Delimiter.byte = rest.take count.toNat ∧
          (count.toNat + 2 ≤ bytes.length →
            ∀ later, ofSnapshot (bytes ++ later) = ofSnapshot bytes)) ∧
      ∀ state : State, state.depth ≤ maxDepth → bytes <+: state.snapshot →
        bytes ≠ state.snapshot →
          LongestPresent (ofSnapshot bytes).stack.reverse state.stack.reverse bytes.tail ∧
            (ofSnapshot bytes).baseline = 0 := by
  refine ⟨(restore_eq_ofSnapshot · bytes), fun host => restore_eq_ofSnapshot host.state bytes,
    normalize_normalize bytes, normalize_eq_self_iff, ?_, ?_⟩
  · rintro count rest rfl
    refine ⟨map_byte_ofSnapshot count rest, ?_⟩
    intro hlength later
    rw [List.length_cons] at hlength
    exact ofSnapshot_append (by omega) later
  · intro state hd hp hn
    exact ofSnapshot_truncated hd hp hn

/-- A snapshot that ends behind the first of two delimiters, which is of no known quote. -/
theorem restoring_normalizes_cut_off :
    let state : State := { stack := [.ofQuote .back, ⟨0xF8⟩], baseline := 9 }
    let bytes : List UInt8 := [2, 0xF8]
    state.snapshot = [2, 0xF8, 4, 9] ∧ normalize bytes = [1, 0xF8, 0] ∧
      normalize (normalize bytes) = normalize bytes ∧ normalize bytes ≠ bytes ∧
      LongestPresent (ofSnapshot bytes).stack.reverse state.stack.reverse bytes.tail ∧
      (ofSnapshot bytes).baseline = 0 := by
  intro state bytes
  have hp : bytes <+: state.snapshot := ⟨[4, 9], by decide⟩
  obtain ⟨-, -, hagain, hself, -, htruncated⟩ := restoring_normalizes bytes
  refine ⟨by decide, by decide, hagain, ?_, htruncated state (by decide) hp (by decide)⟩
  rw [Ne, hself]
  rintro ⟨count, rest, hbytes, hlength⟩
  obtain ⟨rfl, rfl⟩ := List.cons.inj hbytes
  exact absurd hlength (by decide)

section Write

variable {capacity : Nat} {buffer : Vector UInt8 capacity}

theorem snapshotSize_le (state : State) : state.snapshotSize ≤ snapshotBufferSize := by
  have hkept : state.keptDepth ≤ 255 := Nat.min_le_right _ _
  simp only [snapshotSize, snapshotBufferSize]
  omega

theorem writeSnapshot_of_le (h : state.snapshotSize ≤ capacity) :
    state.writeSnapshot buffer = (.ok state.snapshotSize, (state.writeTo buffer h).2) := by
  rw [writeSnapshot, dif_neg (Nat.not_lt.mpr h)]
  rfl

theorem writeSnapshot_of_lt (h : capacity < state.snapshotSize) :
    state.writeSnapshot buffer =
      (.error (.bufferTooSmall state.snapshotSize capacity), buffer) := by
  rw [writeSnapshot, dif_pos h]

theorem writeSnapshot_eq_ok_iff :
    (∃ count, (state.writeSnapshot buffer).1 = .ok count) ↔ state.snapshotSize ≤ capacity := by
  constructor
  · rintro ⟨count, hcount⟩
    apply Nat.not_lt.mp
    intro hlt
    rw [writeSnapshot_of_lt hlt] at hcount
    cases hcount
  · intro hle
    exact ⟨_, by rw [writeSnapshot_of_le hle]⟩

end Write

/-- A snapshot is written just if the buffer is large enough, as the one that a parser keeps always
is. Then it fills the front of the buffer and leaves the rest as it was, and the state is read back
from the whole buffer. Otherwise nothing is written, and the error tells what was needed. -/
theorem writeSnapshot_all_or_nothing (state : State) (hd : state.depth ≤ maxDepth) {capacity : Nat}
    (buffer : Vector UInt8 capacity) :
    let written := state.writeSnapshot buffer
    ((∃ count, written.1 = .ok count) ↔ state.snapshotSize ≤ capacity) ∧
      (capacity = snapshotBufferSize → ∃ count, written.1 = .ok count) ∧
      (∀ count, written.1 = .ok count →
        count = state.snapshot.length ∧ written.2.toList.take count = state.snapshot ∧
          written.2.toList.drop count = buffer.toList.drop count ∧
          ∀ before : State, before.restore written.2.toList = state) ∧
      ∀ error, written.1 = .error error →
        written.2 = buffer ∧ error = .bufferTooSmall state.snapshotSize capacity := by
  intro written
  refine ⟨writeSnapshot_eq_ok_iff, ?_, ?_, ?_⟩
  · rintro rfl
    exact writeSnapshot_eq_ok_iff.mpr state.snapshotSize_le
  · intro count hcount
    have hsize := length_snapshot state
    have hle := writeSnapshot_eq_ok_iff.mp ⟨count, hcount⟩
    have hwritten : written = _ := writeSnapshot_of_le hle
    rw [hwritten] at hcount ⊢
    cases hcount
    simp only [toList_writeTo_eq_append, restore_eq_ofSnapshot]
    exact ⟨hsize.symm, List.take_left' hsize, List.drop_left' hsize,
      fun _ => ofSnapshot_snapshot_append hd _⟩
  · intro error herror
    have hlt : capacity < state.snapshotSize := by
      apply Nat.not_le.mp
      intro hle
      obtain ⟨count, hcount⟩ := writeSnapshot_eq_ok_iff.mpr hle
      cases herror.symm.trans hcount
    have hwritten : written = _ := writeSnapshot_of_lt hlt
    rw [hwritten] at herror ⊢
    cases herror
    exact ⟨rfl, rfl⟩

/-- The deepest stack just fits a buffer of 257 bytes, and one byte less is refused. -/
theorem writeSnapshot_all_or_nothing_full :
    let state : State := { stack := List.replicate 255 (.ofQuote .single), baseline := 8 }
    let buffer : Vector UInt8 257 := Vector.replicate 257 0xAA
    let short : Vector UInt8 256 := Vector.replicate 256 0xAA
    let other : State := { stack := [.ofQuote .back], baseline := 4 }
    state.depth ≤ maxDepth ∧ (state.writeSnapshot buffer).1 = .ok 257 ∧
      other.restore (state.writeSnapshot buffer).2.toList = state ∧
      state.writeSnapshot short = (.error (.bufferTooSmall 257 256), short) := by
  intro state buffer short other
  have hdepth : state.depth = 255 := List.length_replicate
  have hd : state.depth ≤ maxDepth := Nat.le_of_eq hdepth
  have hsize : state.snapshotSize = 257 := by rw [snapshotSize_eq hd, hdepth]
  obtain ⟨hok, -, hfits, -⟩ := writeSnapshot_all_or_nothing state hd buffer
  obtain ⟨hshort, -, -, hrefused⟩ := writeSnapshot_all_or_nothing state hd short
  obtain ⟨count, hcount⟩ := hok.mpr (Nat.le_of_eq hsize)
  obtain ⟨hlength, -, -, hread⟩ := hfits count hcount
  refine ⟨hd, ?_, hread other, ?_⟩
  · rw [hcount, hlength, length_snapshot, hsize]
  · cases hresult : (state.writeSnapshot short).1 with
    | ok count =>
      have hle := hshort.mp ⟨count, hresult⟩
      omega
    | error error =>
      obtain ⟨hsame, herror⟩ := hrefused error hresult
      rw [hsize] at herror
      exact Prod.ext (hresult.trans (congrArg Except.error herror)) hsame

end State

end Offside
