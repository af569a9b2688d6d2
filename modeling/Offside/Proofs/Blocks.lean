import Offside.Proofs.History

/-!
# Blocks in a history

INDENT and DEDENT take no text, so only the baseline keeps them from being found again and again. In
a history the two alternate, and at one place there is at most one of them.
-/

namespace Offside

set_option autoImplicit false

def blockRecords (records : List Record) : List Record := records.filter Record.isBlock

theorem blockRecords_append_of_isBlock {front : List Record} {record : Record}
    (h : record.isBlock = true) :
    blockRecords (front ++ [record]) = blockRecords front ++ [record] := by
  simp [blockRecords, h]

theorem blockRecords_append_of_not_isBlock {front : List Record} {record : Record}
    (h : record.isBlock = false) : blockRecords (front ++ [record]) = blockRecords front := by
  simp [blockRecords, h]

def Alternating (blocks : List Record) : Prop :=
  ∀ index record, blocks[index]? = some record →
    record.token? = some (if index % 2 = 0 then .indent else .dedent)

namespace Alternating

variable {blocks : List Record} {record : Record}

theorem concat (h : Alternating blocks)
    (ht : record.token? = some (if blocks.length % 2 = 0 then .indent else .dedent)) :
    Alternating (blocks ++ [record]) := by
  intro index other ho
  rcases Nat.lt_trichotomy index blocks.length with hi | rfl | hi
  · rw [List.getElem?_append_left hi] at ho
    exact h index other ho
  · rw [List.getElem?_concat_length, Option.some.injEq] at ho
    rwa [← ho]
  · have hn : (blocks ++ [record]).length ≤ index := by
      rw [List.length_append, List.length_singleton]
      exact hi
    rw [List.getElem?_eq_none hn] at ho
    cases ho

theorem last_iff (h : Alternating blocks) :
    (∃ record, blocks.getLast? = some record ∧ record.token? = some .indent) ↔
      blocks.length % 2 = 1 := by
  constructor
  · rintro ⟨record, hl, ht⟩
    rw [List.getLast?_eq_getElem?] at hl
    have ha := h _ record hl
    have hp : blocks.length - 1 < blocks.length := (List.getElem?_eq_some_iff.mp hl).1
    rw [ht] at ha
    split at ha
    · omega
    · cases ha
  · intro hodd
    have hp : blocks.length - 1 < blocks.length := by omega
    have hl : blocks[blocks.length - 1]? = some blocks[blocks.length - 1] :=
      List.getElem?_eq_getElem hp
    have heven : (blocks.length - 1) % 2 = 0 := by omega
    have ha := h _ _ hl
    rw [if_pos heven] at ha
    refine ⟨_, ?_, ha⟩
    rw [List.getLast?_eq_getElem?, hl]

end Alternating

/-- Blocks are entered and left in turn, and the baseline is the indentation of the one that has
been entered last, as long as that is not left. -/
structure InTurn (blocks : List Record) (baseline : UInt8) : Prop where
  alternating : Alternating blocks
  inside_iff : baseline ≠ 0 ↔
    ∃ record, blocks.getLast? = some record ∧ record.token? = some .indent
  width_eq : ∀ record, blocks.getLast? = some record → record.token? = some .indent →
    ∃ layout, record.layout? = some layout ∧ baseline.toNat = min State.maxBaseline layout.indent

namespace InTurn

variable {blocks : List Record} {baseline inner : UInt8} {record : Record}

theorem nil : InTurn [] 0 := by
  refine ⟨?_, ?_, ?_⟩
  · intro index record h
    cases h
  · simp
  · intro record h
    cases h

theorem enter {layout : Layout} (h : InTurn blocks 0) (ht : record.token? = some .indent)
    (hl : record.layout? = some layout) (hw : 0 < layout.indent)
    (hi : inner.toNat = min layout.indent State.maxBaseline) :
    InTurn (blocks ++ [record]) inner := by
  have heven : blocks.length % 2 = 0 := by
    have hn : ¬blocks.length % 2 = 1 := by
      rw [← h.alternating.last_iff, ← h.inside_iff]
      exact fun hne => hne rfl
    omega
  refine ⟨h.alternating.concat (by rw [ht, if_pos heven]), ?_, ?_⟩
  · have hne : inner ≠ 0 := by
      rintro rfl
      simp only [UInt8.toNat_zero, State.maxBaseline] at hi
      omega
    exact ⟨fun _ => ⟨record, List.getLast?_concat, ht⟩, fun _ => hne⟩
  · intro other ho _
    rw [List.getLast?_concat, Option.some.injEq] at ho
    subst ho
    exact ⟨layout, hl, by rw [hi, Nat.min_comm]⟩

theorem leave (h : InTurn blocks baseline) (hb : baseline ≠ 0)
    (ht : record.token? = some .dedent) : InTurn (blocks ++ [record]) 0 := by
  have hodd : blocks.length % 2 = 1 := h.alternating.last_iff.mp (h.inside_iff.mp hb)
  have hn : ¬∃ other, (blocks ++ [record]).getLast? = some other ∧ other.token? = some .indent := by
    rintro ⟨other, ho, hi⟩
    rw [List.getLast?_concat, Option.some.injEq] at ho
    rw [← ho, ht] at hi
    cases hi
  refine ⟨h.alternating.concat ?_, ?_, ?_⟩
  · rw [ht, if_neg (by omega)]
  · exact ⟨fun hne => absurd rfl hne, fun ho => absurd ho hn⟩
  · exact fun other ho hi => absurd ⟨other, ho, hi⟩ hn

theorem step {front : List Record} (ht : record.Told)
    (h : InTurn (blockRecords front) record.before.baseline) :
    InTurn (blockRecords (front ++ [record])) record.after.baseline := by
  rcases ht.baseline_cases with ⟨hi, hb, layout, hl, hw, ha⟩ | ⟨hd, hb, -, ha⟩ | ⟨hn, ha⟩
  · rw [blockRecords_append_of_isBlock (by simp [Record.isBlock, hi])]
    rw [hb] at h
    exact h.enter hi hl hw ha
  · rw [blockRecords_append_of_isBlock (by simp [Record.isBlock, hd]), ha]
    exact h.leave hb hd
  · rwa [blockRecords_append_of_not_isBlock hn, ha]

end InTurn

theorem Record.Told.baseline_eq {record : Record} (h : record.Told)
    (hb : record.before.baseline ≠ 0) (ha : record.after.baseline ≠ 0) :
    record.after.baseline = record.before.baseline := by
  rcases h.baseline_cases with ⟨-, hi, -⟩ | ⟨-, -, -, hd⟩ | ⟨-, hn⟩
  · exact absurd hi hb
  · exact absurd hd ha
  · exact hn

/-- There is a block just if the line is indented, so no token of a block is due there. -/
def Settled (layout? : Option Layout) (baseline : UInt8) : Prop :=
  ∀ layout, layout? = some layout → (baseline = 0 ↔ layout.indent = 0)

namespace Record.Told

variable {record : Record}

theorem settled_of_isBlock (h : record.Told) (hb : record.isBlock = true) :
    Settled record.layout? record.after.baseline := by
  intro other ho
  rcases h.baseline_cases with ⟨-, -, layout, hl, hw, ha⟩ | ⟨-, -, ⟨layout, hl, hw⟩, ha⟩ | ⟨hn, -⟩
  · rw [hl, Option.some.injEq] at ho
    subst ho
    rw [← UInt8.toNat_inj, ha]
    simp only [UInt8.toNat_zero, State.maxBaseline]
    omega
  · rw [hl, Option.some.injEq] at ho
    subst ho
    exact iff_of_true ha hw
  · rw [hn] at hb
    cases hb

theorem of_settled (h : record.Told) (hs : Settled record.layout? record.before.baseline) :
    record.isBlock = false ∧ record.after.baseline = record.before.baseline := by
  rcases h.baseline_cases with ⟨-, hb, layout, hl, hw, -⟩ | ⟨-, hb, ⟨layout, hl, hw⟩, -⟩ | hn
  · have := (hs layout hl).mp hb
    omega
  · exact absurd ((hs layout hl).mpr hw) hb
  · exact hn

end Record.Told

namespace Linked

variable {first last : State} {records : List Record} {layout? : Option Layout}

theorem blockRecords_of_settled (h : Linked first records last)
    (hl : ∀ record ∈ records, record.layout? = layout?) (hs : Settled layout? first.baseline) :
    blockRecords records = [] := by
  induction h with
  | nil state => rfl
  | @cons record later last told rest ih =>
    obtain ⟨hlayout, hlater⟩ := List.forall_mem_cons.mp hl
    obtain ⟨hn, ha⟩ := told.of_settled (by rwa [hlayout])
    have hi := ih hlater (by rwa [ha])
    simpa [blockRecords, hn] using hi

/-- A token of a block settles its place, and no other token unsettles it. -/
theorem length_blockRecords_le (h : Linked first records last)
    (hl : ∀ record ∈ records, record.layout? = layout?) : (blockRecords records).length ≤ 1 := by
  induction h with
  | nil state => exact Nat.zero_le 1
  | @cons record later last told rest ih =>
    obtain ⟨hlayout, hlater⟩ := List.forall_mem_cons.mp hl
    cases hb : record.isBlock with
    | false =>
      have hi := ih hlater
      simpa [blockRecords, hb] using hi
    | true =>
      have hs := told.settled_of_isBlock hb
      rw [hlayout] at hs
      have hn := rest.blockRecords_of_settled hlater hs
      have hr : blockRecords (record :: later) = record :: blockRecords later := by
        simp [blockRecords, hb]
      rw [hr, hn]
      exact Nat.le_refl 1

end Linked

theorem State.layout?_of_mem_history {input : String} {offset : Nat} {requests : List TokenSet}
    {state : State} :
    ∀ record ∈ (state.history (requests.map fun requested => ⟨input, offset, requested⟩)).1,
      record.layout? = (Source.ofString input).layout? offset := by
  induction requests generalizing state with
  | nil => simp [history]
  | cons requested later ih => exact List.forall_mem_cons.mpr ⟨rfl, ih⟩

/-- Scans that all begin at one place of one text find at most one INDENT or DEDENT between them,
from whatever state and whatever is requested of each. -/
theorem one_block_token_at_a_place (input : String) (offset : Nat) (state : State)
    (requests : List TokenSet) :
    let attempts : List Attempt := requests.map fun requested => ⟨input, offset, requested⟩
    ((state.history attempts).1.filter Record.isBlock).length ≤ 1 :=
  (state.linked_history _).length_blockRecords_le State.layout?_of_mem_history

end Offside
