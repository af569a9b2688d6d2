import Offside.Proofs.Buffer

/-!
# Slices of a source

A slice is a range of the bytes in the buffer, read as a text if they are the encoding of one. If an
end lies inside of a character they are not, whatever stands at the other.
-/

namespace Offside

set_option autoImplicit false

/-- What stands in a text from one offset to another. -/
def Between (text : String) (start stop : Nat) (inner : String) : Prop :=
  ∃ front rest, text = front ++ inner ++ rest ∧ start = front.utf8ByteSize ∧
    stop = start + inner.utf8ByteSize

section Between

variable {text inner : String} {start stop : Nat}

theorem between_ofList {front inner rest : List Char}
    (ht : text.toList = front ++ (inner ++ rest)) :
    Between text (encodedSize front) (encodedSize front + encodedSize inner)
      (String.ofList inner) := by
  refine ⟨String.ofList front, String.ofList rest, ?_, ?_, ?_⟩
  · rw [← String.ofList_append, ← String.ofList_append, List.append_assoc, ← ht,
      String.ofList_toList]
  · rw [utf8ByteSize_ofList]
  · rw [utf8ByteSize_ofList]

theorem Between.toByteArray_eq (h : Between text start stop inner) :
    inner.toByteArray = text.toByteArray.extract start stop := by
  obtain ⟨front, rest, rfl, rfl, rfl⟩ := h
  have hinner := ByteArray.extract_append_size_add (a := front.toByteArray)
    (b := (inner ++ rest).toByteArray) (i := 0) (j := inner.utf8ByteSize)
  rw [Nat.add_zero, String.toByteArray_append,
    ByteArray.extract_append_eq_left String.size_toByteArray.symm] at hinner
  rw [String.append_assoc, String.toByteArray_append, String.toByteArray_append]
  exact hinner.symm

end Between

namespace Source

variable {text : String} {start stop : Nat}

theorem between_slice (hs : text.utf8ByteSize ≤ maxOffset) (hl : start ≤ stop)
    (hstart : String.Pos.Raw.IsValid text ⟨start⟩) (hstop : String.Pos.Raw.IsValid text ⟨stop⟩) :
    Between text start stop ((ofString text).slice start stop) := by
  obtain ⟨front, inner, rest, ht, rfl, rfl⟩ := exists_append_of_isValid hl hstart hstop
  have hcut := (before_of_toList_eq ht hs).slice_eq
  rw [hcut]
  exact between_ofList ht

theorem toByteArray_slice (hs : text.utf8ByteSize ≤ maxOffset) (hl : start ≤ stop)
    (hstart : String.Pos.Raw.IsValid text ⟨start⟩) (hstop : String.Pos.Raw.IsValid text ⟨stop⟩) :
    ((ofString text).slice start stop).toByteArray = text.toByteArray.extract start stop :=
  (between_slice hs hl hstart hstop).toByteArray_eq

theorem utf8ByteSize_slice (hs : text.utf8ByteSize ≤ maxOffset) (hl : start ≤ stop)
    (hstart : String.Pos.Raw.IsValid text ⟨start⟩) (hstop : String.Pos.Raw.IsValid text ⟨stop⟩) :
    start + ((ofString text).slice start stop).utf8ByteSize = stop := by
  obtain ⟨-, -, -, -, hsize⟩ := between_slice hs hl hstart hstop
  exact hsize.symm

theorem slice_append_slice (hs : text.utf8ByteSize ≤ maxOffset) {first second third : Nat}
    (hl : first ≤ second) (hr : second ≤ third) (hfirst : String.Pos.Raw.IsValid text ⟨first⟩)
    (hsecond : String.Pos.Raw.IsValid text ⟨second⟩)
    (hthird : String.Pos.Raw.IsValid text ⟨third⟩) :
    (ofString text).slice first second ++ (ofString text).slice second third =
      (ofString text).slice first third := by
  rw [← String.toByteArray_inj, String.toByteArray_append, toByteArray_slice hs hl hfirst hsecond,
    toByteArray_slice hs hr hsecond hthird,
    toByteArray_slice hs (Nat.le_trans hl hr) hfirst hthird]
  exact (ByteArray.extract_eq_extract_append_extract second hl hr).symm

theorem slice_all (hs : text.utf8ByteSize ≤ maxOffset) :
    (ofString text).slice 0 text.utf8ByteSize = text := by
  rw [← String.toByteArray_inj, toByteArray_slice hs (Nat.zero_le _) String.Pos.Raw.isValid_zero
    String.Pos.Raw.isValid_rawEndPos, ← String.size_toByteArray]
  exact ByteArray.extract_zero_size

theorem isValid_of_utf8ByteSize_slice (hs : text.utf8ByteSize ≤ maxOffset)
    (hstart : String.Pos.Raw.IsValid text ⟨start⟩) (hl : start ≤ stop)
    (hstop : stop ≤ text.utf8ByteSize)
    (h : start + ((ofString text).slice start stop).utf8ByteSize = stop) :
    String.Pos.Raw.IsValid text ⟨stop⟩ := by
  by_cases hv : String.Pos.Raw.IsValid text ⟨stop⟩
  · exact hv
  · rw [slice_of_not_isValid hs hl ((size_eq_utf8ByteSize hs).symm ▸ hstop) fun hb => hv hb.2] at h
    obtain rfl : start = stop := h
    exact hstart

theorem utf8ByteSize_slice_le (hs : text.utf8ByteSize ≤ maxOffset) (hl : start ≤ stop)
    (hstop : stop ≤ text.utf8ByteSize) :
    start + ((ofString text).slice start stop).utf8ByteSize ≤ stop := by
  by_cases h : String.Pos.Raw.IsValid text ⟨start⟩ ∧ String.Pos.Raw.IsValid text ⟨stop⟩
  · exact Nat.le_of_eq (utf8ByteSize_slice hs hl h.1 h.2)
  · rwa [slice_of_not_isValid hs hl ((size_eq_utf8ByteSize hs).symm ▸ hstop) h]

/-- The slices from `start` to the first of some places and from each of these to the next. -/
def slices (source : Source) : Nat → List Nat → List String
  | _, [] => []
  | start, stop :: places => source.slice start stop :: slices source stop places

section Cuts

variable {cuts : List Nat}

theorem bounds_of_sorted {cut : Nat}
    (h : (start :: ((cut :: cuts) ++ [stop])).Pairwise (· ≤ ·)) :
    start ≤ cut ∧ cut ≤ stop ∧ (cut :: (cuts ++ [stop])).Pairwise (· ≤ ·) := by
  obtain ⟨hfrom, hlater⟩ := List.pairwise_cons.mp h
  have hto := (List.pairwise_cons.mp hlater).1 stop List.mem_concat_self
  exact ⟨hfrom cut List.mem_cons_self, hto, hlater⟩

/-- Cuts at boundaries lose nothing of what stands between the ends. -/
theorem join_slices (hs : text.utf8ByteSize ≤ maxOffset)
    (h : (start :: (cuts ++ [stop])).Pairwise (· ≤ ·))
    (hstart : String.Pos.Raw.IsValid text ⟨start⟩) (hstop : String.Pos.Raw.IsValid text ⟨stop⟩)
    (hcuts : ∀ cut ∈ cuts, String.Pos.Raw.IsValid text ⟨cut⟩) :
    String.join ((ofString text).slices start (cuts ++ [stop])) =
      (ofString text).slice start stop := by
  induction cuts generalizing start with
  | nil => simp [slices]
  | cons cut cuts ih =>
    obtain ⟨hfrom, hto, hlater⟩ := bounds_of_sorted h
    have hcut := hcuts cut List.mem_cons_self
    rw [List.cons_append, slices, String.join_cons,
      ih hlater hcut fun other hother => hcuts other (List.mem_cons_of_mem cut hother)]
    exact slice_append_slice hs hfrom hto hstart hcut hstop

/-- Wherever the cuts are, no bytes are added. -/
theorem utf8ByteSize_join_slices_le (hs : text.utf8ByteSize ≤ maxOffset)
    (h : (start :: (cuts ++ [stop])).Pairwise (· ≤ ·)) (hstop : stop ≤ text.utf8ByteSize) :
    start + (String.join ((ofString text).slices start (cuts ++ [stop]))).utf8ByteSize ≤ stop := by
  induction cuts generalizing start with
  | nil =>
    have hl := (List.pairwise_cons.mp h).1 stop List.mem_concat_self
    have hle := utf8ByteSize_slice_le hs hl hstop
    simpa [slices] using hle
  | cons cut cuts ih =>
    obtain ⟨hfrom, hto, hlater⟩ := bounds_of_sorted h
    have hfirst := utf8ByteSize_slice_le hs hfrom (Nat.le_trans hto hstop)
    have hrest := ih hlater
    rw [List.cons_append, slices, String.join_cons, String.utf8ByteSize_append]
    omega

/-- A cut that goes through a character loses bytes. -/
theorem isValid_of_join_slices (hs : text.utf8ByteSize ≤ maxOffset)
    (h : (start :: (cuts ++ [stop])).Pairwise (· ≤ ·)) (hstop : stop ≤ text.utf8ByteSize)
    (hstart : String.Pos.Raw.IsValid text ⟨start⟩)
    (hsize : start + (String.join ((ofString text).slices start (cuts ++ [stop]))).utf8ByteSize =
      stop) :
    ∀ cut ∈ cuts, String.Pos.Raw.IsValid text ⟨cut⟩ := by
  induction cuts generalizing start with
  | nil => simp
  | cons cut cuts ih =>
    obtain ⟨hfrom, hto, hlater⟩ := bounds_of_sorted h
    have hfirst := utf8ByteSize_slice_le hs hfrom (Nat.le_trans hto hstop)
    have hrest := utf8ByteSize_join_slices_le hs hlater hstop
    rw [List.cons_append, slices, String.join_cons, String.utf8ByteSize_append] at hsize
    -- Both parts have at most the bytes of their ranges, so neither has fewer.
    have hcut : String.Pos.Raw.IsValid text ⟨cut⟩ :=
      isValid_of_utf8ByteSize_slice hs hstart hfrom (Nat.le_trans hto hstop) (by omega)
    intro other hother
    rcases List.mem_cons.mp hother with rfl | hother
    · exact hcut
    · exact ih hlater hcut (by omega) other hother

end Cuts

/-- What is found in a range of a source. -/
structure Shows (source : Source) (text : String) (start stop : Nat) (found : String) : Prop where
  read : found = (String.fromUTF8? (source.buffer.extract start stop)).getD ""
  whole : String.Pos.Raw.IsValid text ⟨start⟩ → String.Pos.Raw.IsValid text ⟨stop⟩ →
    Between text start stop found
  torn : ¬ (String.Pos.Raw.IsValid text ⟨start⟩ ∧ String.Pos.Raw.IsValid text ⟨stop⟩) →
    found = "" ∧ (start < stop → ¬ (source.buffer.extract start stop).IsValidUTF8)

theorem shows_slice (hs : text.utf8ByteSize ≤ maxOffset) (hl : start ≤ stop)
    (hstop : stop ≤ (ofString text).size) :
    (ofString text).Shows text start stop ((ofString text).slice start stop) := by
  have hbytes : (ofString text).bytes = text.toByteArray := bytes_ofString hs
  constructor
  · rw [extract_buffer hstop, slice, Nat.min_eq_left hstop, Nat.min_eq_left hl]
  · exact between_slice hs hl
  · intro hn
    refine ⟨slice_of_not_isValid hs hl hstop hn, ?_⟩
    intro hlt
    rw [extract_buffer hstop, hbytes]
    exact not_isValidUTF8_extract hlt (size_eq_utf8ByteSize hs ▸ hstop) hn

end Source

/-- A slice is what stands between two boundaries or nothing, so slices can be put together where
they meet, and a source falls into slices without a loss just if it is cut at boundaries. -/
theorem slices_are_never_torn (text : String) (hs : text.utf8ByteSize ≤ maxOffset) :
    let source := Source.ofString text
    (∀ start stop, start ≤ stop → source.Shows text (min start text.utf8ByteSize)
      (min stop text.utf8ByteSize) (source.slice start stop)) ∧
    (∀ first second third, first ≤ second → second ≤ third →
      String.Pos.Raw.IsValid text ⟨first⟩ → String.Pos.Raw.IsValid text ⟨second⟩ →
      String.Pos.Raw.IsValid text ⟨third⟩ →
      source.slice first second ++ source.slice second third = source.slice first third) ∧
    ∀ cuts, (0 :: (cuts ++ [text.utf8ByteSize])).Pairwise (· ≤ ·) →
      (String.join (source.slices 0 (cuts ++ [text.utf8ByteSize])) = text ↔
        ∀ cut ∈ cuts, String.Pos.Raw.IsValid text ⟨cut⟩) := by
  intro source
  have hz : source.size = text.utf8ByteSize := Source.size_eq_utf8ByteSize hs
  refine ⟨?_, ?_, ?_⟩
  · intro start stop hl
    have hstart : min start (min stop source.size) = min start text.utf8ByteSize := by omega
    rw [source.slice_eq_slice_min, hstart, hz]
    exact Source.shows_slice hs (by omega) (hz ▸ Nat.min_le_right _ _)
  · intro first second third hl hr
    exact Source.slice_append_slice hs hl hr
  · intro cuts hcuts
    constructor
    · intro hjoin
      apply Source.isValid_of_join_slices hs hcuts (Nat.le_refl _) String.Pos.Raw.isValid_zero
      rw [Nat.zero_add]
      exact congrArg String.utf8ByteSize hjoin
    · intro hvalid
      rw [Source.join_slices hs hcuts String.Pos.Raw.isValid_zero
        String.Pos.Raw.isValid_rawEndPos hvalid]
      exact Source.slice_all hs

/-- Ranges with both ends inside of characters, and three ways to cut a text of four characters. -/
theorem slices_are_never_torn_between_two :
    let text := "aé😀b"
    let source := Source.ofString text
    text.utf8ByteSize ≤ maxOffset ∧ text.utf8ByteSize = 8 ∧
      source.slice 2 5 = "" ∧ source.Shows text 2 5 (source.slice 2 5) ∧
      source.slice 3 99 = "😀b" ∧ source.Shows text 3 8 (source.slice 3 99) ∧
      source.slice 1 3 ++ source.slice 3 7 = source.slice 1 7 ∧
      String.join (source.slices 0 ([1, 3, 3, 7] ++ [8])) = text ∧
      String.join (source.slices 0 ([1, 4] ++ [8])) ≠ text := by
  intro text source
  have hs : text.utf8ByteSize ≤ maxOffset := by decide +kernel
  have hz : text.utf8ByteSize = 8 := by decide +kernel
  obtain ⟨hshows, happend, hjoin⟩ := slices_are_never_torn text hs
  have htorn := hshows 2 5 (by decide)
  have hover := hshows 3 99 (by decide)
  rw [hz] at htorn hover hjoin
  refine ⟨hs, hz, by decide +kernel, htorn, by decide +kernel, hover, ?_, ?_, ?_⟩
  · exact happend 1 3 7 (by decide) (by decide) (by decide +kernel) (by decide +kernel)
      (by decide +kernel)
  · exact (hjoin [1, 3, 3, 7] (by decide)).mpr (by decide +kernel)
  · exact mt (hjoin [1, 4] (by decide)).mp (by decide +kernel)

end Offside
