import Offside.Proofs.Cut
import Offside.Proofs.Displacement

/-!
# A scan does not look further than it reads

Where a scan stops before the end, it has seen the character that it has stopped at and none behind
it. Cut off behind that character and continued in any other way, the text gives the same answer.
-/

namespace Offside

set_option autoImplicit false

section Lists

variable {α : Type} {front later : List α} {c : α}

theorem takeWhile_append_cons {p : α → Bool} (other : List α)
    (h : ((front ++ c :: later).takeWhile p).length ≤ front.length) :
    (front ++ c :: other).takeWhile p = (front ++ c :: later).takeWhile p := by
  induction front with
  | nil =>
    cases hc : p c with
    | false => simp [hc]
    | true => simp [hc] at h
  | cons first front ih =>
    by_cases hp : p first = true
    · simp only [List.cons_append, List.takeWhile_cons, hp, if_true, List.length_cons] at h ⊢
      rw [ih (Nat.le_of_succ_le_succ h)]
    · simp [hp]

theorem headD_drop_append_cons (later other : List α) {count : Nat} (h : count ≤ front.length)
    (default : α) :
    ((front ++ c :: other).drop count).headD default =
      ((front ++ c :: later).drop count).headD default := by
  rw [List.drop_append_of_le_length h, List.drop_append_of_le_length h]
  cases front.drop count <;> rfl

end Lists

variable {front later other : List Char} {c : Char}

namespace Literal

variable {literal : Literal}

theorem plainText_append_cons
    (h : (literal.plainText (front ++ c :: later)).length ≤ front.length) :
    literal.plainText (front ++ c :: other) = literal.plainText (front ++ c :: later) := by
  cases front with
  | nil =>
    cases hc : literal.isPlain c with
    | false => simp [plainText, hc]
    | true => simp [plainText, hc] at h
  | cons first front =>
    by_cases hp : literal.isPlain first = true
    · simp only [List.cons_append, plainText, hp, if_true, List.length_cons] at h ⊢
      rw [takeWhile_append_cons other (Nat.le_of_succ_le_succ h)]
    · simp [plainText, hp]

theorem piece_append_cons (h : (literal.piece (front ++ c :: later)).length ≤ front.length) :
    literal.piece (front ++ c :: other) = literal.piece (front ++ c :: later) := by
  rw [length_piece] at h
  simp only [piece, plainText_append_cons h, headD_drop_append_cons later other h]

end Literal

theorem Piece.length_le_moves (piece : Piece) : piece.length ≤ Call.moves piece.calls := by
  have hr (count : Nat) : Call.moves (List.replicate count .advance) = count :=
    Call.moves_replicate (by decide) count
  obtain ⟨length, ending⟩ := piece
  cases length with
  | zero => exact Nat.zero_le _
  | succ length => cases ending <;> simp [Piece.calls, hr]

namespace Layout

theorem brokenSkips_cons (hc : c ≠ '\\') (rest : List Char) : brokenSkips (c :: rest) = 0 := by
  apply brokenSkips_eq_zero
  simpa using hc

theorem brokenSkips_backslash (rest : List Char) :
    brokenSkips ('\\' :: rest) = if rest.head? = some '\r' then 2 else 1 := by
  rcases rest with _ | ⟨first, rest⟩
  · rfl
  · by_cases hr : first = '\r'
    · simp [brokenSkips, hr]
    · simp [brokenSkips, hr]

end Layout

namespace Trivia

/-- What the skips behind the last trivia have not seen does not turn it into more trivia: at a
backslash they go on until it is seen that no line break follows. -/
theorem next?_append_cons (other : List Char) (hn : next? (front ++ c :: later) = none)
    (hb : Layout.brokenSkips (front ++ c :: later) ≤ front.length) :
    next? (front ++ c :: other) = none ∧
      Layout.brokenSkips (front ++ c :: other) = Layout.brokenSkips (front ++ c :: later) := by
  rcases front with _ | ⟨first, front⟩
  · by_cases hc : c = '\\'
    · subst hc
      simp only [List.nil_append, Layout.brokenSkips_backslash] at hb
      split at hb <;> cases hb
    · simp only [List.nil_append, next?_cons_eq_none_iff hc, Layout.brokenSkips_cons hc] at hn ⊢
      exact ⟨hn, trivial⟩
  · by_cases hc : first = '\\'
    · subst hc
      have hh : (front ++ c :: other).head? = (front ++ c :: later).head? := by
        cases front <;> rfl
      simp only [List.cons_append, next?_backslash_eq_none_iff, Layout.brokenSkips_backslash,
        hh] at hn hb ⊢
      refine ⟨⟨hn.1, ?_⟩, trivial⟩
      rcases front with _ | ⟨second, front⟩
      · intro ht
        obtain ⟨rfl, -⟩ := List.cons.inj ht
        simp at hb
      · have ht : (second :: front ++ c :: other).take 2 =
            (second :: front ++ c :: later).take 2 := by
          cases front <;> rfl
        rw [ht]
        exact hn.2
    · simp only [List.cons_append, next?_cons_eq_none_iff hc, Layout.brokenSkips_cons hc] at hn ⊢
      exact ⟨hn, trivial⟩

theorem Fits.of_ne_nil {item : Trivia} {rest : List Char} (h : item.Fits rest) (hr : rest ≠ [])
    (other : List Char) : item.Fits other := by
  cases item with
  | blank kind => trivial
  | comment body ending => exact ⟨h.1, fun he => absurd (h.2 he) hr⟩
  | continuation carriageReturn => trivial

theorem Begins.append_cons {ahead rest : List Char} {items : List Trivia} (other : List Char)
    (h : Begins ahead items rest) (ha : ahead = front ++ c :: later) (hn : next? rest = none)
    (hb : Layout.skips items rest ≤ front.length) :
    ∃ tail, rest = tail ++ c :: later ∧ split (front ++ c :: other) = (items, tail ++ c :: other) ∧
      Layout.brokenSkips (tail ++ c :: other) = Layout.brokenSkips rest := by
  induction h generalizing front with
  | nil rest =>
    subst ha
    obtain ⟨hnext, hbroken⟩ := next?_append_cons other hn hb
    exact ⟨front, rfl, split_of_next?_eq_none hnext, hbroken⟩
  | @cons item ahead rest items fits begins ih =>
    have hlength : item.text.length ≤ front.length :=
      Nat.le_trans item.length_text_le_skips (Nat.le_trans (Nat.le_add_right _ _) hb)
    obtain ⟨front, rfl⟩ : item.text <+: front :=
      List.prefix_of_prefix_length_le ⟨ahead, ha⟩ (List.prefix_append _ _) hlength
    rw [List.append_assoc] at ha
    have hahead := List.append_cancel_left ha
    have hskips : item.text.length + Layout.skips items rest ≤ (item.text ++ front).length :=
      Nat.le_trans (Nat.add_le_add_right item.length_text_le_skips _) hb
    rw [List.length_append] at hskips
    obtain ⟨tail, hrest, hsplit, hbroken⟩ := ih hahead hn (Nat.le_of_add_le_add_left hskips)
    refine ⟨tail, hrest, ?_, hbroken⟩
    have hfits : item.Fits (front ++ c :: other) := fits.of_ne_nil (by simp [hahead]) _
    rw [List.append_assoc, split_of_next?_eq_some (next?_text_append hfits), hsplit]

end Trivia

section Scan

variable {state : State} {requested : TokenSet} {ahead : List Char}

theorem skips_le_moves_scanLayout (state : State) (requested : TokenSet) (ahead : List Char) :
    Layout.skips (Trivia.split ahead).1 (Trivia.split ahead).2 ≤
      Call.moves (scanLayout state requested ahead).calls := by
  obtain ⟨more, -, hc, -⟩ := scanLayout_begins state requested ahead
  rw [hc, Call.moves_append, Layout.calls, Call.moves_mark_cons, Call.moves_replicate (by decide)]
  exact Nat.le_add_right _ _

theorem scanLayout_append_cons (other : List Char)
    (hm : Call.moves (scanLayout state requested (front ++ c :: later)).calls ≤ front.length) :
    scanLayout state requested (front ++ c :: other) =
      scanLayout state requested (front ++ c :: later) := by
  have hb := Nat.le_trans (skips_le_moves_scanLayout state requested _) hm
  obtain ⟨tail, hrest, hsplit, hbroken⟩ :=
    (Trivia.begins_split _).append_cons other rfl (Trivia.next?_split _) hb
  have hhead : (tail ++ c :: other).headD '\x00' =
      (Trivia.split (front ++ c :: later)).2.headD '\x00' := by
    rw [hrest]
    cases tail <;> rfl
  simp only [scanLayout, Layout.measure, hsplit, Layout.skips, hbroken, Layout.measure?, hhead]

theorem scanIn_append_cons {mode : Mode} (other : List Char)
    (hm : Call.moves (scanIn mode state requested (front ++ c :: later)).calls ≤ front.length) :
    scanIn mode state requested (front ++ c :: other) =
      scanIn mode state requested (front ++ c :: later) := by
  cases mode with
  | layout => exact scanLayout_append_cons other hm
  | inside literal =>
    simp only [scanIn] at hm ⊢
    by_cases hx : (literal.piece (front ++ c :: later)).isExhausted = true
    · have hl : (literal.piece (front ++ c :: later)).length ≤ front.length := by
        simp only [Piece.isExhausted, Bool.and_eq_true, beq_iff_eq] at hx
        omega
      rw [if_pos hx] at hm
      rw [Literal.piece_append_cons hl, if_pos hx, if_pos hx]
      exact scanLayout_append_cons other hm
    · rw [if_neg hx] at hm
      rw [Literal.piece_append_cons (Nat.le_trans (Piece.length_le_moves _) hm)]
      simp only [if_neg hx]

/-- Where a scan stops in front of a character, what stands behind it makes no difference. -/
theorem scan_append_cons (other : List Char)
    (hm : Call.moves (scan state requested (front ++ c :: later)).calls ≤ front.length) :
    scan state requested (front ++ c :: other) = scan state requested (front ++ c :: later) := by
  rw [scan, Answer.calls_commit] at hm
  rw [scan, scan, scanIn_append_cons other hm]

end Scan

namespace Reader

theorem cursor_run (reader : Reader) (calls : List Call) :
    (reader.run calls).cursor = Cursor.advanceBy (Call.moves calls) reader.cursor := by
  induction calls generalizing reader with
  | nil => rfl
  | cons call calls ih =>
    rw [run_cons, ih]
    cases call with
    | mark => rw [Call.moves_mark_cons]; rfl
    | advance => rw [Call.moves_cons (by decide)]; rfl
    | skip => rw [Call.moves_cons (by decide)]; rfl

theorem marked?_le_offset_run (reader : Reader) {ahead : List Char}
    (hb : reader.cursor.Before ahead) (hm : ∀ stop ∈ reader.marked?, stop ≤ reader.offset)
    (calls : List Call) :
    ∀ stop ∈ (reader.run calls).marked?, stop ≤ (reader.run calls).offset := by
  induction calls generalizing reader ahead with
  | nil => exact hm
  | cons call calls ih =>
    have hnext := hb.before_advanceBy 1
    have ha : reader.offset ≤ reader.cursor.advance.offset := by
      have he := hb.advanceBy_eq 1
      simp only [Cursor.advanceBy] at he
      rw [he]
      exact Nat.le_add_right _ _
    have hmoved : ∀ stop ∈ reader.marked?, stop ≤ reader.cursor.advance.offset := by
      intro stop hstop
      exact Nat.le_trans (hm stop hstop) ha
    cases call with
    | mark =>
      refine ih reader.mark hb ?_
      rintro stop ⟨⟩
      exact Nat.le_refl _
    | advance => exact ih reader.advance hnext hmoved
    | skip => exact ih reader.skip hnext hmoved

theorem span_stop_le_offset {cursor : Cursor} {ahead : List Char} (hb : cursor.Before ahead)
    (calls : List Call) :
    ((fresh cursor).run calls).span.stop ≤ ((fresh cursor).run calls).offset := by
  have hm := marked?_le_offset_run (fresh cursor) hb (by rintro stop ⟨⟩) calls
  simp only [span]
  cases hk : ((fresh cursor).run calls).marked? with
  | none => exact Nat.le_refl _
  | some stop => exact hm stop hk

/-- Where a reader stops before the end, it has read what is in front of the next character. -/
theorem exists_stop {cursor : Cursor} {ahead : List Char} (hb : cursor.Before ahead)
    (calls : List Call) (hq : ((fresh cursor).run calls).offset < cursor.source.size) :
    ∃ front c later, ahead = front ++ c :: later ∧ front.length = Call.moves calls ∧
      ((fresh cursor).run calls).advance.offset = cursor.offset + encodedSize (front ++ [c]) := by
  have hcursor : ((fresh cursor).run calls).cursor = Cursor.advanceBy (Call.moves calls) cursor :=
    cursor_run (fresh cursor) calls
  have hstop := hb.before_advanceBy (Call.moves calls)
  have hoffset := hb.advanceBy_eq (Call.moves calls)
  cases hd : ahead.drop (Call.moves calls) with
  | nil =>
    rw [hd] at hstop
    have hend := hstop.atEnd_iff.mpr rfl
    simp only [Cursor.atEnd, decide_eq_true_eq, Cursor.source_advanceBy] at hend
    simp only [offset, hcursor] at hq
    omega
  | cons c later =>
    rw [hd] at hstop
    refine ⟨ahead.take (Call.moves calls), c, later, ?_, ?_, ?_⟩
    · rw [← hd, List.take_append_drop]
    · have hl := congrArg List.length hd
      rw [List.length_drop, List.length_cons] at hl
      rw [List.length_take]
      omega
    · have ha : ((fresh cursor).run calls).advance.offset =
          ((fresh cursor).run calls).cursor.advance.offset := rfl
      rw [ha, hcursor, hstop.offset_advance, hoffset, encodedSize_append, encodedSize_cons,
        encodedSize_nil, Nat.add_assoc]
      rfl

end Reader

namespace Source

/-- Every boundary of a text has a boundary at which a scan from there begins: itself, or the end of
the byte order mark in front. -/
theorem exists_start {text : String} (hs : text.utf8ByteSize ≤ maxOffset) {front rest : List Char}
    (h : text.toList = front ++ rest) :
    ∃ lead ahead, text.toList = lead ++ ahead ∧
      max (encodedSize front) (ofString text).contentStart = encodedSize lead := by
  by_cases hc : (ofString text).contentStart ≤ encodedSize front
  · exact ⟨front, rest, h, Nat.max_eq_left hc⟩
  have hm : (ofString text).hasByteOrderMark = true := by
    cases hb : (ofString text).hasByteOrderMark with
    | true => rfl
    | false => simp [contentStart, hb] at hc
  obtain ⟨ahead, hahead⟩ := (hasByteOrderMark_iff hs).mp hm
  refine ⟨['\uFEFF'], ahead, hahead, ?_⟩
  have hw : (ofString text).contentStart = encodedSize ['\uFEFF'] := by
    rw [contentStart, hm]
    decide
  rw [hw, Nat.max_eq_right (by omega)]

theorem exists_toList_eq_of_extract_eq {first second : String} {front later : List Char}
    (hf : first.utf8ByteSize ≤ maxOffset) (hs : second.utf8ByteSize ≤ maxOffset)
    (h : first.toList = front ++ later)
    (he : (ofString second).bytes.extract 0 (encodedSize front) =
      (ofString first).bytes.extract 0 (encodedSize front)) :
    ∃ other, second.toList = front ++ other := by
  have hfirst := (extract_eq_iff_isPrefix hf front).mpr ⟨later, h.symm⟩
  obtain ⟨other, hother⟩ := (extract_eq_iff_isPrefix hs front).mp (he.trans hfirst)
  exact ⟨other, hother.symm⟩

theorem contentStart_congr {first second : String} (hf : first.utf8ByteSize ≤ maxOffset)
    (hs : second.utf8ByteSize ≤ maxOffset) (h : second.toList.head? = first.toList.head?) :
    (ofString second).contentStart = (ofString first).contentStart := by
  have hm : (ofString second).hasByteOrderMark = (ofString first).hasByteOrderMark := by
    rw [Bool.eq_iff_iff, hasByteOrderMark_iff hs, hasByteOrderMark_iff hf]
    simp only [← List.head?_eq_some_iff, h]
  rw [contentStart, contentStart, hm]

theorem slice_congr {first second : Source} {limit start stop : Nat}
    (h : second.bytes.extract 0 limit = first.bytes.extract 0 limit) (hs : stop ≤ limit) :
    second.slice start stop = first.slice start stop := by
  have hsize := congrArg ByteArray.size h
  simp only [ByteArray.size_extract] at hsize
  have hstop : min stop second.size = min stop first.size := by
    simp only [size]
    omega
  have hcut (source : Source) (begins : Nat) :
      source.bytes.extract begins (min stop first.size) =
        (source.bytes.extract 0 limit).extract begins (min stop first.size) := by
    rw [ByteArray.extract_extract, Nat.zero_add, Nat.zero_add,
      Nat.min_eq_left (Nat.le_trans (Nat.min_le_left _ _) hs)]
  simp only [slice, hstop]
  rw [hcut first, hcut second, h]

theorem displaced_scan_of_append_cons {first second : String} {lead front later other : List Char}
    {c : Char} {offset : Nat} {state : State} {requested : TokenSet}
    (hf : first.utf8ByteSize ≤ maxOffset) (hs : second.utf8ByteSize ≤ maxOffset)
    (hfirst : first.toList = lead ++ (front ++ c :: later))
    (hsecond : second.toList = lead ++ (front ++ c :: other))
    (hstart : max offset (ofString first).contentStart = encodedSize lead)
    (hm : Call.moves (Offside.scan state requested (front ++ c :: later)).calls ≤ front.length) :
    ((ofString first).scan offset state requested).Displaced 0
      ((ofString second).scan offset state requested) := by
  have hcontent : (ofString second).contentStart = (ofString first).contentStart := by
    apply contentStart_congr hf hs
    rw [hsecond, hfirst]
    cases lead <;> cases front <;> rfl
  rw [scan_eq hf hfirst hstart]
  rw [← hcontent] at hstart
  rw [scan_eq hs hsecond hstart, scan_append_cons other hm]
  generalize (Offside.scan state requested (front ++ c :: later)).calls = calls at hm
  have hb := before_of_toList_eq hfirst hf
  have htake (behind : List Char) :
      (front ++ c :: behind).take (Call.moves calls) = front.take (Call.moves calls) :=
    List.take_append_of_le_length hm
  have hprefix (behind : List Char) :
      lead ++ front.take (Call.moves calls) <+: lead ++ (front ++ c :: behind) := by
    rw [← htake behind]
    exact (List.prefix_append_right_inj lead).mpr (List.take_prefix _ _)
  have hfresh : Reader.Displaced 0 (Reader.fresh ⟨ofString first, encodedSize lead⟩)
      (Reader.fresh ⟨ofString second, encodedSize lead⟩) := Reader.displaced_fresh 0 _ _ _
  have hreader := hfresh.run hb (before_of_toList_eq hsecond hs)
    ((htake other).trans (htake later).symm)
  refine Scanned.displaced_of_reader rfl hreader ?_
  have hstop : ((Reader.fresh ⟨ofString first, encodedSize lead⟩).run calls).offset =
      encodedSize (lead ++ front.take (Call.moves calls)) := by
    rw [Reader.offset, Reader.cursor_run, Reader.fresh, hb.advanceBy_eq, htake, encodedSize_append]
  have hsame : (ofString second).bytes.extract 0
        (encodedSize (lead ++ front.take (Call.moves calls))) =
      (ofString first).bytes.extract 0 (encodedSize (lead ++ front.take (Call.moves calls))) := by
    rw [(extract_eq_iff_isPrefix hs _).mpr (hsecond ▸ hprefix other),
      (extract_eq_iff_isPrefix hf _).mpr (hfirst ▸ hprefix later)]
  simp only [Reader.source_run, Nat.zero_add]
  apply slice_congr hsame
  rw [← hstop]
  exact Reader.span_stop_le_offset hb calls

end Source

/-- A scan that stops before the end depends on no text behind the character that it stops at. Any
text that agrees up to the end of that character gives the same answer and the same token, and the
reader stops at the same place. -/
theorem scan_ignores_what_follows (text other : String) (ht : text.utf8ByteSize ≤ maxOffset)
    (ho : other.utf8ByteSize ≤ maxOffset) {front rest : List Char}
    (h : text.toList = front ++ rest) (state : State) (requested : TokenSet)
    {scanned again : Scanned}
    (hscanned : (Source.ofString text).scan (encodedSize front) state requested = scanned)
    (hagain : (Source.ofString other).scan (encodedSize front) state requested = again)
    (hq : scanned.reader.offset < (Source.ofString text).size)
    (he : (Source.ofString other).bytes.extract 0 scanned.reader.advance.offset =
      (Source.ofString text).bytes.extract 0 scanned.reader.advance.offset) :
    again.answer = scanned.answer ∧ again.reader.span = scanned.reader.span ∧
      again.reader.text = scanned.reader.text ∧ again.reader.offset = scanned.reader.offset := by
  obtain ⟨lead, ahead, hlead, hstart⟩ := Source.exists_start ht h
  have hscan := Source.scan_eq ht hlead hstart state requested
  rw [hscanned] at hscan
  have hb := Source.before_of_toList_eq hlead ht
  obtain ⟨seen, c, later, rfl, hlength, hstop⟩ :=
    Reader.exists_stop hb (scan state requested ahead).calls (by rwa [hscan] at hq)
  have hsplit : text.toList = (lead ++ (seen ++ [c])) ++ later := by
    rw [hlead]
    simp
  -- The other text has the same characters up to the one that the scan has stopped at.
  rw [hscan, hstop, ← encodedSize_append] at he
  obtain ⟨behind, hbehind⟩ := Source.exists_toList_eq_of_extract_eq ht ho hsplit he
  have hother : other.toList = lead ++ (seen ++ c :: behind) := by
    rw [hbehind]
    simp
  have hd := Source.displaced_scan_of_append_cons ht ho hlead hother hstart
    (Nat.le_of_eq hlength.symm)
  rw [hscanned, hagain] at hd
  exact ⟨hd.answer_eq, hd.span_eq, hd.text_eq, hd.offset_eq⟩

/-- A quote is found without what follows the character behind it. -/
theorem scan_ignores_what_follows_quote :
    let text := "  'é'"
    let other := "  'é\n#"
    let scanned := (Source.ofString text).scan 0 {} (.ofTokens [.stringStart])
    let again := (Source.ofString other).scan 0 {} (.ofTokens [.stringStart])
    scanned.reader.offset < (Source.ofString text).size ∧
      (Source.ofString other).bytes.extract 0 scanned.reader.advance.offset =
        (Source.ofString text).bytes.extract 0 scanned.reader.advance.offset ∧
      again.answer = scanned.answer ∧ again.reader.span = scanned.reader.span ∧
      again.reader.text = scanned.reader.text ∧ again.reader.offset = scanned.reader.offset := by
  intro text other scanned again
  have hq : scanned.reader.offset < (Source.ofString text).size := by decide +kernel
  have he : (Source.ofString other).bytes.extract 0 scanned.reader.advance.offset =
      (Source.ofString text).bytes.extract 0 scanned.reader.advance.offset := by decide +kernel
  refine ⟨hq, he, ?_⟩
  exact scan_ignores_what_follows text other (by decide) (by decide)
    (List.nil_append text.toList).symm {} (.ofTokens [.stringStart]) rfl rfl hq he

end Offside
