import Offside.Proofs.Foresight
import Offside.Proofs.Transition

/-!
# A NUL in the text

A NUL reads like the end of the input, and a scan stops in front of it. There is one exception: a
comment takes the character that ends it, be it a NUL, and layout is measured on behind it.
-/

namespace Offside

set_option autoImplicit false

def Source.take (source : Source) (count : Nat) : Source := ⟨source.bytes.extract 0 count⟩

namespace Trivia

/-- The trivia in front runs to the end of the text, which lies in a comment. -/
def EndsInComment (ahead : List Char) : Prop :=
  ∃ items body, Begins ahead (items ++ [comment body .endOfInput]) []

variable {item : Trivia} {ahead rest seen : List Char} {items : List Trivia} {body : List Char}

theorem Fits.of_closed (h : item.Fits rest) (hc : ∀ body, item ≠ comment body .endOfInput)
    (other : List Char) : item.Fits other := by
  cases item with
  | blank kind => trivial
  | comment body ending =>
    refine ⟨h.1, ?_⟩
    rintro rfl
    exact absurd rfl (hc body)
  | continuation carriageReturn => trivial

theorem Begins.append (h : Begins ahead items rest) (hc : AllClosed items) (more : List Char) :
    Begins (ahead ++ more) items (rest ++ more) := by
  induction h with
  | nil rest => exact .nil _
  | cons fits later ih =>
    obtain ⟨hitem, hitems⟩ := hc.of_cons
    rw [List.append_assoc]
    exact .cons (fits.of_closed hitem _) (ih hitems)

theorem Begins.flatMap_text_append (h : Begins ahead items rest) :
    items.flatMap text ++ rest = ahead := by
  induction h with
  | nil rest => rfl
  | cons fits later ih => rw [List.flatMap_cons, List.append_assoc, ih]

theorem Begins.endsInComment (h : Begins ahead items rest)
    (hb : comment body .endOfInput ∈ items) : EndsInComment ahead := by
  induction h with
  | nil rest => simp at hb
  | @cons item ahead rest items fits later ih =>
    rcases List.mem_cons.mp hb with rfl | hb
    · obtain rfl : ahead = [] := fits.2 rfl
      exact ⟨[], body, .cons fits (.nil [])⟩
    · obtain ⟨others, other, ho⟩ := ih hb
      exact ⟨item :: others, other, .cons fits ho⟩

theorem not_endsInComment_iff : ¬ EndsInComment ahead ↔ AllClosed (split ahead).1 := by
  constructor
  · intro h body hb
    exact h ((begins_split ahead).endsInComment hb)
  · rintro h ⟨items, body, hb⟩
    apply h body
    rw [hb.split_eq]
    simp

theorem Begins.append_nul (h : Begins seen (items ++ [comment body .endOfInput]) [])
    (later : List Char) :
    Begins (seen ++ '\x00' :: later) (items ++ [comment body .nul]) later := by
  generalize hall : items ++ [comment body .endOfInput] = all at h
  generalize hend : ([] : List Char) = last at h
  induction h generalizing items with
  | nil rest => simp at hall
  | @cons item ahead rest others fits begins ih =>
    subst hend
    cases items with
    | nil =>
      obtain ⟨rfl, rfl⟩ := List.cons.inj hall
      obtain rfl : ahead = [] := fits.2 rfl
      have hfits : (comment body .nul).Fits later := ⟨fits.1, fun he => absurd he (by decide)⟩
      have hb := Begins.cons hfits (.nil later)
      simpa [text, CommentEnd.text] using hb
    | cons first items =>
      obtain ⟨rfl, hrest⟩ := List.cons.inj hall
      have hne : ahead ≠ [] := by
        rintro rfl
        have ht := begins.flatMap_text_append
        rw [← hrest] at ht
        simp [text] at ht
      have hfits := fits.of_ne_nil hne (ahead ++ '\x00' :: later)
      rw [List.append_assoc]
      exact .cons hfits (ih hrest rfl)

/-- No NUL turns what follows the last trivia into more of it. -/
theorem next?_append_nul (hn : next? rest = none) (later : List Char) :
    next? (rest ++ '\x00' :: later) = none ∧
      Layout.brokenSkips (rest ++ '\x00' :: later) = Layout.brokenSkips rest := by
  rcases rest with _ | ⟨first, rest⟩
  · have hc : '\x00' ≠ '\\' := by decide
    rw [List.nil_append, next?_cons_eq_none_iff hc, Layout.brokenSkips_cons hc]
    exact ⟨by decide, rfl⟩
  · by_cases hc : first = '\\'
    · subst hc
      simp only [List.cons_append, next?_backslash_eq_none_iff, Layout.brokenSkips_backslash]
        at hn ⊢
      rcases rest with _ | ⟨second, _ | ⟨third, rest⟩⟩
      · simp
      · have hs : second ≠ '\n' := by simpa using hn.1
        simp [hs]
      · simpa using hn
    · simp only [List.cons_append, next?_cons_eq_none_iff hc, Layout.brokenSkips_cons hc] at hn ⊢
      exact ⟨hn, trivial⟩

theorem split_append_nul (hc : AllClosed (split ahead).1) (later : List Char) :
    split (ahead ++ '\x00' :: later) =
      ((split ahead).1, (split ahead).2 ++ '\x00' :: later) := by
  have hb := (begins_split ahead).append hc ('\x00' :: later)
  have hn := (next?_append_nul (next?_split ahead) later).1
  rw [hb.split_eq, split_of_next?_eq_none hn, List.append_nil]

theorem length_flatMap_text_le_skips (items : List Trivia) (rest : List Char) :
    (items.flatMap text).length ≤ Layout.skips items rest := by
  induction items with
  | nil => exact Nat.zero_le _
  | cons item items ih =>
    have hskips : Layout.skips (item :: items) rest = item.skips + Layout.skips items rest := rfl
    rw [hskips, List.flatMap_cons, List.length_append]
    exact Nat.add_le_add item.length_text_le_skips ih

end Trivia

theorem Layout.brokenSkips_le_length (rest : List Char) : brokenSkips rest ≤ rest.length := by
  unfold brokenSkips
  split <;> simp

section Scan

variable {state : State} {requested : TokenSet} {ahead seen : List Char} {literal : Literal}

theorem Literal.plainText_append_nul (seen later : List Char) :
    literal.plainText (seen ++ '\x00' :: later) = literal.plainText seen := by
  have hnul : literal.isPlain '\x00' = false := by simp [isPlain, stop?_nul]
  cases seen with
  | nil => simp [plainText, hnul]
  | cons first seen =>
    simp only [List.cons_append, plainText]
    split
    · congr 1
      induction seen with
      | nil => simp [hnul]
      | cons c seen ih => simp only [List.cons_append, List.takeWhile_cons, ih]
    · rfl

theorem Literal.piece_append_nul (seen later : List Char) :
    literal.piece (seen ++ '\x00' :: later) = literal.piece seen := by
  have hl : (literal.plainText seen).length ≤ seen.length :=
    (literal.plainText_prefix seen).length_le
  simp only [piece, plainText_append_nul, List.drop_append_of_le_length hl]
  cases seen.drop (literal.plainText seen).length <;> rfl

theorem Literal.eq_nil_of_isExhausted (hn : '\x00' ∉ seen)
    (h : (literal.piece seen).isExhausted = true) : seen = [] := by
  have hhead := headD_of_isExhausted h
  cases seen with
  | nil => rfl
  | cons c rest =>
    obtain rfl : c = '\x00' := hhead
    exact absurd List.mem_cons_self hn

theorem scanLayout_append_nul (hc : Trivia.AllClosed (Trivia.split seen).1) (later : List Char) :
    scanLayout state requested (seen ++ '\x00' :: later) = scanLayout state requested seen := by
  have hsplit := Trivia.split_append_nul hc later
  obtain ⟨-, hbroken⟩ := Trivia.next?_append_nul (Trivia.next?_split seen) later
  have hhead : ((Trivia.split seen).2 ++ '\x00' :: later).headD '\x00' =
      (Trivia.split seen).2.headD '\x00' := by
    cases (Trivia.split seen).2 <;> rfl
  simp only [scanLayout, Layout.measure, hsplit, Layout.skips, hbroken, Layout.measure?, hhead]

theorem moves_piece_le (literal : Literal) (ahead : List Char) :
    Call.moves (literal.piece ahead).calls ≤ ahead.length := by
  have hl : (literal.piece ahead).length ≤ ahead.length :=
    (literal.plainText_prefix ahead).length_le
  have hclosed : literal.piece ahead = ⟨0, .closed⟩ → 0 < ahead.length := by
    intro hp
    obtain ⟨c, rest, rfl, -⟩ := Literal.exists_closing_of_piece hp
    exact Nat.succ_pos _
  generalize literal.piece ahead = piece at hl hclosed
  have hr (count : Nat) : Call.moves (List.replicate count .advance) = count :=
    Call.moves_replicate (by decide) count
  have hnil : Call.moves [] = 0 := rfl
  obtain ⟨length, ending⟩ := piece
  cases length with
  | zero =>
    cases ending with
    | closed => exact hclosed rfl
    | _ => exact Nat.zero_le _
  | succ length =>
    cases ending <;> simpa [Piece.calls, hr, hnil] using hl

theorem moves_scanLayout_le (hc : Trivia.AllClosed (Trivia.split ahead).1) :
    Call.moves (scanLayout state requested ahead).calls ≤ ahead.length := by
  have hcourse := scanLayout_course state requested ahead
  have htext := Trivia.flatMap_text_append_split ahead
  have hbroken := Layout.brokenSkips_le_length (Trivia.split ahead).2
  have hskips : Layout.skips (Trivia.split ahead).1 (Trivia.split ahead).2 = _ :=
    Layout.skips_eq_length hc
  have hcalls : Call.moves (Layout.calls (Trivia.split ahead).1 (Trivia.split ahead).2) =
      Layout.skips (Trivia.split ahead).1 (Trivia.split ahead).2 := by
    rw [Layout.calls, Call.moves_mark_cons, Call.moves_replicate (by decide)]
  have hlength := congrArg List.length htext
  rw [List.length_append] at hlength
  have hmeasured : Call.moves (Layout.calls (Trivia.split ahead).1 (Trivia.split ahead).2) ≤
      ahead.length := by omega
  generalize scanLayout state requested ahead = answer at hcourse ⊢
  cases hcourse with
  | piece => exact moves_piece_le _ _
  | broken split => simpa only [split] using hmeasured
  | due split => simpa only [split] using hmeasured
  | idle split => simpa only [split] using hmeasured
  | refused split => simpa only [split] using hmeasured
  | opened split measure _ _ opener =>
    obtain ⟨c, later, rfl, -⟩ := Literal.exists_cons_of_ofOpener? opener
    have hback := Layout.brokenSkips_eq_zero (Layout.headD_ne_of_measure? measure)
    simp only [split, hback, List.length_cons] at hcalls hskips hlength
    rw [Call.moves_append, hcalls, hskips]
    change _ + 1 ≤ _
    omega

/-- A scan in front of a NUL is one in front of the end, unless it measures layout that gets to the
NUL inside of a comment. -/
theorem scan_append_nul (hn : '\x00' ∉ seen)
    (hc : ¬ (Mode.select state requested = .layout ∧ Trivia.EndsInComment seen))
    (later : List Char) :
    scan state requested (seen ++ '\x00' :: later) = scan state requested seen ∧
      Call.moves (scan state requested seen).calls ≤ seen.length := by
  simp only [scan, Answer.calls_commit]
  cases hm : Mode.select state requested with
  | layout =>
    have hclosed := Trivia.not_endsInComment_iff.mp fun he => hc ⟨hm, he⟩
    simp only [scanIn, scanLayout_append_nul hclosed]
    exact ⟨trivial, moves_scanLayout_le hclosed⟩
  | inside literal =>
    simp only [scanIn, Literal.piece_append_nul]
    split
    · rename_i hx
      -- Nothing but the NUL is in front, and so is no comment.
      obtain rfl : seen = [] := Literal.eq_nil_of_isExhausted hn hx
      have hsplit : Trivia.split [] = ([], []) := Trivia.split_of_next?_eq_none rfl
      have hclosed : Trivia.AllClosed (Trivia.split []).1 := by simp [Trivia.AllClosed, hsplit]
      rw [scanLayout_append_nul hclosed]
      exact ⟨rfl, moves_scanLayout_le hclosed⟩
    · exact ⟨rfl, moves_piece_le literal seen⟩

theorem length_lt_moves_scan (hm : Mode.select state requested = .layout)
    (hc : Trivia.EndsInComment seen) (later : List Char) :
    seen.length < Call.moves (scan state requested (seen ++ '\x00' :: later)).calls := by
  obtain ⟨items, body, hb⟩ := hc
  have hfull := hb.append_nul later
  have htext := hb.flatMap_text_append
  have hskips := skips_le_moves_scanLayout state requested (seen ++ '\x00' :: later)
  have hall := Trivia.length_flatMap_text_le_skips
    (Trivia.split (seen ++ '\x00' :: later)).1 (Trivia.split (seen ++ '\x00' :: later)).2
  rw [scan, Answer.calls_commit, hm, scanIn]
  refine Nat.lt_of_lt_of_le ?_ (Nat.le_trans hall hskips)
  rw [hfull.split_eq, ← htext]
  simp only [List.flatMap_append, List.flatMap_cons, List.flatMap_nil, Trivia.text,
    CommentEnd.text, List.length_append, List.length_cons, List.length_nil, List.append_nil]
  omega

end Scan

theorem encodedSize_take_le (text : List Char) (count : Nat) :
    encodedSize (text.take count) ≤ encodedSize text := by
  have h := congrArg encodedSize (List.take_append_drop count text)
  rw [encodedSize_append] at h
  omega

theorem Reader.offset_run {reader : Reader} {ahead : List Char} (hb : reader.cursor.Before ahead)
    (calls : List Call) :
    (reader.run calls).offset =
      reader.offset + encodedSize (ahead.take (Call.moves calls)) := by
  rw [offset, cursor_run, hb.advanceBy_eq]
  rfl

theorem Reader.offset_run_fresh {cursor : Cursor} {ahead : List Char} (hb : cursor.Before ahead)
    (calls : List Call) :
    ((fresh cursor).run calls).offset =
      cursor.offset + encodedSize (ahead.take (Call.moves calls)) :=
  offset_run hb calls

theorem encodedSize_lt_take {seen : List Char} (later : List Char) {count : Nat}
    (h : seen.length < count) :
    encodedSize seen < encodedSize ((seen ++ '\x00' :: later).take count) := by
  obtain ⟨more, rfl⟩ : ∃ more, count = seen.length + (more + 1) :=
    ⟨count - seen.length - 1, by omega⟩
  have hnul := ('\x00').utf8Size_pos
  rw [List.take_length_add_append, List.take_succ_cons, encodedSize_append, encodedSize_cons]
  omega

namespace Source

variable {text : String} {front rest : List Char}

theorem utf8ByteSize_front_le (hs : text.utf8ByteSize ≤ maxOffset)
    (h : text.toList = front ++ rest) : (String.ofList front).utf8ByteSize ≤ maxOffset := by
  have ht := utf8ByteSize_eq text
  rw [h, encodedSize_append] at ht
  rw [utf8ByteSize_ofList]
  omega

theorem take_eq (hs : text.utf8ByteSize ≤ maxOffset) (h : text.toList = front ++ rest) :
    (ofString text).take (encodedSize front) = ofString (String.ofList front) := by
  have hsize := utf8ByteSize_front_le hs h
  rw [take, (extract_eq_iff_isPrefix hs front).mpr ⟨rest, h.symm⟩]
  have hbytes := bytes_eq_utf8Encode hsize
  rw [String.toList_ofList] at hbytes
  exact congrArg Source.mk hbytes.symm

theorem contentStart_ofList_le (hs : text.utf8ByteSize ≤ maxOffset)
    (h : text.toList = front ++ rest) :
    (ofString (String.ofList front)).contentStart ≤ (ofString text).contentStart := by
  apply contentStart_le_contentStart
  rw [hasByteOrderMark_iff (utf8ByteSize_front_le hs h), hasByteOrderMark_iff hs, h,
    String.toList_ofList]
  rintro ⟨later, hlater⟩
  rw [hlater]
  exact ⟨later ++ rest, rfl⟩

theorem scan_take {seen later : List Char} (hs : text.utf8ByteSize ≤ maxOffset)
    (h : text.toList = front ++ (seen ++ later))
    (hc : (ofString text).contentStart ≤ encodedSize front) (state : State)
    (requested : TokenSet) :
    let cut := (ofString text).take (encodedSize (front ++ seen))
    cut.scan (encodedSize front) state requested =
        ⟨Offside.scan state requested seen, (Reader.fresh ⟨cut, encodedSize front⟩).run
          (Offside.scan state requested seen).calls⟩ ∧
      Cursor.Before ⟨cut, encodedSize front⟩ seen := by
  intro cut
  have hwhole : text.toList = (front ++ seen) ++ later := by rw [h, List.append_assoc]
  have hcut : cut = ofString (String.ofList (front ++ seen)) := take_eq hs hwhole
  have hlist : (String.ofList (front ++ seen)).toList = front ++ seen := String.toList_ofList
  have hsize := utf8ByteSize_front_le hs hwhole
  have hstart := Nat.le_trans (contentStart_ofList_le hs hwhole) hc
  rw [hcut]
  exact ⟨scan_eq hsize hlist (Nat.max_eq_left hstart) state requested,
    before_of_toList_eq hlist hsize⟩

end Source

/-- In front of the first NUL from where a scan begins it stops, and what it gives is what it gives
in the text that is cut off there, just if it does not measure layout that gets to the NUL inside
of a comment. -/
theorem nul_ends_input_iff (input : String) (hs : input.utf8ByteSize ≤ maxOffset)
    {front seen later : List Char} (h : input.toList = front ++ (seen ++ '\x00' :: later))
    (hn : '\x00' ∉ seen) (hc : (Source.ofString input).contentStart ≤ encodedSize front)
    (state : State) (requested : TokenSet) :
    let source := Source.ofString input
    let stop := encodedSize (front ++ seen)
    let scanned := source.scan (encodedSize front) state requested
    let alone := (source.take stop).scan (encodedSize front) state requested
    (scanned.reader.offset ≤ stop ∧ scanned.answer.token? = alone.answer.token? ∧
        scanned.reader.span = alone.reader.span ∧ scanned.answer.state = alone.answer.state ∧
        scanned.answer.events = alone.answer.events) ↔
      ¬ (Mode.select state requested = .layout ∧ Trivia.EndsInComment seen) := by
  intro source stop scanned alone
  have hb := Source.before_of_toList_eq h hs
  have hscanned : scanned = _ := Source.scan_eq hs h (Nat.max_eq_left hc) state requested
  have hoffset : scanned.reader.offset = encodedSize front + encodedSize
      ((seen ++ '\x00' :: later).take
        (Call.moves (scan state requested (seen ++ '\x00' :: later)).calls)) := by
    rw [hscanned]
    exact Reader.offset_run_fresh hb _
  have hstop : stop = encodedSize front + encodedSize seen := encodedSize_append front seen
  constructor
  · rintro ⟨hle, -⟩ ⟨hm, hend⟩
    have hsize := encodedSize_lt_take later (length_lt_moves_scan hm hend later)
    omega
  · intro hopen
    obtain ⟨hsame, hmoves⟩ := scan_append_nul hn hopen later
    obtain ⟨halone, hbefore⟩ := Source.scan_take hs h hc state requested
    change alone = _ at halone
    have hahead : (seen ++ '\x00' :: later).take (Call.moves (scan state requested seen).calls) =
        seen.take (Call.moves (scan state requested seen).calls) :=
      List.take_append_of_le_length hmoves
    rw [hsame] at hscanned hoffset
    have hreader : Reader.Displaced 0 alone.reader scanned.reader := by
      rw [halone, hscanned]
      exact (Reader.displaced_fresh 0 _ _ _).run hbefore hb hahead
    have hanswer : scanned.answer = alone.answer := by rw [halone, hscanned]
    refine ⟨?_, by rw [hanswer], hreader.span_eq, by rw [hanswer], by rw [hanswer]⟩
    have hle := encodedSize_take_le seen (Call.moves (scan state requested seen).calls)
    rw [hahead] at hoffset
    omega

/-- A comment that its own line break ends leaves the NUL behind it alone. -/
theorem nul_ends_input_iff_behind_comment :
    let input := "#\n\x00x"
    let source := Source.ofString input
    let requested : TokenSet := .ofTokens [.newline]
    let scanned := source.scan 0 {} requested
    let alone := (source.take 2).scan 0 {} requested
    input.utf8ByteSize ≤ maxOffset ∧ input.toList = [] ++ (['#', '\n'] ++ '\x00' :: ['x']) ∧
      '\x00' ∉ ['#', '\n'] ∧ source.contentStart ≤ 0 ∧ scanned.answer.token? = some .newline ∧
      scanned.reader.offset ≤ 2 ∧ scanned.answer.token? = alone.answer.token? ∧
      scanned.reader.span = alone.reader.span ∧ scanned.answer.state = alone.answer.state ∧
      scanned.answer.events = alone.answer.events := by
  intro input source requested scanned alone
  have hs : input.utf8ByteSize ≤ maxOffset := by decide
  have h : input.toList = [] ++ (['#', '\n'] ++ '\x00' :: ['x']) := by decide
  have hn : '\x00' ∉ ['#', '\n'] := by decide
  have hc : source.contentStart ≤ 0 := by decide +kernel
  have hsplit : Trivia.split ['#', '\n'] = ([.comment [] .lineBreak], []) := by decide +kernel
  have hclosed : ¬ Trivia.EndsInComment ['#', '\n'] := by
    rw [Trivia.not_endsInComment_iff, hsplit]
    simp [Trivia.AllClosed]
  have hfound := (nul_ends_input_iff input hs h hn hc {} requested).mpr fun hx => hclosed hx.2
  exact ⟨hs, h, hn, hc, by decide +kernel, hfound⟩

/-- A comment that runs into the NUL takes it, and the line goes on behind. -/
theorem comment_takes_nul :
    let source := Source.ofString "#\x00x"
    let requested : TokenSet := .ofTokens [.newline]
    let scanned := source.scan 0 {} requested
    let alone := (source.take 1).scan 0 {} requested
    "#\x00x".toList = [] ++ (['#'] ++ '\x00' :: ['x']) ∧ '\x00' ∉ ['#'] ∧
      source.contentStart = 0 ∧ scanned.reader.offset = 2 ∧ scanned.answer.token? = none ∧
      alone.answer.token? = some .newline := by
  decide +kernel

end Offside
