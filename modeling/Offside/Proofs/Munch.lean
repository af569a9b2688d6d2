import Offside.Proofs.Bytes
import Offside.Proofs.Transition

/-!
# The text of a literal by its bytes

The first byte that ends the text of a literal, from wherever a scan begins, tells what the scan
gives. The characters in front of it hold no such byte, and neither does what is left of a character
that was cut off.
-/

namespace Offside

set_option autoImplicit false

theorem toUInt8_inj {c d : Char} (hc : c.utf8Size = 1) (hd : d.utf8Size = 1) :
    c.toUInt8 = d.toUInt8 ↔ c = d := by
  constructor
  · intro h
    have hb (e : Char) : e.toUInt8.toNat = e.toNat % 256 := rfl
    have hn (e : Char) (he : e.utf8Size = 1) : e.toNat ≤ 127 :=
      UInt32.le_iff_toNat_le.mp (Char.utf8Size_eq_one_iff.mp he)
    have he := congrArg UInt8.toNat h
    rw [hb, hb, Nat.mod_eq_of_lt (by have := hn c hc; omega),
      Nat.mod_eq_of_lt (by have := hn d hd; omega)] at he
    exact Char.toNat_inj.mp he
  · rintro rfl
    rfl

namespace Literal

/-- What a byte ends that is not in front of the text. -/
def byteEnd? (literal : Literal) (byte : UInt8) : Option PieceEnd :=
  if byte = 0x00 then some .endOfInput
  else if byte = 0x5C ∨ literal.interpolates = true ∧ (byte = 0x7B ∨ byte = 0x7D) then
    some .yielded
  else if literal.closing?.map Char.toUInt8 = some byte then some .closed
  else if byte = 0x0A then some .lineBreak
  else none

variable {literal : Literal}

theorem utf8Size_of_closing? {c : Char} (h : literal.closing? = some c) : c.utf8Size = 1 := by
  cases literal with
  | string delimiter =>
    obtain ⟨quote, rfl⟩ := Delimiter.exists_quote_of_closing? h
    exact quote.utf8Size_char
  | regex =>
    cases h
    decide

/-- What a character ends that is not in front of the text. -/
def charEnd? (literal : Literal) (c : Char) : Option PieceEnd :=
  (literal.stop? c).or (if c = '\n' then some .lineBreak else none)

theorem stop?_eq_none_of_utf8Size {c : Char} (hc : c.utf8Size ≠ 1) : literal.stop? c = none := by
  have hne (d : Char) (hd : d.utf8Size = 1) : c ≠ d := by
    rintro rfl
    exact hc hd
  have hclosing : literal.closing? ≠ some c := fun h => hc (utf8Size_of_closing? h)
  simp [stop?, yields, hclosing, hne '\x00' (by decide), hne '\\' (by decide),
    hne '\x7b' (by decide), hne '\x7d' (by decide)]

theorem charEnd?_eq_none_of_utf8Size {c : Char} (hc : c.utf8Size ≠ 1) :
    literal.charEnd? c = none := by
  have hne : c ≠ '\n' := by
    rintro rfl
    exact hc (by decide)
  simp [charEnd?, stop?_eq_none_of_utf8Size hc, hne]

theorem byteEnd?_toUInt8 {c : Char} (hc : c.utf8Size = 1) :
    literal.byteEnd? c.toUInt8 = literal.charEnd? c := by
  have hi (d : Char) (hd : d.utf8Size = 1) : c.toUInt8 = d.toUInt8 ↔ c = d := toUInt8_inj hc hd
  have hclosing : literal.closing?.map Char.toUInt8 = some c.toUInt8 ↔
      literal.closing? = some c := by
    cases hd : literal.closing? with
    | none => simp
    | some d =>
      have := toUInt8_inj (utf8Size_of_closing? hd) hc
      simpa using this
  have hnul : c.toUInt8 = 0x00 ↔ c = '\x00' := hi '\x00' (by decide)
  have hbackslash : c.toUInt8 = 0x5C ↔ c = '\\' := hi '\\' (by decide)
  have hopen : c.toUInt8 = 0x7B ↔ c = '\x7b' := hi '\x7b' (by decide)
  have hclose : c.toUInt8 = 0x7D ↔ c = '\x7d' := hi '\x7d' (by decide)
  have hbreak : c.toUInt8 = 0x0A ↔ c = '\n' := hi '\n' (by decide)
  simp only [byteEnd?, charEnd?, stop?, yields, hnul, hbackslash, hopen, hclose, hbreak, hclosing,
    Bool.or_eq_true, Bool.and_eq_true, beq_iff_eq]
  split
  · rfl
  · split
    · rfl
    · split <;> rfl

theorem byteEnd?_of_le {byte : UInt8} (h : 0x80 ≤ byte) : literal.byteEnd? byte = none := by
  have hne (low : UInt8) (hl : low < 0x80) : byte ≠ low := by
    rintro rfl
    exact UInt8.not_le.mpr hl h
  have hclosing : literal.closing?.map Char.toUInt8 ≠ some byte := by
    intro hm
    obtain ⟨c, hc, rfl⟩ := Option.map_eq_some_iff.mp hm
    exact hne _ (toUInt8_lt_of_utf8Size (utf8Size_of_closing? hc)) rfl
  simp [byteEnd?, hclosing, hne 0x00 (by decide), hne 0x5C (by decide), hne 0x7B (by decide),
    hne 0x7D (by decide), hne 0x0A (by decide)]

theorem byteEnd?_byteAt {cursor : Cursor} (h : cursor.Takes) :
    literal.byteEnd? (cursor.source.byteAt cursor.offset) = literal.charEnd? cursor.current := by
  cases h with
  | one size byte => rw [byte, byteEnd?_toUInt8 size]
  | more size lt bytes =>
    rw [byteEnd?_of_le (bytes _ (Nat.le_refl _) lt), charEnd?_eq_none_of_utf8Size size]

theorem agree_isNone (literal : Literal) :
    Agree (fun c => (literal.charEnd? c).isNone) (fun byte => (literal.byteEnd? byte).isNone) where
  one c hc := by rw [byteEnd?_toUInt8 hc]
  more c hc := by rw [charEnd?_eq_none_of_utf8Size hc, Option.isNone_none]
  high byte hb := by rw [byteEnd?_of_le hb, Option.isNone_none]

theorem isNone_charEnd? (c : Char) :
    (literal.charEnd? c).isNone = (literal.isPlain c && c != '\n') := by
  by_cases hc : c = '\n' <;> cases hs : literal.stop? c <;> simp [charEnd?, isPlain, hs, hc]

theorem charEnd?_of_stop? {c : Char} {ending : PieceEnd} (h : literal.stop? c = some ending) :
    literal.charEnd? c = some ending := by
  rw [charEnd?, h, Option.some_or]

theorem stop?_ne_lineBreak (c : Char) : literal.stop? c ≠ some .lineBreak := by
  unfold stop?
  repeat' split
  all_goals simp

theorem charEnd?_eq_getD {c : Char} (h : (literal.charEnd? c).isNone = false) :
    literal.charEnd? c = some ((literal.stop? c).getD .lineBreak) := by
  cases hs : literal.stop? c with
  | some ending => exact charEnd?_of_stop? hs
  | none =>
    rw [charEnd?, hs, Option.none_or] at h ⊢
    split at h
    · rename_i hc
      rw [if_pos hc, Option.getD_none]
    · cases h

theorem plainText_cons {c : Char} (hc : literal.isPlain c = true) (rest : List Char) :
    literal.plainText (c :: rest) =
      c :: rest.takeWhile fun next => (literal.charEnd? next).isNone := by
  simp only [plainText, hc, if_true, isNone_charEnd?]

end Literal

namespace Source

/-- What ends the text of a literal from `start` on in front of the byte at `offset`. A line feed
in front belongs to the text. -/
def endAt? (source : Source) (literal : Literal) (start offset : Nat) : Option PieceEnd :=
  if source.size ≤ offset then some .endOfInput
  else
    match literal.byteEnd? (source.byteAt offset) with
    | some .lineBreak => if offset = start then none else some .lineBreak
    | ending? => ending?

/-- The text of a literal from `start` on ends at `stop`, and nothing ends it before. -/
structure FirstEnd (source : Source) (literal : Literal) (start stop : Nat) (ending : PieceEnd) :
    Prop where
  start_le : start ≤ stop
  ends : source.endAt? literal start stop = some ending
  first : ∀ offset, start ≤ offset → offset < stop → source.endAt? literal start offset = none

variable {source : Source} {literal : Literal} {start stop other : Nat} {ending another : PieceEnd}

theorem FirstEnd.eq (h : source.FirstEnd literal start stop ending)
    (ho : source.FirstEnd literal start other another) : other = stop ∧ another = ending := by
  have hstop : other = stop := by
    rcases Nat.lt_trichotomy other stop with hlt | heq | hlt
    · have hn := h.first other ho.start_le hlt
      rw [ho.ends] at hn
      cases hn
    · exact heq
    · have hn := ho.first stop h.start_le hlt
      rw [h.ends] at hn
      cases hn
  subst hstop
  exact ⟨rfl, Option.some.inj (ho.ends.symm.trans h.ends)⟩

theorem endAt?_of_size_le {offset : Nat} (h : source.size ≤ offset) :
    source.endAt? literal start offset = some .endOfInput := if_pos h

theorem endAt?_of_byteEnd?_eq_none {offset : Nat} (hlt : offset < source.size)
    (h : literal.byteEnd? (source.byteAt offset) = none) :
    source.endAt? literal start offset = none := by
  rw [endAt?, if_neg (Nat.not_le.mpr hlt), h]

theorem endAt?_of_byteEnd?_eq_some {offset : Nat} (hlt : offset < source.size)
    (h : literal.byteEnd? (source.byteAt offset) = some ending)
    (hb : ending = .lineBreak → offset ≠ start) :
    source.endAt? literal start offset = some ending := by
  rw [endAt?, if_neg (Nat.not_le.mpr hlt), h]
  cases ending with
  | lineBreak => exact if_neg (hb rfl)
  | _ => rfl

theorem endAt?_of_lineBreak (hlt : start < source.size)
    (h : literal.byteEnd? (source.byteAt start) = some .lineBreak) :
    source.endAt? literal start start = none := by
  rw [endAt?, if_neg (Nat.not_le.mpr hlt), h]
  exact if_pos rfl

end Source

def Cursor.behindPiece (cursor : Cursor) (literal : Literal) : Nat :=
  (advanceBy (literal.piece cursor.ahead).length cursor).offset

namespace Literal

variable {literal : Literal} {cursor : Cursor} {text : String}

theorem endAt?_of_isPlain (ht : cursor.Takes) (hp : literal.isPlain cursor.current = true)
    {place : Nat} (hfrom : cursor.offset ≤ place) (hto : place < cursor.advance.offset)
    (hlt : place < cursor.source.size) :
    cursor.source.endAt? literal cursor.offset place = none := by
  cases ht with
  | more _ _ bytes =>
    exact Source.endAt?_of_byteEnd?_eq_none hlt (byteEnd?_of_le (bytes place hfrom hto))
  | one size byte next =>
    obtain rfl : place = cursor.offset := by omega
    have hs : literal.stop? cursor.current = none := Option.isNone_iff_eq_none.mp hp
    have hend : literal.byteEnd? (cursor.source.byteAt cursor.offset) =
        if cursor.current = '\n' then some .lineBreak else none := by
      rw [byte, byteEnd?_toUInt8 size, charEnd?, hs, Option.none_or]
    split at hend
    · exact Source.endAt?_of_lineBreak hlt hend
    · exact Source.endAt?_of_byteEnd?_eq_none hlt hend

/-- Where a search that keeps the plain text ends, the piece ends as the byte there tells. -/
theorem endAt?_of_search (hs : text.utf8ByteSize ≤ maxOffset)
    (hc : cursor.source = Source.ofString text) {start : Nat} (hne : start < cursor.offset)
    (hend : cursor.offset < cursor.source.size →
      (literal.byteEnd? (cursor.source.byteAt cursor.offset)).isNone = false) :
    cursor.source.endAt? literal start cursor.offset =
      some ((literal.stop? (cursor.ahead.headD '\x00')).getD .lineBreak) := by
  cases he : cursor.atEnd with
  | true =>
    have hle : cursor.source.size ≤ cursor.offset := by simpa [Cursor.atEnd] using he
    rw [Cursor.ahead_of_atEnd he, Source.endAt?_of_size_le hle]
    simp [stop?_nul]
  | false =>
    have hlt := Cursor.offset_lt_of_atEnd he
    have htakes := Cursor.takes hs hc he
    have hbyte := hend hlt
    rw [byteEnd?_byteAt htakes] at hbyte
    have hchar := charEnd?_eq_getD hbyte
    rw [← byteEnd?_byteAt htakes] at hchar
    rw [Cursor.ahead_eq_cons hs hc he, List.headD_cons]
    exact Source.endAt?_of_byteEnd?_eq_some hlt hchar fun _ => by omega

theorem firstEnd_of_atEnd (he : cursor.atEnd = true) :
    cursor.source.FirstEnd literal cursor.offset (cursor.behindPiece literal)
      (literal.piece cursor.ahead).ending := by
  have hpiece : literal.piece cursor.ahead = ⟨0, .endOfInput⟩ := by
    rw [Cursor.ahead_of_atEnd he]
    simp [piece, plainText, stop?_nul]
  have hle : cursor.source.size ≤ cursor.offset := by simpa [Cursor.atEnd] using he
  rw [Cursor.behindPiece, hpiece]
  refine ⟨Nat.le_refl _, Source.endAt?_of_size_le hle, ?_⟩
  intro place hfrom hto
  exact absurd hto (Nat.not_lt.mpr hfrom)

theorem firstEnd_of_stop? (hs : text.utf8ByteSize ≤ maxOffset)
    (hc : cursor.source = Source.ofString text) (he : cursor.atEnd = false) {ending : PieceEnd}
    (hstop : literal.stop? cursor.current = some ending) :
    cursor.source.FirstEnd literal cursor.offset (cursor.behindPiece literal)
      (literal.piece cursor.ahead).ending := by
  have hpiece : literal.piece cursor.ahead = ⟨0, ending⟩ := by
    rw [Cursor.ahead_eq_cons hs hc he]
    simp [piece, plainText, isPlain, hstop]
  rw [Cursor.behindPiece, hpiece]
  refine ⟨Nat.le_refl _, ?_, ?_⟩
  · apply Source.endAt?_of_byteEnd?_eq_some (Cursor.offset_lt_of_atEnd he)
    · rw [byteEnd?_byteAt (Cursor.takes hs hc he), charEnd?_of_stop? hstop]
    · rintro rfl
      exact absurd hstop (stop?_ne_lineBreak _)
  · intro place hfrom hto
    exact absurd hto (Nat.not_lt.mpr hfrom)

theorem firstEnd_of_isPlain (hs : text.utf8ByteSize ≤ maxOffset)
    (hc : cursor.source = Source.ofString text) (he : cursor.atEnd = false)
    (hp : literal.isPlain cursor.current = true) :
    cursor.source.FirstEnd literal cursor.offset (cursor.behindPiece literal)
        (literal.piece cursor.ahead).ending ∧
      cursor.offset < cursor.behindPiece literal := by
  have htakes := Cursor.takes hs hc he
  have hsource := Cursor.source_advance cursor
  have hnext : cursor.advance.offset ≤ cursor.advance.source.size := by
    rw [hsource]
    exact Cursor.offset_advance_le_size he
  -- Behind the first character the piece goes on for as long as a search through the bytes.
  obtain ⟨hsearch, hahead⟩ := Cursor.search_takeWhile hs literal.agree_isNone
    (hsource.trans hc) hnext
  have hpiece : literal.piece cursor.ahead =
      ⟨(cursor.advance.ahead.takeWhile fun next => (literal.charEnd? next).isNone).length + 1,
        (literal.stop? ((Cursor.advanceBy (cursor.advance.ahead.takeWhile fun next =>
          (literal.charEnd? next).isNone).length cursor.advance).ahead.headD '\x00')).getD
            .lineBreak⟩ := by
    rw [Cursor.ahead_eq_cons hs hc he, hahead, piece, plainText_cons hp]
    rfl
  rw [Cursor.behindPiece, hpiece]
  simp only [Cursor.advanceBy]
  generalize hstop : Cursor.advanceBy (cursor.advance.ahead.takeWhile fun next =>
    (literal.charEnd? next).isNone).length cursor.advance = stop at hsearch ⊢
  have hstopSource : stop.source = cursor.source := by
    rw [← hstop, Cursor.source_advanceBy, hsource]
  rw [hsource] at hsearch
  have hlt : cursor.offset < stop.offset := Nat.lt_of_lt_of_le htakes.offset_lt hsearch.start_le
  refine ⟨⟨Nat.le_of_lt hlt, ?_, ?_⟩, hlt⟩
  · have hends := hsearch.ends
    rw [← hstopSource] at hends ⊢
    exact endAt?_of_search hs (hstopSource.trans hc) hlt hends
  · intro place hfrom hto
    have hplace : place < cursor.source.size := Nat.lt_of_lt_of_le hto hsearch.stop_le
    by_cases hfirst : place < cursor.advance.offset
    · exact endAt?_of_isPlain htakes hp hfrom hfirst hplace
    · have hkept := hsearch.kept place (Nat.not_lt.mp hfirst) hto
      exact Source.endAt?_of_byteEnd?_eq_none hplace (Option.isNone_iff_eq_none.mp hkept)

theorem firstEnd_piece (hs : text.utf8ByteSize ≤ maxOffset)
    (hc : cursor.source = Source.ofString text) (literal : Literal) :
    cursor.source.FirstEnd literal cursor.offset (cursor.behindPiece literal)
        (literal.piece cursor.ahead).ending ∧
      (cursor.offset < cursor.behindPiece literal ↔ (literal.piece cursor.ahead).length ≠ 0) := by
  have hzero (h : (literal.piece cursor.ahead).length = 0) :
      cursor.behindPiece literal = cursor.offset := by
    rw [Cursor.behindPiece, h]
    rfl
  have hnonzero : cursor.offset < cursor.behindPiece literal →
      (literal.piece cursor.ahead).length ≠ 0 := by
    intro hlt h
    rw [hzero h] at hlt
    exact Nat.lt_irrefl _ hlt
  cases he : cursor.atEnd with
  | true =>
    refine ⟨firstEnd_of_atEnd he, hnonzero, ?_⟩
    intro h
    simp [Cursor.ahead_of_atEnd he, piece, plainText] at h
  | false =>
    cases hstop : literal.stop? cursor.current with
    | some ending =>
      refine ⟨firstEnd_of_stop? hs hc he hstop, hnonzero, ?_⟩
      intro h
      simp [Cursor.ahead_eq_cons hs hc he, piece, plainText, isPlain, hstop] at h
    | none =>
      obtain ⟨hfirst, hlt⟩ := firstEnd_of_isPlain hs hc he (Option.isNone_iff_eq_none.mpr hstop)
      exact ⟨hfirst, hnonzero, fun _ => hlt⟩

theorem offset_advance_of_closed (hs : text.utf8ByteSize ≤ maxOffset)
    (hc : cursor.source = Source.ofString text)
    (hp : literal.piece cursor.ahead = ⟨0, .closed⟩) :
    cursor.advance.offset = cursor.offset + 1 := by
  obtain ⟨c, rest, hahead, hclosing⟩ := exists_closing_of_piece hp
  have hz : cursor.source.size ≤ maxOffset := by
    rw [hc, Source.size_eq_utf8ByteSize hs]
    exact hs
  rw [(Cursor.advance_of_ahead hahead (utf8Size_of_closing? hclosing) hz).1]

end Literal

theorem Reader.span_advances (cursor : Cursor) (count : Nat) :
    ((fresh cursor).run (List.replicate count .advance ++ [.mark])).span =
      ⟨min cursor.offset (Cursor.advanceBy count cursor).offset,
        (Cursor.advanceBy count cursor).offset⟩ := by
  rw [run_append, run_replicate_advance]
  rfl

theorem Reader.begin_of_le {source : Source} {offset : Nat} (hfrom : source.contentStart ≤ offset)
    (hto : offset ≤ source.size) :
    (ofSource source).begin offset = fresh ⟨source, offset⟩ := by
  have hseek : (ofSource source).cursor.seek offset = ⟨source, offset⟩ := by
    change Cursor.mk source (min offset source.size) = _
    rw [Nat.min_eq_left hto]
  rw [begin, source_ofSource, Nat.max_eq_left hfrom, hseek]
  rfl

/-- Reads the layout from an offset, whatever is selected there. -/
def Source.scanLayout (source : Source) (offset : Nat) (state : State) (requested : TokenSet) :
    Scanned :=
  let reader := (Reader.ofSource source).begin offset
  let mode := Mode.select state requested
  let answer := (Offside.scanLayout state requested reader.ahead).commit mode
  ⟨answer, reader.run answer.calls⟩

def Scanned.Finds (scanned : Scanned) (token : Token) (span : Span) : Prop :=
  scanned.answer.token? = some token ∧ scanned.reader.span = span

/-- What a scan from `start` gives inside of a literal whose text ends at `stop`, where the scan of
the layout from there gives `layout`. -/
def Scanned.Munches (scanned layout : Scanned) (literal : Literal) (start stop : Nat) :
    PieceEnd → Prop
  | .yielded =>
    if start < stop then scanned.Finds literal.contentToken ⟨start, stop⟩
    else scanned.answer.token? = none
  | .closed =>
    if start < stop then scanned.Finds literal.contentToken ⟨start, stop⟩
    else scanned.Finds literal.endToken ⟨start, start + 1⟩
  | .lineBreak => scanned.answer.token? = none
  | .endOfInput => if start < stop then scanned.answer.token? = none else scanned = layout

theorem munches_fresh {text : String} {cursor : Cursor} (hs : text.utf8ByteSize ≤ maxOffset)
    (hc : cursor.source = Source.ofString text) {state : State} {requested : TokenSet}
    {literal : Literal} (hm : Mode.select state requested = .inside literal) :
    Scanned.Munches
      ((Reader.fresh cursor).scan state requested)
      ⟨(scanLayout state requested cursor.ahead).commit (.inside literal),
        (Reader.fresh cursor).run
          ((scanLayout state requested cursor.ahead).commit (.inside literal)).calls⟩
      literal cursor.offset (cursor.behindPiece literal) (literal.piece cursor.ahead).ending := by
  obtain ⟨hfirst, hlength⟩ := Literal.firstEnd_piece hs hc literal
  have hahead : (Reader.fresh cursor).ahead = cursor.ahead := rfl
  cases hx : (literal.piece cursor.ahead).isExhausted with
  | true =>
    have hscan := scan_of_isExhausted hm hx
    simp only [Piece.isExhausted, Bool.and_eq_true, beq_iff_eq] at hx
    have hn : ¬ cursor.offset < cursor.behindPiece literal := fun h => hlength.mp h hx.1
    simp only [hx.2, Scanned.Munches, if_neg hn, Reader.scan, hahead, hscan]
  | false =>
    obtain ⟨htoken, hcalls⟩ := scan_of_not_isExhausted hm hx
    have hreader : ((Reader.fresh cursor).scan state requested).reader =
        (Reader.fresh cursor).run (literal.piece cursor.ahead).calls := by
      rw [← hcalls]
      rfl
    have hclosed : literal.piece cursor.ahead = ⟨0, .closed⟩ → _ :=
      Literal.offset_advance_of_closed hs hc
    have hspan := Reader.span_advances cursor (literal.piece cursor.ahead).length
    change _ = Span.mk (min cursor.offset (cursor.behindPiece literal))
      (cursor.behindPiece literal) at hspan
    rw [Nat.min_eq_left hfirst.start_le] at hspan
    change ((Reader.fresh cursor).scan state requested).answer.token? = _ at htoken
    generalize (Reader.fresh cursor).scan state requested = scanned at hreader htoken ⊢
    generalize literal.piece cursor.ahead = piece at hx hlength hspan hclosed hreader htoken ⊢
    obtain ⟨length, ending⟩ := piece
    cases length with
    | zero =>
      have hn : ¬ cursor.offset < cursor.behindPiece literal := fun h => hlength.mp h rfl
      cases ending with
      | yielded =>
        rw [Scanned.Munches, if_neg hn]
        exact htoken
      | closed =>
        have hend := Reader.span_advances cursor 1
        simp only [Cursor.advanceBy, hclosed rfl, Nat.min_eq_left (Nat.le_succ _)] at hend
        rw [Scanned.Munches, if_neg hn]
        exact ⟨htoken, hreader ▸ hend⟩
      | lineBreak => exact htoken
      | endOfInput => cases hx
    | succ length =>
      have hlt : cursor.offset < cursor.behindPiece literal := hlength.mpr (Nat.succ_ne_zero _)
      cases ending with
      | yielded | closed =>
        rw [Scanned.Munches, if_pos hlt]
        exact ⟨htoken, hreader ▸ hspan⟩
      | lineBreak => exact htoken
      | endOfInput =>
        rw [Scanned.Munches, if_pos hlt]
        exact htoken

/-- A scan inside of a literal, wherever it begins, gives what the first byte that ends the text
tells. Without text a NUL and the end of the input leave the scan to the layout. -/
theorem literal_ends_at_first_byte (input : String) (hs : input.utf8ByteSize ≤ maxOffset)
    (offset : Nat) (hfrom : (Source.ofString input).contentStart ≤ offset)
    (hto : offset ≤ (Source.ofString input).size) (state : State) (requested : TokenSet)
    (literal : Literal) (hm : Mode.select state requested = .inside literal) :
    let source := Source.ofString input
    (∃ stop ending, source.FirstEnd literal offset stop ending) ∧
      ∀ stop ending, source.FirstEnd literal offset stop ending →
        (source.scan offset state requested).Munches (source.scanLayout offset state requested)
          literal offset stop ending := by
  intro source
  let cursor : Cursor := ⟨source, offset⟩
  have hbegin : (Reader.ofSource source).begin offset = Reader.fresh cursor :=
    Reader.begin_of_le hfrom hto
  have hsource : cursor.source = Source.ofString input := rfl
  obtain ⟨hfirst, -⟩ := Literal.firstEnd_piece hs hsource literal
  refine ⟨⟨_, _, hfirst⟩, ?_⟩
  intro stop ending h
  obtain ⟨rfl, rfl⟩ := hfirst.eq h
  have hmunches := munches_fresh hs hsource hm
  simp only [Source.scan, Source.scanLayout, hbegin, hm]
  exact hmunches

/-- From inside of a character the text goes on to the quote behind it. -/
theorem literal_ends_at_first_byte_torn :
    let input := "é'"
    let source := Source.ofString input
    let state : State := { stack := [.ofQuote .single] }
    let requested : TokenSet := .ofTokens [.stringContent]
    let literal : Literal := .string (.ofQuote .single)
    input.utf8ByteSize ≤ maxOffset ∧ source.contentStart ≤ 1 ∧ 1 ≤ source.size ∧
      Mode.select state requested = .inside literal ∧ source.FirstEnd literal 1 2 .closed ∧
      (source.scan 1 state requested).Finds .stringContent ⟨1, 2⟩ := by
  intro input source state requested literal
  have hs : input.utf8ByteSize ≤ maxOffset := by decide
  have hfrom : source.contentStart ≤ 1 := by decide +kernel
  have hto : 1 ≤ source.size := by decide +kernel
  have hm : Mode.select state requested = .inside literal := by decide +kernel
  have hfirst : source.FirstEnd literal 1 2 .closed := by
    refine ⟨by decide, by decide +kernel, ?_⟩
    intro place hle hlt
    obtain rfl : place = 1 := by omega
    decide +kernel
  obtain ⟨-, hmunches⟩ := literal_ends_at_first_byte input hs 1 hfrom hto state requested literal hm
  have hfinds := hmunches 2 .closed hfirst
  rw [Scanned.Munches, if_pos (by decide)] at hfinds
  exact ⟨hs, hfrom, hto, hm, hfirst, hfinds⟩

end Offside
