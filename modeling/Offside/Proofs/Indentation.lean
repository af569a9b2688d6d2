import Offside.Proofs.Columns
import Offside.Proofs.Enclosure
import Offside.Proofs.Transition

/-!
# Indented lines

Words stand on lines of their own, with nothing but blanks between them. From the widths of the
lines alone follows which tokens are due.
-/

namespace Offside

set_option autoImplicit false

def Blank.width (blanks : List Blank) : Nat :=
  let margin := blanks.reverse.takeWhile fun kind => kind != .lineFeed && kind != .carriageReturn
  margin.count .space + Layout.tabWidth * margin.count .tab

/-- A word of one letter, and the blanks between it and the word before. -/
structure IndentedLine where
  blanks : List Blank
  letter : Char
  lineFeed_mem : .lineFeed ∈ blanks
  formFeed_not_mem : .formFeed ∉ blanks
  isAlpha_letter : letter.isAlpha = true

/-- Words that each stand on a line of their own, with blanks behind the last. -/
structure IndentedText where
  letter : Char
  lines : List IndentedLine
  trail : List Blank
  isAlpha_letter : letter.isAlpha = true
  formFeed_not_mem : .formFeed ∉ trail

namespace IndentedLine

def text (line : IndentedLine) : List Char := line.blanks.map Blank.char ++ [line.letter]

def width (line : IndentedLine) : Nat := Blank.width line.blanks

def word (line : IndentedLine) : String := String.ofList [line.letter]

end IndentedLine

namespace IndentedText

def text (indented : IndentedText) : String :=
  String.ofList (indented.letter ::
    (indented.lines.flatMap IndentedLine.text ++ indented.trail.map Blank.char))

def widths (indented : IndentedText) : List Nat := indented.lines.map IndentedLine.width ++ [0]

def words (indented : IndentedText) : List String := indented.lines.map IndentedLine.word

end IndentedText

/-- The tokens that are due in front of lines of these widths, each with the baseline behind it.
Blocks are entered from the outermost level and left for it, so a line that is indented otherwise
than the block that it is in only ends the line before. -/
def dueTokens (baseline : Nat) : List Nat → List (Token × Nat)
  | [] => []
  | width :: later =>
    if baseline = 0 ∧ 0 < width then
      let inner := min width State.maxBaseline
      (.indent, inner) :: (.newline, inner) :: dueTokens inner later
    else if 0 < baseline ∧ width = 0 then
      (.dedent, 0) :: (.newline, 0) :: dueTokens 0 later
    else
      (.newline, baseline) :: dueTokens baseline later

section DueTokens

variable {baseline width : Nat} (later : List Nat)

theorem dueTokens_newline (h : baseline = 0 ↔ width = 0) :
    dueTokens baseline (width :: later) = (.newline, baseline) :: dueTokens baseline later := by
  have hi : ¬(baseline = 0 ∧ 0 < width) := by omega
  have hd : ¬(0 < baseline ∧ width = 0) := by omega
  rw [dueTokens, if_neg hi, if_neg hd]

theorem dueTokens_indent (hw : 0 < width) :
    dueTokens 0 (width :: later) =
      (.indent, min width State.maxBaseline) ::
        dueTokens (min width State.maxBaseline) (width :: later) := by
  have hn : min width State.maxBaseline = 0 ↔ width = 0 := by
    simp only [State.maxBaseline]
    omega
  rw [dueTokens, if_pos ⟨rfl, hw⟩, dueTokens_newline later hn]

theorem dueTokens_dedent (hb : 0 < baseline) :
    dueTokens baseline (0 :: later) = (.dedent, 0) :: dueTokens 0 (0 :: later) := by
  have hi : ¬(baseline = 0 ∧ 0 < 0) := by omega
  rw [dueTokens, if_neg hi, if_pos ⟨hb, rfl⟩, dueTokens_newline later Iff.rfl]

end DueTokens

theorem length_dueTokens_le (baseline : Nat) (widths : List Nat) :
    (dueTokens baseline widths).length ≤ 2 * widths.length := by
  induction widths generalizing baseline with
  | nil => exact Nat.le_refl 0
  | cons width later ih =>
    have hinner := ih (min width State.maxBaseline)
    have hleft := ih 0
    have hkept := ih baseline
    simp only [dueTokens, apply_ite List.length, List.length_cons]
    split
    · omega
    · split <;> omega

namespace Blank

theorem width_append_singleton (blanks : List Blank) (kind : Blank) :
    width (blanks ++ [kind]) = match kind with
      | .space => width blanks + 1
      | .tab => width blanks + Layout.tabWidth
      | .lineFeed | .carriageReturn => 0
      | .formFeed => width blanks := by
  cases kind <;> simp [width, Layout.tabWidth] <;> omega

theorem columns_eq_width {blanks : List Blank} (h : .formFeed ∉ blanks) :
    Trivia.columns (blanks.map .blank) = width blanks := by
  obtain ⟨reversed, rfl⟩ : ∃ reversed : List Blank, blanks = reversed.reverse :=
    ⟨blanks.reverse, blanks.reverse_reverse.symm⟩
  rw [List.mem_reverse] at h
  induction reversed with
  | nil => rfl
  | cons kind reversed ih =>
    rw [List.mem_cons, not_or] at h
    rw [List.reverse_cons, List.map_append, List.map_singleton, Trivia.columns_append_singleton,
      ih h.2, width_append_singleton]
    cases kind with
    | formFeed => exact absurd rfl h.1
    | space | tab | lineFeed | carriageReturn => rfl

theorem ofChar?_eq_none_of_isAlpha {c : Char} (h : c.isAlpha = true) : ofChar? c = none := by
  cases hk : ofChar? c with
  | none => rfl
  | some kind =>
    obtain rfl := ofChar?_eq_some_iff.mp hk
    cases kind <;> cases h

end Blank

theorem Trivia.next?_of_isAlpha {c : Char} (h : c.isAlpha = true) (rest : List Char) :
    next? (c :: rest) = none := by
  have hc : c ≠ '#' := by
    rintro rfl
    cases h
  have hb : c ≠ '\\' := by
    rintro rfl
    cases h
  simp [next?, Blank.ofChar?_eq_none_of_isAlpha h, hc, hb]

namespace Layout

def ofWidth (width : Nat) : Layout := { indent := min width maxIndent, endOfLine := true }

theorem indent_ofWidth_pos_iff {width : Nat} : 0 < (ofWidth width).indent ↔ 0 < width := by
  simp only [ofWidth, maxIndent]
  omega

theorem indent_ofWidth_eq_zero_iff {width : Nat} : (ofWidth width).indent = 0 ↔ width = 0 := by
  simp only [ofWidth, maxIndent]
  omega

theorem ofTrivia_blanks {blanks : List Blank} (h : .formFeed ∉ blanks) :
    ofTrivia (blanks.map Trivia.blank) =
      { indent := min (Blank.width blanks) maxIndent
        endOfLine := decide (.lineFeed ∈ blanks) } := by
  have hn : Trivia.commentIndent? (blanks.map Trivia.blank) = none := by
    apply Trivia.commentIndent?_eq_none
    simp [Trivia.isComment]
  have hm : Trivia.blank .lineFeed ∈ blanks.map Trivia.blank ↔ .lineFeed ∈ blanks := by
    simp
  rw [ofTrivia_eq, Trivia.indent, Blank.columns_eq_width h, hn, Nat.min_comm]
  simp only [hm]
  rfl

theorem read?_line {blanks : List Blank} {c : Char} (hf : .formFeed ∉ blanks)
    (hl : .lineFeed ∈ blanks) (hc : c.isAlpha = true) (rest : List Char) :
    read? (blanks.map Blank.char ++ c :: rest) = some (.ofWidth (Blank.width blanks)) := by
  have hs := Trivia.split_blanks blanks (Trivia.next?_of_isAlpha hc rest)
  have hm : measure? (blanks.map Trivia.blank) (c :: rest) =
      some (ofTrivia (blanks.map Trivia.blank)) := by
    simp only [measure?, List.headD_cons]
    split
    · cases hc
    · cases hc
    · rfl
  simp only [read?_of_split hs, hm, ofTrivia_blanks hf, hl, decide_true, ofWidth]

theorem read?_trail {blanks : List Blank} (hf : .formFeed ∉ blanks) :
    read? (blanks.map Blank.char) = some (.ofWidth 0) := by
  have hn : Trivia.next? [] = none := rfl
  have hs := Trivia.split_blanks blanks hn
  rw [List.append_nil] at hs
  simp only [read?_of_split hs, measure?, List.headD_nil, ofTrivia_blanks hf]
  rfl

end Layout

/-- What a parser requests that reads lines and nothing else. -/
def lineTokens : TokenSet := .ofTokens [.newline, .indent, .dedent]

section Scan

variable {state : State} {requested : TokenSet} {ahead : List Char} {layout : Layout}
  {token : Token} {width : Nat}

theorem scan_due (hm : Mode.select state requested = .layout)
    (hr : Layout.read? ahead = some layout)
    (ht : layout.token? requested state.baseline = some token) :
    (scan state requested ahead).Finds token [] [] (layout.settle state token) := by
  have hmeasure : (Layout.measure ahead).layout? = some layout := hr
  simp only [scan, hm, scanIn, scanLayout, hmeasure, ht]
  apply Answer.Finds.commit
  exact ⟨rfl, .layout _, rfl, rfl⟩

theorem select_lineTokens (state : State) : Mode.select state lineTokens = .layout := by
  simp [Mode.select, lineTokens]

theorem indents_ofWidth_iff {baseline : UInt8} :
    (Layout.ofWidth width).indents lineTokens baseline = true ↔ baseline = 0 ∧ 0 < width := by
  have hi : lineTokens.allows .indent = true := by decide
  simp only [Layout.indents, hi, Bool.true_and, Bool.and_eq_true, beq_iff_eq, decide_eq_true_eq,
    Layout.indent_ofWidth_pos_iff]

theorem dedents_ofWidth_iff {baseline : UInt8} :
    (Layout.ofWidth width).dedents lineTokens baseline = true ↔ baseline ≠ 0 ∧ width = 0 := by
  have hw : Layout.wantsDedent lineTokens = true := by decide
  have hc : (Layout.ofWidth width).commentsSettled baseline = true := rfl
  simp only [Layout.dedents, hw, hc, Bool.true_and, Bool.and_true, Bool.and_eq_true, bne_iff_ne,
    beq_iff_eq, Layout.indent_ofWidth_eq_zero_iff]

theorem scan_indent (hr : Layout.read? ahead = some (.ofWidth width)) (hb : state.baseline = 0)
    (hw : 0 < width) :
    (scan state lineTokens ahead).Finds .indent [] []
      (state.enterBlock (min width Layout.maxIndent)) := by
  apply scan_due (select_lineTokens state) hr
  have hi := indents_ofWidth_iff.mpr ⟨hb, hw⟩
  simp [Layout.token?, hi]
  rfl

theorem scan_dedent (hr : Layout.read? ahead = some (.ofWidth 0)) (hb : state.baseline ≠ 0) :
    (scan state lineTokens ahead).Finds .dedent [] [] state.leaveBlock := by
  apply scan_due (select_lineTokens state) hr
  have hi : (Layout.ofWidth 0).indents lineTokens state.baseline = false := by
    rw [Bool.eq_false_iff, Ne, indents_ofWidth_iff]
    exact fun h => hb h.1
  have hd := dedents_ofWidth_iff.mpr ⟨hb, rfl⟩
  simp [Layout.token?, hi, hd]
  rfl

theorem scan_newline (hr : Layout.read? ahead = some (.ofWidth width))
    (hb : state.baseline = 0 ↔ width = 0) :
    (scan state lineTokens ahead).Finds .newline [] [] state := by
  apply scan_due (select_lineTokens state) hr
  have hi : (Layout.ofWidth width).indents lineTokens state.baseline = false := by
    rw [Bool.eq_false_iff, Ne, indents_ofWidth_iff]
    rintro ⟨h, hw⟩
    exact absurd (hb.mp h) (Nat.ne_of_gt hw)
  have hd : (Layout.ofWidth width).dedents lineTokens state.baseline = false := by
    rw [Bool.eq_false_iff, Ne, dedents_ofWidth_iff]
    exact fun h => h.1 (hb.mpr h.2)
  have hn : Layout.breaksLine lineTokens = true := by decide
  simp [Layout.token?, hi, hd, hn]
  rfl

end Scan

end Offside
