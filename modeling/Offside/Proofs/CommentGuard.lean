import Offside.Proofs.Openers

/-!
# Comments in front of the end of a block

A comment that is indented like a block belongs to the block, which does not end before the comment
has been read. The layout remembers one column for this, that of the first comment.
-/

namespace Offside

set_option autoImplicit false

namespace Trivia

/-- Behind `gap` stands the first comment, and with the trivia behind it the text leads to a
character at the margin of a later line, or to the end of the input. -/
structure LeadsToMargin (ahead : List Char) (gap : List Trivia) (comment : Trivia)
    (later : List Trivia) (rest : List Char) : Prop where
  begins : Begins ahead (gap ++ comment :: later) rest
  gap_plain : ∀ item ∈ gap, item.isComment = false
  is_comment : comment.isComment = true
  stops : ∀ c, rest.head? = some c → Blank.ofChar? c = none ∧ c ≠ '#' ∧ c ≠ '\\'
  at_margin : rest = [] ∨
    .blank .lineFeed ∈ gap ++ comment :: later ∧ columns (gap ++ comment :: later) = 0

variable {gap later : List Trivia} {comment : Trivia} {ahead rest : List Char}

theorem commentIndent?_append_comment (hg : ∀ item ∈ gap, item.isComment = false)
    (hc : comment.isComment = true) (later : List Trivia) :
    commentIndent? (gap ++ comment :: later) = some (indent gap) := by
  have hfirst : (gap ++ comment :: later).findIdx? isComment = some gap.length := by
    have hnone : gap.findIdx? isComment = none := List.findIdx?_eq_none_iff.mpr hg
    rw [List.findIdx?_append, hnone, List.findIdx?_cons, hc]
    simp
  rw [commentIndent?, hfirst, Option.map_some, List.take_left]

namespace LeadsToMargin

theorem next?_eq_none (h : LeadsToMargin ahead gap comment later rest) : next? rest = none := by
  cases hr : rest with
  | nil => rfl
  | cons c behind =>
    obtain ⟨hblank, hsharp, hbackslash⟩ := h.stops c (by rw [hr, List.head?_cons])
    exact (next?_cons_eq_none_iff hbackslash behind).mpr ⟨hblank, hsharp⟩

theorem headD_ne_backslash (h : LeadsToMargin ahead gap comment later rest) :
    rest.headD '\x00' ≠ '\\' := by
  cases hr : rest with
  | nil => simp
  | cons c behind => exact (h.stops c (by rw [hr, List.head?_cons])).2.2

theorem split_eq (h : LeadsToMargin ahead gap comment later rest) :
    split ahead = (gap ++ comment :: later, rest) := by
  rw [h.begins.split_eq, split_of_next?_eq_none h.next?_eq_none, List.append_nil]

theorem read?_eq (h : LeadsToMargin ahead gap comment later rest) :
    Layout.read? ahead =
      some { indent := 0, endOfLine := true, comment? := some (indent gap) } := by
  have hm := Layout.measure?_eq (gap ++ comment :: later) h.headD_ne_backslash
  rw [commentIndent?_append_comment h.gap_plain h.is_comment] at hm
  rw [Layout.read?_of_split h.split_eq, hm]
  -- The end of the input is at the margin, whatever columns stand in front of it.
  rcases h.at_margin with rfl | ⟨hbreak, hcolumns⟩
  · simp
  · have hindent : indent (gap ++ comment :: later) = 0 := by
      rw [indent, hcolumns]
      rfl
    simp [hbreak, hindent]

end LeadsToMargin

end Trivia

theorem Layout.token?_behind_comment {requested : TokenSet} {baseline : UInt8}
    (hw : requested.WantsDedent) (hb : baseline ≠ 0) (column : Nat) :
    token? { indent := 0, endOfLine := true, comment? := some column } requested baseline =
      if column < baseline.toNat then some .dedent
      else if breaksLine requested then some .newline else none := by
  have hwants : wantsDedent requested = true := wantsDedent_iff.mpr hw
  simp [token?, indents, dedents, commentsSettled, hwants, hb]

/-- Columns beyond what is counted are beyond any block as well. -/
theorem Trivia.indent_lt_baseline_iff (gap : List Trivia) (baseline : UInt8) :
    indent gap < baseline.toNat ↔ columns gap < baseline.toNat := by
  have hbyte := baseline.toNat_lt
  rw [indent]
  omega

section Scan

variable {state : State} {requested : TokenSet} {ahead : List Char} {layout : Layout}

theorem scan_of_comment (hm : Mode.select state requested = .layout)
    (hr : Layout.read? ahead = some layout) (hc : layout.comment?.isSome = true) :
    (scan state requested ahead).token? = layout.token? requested state.baseline ∧
      (scan state requested ahead).calls =
        Layout.calls (Trivia.split ahead).1 (Trivia.split ahead).2 ∧
      (scan state requested ahead).state =
        (layout.token? requested state.baseline).elim state (layout.settle state) := by
  have hmeasure : (Layout.measure ahead).layout? = some layout := hr
  rw [scan_of_layout hm, Answer.token?_commit, Answer.calls_commit, Answer.state_commit]
  unfold scanLayout
  simp only [hmeasure]
  cases layout.token? requested state.baseline with
  | some token => exact ⟨rfl, rfl, rfl⟩
  | none =>
    rw [if_pos hc]
    exact ⟨rfl, rfl, rfl⟩

end Scan

/-- In a block, where its end is wanted, comments lead to the margin of a later line or to the end
of the input. If the first one is indented less than the block, the block ends. If not, the state is
kept, and a NEWLINE is found if the parser accepts one and does not recover from an error. Either
token is empty and lies where the scan began. -/
theorem first_comment_guards_dedent (input : String) (hs : input.utf8ByteSize ≤ maxOffset)
    (offset : Nat) (state : State) (hb : state.baseline ≠ 0) (requested : TokenSet)
    (hm : Mode.select state requested = .layout) (hw : requested.WantsDedent)
    {ahead rest : List Char} {gap later : List Trivia} {comment : Trivia}
    (hr : ReadsFrom input offset ahead)
    (hl : Trivia.LeadsToMargin ahead gap comment later rest) :
    let source := Source.ofString input
    let start := max offset source.contentStart
    let scanned := source.scan offset state requested
    scanned.reader.span = ⟨start, start⟩ ∧
      (Trivia.columns gap < state.baseline.toNat →
        scanned.answer.token? = some .dedent ∧
          scanned.answer.state = { state with baseline := 0 }) ∧
      (state.baseline.toNat ≤ Trivia.columns gap →
        scanned.answer.token? =
            (if requested.allows .newline ∧ requested.isErrorRecovery = false then some .newline
              else none) ∧
          scanned.answer.state = state) := by
  intro source start scanned
  obtain ⟨front, hfront, hstart⟩ := hr
  have hbefore := Source.before_of_toList_eq hfront hs
  have hscanned : scanned = _ := Source.scan_eq hs hfront hstart state requested
  obtain ⟨htoken, hcalls, hstate⟩ := scan_of_comment hm hl.read?_eq rfl
  rw [Layout.token?_behind_comment hw hb] at htoken hstate
  have hindent := Trivia.indent_lt_baseline_iff gap state.baseline
  rw [hscanned]
  refine ⟨?_, ?_, ?_⟩
  · rw [hcalls, Layout.calls, Reader.span_mark_skip hbefore, ← hstart]
  · intro hcolumns
    rw [if_pos (hindent.mpr hcolumns)] at htoken hstate
    exact ⟨htoken, hstate⟩
  · intro hcolumns
    rw [if_neg (by rw [hindent]; omega)] at htoken hstate
    simp only [Layout.breaksLine_iff] at htoken hstate
    refine ⟨htoken, ?_⟩
    rw [hstate]
    split <;> rfl

/-- A comment behind two blanks ends a block of four columns and not one of two, and a deeper one
behind it makes no difference. -/
theorem first_comment_guards_dedent_twice :
    let input := "\n  # é\n\t#\nx"
    let gap : List Trivia := [.blank .lineFeed, .blank .space, .blank .space]
    let later : List Trivia := [.blank .tab, .comment [] .lineBreak]
    let requested : TokenSet := .ofTokens [.newline, .indent, .dedent]
    let source := Source.ofString input
    input.utf8ByteSize ≤ maxOffset ∧ ReadsFrom input 0 input.toList ∧
      Trivia.LeadsToMargin input.toList gap (.comment [' ', 'é'] .lineBreak) later ['x'] ∧
      requested.WantsDedent ∧
      (source.scan 0 { baseline := 4 } requested).answer.token? = some .dedent ∧
      (source.scan 0 { baseline := 2 } requested).answer.token? = some .newline := by
  intro input gap later requested source
  have hs : input.utf8ByteSize ≤ maxOffset := by decide
  have hstart : (Source.ofString input).contentStart = 0 := by decide +kernel
  have hr : ReadsFrom input 0 input.toList := ⟨[], rfl, by rw [hstart]; rfl⟩
  have hsplit : Trivia.split input.toList =
      (gap ++ .comment [' ', 'é'] .lineBreak :: later, ['x']) := by decide +kernel
  have hl : Trivia.LeadsToMargin input.toList gap (.comment [' ', 'é'] .lineBreak) later ['x'] := by
    refine ⟨?_, by decide, rfl, ?_, .inr (by decide)⟩
    · have hbegins := Trivia.begins_split input.toList
      rwa [hsplit] at hbegins
    · intro c hc
      cases hc
      decide
  have hw : requested.WantsDedent := by decide
  refine ⟨hs, hr, hl, hw, ?_, ?_⟩
  · have hfound := first_comment_guards_dedent input hs 0 { baseline := 4 } (by decide) requested
      (by decide +kernel) hw hr hl
    exact (hfound.2.1 (by decide)).1
  · have hfound := first_comment_guards_dedent input hs 0 { baseline := 2 } (by decide) requested
      (by decide +kernel) hw hr hl
    exact (hfound.2.2 (by decide)).1.trans (if_pos (by decide))

end Offside
