import Offside.Proofs.Legality

/-!
# What a scan looks at

Of the requested tokens a scan asks for seven, and whether any closing bracket is among them. Of the
state it looks at the baseline, at the character that closes the innermost string, and at whether
there is room for one more.
-/

namespace Offside

set_option autoImplicit false

namespace Token

/-- The tokens of which a scan asks whether each is requested. -/
def asked : List Token :=
  [newline, indent, dedent, stringStart, stringContent, regexStart, regexContent]

/-- The tokens of which a scan asks only whether any is requested. -/
def closers : List Token := [closeParen, closeBracket, closeBrace]

/-- A scan gets the same answers to what it asks. -/
structure SameAsked (left right : Token → Bool) : Prop where
  asked_eq : ∀ token ∈ asked, left token = right token
  closers_iff : (∃ closer ∈ closers, left closer = true) ↔ ∃ closer ∈ closers, right closer = true

/-- The entry of a token in a table. It is false where the table is too short. -/
def entry (table : List Bool) (token : Token) : Bool := table[token.index]?.getD false

theorem index_of_getElem?_all {position : Nat} {token : Token} (h : all[position]? = some token) :
    token.index = position := by
  have hindices : all.map index = List.range 13 := by decide
  have hentry : (all.map index)[position]? = some token.index := by
    rw [List.getElem?_map, h, Option.map_some]
  rw [hindices] at hentry
  obtain ⟨hlt, heq⟩ := List.getElem?_eq_some_iff.mp hentry
  rw [← heq, List.getElem_range]

end Token

/-- A scan sees no difference between the two states. -/
structure State.SameSeen (first second : State) : Prop where
  baseline_eq : first.baseline = second.baseline
  /-- No string is open in either, or the innermost ones end alike, be it that nothing ends them. -/
  closing_eq : first.top?.map Delimiter.closing? = second.top?.map Delimiter.closing?
  full_iff : State.maxDepth ≤ first.depth ↔ State.maxDepth ≤ second.depth

/-- Two stacks change in the same way. The last two are what has become of the first two. -/
inductive SameChange :
    List Delimiter → List Delimiter → List Delimiter → List Delimiter → Prop where
  | stay (first second : List Delimiter) : SameChange first second first second
  | push (delimiter : Delimiter) (first second : List Delimiter) :
      SameChange first second (delimiter :: first) (delimiter :: second)
  | pop (top other : Delimiter) (first second : List Delimiter) :
      SameChange (top :: first) (other :: second) first second

/-- Answers that were given in the states `first` and `second` say the same of the token and of
what has become of the state. -/
structure Answer.Corresponds (first second : State) (left right : Answer) : Prop where
  token?_eq : left.token? = right.token?
  calls_eq : left.calls = right.calls
  baseline_eq : left.state.baseline = right.state.baseline
  same_change : SameChange first.stack second.stack left.state.stack right.state.stack

/-- A table may be too short, and what it holds behind the last token is ignored. -/
theorem TokenSet.allows_ofTable (table : List Bool) :
    (ofTable table).allows = Token.entry table := by
  funext token
  have hmem : token ∈ ((Token.all.zip table).filter Prod.snd).map Prod.fst ↔
      table[token.index]? = some true := by
    constructor
    · intro h
      obtain ⟨⟨_, accepted⟩, hfilter, rfl⟩ := List.mem_map.mp h
      obtain ⟨hzip, rfl⟩ := List.mem_filter.mp hfilter
      obtain ⟨position, hposition⟩ := List.mem_iff_getElem?.mp hzip
      obtain ⟨htoken, haccepted⟩ := List.getElem?_zip_eq_some.mp hposition
      rw [Token.index_of_getElem?_all htoken]
      exact haccepted
    · intro h
      have hzip : (Token.all.zip table)[token.index]? = some (token, true) :=
        List.getElem?_zip_eq_some.mpr ⟨token.getElem?_all, h⟩
      exact List.mem_map.mpr ⟨_, List.mem_filter.mpr ⟨List.mem_of_getElem? hzip, rfl⟩, rfl⟩
  rw [ofTable, allows_ofTokens, Token.entry, Bool.eq_iff_iff, decide_eq_true_eq, hmem]
  cases table[token.index]? with
  | none => simp
  | some accepted => simp

section Requested

variable {left right : TokenSet}

namespace TokenSet

theorem isErrorRecovery_congr (h : Token.SameAsked left.allows right.allows) :
    left.isErrorRecovery = right.isErrorRecovery := by
  have hs := h.asked_eq .stringContent (by decide)
  have hr := h.asked_eq .regexContent (by decide)
  have hi := h.asked_eq .indent (by decide)
  rw [isErrorRecovery, isErrorRecovery, hs, hr, hi]

theorem withinBrackets_congr (h : Token.SameAsked left.allows right.allows) :
    left.withinBrackets = right.withinBrackets := by
  have hnone (set : TokenSet) : set.withinBrackets = false ↔
      ¬ ∃ closer ∈ Token.closers, set.allows closer = true := by
    rw [withinBrackets_eq_false_iff]
    simp [Token.closers]
  rw [← Bool.not_inj_iff, Bool.eq_iff_iff]
  simp only [Bool.not_eq_true', hnone, h.closers_iff]

end TokenSet

namespace Layout

theorem token?_congr (h : Token.SameAsked left.allows right.allows) (layout : Layout)
    (baseline : UInt8) : layout.token? left baseline = layout.token? right baseline := by
  have hnewline := h.asked_eq .newline (by decide)
  have hindents : layout.indents left baseline = layout.indents right baseline := by
    rw [indents, indents, h.asked_eq .indent (by decide)]
  have hdedents : layout.dedents left baseline = layout.dedents right baseline := by
    rw [dedents, dedents, wantsDedent, wantsDedent, h.asked_eq .dedent (by decide), hnewline,
      TokenSet.withinBrackets_congr h]
  have hbreaks : breaksLine left = breaksLine right := by
    rw [breaksLine, breaksLine, hnewline, TokenSet.isErrorRecovery_congr h]
  rw [token?, token?, hindents, hdedents, hbreaks]

end Layout

theorem Literal.ofOpener?_congr (h : Token.SameAsked left.allows right.allows) (c : Char) :
    ofOpener? left c = ofOpener? right c := by
  have hstring := h.asked_eq .stringStart (by decide)
  have hregex := h.asked_eq .regexStart (by decide)
  simp only [ofOpener?, hstring, hregex]

theorem Mode.select_congr (h : Token.SameAsked left.allows right.allows) (state : State) :
    select state left = select state right := by
  have hstring := h.asked_eq .stringContent (by decide)
  have hregex := h.asked_eq .regexContent (by decide)
  simp only [select, TokenSet.isErrorRecovery_congr h, hstring, hregex]

theorem scan_congr (h : Token.SameAsked left.allows right.allows) (state : State)
    (ahead : List Char) : scan state left ahead = scan state right ahead := by
  have hlayout : scanLayout state left ahead = scanLayout state right ahead := by
    simp only [scanLayout, openLiteral, Layout.token?_congr h, Literal.ofOpener?_congr h]
  simp only [scan, scanIn, Mode.select_congr h, hlayout]

end Requested

section State

variable {first second : State} {requested : TokenSet} {ahead : List Char}

namespace Literal

theorem piece_congr {literal other : Literal} (h : literal.stop? = other.stop?)
    (ahead : List Char) : literal.piece ahead = other.piece ahead := by
  have hplain : literal.isPlain = other.isPlain := by
    funext c
    rw [isPlain, isPlain, h]
  have htext : literal.plainText ahead = other.plainText ahead := by
    cases ahead with
    | nil => rfl
    | cons c rest => rw [plainText, plainText, hplain]
  rw [piece, piece, htext, h]

theorem stop?_congr {top other : Delimiter} (h : top.closing? = other.closing?) :
    (string top).stop? = (string other).stop? := by
  have hclosing : (string top).closing? = (string other).closing? := h
  have hyields : (string top).yields = (string other).yields := rfl
  funext c
  rw [stop?, stop?, hyields, hclosing]

end Literal

theorem State.SameSeen.top?_cases (h : first.SameSeen second) :
    first.top? = none ∧ second.top? = none ∨
      ∃ top other, first.top? = some top ∧ second.top? = some other ∧
        top.closing? = other.closing? := by
  have hclosing := h.closing_eq
  cases hf : first.top? with
  | none =>
    rw [hf] at hclosing
    exact .inl ⟨rfl, Option.map_eq_none_iff.mp hclosing.symm⟩
  | some top =>
    rw [hf] at hclosing
    obtain ⟨other, hother, heq⟩ := Option.map_eq_some_iff.mp hclosing.symm
    exact .inr ⟨top, other, rfl, hother, heq.symm⟩

inductive Mode.Alike : Mode → Mode → Prop where
  | layout : Alike .layout .layout
  | regex : Alike (.inside .regex) (.inside .regex)
  | string {top other : Delimiter} (closing : top.closing? = other.closing?) :
      Alike (.inside (.string top)) (.inside (.string other))

theorem Mode.select_alike (h : first.SameSeen second) (requested : TokenSet) :
    (select first requested).Alike (select second requested) := by
  rcases h.top?_cases with ⟨hf, hs⟩ | ⟨top, other, hf, hs, hclosing⟩
  · simp only [select, hf, hs, ite_self]
    split
    · exact .layout
    · split
      · exact .regex
      · exact .layout
  · simp only [select, hf, hs]
    split
    · exact .layout
    · cases requested.allows .stringContent with
      | true => exact .string hclosing
      | false =>
        simp only [Bool.false_eq_true, if_false]
        split
        · exact .regex
        · exact .layout

theorem Answer.Corresponds.commit {left right : Answer} (h : left.Corresponds first second right)
    (mode other : Mode) : (left.commit mode).Corresponds first second (right.commit other) := by
  refine ⟨?_, ?_, ?_, ?_⟩
  · rw [token?_commit, token?_commit, h.token?_eq]
  · rw [calls_commit, calls_commit, h.calls_eq]
  · rw [state_commit, state_commit, h.baseline_eq]
  · rw [state_commit, state_commit]
    exact h.same_change

theorem State.SameSeen.open?_cases (h : first.SameSeen second) (literal : Literal) :
    first.open? literal = none ∧ second.open? literal = none ∨
      ∃ inner other, first.open? literal = some inner ∧ second.open? literal = some other ∧
        inner.baseline = other.baseline ∧
        SameChange first.stack second.stack inner.stack other.stack := by
  cases literal with
  | regex => exact .inr ⟨first, second, rfl, rfl, h.baseline_eq, .stay _ _⟩
  | string delimiter =>
    by_cases hfull : State.maxDepth ≤ first.depth
    · exact .inl ⟨if_pos hfull, if_pos (h.full_iff.mp hfull)⟩
    · have hother : ¬ State.maxDepth ≤ second.depth := fun hs => hfull (h.full_iff.mpr hs)
      exact .inr ⟨_, _, if_neg hfull, if_neg hother, h.baseline_eq, .push delimiter _ _⟩

theorem Layout.baseline_settle_congr (h : first.baseline = second.baseline) (layout : Layout)
    (token : Token) :
    (layout.settle first token).baseline = (layout.settle second token).baseline := by
  cases token with
  | indent => rfl
  | dedent => rfl
  | _ => exact h

theorem scanLayout_corresponds (h : first.SameSeen second) (requested : TokenSet)
    (ahead : List Char) :
    (scanLayout first requested ahead).Corresponds first second
      (scanLayout second requested ahead) := by
  have hb := h.baseline_eq
  simp only [scanLayout, hb]
  cases (Layout.measure ahead).layout? with
  | none => exact ⟨rfl, rfl, hb, .stay _ _⟩
  | some layout =>
    cases ht : layout.token? requested second.baseline with
    | some token =>
      simp only [ht]
      refine ⟨rfl, rfl, Layout.baseline_settle_congr hb layout token, ?_⟩
      rw [Layout.stack_settle, Layout.stack_settle]
      exact .stay _ _
    | none =>
      simp only [ht]
      split
      · exact ⟨rfl, rfl, hb, .stay _ _⟩
      · unfold openLiteral
        cases Literal.ofOpener? requested ((Layout.measure ahead).rest.headD '\x00') with
        | none => exact ⟨rfl, rfl, hb, .stay _ _⟩
        | some literal =>
          rcases h.open?_cases literal with
            ⟨hf, hs⟩ | ⟨inner, other, hf, hs, hbaseline, hstacks⟩
          · simp only [hf, hs]
            exact ⟨rfl, rfl, hb, .stay _ _⟩
          · simp only [hf, hs]
            exact ⟨rfl, rfl, hbaseline, hstacks⟩

@[simp] theorem State.baseline_behind (state : State) (token : Token) :
    (state.behind token).baseline = state.baseline := by
  unfold behind
  split <;> rfl

theorem Piece.token?_string (piece : Piece) (top other : Delimiter) :
    piece.token? (.string top) = piece.token? (.string other) := by
  obtain ⟨length, ending⟩ := piece
  cases length <;> cases ending <;> rfl

theorem scanPiece_corresponds_string {top other : Delimiter} (hb : first.baseline = second.baseline)
    (hf : first.top? = some top) (hs : second.top? = some other) (piece : Piece) :
    (scanPiece first (.string top) piece).Corresponds first second
      (scanPiece second (.string other) piece) := by
  obtain ⟨rest, hrest⟩ := List.head?_eq_some_iff.mp hf
  obtain ⟨later, hlater⟩ := List.head?_eq_some_iff.mp hs
  have htoken := piece.token?_string top other
  refine ⟨htoken, rfl, ?_, ?_⟩
  · simp only [scanPiece, htoken]
    cases piece.token? (.string other) with
    | none => exact hb
    | some token => simpa using hb
  · simp only [scanPiece, htoken]
    cases piece.token? (.string other) with
    | none => exact .stay _ _
    | some token =>
      simp only [Option.elim_some, State.behind]
      split
      · rw [State.pop, State.pop, hrest, hlater]
        exact .pop top other rest later
      · exact .stay _ _

theorem scanPiece_corresponds_regex (hb : first.baseline = second.baseline) (piece : Piece) :
    (scanPiece first .regex piece).Corresponds first second (scanPiece second .regex piece) := by
  have hstate (state : State) : (scanPiece state .regex piece).state = state := by
    simp only [scanPiece]
    cases htoken : piece.token? .regex with
    | none => rfl
    | some token =>
      apply if_neg
      rcases Piece.token?_cases htoken with rfl | ⟨rfl, -⟩ <;> decide
  refine ⟨rfl, rfl, ?_, ?_⟩
  · rw [hstate, hstate, hb]
  · rw [hstate, hstate]
    exact .stay _ _

/-- States between which a scan sees no difference give answers that correspond. -/
theorem scan_corresponds (h : first.SameSeen second) (requested : TokenSet) (ahead : List Char) :
    (scan first requested ahead).Corresponds first second (scan second requested ahead) := by
  have hb := h.baseline_eq
  have hlayout := scanLayout_corresponds h requested ahead
  have hmode := Mode.select_alike h requested
  apply Answer.Corresponds.commit
  generalize hf : Mode.select first requested = mode at hmode ⊢
  generalize hs : Mode.select second requested = other at hmode ⊢
  cases hmode with
  | layout => exact hlayout
  | regex =>
    simp only [scanIn]
    split
    · exact hlayout
    · exact scanPiece_corresponds_regex hb _
  | string closing =>
    -- The delimiters need not be equal: of them only what closes the string is read.
    have hpiece := Literal.piece_congr (Literal.stop?_congr closing) ahead
    have htop := (Mode.select_eq_string_iff.mp hf).2.2
    have hother := (Mode.select_eq_string_iff.mp hs).2.2
    simp only [scanIn, hpiece]
    split
    · exact hlayout
    · exact scanPiece_corresponds_string hb htop hother _

end State

/-- Wherever two scans begin in a source, if they are asked for sets that answer alike, in states
between which a scan sees no difference, they find the same by the same calls and change their
states in the same way. So do scans that are asked by tables, which in one and the same state give
one and the same answer. -/
theorem unseen_makes_no_difference (source : Source) (offset : Nat) (first second : State)
    (h : first.SameSeen second) :
    (∀ left right : TokenSet, Token.SameAsked left.allows right.allows →
      let scanned := source.scan offset first left
      let other := source.scan offset second right
      scanned.answer.Corresponds first second other.answer ∧ scanned.reader = other.reader) ∧
      ∀ left right : List Bool, Token.SameAsked (Token.entry left) (Token.entry right) →
        let scanned := source.scan offset first (.ofTable left)
        let other := source.scan offset second (.ofTable right)
        scanned.answer.Corresponds first second other.answer ∧ scanned.reader = other.reader ∧
          scanned = source.scan offset first (.ofTable right) := by
  have hsame {left right : TokenSet} (ha : Token.SameAsked left.allows right.allows) :
      source.scan offset first left = source.scan offset first right := by
    simp only [Source.scan, Reader.scan, scan_congr ha]
  have hscans (requested : TokenSet) :
      let scanned := source.scan offset first requested
      let other := source.scan offset second requested
      scanned.answer.Corresponds first second other.answer ∧ scanned.reader = other.reader := by
    have hc := scan_corresponds h requested ((Reader.ofSource source).begin offset).ahead
    exact ⟨hc, congrArg (Reader.run _) hc.calls_eq⟩
  -- One set is exchanged for the other in the first state, and then the states are.
  constructor
  · intro left right ha
    rw [hsame ha]
    exact hscans right
  · intro left right ha
    rw [← TokenSet.allows_ofTable, ← TokenSet.allows_ofTable] at ha
    rw [hsame ha]
    exact ⟨(hscans _).1, (hscans _).2, rfl⟩

/-- The end of a string is found although the stacks differ below it, the delimiters by other bits
and the sets by their brackets. A longer table makes no difference either. -/
theorem unseen_makes_no_difference_quote :
    let source := Source.ofString "é'"
    let first : State := { stack := [.ofQuote .single, ⟨0xF8⟩], baseline := 4 }
    let second : State := { stack := [⟨0xFD⟩], baseline := 4 }
    let left : TokenSet := .ofTokens [.stringContent, .stringEnd, .closeParen]
    let right : TokenSet := ⟨0xF010⟩
    let table := [false, false, false, false, true]
    let longer := table ++ [true, false, false, true, true, false, false, false, true]
    first.SameSeen second ∧ Token.SameAsked left.allows right.allows ∧
      Token.SameAsked (Token.entry table) (Token.entry longer) ∧
      (source.scan 2 first left).answer.token? = some .stringEnd ∧
      (source.scan 2 first left).answer.Corresponds first second
        (source.scan 2 second right).answer ∧
      source.scan 2 first (.ofTable table) = source.scan 2 first (.ofTable longer) := by
  intro source first second left right table longer
  have h : first.SameSeen second := ⟨rfl, by decide, by decide⟩
  have hsets : Token.SameAsked left.allows right.allows := ⟨by decide, by decide⟩
  have htables : Token.SameAsked (Token.entry table) (Token.entry longer) :=
    ⟨by decide, by decide⟩
  obtain ⟨hasked, htable⟩ := unseen_makes_no_difference source 2 first second h
  exact ⟨h, hsets, htables, by decide +kernel, (hasked left right hsets).1,
    (htable table longer htables).2.2⟩

end Offside
