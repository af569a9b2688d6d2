import Offside.Proofs.Calls
import Offside.Proofs.Munch
import Offside.Proofs.Openers

/-!
# What a scan reports

The reports of a scan come from the text of a literal, from the layout, and from the scan as a
whole. What is reported for debugging keeps a token from being found, and says why.
-/

namespace Offside

set_option autoImplicit false

/-- What one scan may report, from the first to the last. -/
inductive Reports : List Event → Prop where
  | nothing : Reports []
  | unterminated (content : Token) (ending : PieceEnd) : Reports [.unterminated content ending]
  | broken : Reports [.brokenContinuation]
  | measured (layout : Layout) (baseline : UInt8) : Reports [.measured layout baseline]
  | refused (layout : Layout) (baseline : UInt8) (depth : Nat) :
      Reports [.measured layout baseline, .nestingLimit depth]
  | told (layout : Layout) (before : UInt8) (token : Token) (mode : Mode) (depth : Nat)
      (after : UInt8) : Reports [.measured layout before, .committed token mode depth after]
  | cut (token : Token) (mode : Mode) (depth : Nat) (baseline : UInt8) :
      Reports [.committed token mode depth baseline]

/-- Text of the literal, a character of it at least, goes up to a line feed, or up to a NUL or the
end of the input. A line feed in front belongs to the text. -/
def Literal.RunsInto (literal : Literal) (ahead : List Char) (ending : PieceEnd) : Prop :=
  ∃ first text rest, ahead = first :: (text ++ rest) ∧ literal.isPlain first = true ∧
    (∀ c ∈ text, literal.isPlain c = true ∧ c ≠ '\n') ∧
    (ending = .lineBreak ∧ rest.headD '\x00' = '\n' ∨
      ending = .endOfInput ∧ rest.headD '\x00' = '\x00')

/-- Outside of literals a quote is met in front of which nothing is due and that would open one
string too many. -/
def State.Refuses (state : State) (requested : TokenSet) (ahead : List Char) : Prop :=
  requested.allows .stringStart = true ∧ maxDepth ≤ state.depth ∧
    ∃ quote : Quote, LeadsTo ahead quote.char requested state.baseline

/-- What an answer to a scan of `ahead` reports agrees with what it says. -/
structure Answer.Agrees (answer : Answer) (state : State) (requested : TokenSet)
    (ahead : List Char) : Prop where
  reports : Reports answer.events
  committed_iff : ∀ token mode depth baseline,
    answer.events.getLast? = some (.committed token mode depth baseline) ↔
      answer.token? = some token ∧ mode = Mode.select state requested ∧
        depth = answer.state.depth ∧ baseline = answer.state.baseline
  of_debug : ∀ event ∈ answer.events, event.level = .debug →
    answer.token? = none ∧ answer.state = state
  unterminated_iff : ∀ content ending, .unterminated content ending ∈ answer.events ↔
    ∃ literal : Literal, Mode.select state requested = .inside literal ∧
      content = literal.contentToken ∧ literal.RunsInto ahead ending
  broken_iff : .brokenContinuation ∈ answer.events ↔
    Mode.select state requested = .layout ∧ Layout.read? ahead = none
  refused_iff : ∀ depth, .nestingLimit depth ∈ answer.events ↔
    Mode.select state requested = .layout ∧ state.Refuses requested ahead ∧ depth = state.depth
  measured_iff : ∀ layout baseline, .measured layout baseline ∈ answer.events ↔
    ReadsLayout state requested ahead ∧ Layout.read? ahead = some layout ∧
      baseline = state.baseline

namespace Literal

variable {literal : Literal} {ahead : List Char} {ending : PieceEnd} {c : Char}

theorem stop?_blank (literal : Literal) (kind : Blank) : literal.stop? kind.char = none := by
  have hother : kind.char ∉ ['\x00', '\\', '\x7b', '\x7d'] := by cases kind <;> decide
  simp only [List.mem_cons, List.not_mem_nil, or_false, not_or] at hother
  obtain ⟨hnul, hescape, hopen, hclose⟩ := hother
  have hclosing : literal.closing? ≠ some kind.char := by
    intro h
    have hnext := (next?_of_closing? h []).1
    rw [Trivia.next?_cons_eq_none_iff hescape, Blank.ofChar?_char] at hnext
    cases hnext.1
  simp [stop?, yields, hclosing, hnul, hescape, hopen, hclose]

theorem stop?_lineFeed (literal : Literal) : literal.stop? '\n' = none :=
  literal.stop?_blank .lineFeed

theorem charEnd?_eq_lineBreak_iff : literal.charEnd? c = some .lineBreak ↔ c = '\n' := by
  constructor
  · intro h
    unfold charEnd? at h
    cases hs : literal.stop? c with
    | some ending =>
      rw [hs, Option.some_or] at h
      exact absurd (hs.trans h) (stop?_ne_lineBreak c)
    | none =>
      rw [hs, Option.none_or] at h
      split at h
      · assumption
      · cases h
  · intro h
    rw [h, charEnd?, stop?_lineFeed]
    rfl

theorem charEnd?_eq_endOfInput_iff : literal.charEnd? c = some .endOfInput ↔ c = '\x00' := by
  constructor
  · intro h
    unfold charEnd? at h
    cases hs : literal.stop? c with
    | some ending =>
      rw [hs, Option.some_or] at h
      exact eq_nul_of_stop? (hs.trans h)
    | none =>
      rw [hs, Option.none_or] at h
      split at h <;> cases h
  · intro h
    rw [h]
    exact charEnd?_of_stop? (stop?_nul literal)

theorem piece_eq_succ_iff {length : Nat} :
    literal.piece ahead = ⟨length + 1, ending⟩ ↔
      ∃ first text rest, ahead = first :: (text ++ rest) ∧ literal.isPlain first = true ∧
        (∀ c ∈ text, literal.charEnd? c = none) ∧
        literal.charEnd? (rest.headD '\x00') = some ending ∧ text.length = length := by
  constructor
  · intro h
    cases ahead with
    | nil => cases h
    | cons first later =>
      cases hf : literal.isPlain first with
      | false => simp [piece, plainText, hf] at h
      | true =>
        obtain ⟨text, htext⟩ : ∃ text, text =
          later.takeWhile fun next => (literal.charEnd? next).isNone := ⟨_, rfl⟩
        obtain ⟨rest, hrest⟩ : ∃ rest, rest =
          later.dropWhile fun next => (literal.charEnd? next).isNone := ⟨_, rfl⟩
        have hlater : later = text ++ rest := by
          rw [htext, hrest, List.takeWhile_append_dropWhile]
        have hplain : ∀ c ∈ text, literal.charEnd? c = none := by
          intro c hc
          rw [htext] at hc
          exact Option.isNone_iff_eq_none.mp (List.all_eq_true.mp List.all_takeWhile c hc)
        have hends : (literal.charEnd? (rest.headD '\x00')).isNone = false := by
          cases hr : rest with
          | nil => rw [List.headD_nil, charEnd?_of_stop? (stop?_nul literal), Option.isNone_some]
          | cons c others =>
            have hhead := List.head?_dropWhile_not
              (fun next => (literal.charEnd? next).isNone) later
            rw [← hrest, hr] at hhead
            simpa using hhead
        rw [piece, plainText_cons hf, ← htext, hlater, List.length_cons, List.drop_succ_cons,
          List.drop_left, Piece.mk.injEq] at h
        refine ⟨first, text, rest, by rw [hlater], hf, hplain, ?_, Nat.succ.inj h.1⟩
        rw [charEnd?_eq_getD hends, h.2]
  · intro h
    obtain ⟨first, text, rest, rfl, hf, hplain, hends, rfl⟩ := h
    have htext : (text ++ rest).takeWhile (fun next => (literal.charEnd? next).isNone) = text := by
      rw [List.takeWhile_append_of_pos]
      · cases rest with
        | nil => exact List.append_nil text
        | cons c others =>
          have hc : literal.charEnd? c = some ending := hends
          rw [List.takeWhile_cons_of_neg (by simp [hc]), List.append_nil]
      · intro c hc
        rw [hplain c hc, Option.isNone_none]
    have hending : (literal.stop? (rest.headD '\x00')).getD .lineBreak = ending := by
      rw [charEnd?_eq_getD (by rw [hends, Option.isNone_some]), Option.some.injEq] at hends
      exact hends
    rw [piece, plainText_cons hf, htext, List.length_cons, List.drop_succ_cons, List.drop_left,
      hending]

theorem runsInto_iff : literal.RunsInto ahead ending ↔
    (ending = .lineBreak ∨ ending = .endOfInput) ∧
      ∃ length, literal.piece ahead = ⟨length + 1, ending⟩ := by
  have hplain (c : Char) : literal.isPlain c = true ∧ c ≠ '\n' ↔ literal.charEnd? c = none := by
    rw [← Option.isNone_iff_eq_none, isNone_charEnd?]
    simp
  have hends (c : Char) : ending = .lineBreak ∧ c = '\n' ∨ ending = .endOfInput ∧ c = '\x00' ↔
      (ending = .lineBreak ∨ ending = .endOfInput) ∧ literal.charEnd? c = some ending := by
    constructor
    · intro h
      rcases h with ⟨rfl, hc⟩ | ⟨rfl, hc⟩
      · exact ⟨.inl rfl, charEnd?_eq_lineBreak_iff.mpr hc⟩
      · exact ⟨.inr rfl, charEnd?_eq_endOfInput_iff.mpr hc⟩
    · intro h
      rcases h with ⟨rfl | rfl, hc⟩
      · exact .inl ⟨rfl, charEnd?_eq_lineBreak_iff.mp hc⟩
      · exact .inr ⟨rfl, charEnd?_eq_endOfInput_iff.mp hc⟩
  simp only [RunsInto, hplain, hends, piece_eq_succ_iff]
  constructor
  · intro h
    obtain ⟨first, text, rest, ha, hf, htext, hk, hc⟩ := h
    exact ⟨hk, text.length, first, text, rest, ha, hf, htext, hc, rfl⟩
  · intro h
    obtain ⟨hk, _, first, text, rest, ha, hf, htext, hc, -⟩ := h
    exact ⟨first, text, rest, ha, hf, htext, hk, hc⟩

end Literal

namespace Piece

/-- A piece that is a token reports nothing, and one that is none reports where its text runs. -/
theorem events_cases (piece : Piece) (literal : Literal) :
    piece.events literal = [] ∨
      ∃ length ending, piece = ⟨length + 1, ending⟩ ∧ (ending = .lineBreak ∨ ending = .endOfInput) ∧
        piece.token? literal = none ∧
        piece.events literal = [.unterminated literal.contentToken ending] := by
  obtain ⟨length, ending⟩ := piece
  cases length with
  | zero => exact .inl rfl
  | succ length =>
    cases ending with
    | yielded | closed => exact .inl rfl
    | lineBreak => exact .inr ⟨length, _, rfl, .inl rfl, rfl, rfl⟩
    | endOfInput => exact .inr ⟨length, _, rfl, .inr rfl, rfl, rfl⟩

end Piece

namespace Event

def isLayout : Event → Bool
  | measured _ _ | brokenContinuation | nestingLimit _ => true
  | unterminated _ _ | committed _ _ _ _ | restored _ _ => false

def isCommitted : Event → Bool
  | committed _ _ _ _ => true
  | _ => false

end Event

section Scan

variable {state : State} {requested : TokenSet} {ahead : List Char} {answer : Answer}
  {event : Event}

theorem Answer.events_commit (answer : Answer) (mode : Mode) :
    (answer.commit mode).events = answer.events ++ (answer.token?.map fun token =>
      Event.committed token mode answer.state.depth answer.state.baseline).toList := by
  unfold commit
  cases answer.token? with
  | none => exact (List.append_nil _).symm
  | some token => rfl

theorem Answer.mem_events_commit_iff (h : event.isCommitted = false) (mode : Mode) :
    event ∈ (answer.commit mode).events ↔ event ∈ answer.events := by
  rw [events_commit, List.mem_append, or_iff_left]
  intro hm
  cases ht : answer.token? with
  | none => simp [ht] at hm
  | some token =>
    simp only [ht, Option.map_some, Option.toList_some, List.mem_singleton] at hm
    rw [hm] at h
    cases h

theorem Course.reports (course : Course state requested ahead answer) (mode : Mode) :
    Reports (answer.commit mode).events := by
  rw [Answer.events_commit]
  cases course with
  | @piece literal =>
    simp only [scanPiece]
    rcases (literal.piece ahead).events_cases literal with he | ⟨_, ending, -, -, ht, he⟩
    · rw [he, List.nil_append]
      cases (literal.piece ahead).token? literal with
      | none => exact .nothing
      | some token => exact .cut _ _ _ _
    · rw [he, ht]
      exact .unterminated _ _
  | broken => exact .broken
  | due => exact .told _ _ _ _ _ _
  | idle => exact .measured _ _
  | refused => exact .refused _ _ _
  | opened => exact .told _ _ _ _ _ _

/-- What is reported before the token is not the token, and debugging means that there is none. -/
theorem Course.of_mem_events (course : Course state requested ahead answer)
    (h : event ∈ answer.events) :
    event.isCommitted = false ∧
      (event.level = .debug → answer.token? = none ∧ answer.state = state) := by
  cases course with
  | @piece literal =>
    simp only [scanPiece] at h ⊢
    rcases (literal.piece ahead).events_cases literal with he | ⟨_, ending, -, -, ht, he⟩
    · rw [he] at h
      cases h
    · rw [he, List.mem_singleton] at h
      rw [h, ht]
      exact ⟨rfl, fun _ => ⟨rfl, rfl⟩⟩
  | broken =>
    obtain rfl := List.mem_singleton.mp h
    exact ⟨rfl, fun _ => ⟨rfl, rfl⟩⟩
  | due | idle | opened =>
    obtain rfl := List.mem_singleton.mp h
    exact ⟨rfl, fun hl => by cases hl⟩
  | refused =>
    refine ⟨?_, fun _ => ⟨rfl, rfl⟩⟩
    rcases List.mem_cons.mp h with rfl | h
    · rfl
    · obtain rfl := List.mem_singleton.mp h
      rfl

theorem scan_course (state : State) (requested : TokenSet) (ahead : List Char) :
    ∃ answer, Course state requested ahead answer ∧
      scan state requested ahead = answer.commit (Mode.select state requested) :=
  ⟨_, scanIn_course state requested ahead, rfl⟩

theorem getLast?_events_scan_iff {token : Token} {mode : Mode} {depth : Nat} {baseline : UInt8} :
    (scan state requested ahead).events.getLast? = some (.committed token mode depth baseline) ↔
      (scan state requested ahead).token? = some token ∧ mode = Mode.select state requested ∧
        depth = (scan state requested ahead).state.depth ∧
        baseline = (scan state requested ahead).state.baseline := by
  obtain ⟨answer, course, hscan⟩ := scan_course state requested ahead
  rw [hscan, Answer.events_commit, Answer.token?_commit, Answer.state_commit]
  cases ht : answer.token? with
  | none =>
    simp only [Option.map_none, Option.toList_none, List.append_nil, reduceCtorEq, false_and,
      iff_false]
    intro hlast
    cases (course.of_mem_events (List.mem_of_getLast? hlast)).1
  | some found =>
    simp only [Option.map_some, Option.toList_some, List.getLast?_concat, Option.some.injEq,
      Event.committed.injEq]
    constructor
    · intro h
      obtain ⟨rfl, rfl, rfl, rfl⟩ := h
      exact ⟨rfl, rfl, rfl, rfl⟩
    · intro h
      obtain ⟨rfl, rfl, rfl, rfl⟩ := h
      exact ⟨rfl, rfl, rfl, rfl⟩

theorem of_debug_mem_events_scan (h : event ∈ (scan state requested ahead).events)
    (hl : event.level = .debug) :
    (scan state requested ahead).token? = none ∧ (scan state requested ahead).state = state := by
  obtain ⟨answer, course, hscan⟩ := scan_course state requested ahead
  have hc : event.isCommitted = false := by
    cases event with
    | committed => cases hl
    | _ => rfl
  rw [hscan, Answer.mem_events_commit_iff hc] at h
  rw [hscan, Answer.token?_commit, Answer.state_commit]
  exact (course.of_mem_events h).2 hl

theorem unterminated_mem_events_scan_iff {content : Token} {ending : PieceEnd} :
    .unterminated content ending ∈ (scan state requested ahead).events ↔
      ∃ literal : Literal, Mode.select state requested = .inside literal ∧
        content = literal.contentToken ∧ literal.RunsInto ahead ending := by
  constructor
  · intro h
    obtain ⟨answer, course, hscan⟩ := scan_course state requested ahead
    rw [hscan, Answer.mem_events_commit_iff rfl] at h
    cases course with
    | @piece literal mode =>
      simp only [scanPiece] at h
      rcases (literal.piece ahead).events_cases literal with he | ⟨length, ending, hp, hk, -, he⟩
      · rw [he] at h
        cases h
      · rw [he, List.mem_singleton, Event.unterminated.injEq] at h
        obtain ⟨rfl, rfl⟩ := h
        exact ⟨literal, mode, rfl, Literal.runsInto_iff.mpr ⟨hk, length, hp⟩⟩
    | broken | due | idle | opened => cases List.mem_singleton.mp h
    | refused => simp at h
  · intro h
    obtain ⟨literal, hm, rfl, hruns⟩ := h
    obtain ⟨hk, length, hp⟩ := Literal.runsInto_iff.mp hruns
    have hx : (literal.piece ahead).isExhausted = false := by
      rw [hp]
      rfl
    rw [scan_eq_scanPiece hm hx, Answer.mem_events_commit_iff rfl, hp]
    rcases hk with rfl | rfl
    · exact List.mem_singleton_self _
    · exact List.mem_singleton_self _

/-- The layout is reported of where it is read, and nothing else reports it. -/
theorem mem_events_scan_iff (h : event.isLayout = true) :
    event ∈ (scan state requested ahead).events ↔
      ReadsLayout state requested ahead ∧ event ∈ (scanLayout state requested ahead).events := by
  have hc : event.isCommitted = false := by
    cases event with
    | committed => cases h
    | _ => rfl
  by_cases hr : ReadsLayout state requested ahead
  · rw [scan_of_readsLayout hr, Answer.mem_events_commit_iff hc]
    exact (and_iff_right hr).symm
  · obtain ⟨literal, hm, hx⟩ := exists_literal_of_not_readsLayout hr
    rw [scan_eq_scanPiece hm hx, Answer.mem_events_commit_iff hc]
    apply iff_of_false _ fun hm => hr hm.1
    intro hm
    simp only [scanPiece] at hm
    rcases (literal.piece ahead).events_cases literal with he | ⟨_, _, -, -, -, he⟩
    · rw [he] at hm
      cases hm
    · rw [he, List.mem_singleton] at hm
      rw [hm] at h
      cases h

theorem State.refuses_of_open? {trivia : List Trivia} {rest : List Char} {layout : Layout}
    {literal : Literal} (split : Trivia.split ahead = (trivia, rest))
    (measure : Layout.measure? trivia rest = some layout)
    (none_due : layout.token? requested state.baseline = none) (no_comment : layout.comment? = none)
    (opener : Literal.ofOpener? requested (rest.headD '\x00') = some literal)
    (no_room : state.open? literal = none) : state.Refuses requested ahead := by
  obtain ⟨c, later, rfl, hclosing⟩ := Literal.exists_cons_of_ofOpener? opener
  cases literal with
  | regex => cases no_room
  | string delimiter =>
    obtain ⟨quote, rfl, -⟩ := Literal.exists_quote_of_ofOpener? opener
    refine ⟨(Literal.ofOpener?_eq_string_iff.mp opener).1, ?_, quote, ?_⟩
    · apply Nat.not_lt.mp
      intro hroom
      have hopen : state.open? (.string delimiter) = some _ :=
        State.push?_eq_some_iff.mpr ⟨hroom, rfl⟩
      rw [no_room] at hopen
      cases hopen
    · exact (leadsTo_iff hclosing).mpr
        ⟨trivia, later, layout, split, measure, none_due, no_comment⟩

theorem Course.of_isLayout (course : Course state requested ahead answer)
    (h : event ∈ answer.events) (hl : event.isLayout = true) :
    event = .brokenContinuation ∧ Layout.read? ahead = none ∨
      (∃ layout, event = .measured layout state.baseline ∧ Layout.read? ahead = some layout) ∨
      event = .nestingLimit state.depth ∧ state.Refuses requested ahead := by
  cases course with
  | @piece literal =>
    simp only [scanPiece] at h
    rcases (literal.piece ahead).events_cases literal with he | ⟨_, _, -, -, -, he⟩
    · rw [he] at h
      cases h
    · rw [he, List.mem_singleton] at h
      rw [h] at hl
      cases hl
  | broken split measure =>
    obtain rfl := List.mem_singleton.mp h
    exact .inl ⟨rfl, (Layout.read?_of_split split).trans measure⟩
  | due split measure | idle split measure | opened split measure =>
    obtain rfl := List.mem_singleton.mp h
    exact .inr (.inl ⟨_, rfl, (Layout.read?_of_split split).trans measure⟩)
  | refused split measure none_due no_comment opener no_room =>
    rcases List.mem_cons.mp h with rfl | h
    · exact .inr (.inl ⟨_, rfl, (Layout.read?_of_split split).trans measure⟩)
    · obtain rfl := List.mem_singleton.mp h
      exact .inr (.inr ⟨rfl,
        State.refuses_of_open? split measure none_due no_comment opener no_room⟩)

theorem broken_mem_scanLayout_iff :
    .brokenContinuation ∈ (scanLayout state requested ahead).events ↔
      Layout.read? ahead = none := by
  constructor
  · intro h
    rcases (scanLayout_course state requested ahead).of_isLayout h rfl with
      ⟨-, hn⟩ | ⟨_, he, -⟩ | ⟨he, -⟩
    · exact hn
    · cases he
    · cases he
  · intro h
    obtain ⟨-, -, -, hhead⟩ := scanLayout_begins state requested ahead
    rw [Layout.read?] at h
    rw [h] at hhead
    exact List.mem_of_head? hhead

theorem measured_mem_scanLayout_iff {layout : Layout} {baseline : UInt8} :
    .measured layout baseline ∈ (scanLayout state requested ahead).events ↔
      Layout.read? ahead = some layout ∧ baseline = state.baseline := by
  constructor
  · intro h
    rcases (scanLayout_course state requested ahead).of_isLayout h rfl with
      ⟨he, -⟩ | ⟨_, he, hs⟩ | ⟨he, -⟩
    · cases he
    · cases he
      exact ⟨hs, rfl⟩
    · cases he
  · intro h
    obtain ⟨hs, rfl⟩ := h
    obtain ⟨-, -, -, hhead⟩ := scanLayout_begins state requested ahead
    rw [Layout.read?] at hs
    rw [hs] at hhead
    exact List.mem_of_head? hhead

theorem nestingLimit_mem_scanLayout_iff {depth : Nat} :
    .nestingLimit depth ∈ (scanLayout state requested ahead).events ↔
      state.Refuses requested ahead ∧ depth = state.depth := by
  constructor
  · intro h
    rcases (scanLayout_course state requested ahead).of_isLayout h rfl with
      ⟨he, -⟩ | ⟨_, he, -⟩ | ⟨he, hr⟩
    · cases he
    · cases he
    · cases he
      exact ⟨hr, rfl⟩
  · intro h
    obtain ⟨⟨hallows, hfull, quote, hleads⟩, rfl⟩ := h
    have hopener : Literal.ofOpener? requested quote.char = some (.string (.ofQuote quote)) :=
      Literal.ofOpener?_eq_string_iff.mpr
        ⟨hallows, Delimiter.ofOpener?_eq_some_iff.mpr ⟨quote, rfl, rfl⟩⟩
    have hroom : state.open? (.string (.ofQuote quote)) = none := if_pos hfull
    obtain ⟨trivia, later, layout, split, measure, none_due, no_comment⟩ :=
      (leadsTo_iff (Literal.closing?_of_ofOpener? hopener)).mp hleads
    simp [scanLayout, Layout.measure_of_split split, measure, none_due, no_comment, openLiteral,
      hopener, hroom]

/-- The end of the input is measured, be it a NUL, and is not continued. -/
theorem Layout.headD_ne_nul_of_read? (h : read? ahead = none) : ahead.headD '\x00' ≠ '\x00' := by
  intro hn
  have hnext : Trivia.next? ahead = none := by
    cases ahead with
    | nil => rfl
    | cons c rest =>
      obtain rfl : c = '\x00' := hn
      exact (Trivia.next?_cons_eq_none_iff (by decide) rest).mpr ⟨by decide, by decide⟩
  rw [read?_of_split (Trivia.split_of_next?_eq_none hnext), measure?_eq_none_iff, hn] at h
  cases h

theorem State.Refuses.headD_ne_nul (h : state.Refuses requested ahead) :
    ahead.headD '\x00' ≠ '\x00' := by
  obtain ⟨-, -, quote, hleads⟩ := h
  apply hleads.headD_ne_nul
  cases quote <;> decide

theorem readsLayout_and_iff {P : Prop} (hp : P → ahead.headD '\x00' ≠ '\x00') :
    ReadsLayout state requested ahead ∧ P ↔ Mode.select state requested = .layout ∧ P := by
  apply and_congr_left
  intro h
  exact or_iff_left (hp h)

end Scan

/-- Wherever a scan begins, in whatever state and whatever is requested, what it reports agrees with
what it finds. -/
theorem reports_agree (source : Source) (offset : Nat) (state : State) (requested : TokenSet) :
    (source.scan offset state requested).answer.Agrees state requested
      ((Reader.ofSource source).begin offset).ahead := by
  let ahead := ((Reader.ofSource source).begin offset).ahead
  change (scan state requested ahead).Agrees state requested ahead
  refine ⟨?_, ?_, ?_, ?_, ?_, ?_, ?_⟩
  · obtain ⟨answer, course, hscan⟩ := scan_course state requested ahead
    rw [hscan]
    exact course.reports _
  · intro token mode depth baseline
    exact getLast?_events_scan_iff
  · intro event hm hl
    exact of_debug_mem_events_scan hm hl
  · intro content ending
    exact unterminated_mem_events_scan_iff
  · rw [mem_events_scan_iff rfl, broken_mem_scanLayout_iff]
    exact readsLayout_and_iff Layout.headD_ne_nul_of_read?
  · intro depth
    rw [mem_events_scan_iff rfl, nestingLimit_mem_scanLayout_iff]
    exact readsLayout_and_iff fun h => h.1.headD_ne_nul
  · intro layout baseline
    rw [mem_events_scan_iff rfl, measured_mem_scanLayout_iff]

end Offside
