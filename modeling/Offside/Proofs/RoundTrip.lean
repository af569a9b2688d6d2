import Offside.Proofs.Parse

/-!
# Literals are read back

A parser in front of a literal sees exactly the transcript of it, however deep the literals in it
are nested and whatever stands around.
-/

namespace Offside

set_option autoImplicit false

namespace Parse

variable {parse : Parse} {outer openers : List Token} {state inner : State} {offset : Nat}
  {enclosure : Enclosure} {margin : List Blank} {run rest : List Char}

theorem follows_opening (hm : .lineFeed ∉ margin)
    (ho : state.open? enclosure.literal = some inner)
    (h : parse.Ready (enclosure.literal.startToken :: outer) openers state offset
      (margin.map Blank.char ++ enclosure.char :: rest)) :
    parse.Follows ⟨[.found enclosure.literal.startToken offset enclosure.literal.startToken
        (margin.map Blank.char) [enclosure.char] inner], true⟩ fun next =>
      next.Ready (enclosure.literal.contentToken :: outer) openers inner
        (offset + encodedSize (margin.map Blank.char) + encodedSize [enclosure.char]) rest := by
  have hn : enclosure.literal.startToken.next?.toList ++ outer =
      enclosure.literal.contentToken :: outer := by
    cases enclosure <;> rfl
  have hg : parse.Ready _ openers state offset
      (margin.map Blank.char ++ ([enclosure.char] ++ rest)) := h
  obtain ⟨next, ht, ha⟩ := step_of_finds hg (Enclosure.scan_opening hm ho)
  rw [hn] at ha
  exact follows_singleton ht ha

theorem follows_refused {arrived : Parse → Prop} (hm : .lineFeed ∉ margin)
    (ho : state.open? enclosure.literal = none)
    (h : parse.Ready (enclosure.literal.startToken :: outer) openers state offset
      (margin.map Blank.char ++ enclosure.char :: rest)) :
    parse.Follows ⟨[.refused enclosure.literal.startToken offset state], false⟩ arrived := by
  obtain ⟨next, hr, hs⟩ := scan_of_passes h (Enclosure.scan_refused hm ho)
  rw [goOn_opener hr.ahead_eq] at hs
  refine ⟨_, .step hs (.stay _), ?_, ?_⟩
  · intro hc
    cases hc
  · intro _
    rfl

theorem follows_text {ending : PieceEnd} (hi : state.Inside enclosure) (hr : run ≠ [])
    (hp : ∀ c ∈ run, c ∉ enclosure.reserved) (hl : '\n' ∉ run.tail)
    (hs : enclosure.literal.stop? (rest.headD '\x00') = some ending)
    (he : ending = .yielded ∨ ending = .closed)
    (h : parse.Ready (enclosure.literal.contentToken :: outer) openers state offset
      (run ++ rest)) :
    parse.Follows ⟨[.found enclosure.literal.contentToken offset enclosure.literal.contentToken []
        run state], true⟩ fun next =>
      next.Ready (enclosure.literal.contentToken :: outer) openers state
        (offset + encodedSize run) rest := by
  have hf := Enclosure.scan_text hi hr
    (fun c hc => Enclosure.isPlain_of_not_mem_reserved (hp c hc)) hl hs he
  have hn : enclosure.literal.contentToken.next?.toList ++ outer =
      enclosure.literal.contentToken :: outer := by
    cases enclosure <;> rfl
  have hg : parse.Ready _ openers state offset ([] ++ (run ++ rest)) := h
  obtain ⟨next, ht, ha⟩ := step_of_finds hg hf
  rw [hn] at ha
  exact follows_singleton ht ha

theorem follows_closing (ho : state.open? enclosure.literal = some inner)
    (h : parse.Ready (enclosure.literal.contentToken :: outer) openers inner offset
      (enclosure.char :: rest)) :
    parse.Follows ⟨[.found enclosure.literal.contentToken offset enclosure.literal.endToken []
        [enclosure.char] state], true⟩ fun next =>
      next.Ready outer openers state (offset + encodedSize [enclosure.char]) rest := by
  have hf : (scan inner _ (enclosure.char :: rest)).Finds _ _ _ _ :=
    Enclosure.scan_closing (State.inside_of_open? ho)
  rw [State.behind_endToken_of_open? ho] at hf
  have hn : enclosure.literal.endToken.next?.toList ++ outer = outer := by
    cases enclosure <;> rfl
  have hg : parse.Ready _ openers inner offset ([] ++ ([enclosure.char] ++ rest)) := h
  obtain ⟨next, ht, ha⟩ := step_of_finds hg hf
  rw [hn] at ha
  exact follows_singleton ht ha

theorem follows_escape {c : Char} (hi : state.Inside enclosure)
    (h : parse.Ready (enclosure.literal.contentToken :: outer) openers state offset
      ('\\' :: c :: rest)) :
    parse.Follows ⟨[.left enclosure.literal.contentToken offset ['\\', c] state], true⟩
      fun next => next.Ready (enclosure.literal.contentToken :: outer) openers state
        (offset + encodedSize ['\\', c]) rest := by
  obtain ⟨middle, hr, hs⟩ := scan_of_passes h
    (Enclosure.scan_yielded hi enclosure.stop?_backslash)
  obtain ⟨next, hg, ha⟩ := goOn_escape hr _
  rw [hg] at hs
  exact follows_singleton hs ha

theorem follows_openBrace {opener : Token} (hi : state.Inside enclosure)
    (hy : enclosure.literal.stop? '\x7b' = some .yielded)
    (h : parse.Ready (enclosure.literal.contentToken :: outer) (opener :: openers) state offset
      ('\x7b' :: rest)) :
    parse.Follows ⟨[.left enclosure.literal.contentToken offset ['\x7b'] state], true⟩
      fun next => next.Ready (opener :: enclosure.literal.contentToken :: outer) openers state
        (offset + encodedSize ['\x7b']) rest := by
  obtain ⟨middle, hr, hs⟩ := scan_of_passes h (Enclosure.scan_yielded hi hy)
  obtain ⟨next, hg, ha⟩ := goOn_openBrace hr _
  rw [hg] at hs
  exact follows_singleton hs ha

theorem follows_closeBrace (hi : state.Inside enclosure)
    (hy : enclosure.literal.stop? '\x7d' = some .yielded)
    (h : parse.Ready (enclosure.literal.contentToken :: outer) openers state offset
      ('\x7d' :: rest)) :
    parse.Follows ⟨[.left enclosure.literal.contentToken offset ['\x7d'] state], true⟩
      fun next => next.Ready (enclosure.literal.contentToken :: outer) openers state
        (offset + encodedSize ['\x7d']) rest := by
  obtain ⟨middle, hr, hs⟩ := scan_of_passes h (Enclosure.scan_yielded hi hy)
  obtain ⟨next, hg, ha⟩ := goOn_closeBrace hr _
  rw [hg] at hs
  exact follows_singleton hs ha

end Parse

mutual

theorem LiteralTree.follows (tree : LiteralTree) (hw : tree.WellFormed) {margin : List Blank}
    (hm : .lineFeed ∉ margin) {parse : Parse} {outer openers : List Token} {state : State}
    {offset : Nat} {rest : List Char}
    (h : parse.Ready (tree.opener :: outer) (tree.inside ++ openers) state offset
      (margin.map Blank.char ++ (tree.render ++ rest))) :
    parse.Follows (tree.transcript offset (margin.map Blank.char) state) fun last =>
      last.Ready outer openers state
        (offset + encodedSize (margin.map Blank.char) + encodedSize tree.render) rest := by
  cases tree with
  | enclosed enclosure body =>
    rw [LiteralTree.WellFormed] at hw
    have hr : parse.Ready (enclosure.literal.startToken :: outer) (body.openers ++ openers) state
        offset (margin.map Blank.char ++ enclosure.char ::
          (body.render ++ enclosure.char :: rest)) := by
      simpa [LiteralTree.render, LiteralTree.inside, LiteralTree.opener, LiteralTree.enclosure]
        using h
    rw [LiteralTree.transcript]
    cases ho : state.open? enclosure.literal with
    | none => exact Parse.follows_refused hm ho hr
    | some inner =>
      apply (Parse.follows_opening hm ho hr).andThen
      intro opened hopened
      apply (body.follows hw (State.inside_of_open? ho) hopened).andThen
      intro done hdone
      have hc := Parse.follows_closing ho hdone
      simpa [LiteralTree.render, Nat.add_assoc] using hc

theorem LiteralBody.follows (body : LiteralBody) {enclosure : Enclosure}
    (hw : body.WellFormed enclosure) {parse : Parse} {outer openers : List Token} {state : State}
    {offset : Nat} {rest : List Char} (hi : state.Inside enclosure)
    (h : parse.Ready (enclosure.literal.contentToken :: outer) (body.openers ++ openers) state
      offset (body.render ++ enclosure.char :: rest)) :
    parse.Follows (body.transcript enclosure offset state) fun last =>
      last.Ready (enclosure.literal.contentToken :: outer) openers state
        (offset + encodedSize body.render) (enclosure.char :: rest) := by
  cases body with
  | done =>
    refine ⟨parse, .stay parse, ?_, ?_⟩
    · intro _
      exact h
    · intro hc
      cases hc
  | text run later =>
    obtain ⟨⟨hr, hp, hl⟩, hs, hw⟩ := hw
    obtain ⟨ending, hstop, hending⟩ := later.stop?_render hw hs rest
    rw [LiteralBody.render, List.append_assoc] at h
    apply (Parse.follows_text hi hr hp hl hstop hending h).andThen
    intro next hn
    have hf := later.follows hw hi hn
    simpa [LiteralBody.render, Nat.add_assoc] using hf
  | escape c later =>
    apply (Parse.follows_escape hi h).andThen
    intro next hn
    have hf := later.follows hw hi hn
    simpa [LiteralBody.render, Nat.add_assoc] using hf
  | hole margin inner later =>
    obtain ⟨⟨⟨quote, rfl⟩, hm, hinner⟩, hlater⟩ := hw
    have hr : parse.Ready ((Enclosure.quotes quote).literal.contentToken :: outer)
        (inner.opener :: (inner.inside ++ (later.openers ++ openers))) state offset
        ('\x7b' :: (margin.map Blank.char ++ (inner.render ++
          '\x7d' :: (later.render ++ (Enclosure.quotes quote).char :: rest)))) := by
      simpa [LiteralBody.render, LiteralBody.openers] using h
    apply (Parse.follows_openBrace hi (Enclosure.stop?_openBrace quote) hr).andThen
    intro opened hopened
    apply (inner.follows hinner hm hopened).andThen
    intro done hdone
    apply (Parse.follows_closeBrace hi (Enclosure.stop?_closeBrace quote) hdone).andThen
    intro closed hclosed
    have hf := later.follows hlater hi hclosed
    simpa [LiteralBody.render, Nat.add_assoc] using hf

end

theorem Host.at_seek {source : Source} {offset : Nat} {ahead : List Char}
    (hb : Cursor.Before ⟨source, offset⟩ ahead) (hc : source.contentStart ≤ offset)
    (state : State) :
    ((start source state).seek offset).At ahead ∧
      ((start source state).seek offset).position = offset := by
  have hr : (start source state).reader.begin offset = Reader.fresh ⟨source, offset⟩ :=
    Reader.begin_eq_fresh hb hc
  simp only [seek, hr]
  exact ⟨⟨hb, hc⟩, rfl⟩

theorem Enclosure.char_ne_byteOrderMark (enclosure : Enclosure) : enclosure.char ≠ '\uFEFF' := by
  cases enclosure with
  | quotes quote => cases quote <;> decide
  | slashes => decide

/-- A parser that expects a literal at an offset of a source. -/
def LiteralTree.parse (tree : LiteralTree) (source : Source) (offset : Nat) (state : State) :
    Parse :=
  { host := (Host.start source state).seek offset, wanted := [tree.opener]
    openers := tree.inside }

theorem LiteralTree.ready_parse (tree : LiteralTree) {before after : String}
    (hs : (before ++ tree.text ++ after).utf8ByteSize ≤ maxOffset) (state : State) :
    (tree.parse (.ofString (before ++ tree.text ++ after)) before.utf8ByteSize state).Ready
      [tree.opener] (tree.inside ++ []) state before.utf8ByteSize
      (tree.render ++ after.toList) := by
  have ht : (before ++ tree.text ++ after).toList =
      before.toList ++ (tree.render ++ after.toList) := by
    simp [LiteralTree.text]
  have hz : encodedSize before.toList = before.utf8ByteSize := (utf8ByteSize_eq before).symm
  have hb := Source.before_of_toList_eq ht hs
  have hc : (Source.ofString (before ++ tree.text ++ after)).contentStart ≤
      encodedSize before.toList := by
    cases tree with
    | enclosed enclosure body =>
      exact Source.contentStart_le ht hs enclosure.char_ne_byteOrderMark
  rw [hz] at hb hc
  generalize Source.ofString (before ++ tree.text ++ after) = source at hb hc ⊢
  obtain ⟨ha, hp⟩ := Host.at_seek hb hc state
  exact ⟨ha, rfl, (List.append_nil _).symm, rfl, hp⟩

/-- A parser that expects a literal sees its transcript, and nothing after that. If there is room
for its strings, the lines make up the text of the literal, and the parser is then right behind it
in the first state. Otherwise it stops at a string that is refused at the greatest depth. -/
theorem LiteralTree.read_back (tree : LiteralTree) (hw : tree.WellFormed) (before after : String)
    (hs : (before ++ tree.text ++ after).utf8ByteSize ≤ maxOffset) (state : State) (more : Nat) :
    let source := Source.ofString (before ++ tree.text ++ after)
    let expected := (tree.transcript before.utf8ByteSize [] state).lines
    let run := (tree.parse source before.utf8ByteSize state).run (expected.length + more)
    run.1 = expected ∧ run.2.wanted = [] ∧
      (state.HasRoom tree.nesting →
        run.2.host.state = state ∧
          run.2.host.position = before.utf8ByteSize + tree.text.utf8ByteSize ∧
          String.join (run.1.map Line.text) = tree.text ∧
          ∀ line ∈ run.1, line.refuses = false) ∧
      (¬state.HasRoom tree.nesting → ∃ line, run.1.getLast? = some line ∧ line.refuses = true ∧
        State.maxDepth ≤ line.state.depth) := by
  intro source expected run
  have hr := tree.ready_parse hs state
  have hm : Blank.lineFeed ∉ [] := List.not_mem_nil
  have hf := tree.accounts before.utf8ByteSize [] state
  have hc := tree.complete_iff_hasRoom before.utf8ByteSize [] state
  obtain ⟨last, hl, harrived, hgave⟩ := tree.follows hw hm hr
  have hwanted : last.wanted = [] := by
    cases h : (tree.transcript before.utf8ByteSize [] state).complete with
    | true => exact (harrived h).wanted_eq
    | false => exact hgave h
  have hrun : run = (expected, last) := hl.run_eq hwanted more
  rw [hrun]
  refine ⟨rfl, hwanted, ?_, ?_⟩
  · intro hroom
    have harrived := harrived (hc.mpr hroom)
    obtain ⟨hj, hn⟩ := hf.read (hc.mpr hroom)
    refine ⟨harrived.state_eq, ?_, hj, hn⟩
    rw [harrived.position_eq, text, utf8ByteSize_ofList]
    rfl
  · intro hroom
    apply hf.stopped
    cases h : (tree.transcript before.utf8ByteSize [] state).complete with
    | true => exact absurd (hc.mp h) hroom
    | false => rfl

/-- A string within a string of the same quote, and a regex with a brace in it. -/
theorem LiteralTree.read_back_nested :
    let regex : LiteralTree := .enclosed .slashes (.text ['\x7b'] (.escape '/' .done))
    let inner : LiteralTree := .enclosed (.quotes .single) (.text ['b'] (.hole [] regex .done))
    let tree : LiteralTree :=
      .enclosed (.quotes .single) (.hole [.space] inner (.escape '\'' .done))
    let before := "\uFEFFx = "
    let source := Source.ofString (before ++ tree.text ++ "\n")
    let expected := (tree.transcript before.utf8ByteSize [] {}).lines
    let run := (tree.parse source before.utf8ByteSize {}).run (expected.length + 1)
    tree.WellFormed ∧ run.1 = expected ∧ run.2.host.state = {} ∧
      String.join (run.1.map Line.text) = tree.text ∧
      expected.map (fun line => (line.entry.token?, line.text)) =
        [(some .stringStart, "'"), (none, "\x7b"), (some .stringStart, " '"),
          (some .stringContent, "b"), (none, "\x7b"), (some .regexStart, "/"),
          (some .regexContent, "\x7b"), (none, "\\/"), (some .regexEnd, "/"), (none, "\x7d"),
          (some .stringEnd, "'"), (none, "\x7d"), (none, "\\'"), (some .stringEnd, "'")] := by
  intro regex inner tree before source expected run
  have hw : tree.WellFormed := by
    simp [tree, inner, regex, LiteralTree.WellFormed, LiteralBody.WellFormed,
      LiteralBody.startsWithText, Enclosure.reserved, Quote.char]
  have hroom : State.HasRoom {} tree.nesting := .inr (by decide)
  obtain ⟨hr, -, hf, -⟩ := tree.read_back hw before "\n" (by decide) {} 1
  obtain ⟨hs, -, ht, -⟩ := hf hroom
  exact ⟨hw, hr, hs, ht, by decide⟩

end Offside
