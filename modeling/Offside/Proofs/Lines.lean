import Offside.Proofs.Coverage
import Offside.Proofs.Indentation

/-!
# Texts are read line by line

A host that reads lines scans for NEWLINE, INDENT and DEDENT only, and reads the words by itself.
However the lines are indented, it comes to the end of the text with no block left open.
-/

namespace Offside

set_option autoImplicit false

/-- One scan of a host that reads lines: the token, if any, the baseline behind it, and the word
that the host then reads by itself. -/
structure LineTurn where
  token? : Option Token
  baseline : Nat
  word? : Option String := none
  host : Host
  finished : Bool := false

structure LineRun where
  seen : List (Option Token × Nat)
  words : List String
  host : Host
  finished : Bool

namespace Host

def atEnd (host : Host) : Bool := Cursor.atEnd ⟨host.reader.source, host.position⟩

def lineTurn (host : Host) : LineTurn :=
  let (entry, next) := host.step (.scan lineTokens)
  let token? := entry.token?
  let baseline := next.state.baseline.toNat
  if token? = some .newline then
    let behind := (next.step .blank).2
    if behind.atEnd then { token?, baseline, host := behind, finished := true }
    else
      let (word, beyond) := behind.step (.take 1)
      { token?, baseline, word? := some word.text, host := beyond }
  else { token?, baseline, host := next }

/-- Reads lines with at most so many scans. -/
def readLines : Nat → Host → LineRun
  | 0, host => ⟨[], [], host, false⟩
  | count + 1, host =>
    let turn := host.lineTurn
    let run := if turn.finished then ⟨[], [], turn.host, true⟩ else readLines count turn.host
    ⟨(turn.token?, turn.baseline) :: run.seen, turn.word?.toList ++ run.words, run.host,
      run.finished⟩

theorem readLines_add {count : Nat} {host : Host} (h : (host.readLines count).finished = true)
    (more : Nat) : host.readLines (count + more) = host.readLines count := by
  induction count generalizing host with
  | zero => cases h
  | succ count ih =>
    rw [Nat.succ_add]
    simp only [readLines] at h ⊢
    cases ht : host.lineTurn.finished with
    | true => simp only [if_true]
    | false =>
      rw [ht] at h
      simp only [Bool.false_eq_true, if_false] at h ⊢
      rw [ih h]

theorem isBlank_of_isAlpha {c : Char} (h : c.isAlpha = true) : isBlank c = false := by
  simp only [isBlank, Bool.or_eq_false_iff, beq_eq_false_iff_ne]
  refine ⟨⟨⟨?_, ?_⟩, ?_⟩, ?_⟩
  all_goals
    rintro rfl
    cases h

theorem takeWhile_isBlank {blanks : List Blank} {rest : List Char} (hf : .formFeed ∉ blanks)
    (hr : ∀ c ∈ rest.head?, isBlank c = false) :
    (blanks.map Blank.char ++ rest).takeWhile isBlank = blanks.map Blank.char := by
  have hn : rest.takeWhile isBlank = [] := by
    cases rest with
    | nil => rfl
    | cons c rest => exact List.takeWhile_cons_of_neg (by simp [hr c rfl])
  rw [List.takeWhile_append_of_pos, hn, List.append_nil]
  intro c hc
  obtain ⟨kind, hk, rfl⟩ := List.mem_map.mp hc
  cases kind with
  | formFeed => exact absurd hk hf
  | _ => rfl

/-- A host in a source, with its state and the text in front of it. -/
structure Stands (host : Host) (source : Source) (state : State) (ahead : List Char) : Prop where
  host_at : host.At ahead
  source_eq : host.reader.source = source
  state_eq : host.state = state

/-- The host finishes with one scan for each token that is due. -/
def Reads (host : Host) (due : List (Token × Nat)) (words : List String) (last : Host) : Prop :=
  host.readLines due.length = ⟨due.map fun item => (some item.1, item.2), words, last, true⟩

section Reads

variable {host next last : Host} {token : Token} {baseline : Nat}

theorem Reads.turn {word? : Option String} {due : List (Token × Nat)} {words : List String}
    (hr : next.Reads due words last)
    (ht : host.lineTurn = { token? := some token, baseline, word?, host := next }) :
    host.Reads ((token, baseline) :: due) (word?.toList ++ words) last := by
  simp only [Reads, List.length_cons, readLines, ht, Bool.false_eq_true, if_false, List.map_cons]
  rw [hr]

theorem Reads.ended
    (ht : host.lineTurn = { token? := some token, baseline, host := last, finished := true }) :
    host.Reads [(token, baseline)] [] last := by
  simp only [Reads, List.length_cons, List.length_nil, readLines, ht, if_true, List.map_cons,
    List.map_nil, Option.toList_none, List.nil_append]

end Reads

/-- The host reads the line in front of it as `next` does, for whom no block is to be entered or
left there. -/
structure Settles (host : Host) (state : State) (width : Nat) (next : Host) (inner : State) :
    Prop where
  settled : inner.baseline = 0 ↔ width = 0
  outside_eq : inner.leaveBlock = state.leaveBlock
  reads : ∀ later words last,
    next.Reads (dueTokens inner.baseline.toNat (width :: later)) words last →
    host.Reads (dueTokens state.baseline.toNat (width :: later)) words last

namespace Stands

variable {host : Host} {source : Source} {state inner : State} {ahead rest : List Char}
  {token : Token} {blanks : List Blank}

theorem atEnd_iff (h : host.Stands source state ahead) : host.atEnd = true ↔ ahead = [] :=
  h.host_at.before.atEnd_iff

theorem position_eq (h : host.Stands source state []) : host.position = source.size := by
  have hs := h.host_at.before.size_eq
  rw [h.source_eq] at hs
  simpa using hs.symm

theorem take {c : Char} (h : host.Stands source state (c :: rest)) :
    (host.step (.take 1)).1.text = String.ofList [c] ∧
      (host.step (.take 1)).2.Stands source state rest := by
  obtain ⟨ha, rfl, rfl⟩ := h
  obtain ⟨he, hr⟩ := step_take ha 1
  refine ⟨?_, hr, source_step host _, rfl⟩
  rw [he]
  rfl

theorem blank (h : host.Stands source state (blanks.map Blank.char ++ rest))
    (hf : .formFeed ∉ blanks) (hr : ∀ c ∈ rest.head?, isBlank c = false) :
    (host.step .blank).2.Stands source state rest := by
  obtain ⟨ha, rfl, rfl⟩ := h
  have hb := takeWhile_isBlank hf hr
  have hs : host.step .blank = host.step (.take (blanks.map Blank.char).length) := by
    simp only [Host.step, ha.skipBlanks_eq, hb]
  obtain ⟨-, hn⟩ := step_take ha (blanks.map Blank.char).length
  rw [List.drop_left] at hn
  rw [hs]
  exact ⟨hn, source_step host _, rfl⟩

theorem scan (h : host.Stands source state ahead)
    (hf : (Offside.scan state lineTokens ahead).Finds token [] [] inner) :
    (host.step (.scan lineTokens)).1.token? = some token ∧
      (host.step (.scan lineTokens)).2.Stands source inner ahead := by
  obtain ⟨ha, rfl, rfl⟩ := h
  have hg : host.At ([] ++ ([] ++ ahead)) := ha
  obtain ⟨he, hr⟩ := step_scan_cut hg hf.token_eq hf.calls_cut
  refine ⟨?_, hr, source_step host _, ha.state_step_scan.trans hf.state_eq⟩
  rw [he]
  rfl

theorem lineTurn_block (h : host.Stands source state ahead)
    (hf : (Offside.scan state lineTokens ahead).Finds token [] [] inner) (hn : token ≠ .newline) :
    ∃ next : Host, next.Stands source inner ahead ∧
      host.lineTurn =
        { token? := some token, baseline := inner.baseline.toNat, host := next } := by
  obtain ⟨ht, hs⟩ := h.scan hf
  have hk : ¬some token = some Token.newline := fun he => hn (Option.some.inj he)
  refine ⟨_, hs, ?_⟩
  simp only [lineTurn, ht, if_neg hk, hs.state_eq]

theorem lineTurn_end (h : host.Stands source state (blanks.map Blank.char))
    (hf : .formFeed ∉ blanks)
    (hs : (Offside.scan state lineTokens (blanks.map Blank.char)).Finds .newline [] [] inner) :
    ∃ last : Host, last.Stands source inner [] ∧
      host.lineTurn =
        { token? := some .newline, baseline := inner.baseline.toNat, host := last
          finished := true } := by
  obtain ⟨ht, hn⟩ := h.scan hs
  rw [← List.append_nil (blanks.map Blank.char)] at hn
  have hb := hn.blank hf (by simp)
  have he := hb.atEnd_iff.mpr rfl
  refine ⟨_, hb, ?_⟩
  simp only [lineTurn, ht, if_true, he, hn.state_eq]

theorem lineTurn_word {c : Char}
    (h : host.Stands source state (blanks.map Blank.char ++ c :: rest))
    (hf : .formFeed ∉ blanks) (hc : isBlank c = false)
    (hs : (Offside.scan state lineTokens (blanks.map Blank.char ++ c :: rest)).Finds .newline
      [] [] inner) :
    ∃ next : Host, next.Stands source inner rest ∧
      host.lineTurn =
        { token? := some .newline, baseline := inner.baseline.toNat
          word? := some (String.ofList [c]), host := next } := by
  obtain ⟨ht, hn⟩ := h.scan hs
  have hb := hn.blank hf (by simpa using hc)
  have he : ¬((host.step (.scan lineTokens)).2.step .blank).2.atEnd = true := by
    rw [hb.atEnd_iff]
    exact List.cons_ne_nil c rest
  obtain ⟨hw, hx⟩ := hb.take
  refine ⟨_, hx, ?_⟩
  simp only [lineTurn, ht, if_true, if_neg he, hw, hn.state_eq]

section Settle

variable {width : Nat}

/-- An INDENT is due once: the baseline that it leaves is positive, however wide the line is. -/
theorem settles_indent (h : host.Stands source state ahead)
    (hr : Layout.read? ahead = some (.ofWidth width)) (hb : state.baseline = 0) (hw : 0 < width) :
    ∃ (inner : State) (next : Host), next.Stands source inner ahead ∧
      host.Settles state width next inner := by
  obtain ⟨next, hn, ht⟩ := h.lineTurn_block (scan_indent hr hb hw) (by decide)
  have hi : (state.enterBlock (min width Layout.maxIndent)).baseline.toNat =
      min width State.maxBaseline := by
    rw [State.baseline_enterBlock]
    simp only [Layout.maxIndent, State.maxBaseline]
    omega
  refine ⟨_, next, hn, ?_, rfl, ?_⟩
  · rw [← UInt8.toNat_inj, hi]
    simp only [State.maxBaseline, UInt8.toNat_zero]
    omega
  · intro later words last hl
    have hturn := hl.turn ht
    rw [hi] at hturn
    rw [hb, UInt8.toNat_zero, dueTokens_indent later hw]
    exact hturn

theorem settles_dedent (h : host.Stands source state ahead)
    (hr : Layout.read? ahead = some (.ofWidth 0)) (hb : state.baseline ≠ 0) :
    ∃ (inner : State) (next : Host), next.Stands source inner ahead ∧
      host.Settles state 0 next inner := by
  obtain ⟨next, hn, ht⟩ := h.lineTurn_block (scan_dedent hr hb) (by decide)
  refine ⟨_, next, hn, ?_, rfl, ?_⟩
  · simp only [State.baseline_leaveBlock]
  · intro later words last hl
    have hp : 0 < state.baseline.toNat := by
      apply Nat.pos_of_ne_zero
      intro hz
      exact hb (UInt8.toNat_inj.mp hz)
    rw [dueTokens_dedent later hp]
    exact hl.turn ht

theorem exists_settles (h : host.Stands source state ahead)
    (hr : Layout.read? ahead = some (.ofWidth width)) :
    ∃ (inner : State) (next : Host), next.Stands source inner ahead ∧
      host.Settles state width next inner := by
  by_cases hb : state.baseline = 0
  · rcases Nat.eq_zero_or_pos width with hw | hw
    · exact ⟨state, host, h, iff_of_true hb hw, rfl, fun _ _ _ hl => hl⟩
    · exact h.settles_indent hr hb hw
  · rcases Nat.eq_zero_or_pos width with rfl | hw
    · exact h.settles_dedent hr hb
    · exact ⟨state, host, h, iff_of_false hb (Nat.ne_of_gt hw), rfl, fun _ _ _ hl => hl⟩

end Settle

/-- From any state the host finishes with the tokens that are due, and outside of all blocks. -/
theorem reads {trail : List Blank} {lines : List IndentedLine}
    (h : host.Stands source state
      (lines.flatMap IndentedLine.text ++ trail.map Blank.char)) (hf : .formFeed ∉ trail) :
    ∃ last : Host, last.Stands source state.leaveBlock [] ∧
      host.Reads (dueTokens state.baseline.toNat (lines.map IndentedLine.width ++ [0]))
        (lines.map IndentedLine.word) last := by
  induction lines generalizing host state with
  | nil =>
    obtain ⟨inner, next, hn, hi, hl, hr⟩ := h.exists_settles (Layout.read?_trail hf)
    obtain ⟨last, hx, ht⟩ := hn.lineTurn_end hf (scan_newline (Layout.read?_trail hf) hi)
    have he : inner.leaveBlock = inner := by
      rw [State.leaveBlock, ← hi.mpr rfl]
    rw [← hl, he]
    refine ⟨last, hx, hr [] [] last ?_⟩
    have hz : inner.baseline.toNat = 0 ↔ 0 = 0 := by
      rw [hi.mpr rfl]
      exact Iff.rfl
    rw [dueTokens_newline _ hz]
    exact .ended ht
  | cons line lines ih =>
    have ha : (line :: lines).flatMap IndentedLine.text ++ trail.map Blank.char =
        line.blanks.map Blank.char ++
          line.letter :: (lines.flatMap IndentedLine.text ++ trail.map Blank.char) := by
      simp only [List.flatMap_cons, IndentedLine.text, List.append_assoc, List.cons_append,
        List.nil_append]
    have hread := Layout.read?_line line.formFeed_not_mem line.lineFeed_mem line.isAlpha_letter
      (lines.flatMap IndentedLine.text ++ trail.map Blank.char)
    rw [ha] at h
    -- The block in front of the line is settled where the host stands, and the rest of the lines is
    -- read from behind the word with the baseline that the block has left.
    obtain ⟨inner, next, hn, hi, hl, hr⟩ := h.exists_settles hread
    obtain ⟨beyond, hx, ht⟩ := hn.lineTurn_word line.formFeed_not_mem
      (isBlank_of_isAlpha line.isAlpha_letter) (scan_newline hread hi)
    obtain ⟨last, hs, hlines⟩ := ih hx
    rw [hl] at hs
    refine ⟨last, hs, hr _ _ last ?_⟩
    have hz : inner.baseline.toNat = 0 ↔ Blank.width line.blanks = 0 := by
      rw [← hi, ← UInt8.toNat_inj, UInt8.toNat_zero]
    rw [dueTokens_newline _ hz]
    exact hlines.turn ht

end Stands

end Host

namespace IndentedText

/-- A host that reads the lines of a text behind its first word finds at each scan the token that
is due, with the baseline that follows from the widths of the lines. It reads the other words in
order and finishes at the end of the text, in the state that it has started from and after at most
two scans for each line and two for the end. -/
theorem read_lines (indented : IndentedText) (hs : indented.text.utf8ByteSize ≤ maxOffset)
    (more : Nat) :
    let source := Source.ofString indented.text
    let due := dueTokens 0 indented.widths
    let run := ((Host.start source {}).take 1).readLines (due.length + more)
    run.seen = due.map (fun item => (some item.1, item.2)) ∧ run.words = indented.words ∧
      run.finished = true ∧ run.host.position = source.size ∧ run.host.state = {} ∧
      due.length ≤ 2 * (indented.lines.length + 1) := by
  intro source due run
  have hc : indented.letter ≠ '\uFEFF' := by
    intro hm
    have := indented.isAlpha_letter
    rw [hm] at this
    cases this
  have ht : indented.text.toList = [] ++ indented.letter ::
      (indented.lines.flatMap IndentedLine.text ++ indented.trail.map Blank.char) := by
    rw [text, String.toList_ofList, List.nil_append]
  have hz : source.contentStart = 0 := Nat.le_zero.mp (Source.contentStart_le ht hs hc)
  have hb := Source.before_of_toList_eq ht hs
  have hstart : (Host.start source {}).Stands source {} _ :=
    ⟨Host.at_start (by rw [hz]; exact hb) {}, rfl, rfl⟩
  obtain ⟨last, hl, hr⟩ := hstart.take.2.reads indented.formFeed_not_mem
  have hfinished : (((Host.start source {}).take 1).readLines due.length).finished = true :=
    congrArg LineRun.finished hr
  have hrun : run =
      ⟨due.map fun item => (some item.1, item.2), indented.words, last, true⟩ :=
    (Host.readLines_add hfinished more).trans hr
  have hd := length_dueTokens_le 0 indented.widths
  have hw : indented.widths.length = indented.lines.length + 1 := by
    simp only [widths, List.length_append, List.length_map, List.length_singleton]
  rw [hw] at hd
  rw [hrun]
  exact ⟨rfl, rfl, rfl, hl.position_eq, hl.state_eq, hd⟩

/-- An empty line in front of a tab, a deeper line, a carriage return that takes a tab back, and a
line that is wider than any baseline. -/
theorem read_lines_ragged :
    let indented : IndentedText :=
      { letter := 'v'
        lines :=
          [⟨[.lineFeed, .space, .lineFeed, .tab, .space], 'w', by decide, by decide, by decide⟩,
            ⟨.lineFeed :: List.replicate 12 .space, 'x', by decide, by decide, by decide⟩,
            ⟨[.lineFeed, .tab, .carriageReturn], 'Y', by decide, by decide, by decide⟩,
            ⟨.lineFeed :: List.replicate 40 .tab, 'z', by decide, by decide, by decide⟩]
        trail := [.space, .lineFeed, .tab]
        isAlpha_letter := by decide
        formFeed_not_mem := by decide }
    let run := ((Host.start (Source.ofString indented.text) {}).take 1).readLines 9
    indented.text.utf8ByteSize ≤ maxOffset ∧
      run.seen = [(some .indent, 9), (some .newline, 9), (some .newline, 9), (some .dedent, 0),
        (some .newline, 0), (some .indent, 255), (some .newline, 255), (some .dedent, 0),
        (some .newline, 0)] ∧
      run.words = ["w", "x", "Y", "z"] ∧ run.finished = true := by
  intro indented run
  have hs : indented.text.utf8ByteSize ≤ maxOffset := by decide
  obtain ⟨hseen, hwords, hfinished, -⟩ := read_lines indented hs 0
  exact ⟨hs, hseen, hwords, hfinished⟩

end IndentedText

end Offside
