import Offside.Proofs.Coverage
import Offside.Proofs.LiteralTree

/-!
# Transcripts of literals

What a parser is to see of a literal, line by line. The lines stop at the first string for which the
state has no room, and otherwise they make up the whole text.
-/

namespace Offside

set_option autoImplicit false

/-- What a parser sees of a scan, and what it has read by itself where there was no token. -/
structure Line where
  wanted : Token
  entry : Host.Entry
  state : State
  refuses : Bool := false
  taken? : Option Host.Entry := none
  deriving DecidableEq

namespace Line

def found (wanted : Token) (offset : Nat) (token : Token) (gap text : List Char) (state : State) :
    Line :=
  { wanted, entry := .cut offset (some token) gap text, state }

def left (wanted : Token) (offset : Nat) (text : List Char) (state : State) : Line :=
  { wanted, entry := .idle offset, state, taken? := some (.cut offset none [] text) }

def refused (wanted : Token) (offset : Nat) (state : State) : Line :=
  { wanted, entry := .idle offset, state, refuses := true }

end Line

structure Transcript where
  lines : List Line
  complete : Bool := true

def Transcript.andThen (first second : Transcript) : Transcript :=
  if first.complete then ⟨first.lines ++ second.lines, second.complete⟩ else first

mutual

/-- What a parser sees of a literal behind a margin: the opener, its pieces, and its end in the
state before the opener. -/
def LiteralTree.transcript (offset : Nat) (margin : List Char) (state : State) :
    LiteralTree → Transcript
  | .enclosed enclosure body =>
    let literal := enclosure.literal
    match state.open? literal with
    | none => ⟨[.refused literal.startToken offset state], false⟩
    | some inner =>
      let text := [enclosure.char]
      let start := offset + encodedSize margin + encodedSize text
      let stop := start + encodedSize body.render
      Transcript.andThen
        ⟨[.found literal.startToken offset literal.startToken margin text inner], true⟩
        ((body.transcript enclosure start inner).andThen
          ⟨[.found literal.contentToken stop literal.endToken [] text state], true⟩)

/-- Runs are tokens and escapes are not. Around a literal between braces the parser reads the
braces. -/
def LiteralBody.transcript (outer : Enclosure) (offset : Nat) (state : State) :
    LiteralBody → Transcript
  | .done => ⟨[], true⟩
  | .text run later =>
    let token := outer.literal.contentToken
    Transcript.andThen ⟨[.found token offset token [] run state], true⟩
      (later.transcript outer (offset + encodedSize run) state)
  | .escape c later =>
    let text := ['\\', c]
    Transcript.andThen ⟨[.left outer.literal.contentToken offset text state], true⟩
      (later.transcript outer (offset + encodedSize text) state)
  | .hole margin inner later =>
    let token := outer.literal.contentToken
    let start := offset + encodedSize ['\x7b']
    let gap := margin.map Blank.char
    let stop := start + encodedSize gap + encodedSize inner.render
    Transcript.andThen ⟨[.left token offset ['\x7b'] state], true⟩
      ((inner.transcript start gap state).andThen
        (Transcript.andThen ⟨[.left token stop ['\x7d'] state], true⟩
          (later.transcript outer (stop + encodedSize ['\x7d']) state)))

end

namespace Line

def text (line : Line) : String :=
  line.entry.gap ++ line.entry.text ++ line.taken?.elim "" Host.Entry.text

variable {wanted token : Token} {offset : Nat} {gap run : List Char} {state : State}

theorem text_found :
    (found wanted offset token gap run state).text = String.ofList (gap ++ run) := by
  simp [text, found, Host.Entry.cut, String.ofList_append]

theorem text_left : (left wanted offset run state).text = String.ofList run := by
  simp [text, left, Host.Entry.cut, Host.Entry.idle]

end Line

/-- All of a text is read and no scan refuses, or reading stops at a string without room. -/
structure Transcript.Accounts (transcript : Transcript) (text : List Char) : Prop where
  read : transcript.complete = true →
    String.join (transcript.lines.map Line.text) = String.ofList text ∧
      ∀ line ∈ transcript.lines, line.refuses = false
  stopped : transcript.complete = false → ∃ line, transcript.lines.getLast? = some line ∧
    line.refuses = true ∧ State.maxDepth ≤ line.state.depth

namespace Transcript

variable {first second : Transcript} {front rest : List Char}

theorem complete_andThen :
    (first.andThen second).complete = (first.complete && second.complete) := by
  unfold andThen
  cases h : first.complete with
  | true => simp
  | false => simp [h]

theorem Accounts.andThen (hf : first.Accounts front) (hs : second.Accounts rest) :
    (first.andThen second).Accounts (front ++ rest) := by
  cases h : first.complete with
  | false =>
    have ha : first.andThen second = first := by simp [Transcript.andThen, h]
    rw [ha]
    refine ⟨?_, hf.stopped⟩
    intro hc
    rw [h] at hc
    cases hc
  | true =>
    have ha : first.andThen second = ⟨first.lines ++ second.lines, second.complete⟩ := by
      simp [Transcript.andThen, h]
    obtain ⟨htf, hrf⟩ := hf.read h
    rw [ha]
    constructor
    · intro hc
      obtain ⟨hts, hrs⟩ := hs.read hc
      constructor
      · rw [List.map_append, String.join_append, htf, hts, String.ofList_append]
      · intro line hl
        rcases List.mem_append.mp hl with hl | hl
        · exact hrf line hl
        · exact hrs line hl
    · intro hc
      obtain ⟨line, hl, hr⟩ := hs.stopped hc
      refine ⟨line, ?_, hr⟩
      rw [List.getLast?_append, hl]
      rfl

theorem accounts_singleton {line : Line} (ht : line.text = String.ofList front)
    (hr : line.refuses = false) : Accounts ⟨[line], true⟩ front := by
  refine ⟨?_, ?_⟩
  · intro _
    exact ⟨by simpa using ht, by simpa using hr⟩
  · intro hc
    cases hc

end Transcript

theorem State.maxDepth_le_of_open? {state : State} {enclosure : Enclosure}
    (h : state.open? enclosure.literal = none) :
    enclosure.levels = 1 ∧ maxDepth ≤ state.depth := by
  cases enclosure with
  | quotes quote =>
    refine ⟨rfl, ?_⟩
    simpa [State.open?, Enclosure.literal, push?] using h
  | slashes => cases h

theorem State.depth_of_open? {state inner : State} {enclosure : Enclosure}
    (h : state.open? enclosure.literal = some inner) :
    inner.depth = state.depth + enclosure.levels ∧
      (enclosure.levels = 0 ∨ inner.depth ≤ maxDepth) := by
  cases enclosure with
  | quotes quote =>
    obtain ⟨hd, rfl⟩ := push?_eq_some_iff.mp h
    exact ⟨rfl, .inr hd⟩
  | slashes =>
    cases h
    exact ⟨rfl, .inl rfl⟩

mutual

theorem LiteralTree.accounts (tree : LiteralTree) (offset : Nat) (margin : List Char)
    (state : State) : (tree.transcript offset margin state).Accounts (margin ++ tree.render) := by
  cases tree with
  | enclosed enclosure body =>
    rw [LiteralTree.transcript, LiteralTree.render]
    cases ho : state.open? enclosure.literal with
    | none =>
      refine ⟨?_, ?_⟩
      · intro hc
        cases hc
      · intro _
        exact ⟨_, rfl, rfl, (State.maxDepth_le_of_open? ho).2⟩
    | some inner =>
      have hb := body.accounts enclosure (offset + encodedSize margin +
        encodedSize [enclosure.char]) inner
      have ht : margin ++ enclosure.char :: (body.render ++ [enclosure.char]) =
          (margin ++ [enclosure.char]) ++ (body.render ++ ([] ++ [enclosure.char])) := by simp
      rw [ht]
      apply Transcript.Accounts.andThen
      · exact Transcript.accounts_singleton Line.text_found rfl
      · apply hb.andThen
        exact Transcript.accounts_singleton Line.text_found rfl

theorem LiteralBody.accounts (body : LiteralBody) (outer : Enclosure) (offset : Nat)
    (state : State) : (body.transcript outer offset state).Accounts body.render := by
  cases body with
  | done =>
    refine ⟨?_, ?_⟩
    · intro _
      exact ⟨rfl, by simp [LiteralBody.transcript]⟩
    · intro hc
      cases hc
  | text run later =>
    have hl := later.accounts outer (offset + encodedSize run) state
    exact (Transcript.accounts_singleton Line.text_found rfl).andThen hl
  | escape c later =>
    have hl := later.accounts outer (offset + encodedSize ['\\', c]) state
    exact (Transcript.accounts_singleton Line.text_left rfl).andThen hl
  | hole margin inner later =>
    have hi := inner.accounts (offset + encodedSize ['\x7b']) (margin.map Blank.char) state
    have hl := later.accounts outer (offset + encodedSize ['\x7b'] +
      encodedSize (margin.map Blank.char) + encodedSize inner.render + encodedSize ['\x7d']) state
    have ht : LiteralBody.render (.hole margin inner later) = ['\x7b'] ++
        ((margin.map Blank.char ++ inner.render) ++ (['\x7d'] ++ later.render)) := by
      simp [LiteralBody.render]
    rw [ht]
    apply Transcript.Accounts.andThen
    · exact Transcript.accounts_singleton Line.text_left rfl
    · apply hi.andThen
      apply Transcript.Accounts.andThen
      · exact Transcript.accounts_singleton Line.text_left rfl
      · exact hl

end

/-- As many strings as there are levels may be opened one inside the other. -/
def State.HasRoom (state : State) (levels : Nat) : Prop :=
  levels = 0 ∨ state.depth + levels ≤ maxDepth

mutual

theorem LiteralTree.complete_iff_hasRoom (tree : LiteralTree) (offset : Nat) (margin : List Char)
    (state : State) : (tree.transcript offset margin state).complete = true ↔
      state.HasRoom tree.nesting := by
  cases tree with
  | enclosed enclosure body =>
    rw [LiteralTree.transcript, State.HasRoom, LiteralTree.nesting]
    cases ho : state.open? enclosure.literal with
    | none =>
      obtain ⟨hl, hd⟩ := State.maxDepth_le_of_open? ho
      simp only [Bool.false_eq_true, false_iff]
      omega
    | some inner =>
      obtain ⟨hd, hl⟩ := State.depth_of_open? ho
      have hb := body.complete_iff_hasRoom enclosure (offset + encodedSize margin +
        encodedSize [enclosure.char]) inner
      simp only [Transcript.complete_andThen, Bool.true_and, Bool.and_true, hb, State.HasRoom]
      omega

theorem LiteralBody.complete_iff_hasRoom (body : LiteralBody) (outer : Enclosure) (offset : Nat)
    (state : State) : (body.transcript outer offset state).complete = true ↔
      state.HasRoom body.nesting := by
  cases body with
  | done => exact ⟨fun _ => .inl rfl, fun _ => rfl⟩
  | text run later =>
    have hl := later.complete_iff_hasRoom outer (offset + encodedSize run) state
    simpa only [LiteralBody.transcript, Transcript.complete_andThen, Bool.true_and,
      LiteralBody.nesting] using hl
  | escape c later =>
    have hl := later.complete_iff_hasRoom outer (offset + encodedSize ['\\', c]) state
    simpa only [LiteralBody.transcript, Transcript.complete_andThen, Bool.true_and,
      LiteralBody.nesting] using hl
  | hole margin inner later =>
    have hi := inner.complete_iff_hasRoom (offset + encodedSize ['\x7b']) (margin.map Blank.char) state
    have hl := later.complete_iff_hasRoom outer (offset + encodedSize ['\x7b'] +
      encodedSize (margin.map Blank.char) + encodedSize inner.render + encodedSize ['\x7d']) state
    simp only [LiteralBody.transcript, Transcript.complete_andThen, Bool.true_and,
      Bool.and_eq_true, hi, hl, State.HasRoom, LiteralBody.nesting]
    omega

end

end Offside
