import Offside.Proofs.Transcript

/-!
# A parser at a literal

A parser that reads a literal waits for one token at a time. What the literal leaves to it, an
escape or a brace, it reads by itself.
-/

namespace Offside

set_option autoImplicit false

/-- The token that a parser waits for behind this one, inside of the same literal. -/
def Token.next? : Token → Option Token
  | .stringStart | .stringContent => some .stringContent
  | .regexStart | .regexContent => some .regexContent
  | _ => none

/-- A parser with the tokens that it waits for, those of the innermost literal first, and the
openers of the literals that it expects behind braces. -/
structure Parse where
  host : Host
  wanted : List Token
  openers : List Token := []
  deriving DecidableEq

namespace Parse

def ahead (parse : Parse) : List Char := (parse.host.reader.begin parse.host.position).ahead

def take (parse : Parse) (line : Line) (count : Nat) : Line × Parse :=
  let (entry, host) := parse.host.step (.take count)
  ({ line with taken? := some entry }, { parse with host })

/-- Goes on where there is no token. A parser that does not know what stands there gives up. -/
def goOn (parse : Parse) (line : Line) : Line × Parse :=
  match parse.ahead with
  | '\\' :: _ => parse.take line 2
  | '\x7b' :: _ =>
    let wanted := parse.openers.take 1 ++ parse.wanted
    { parse with wanted, openers := parse.openers.tail }.take line 1
  | '\x7d' :: _ => parse.take line 1
  | _ => (line, { parse with wanted := [] })

def step (parse : Parse) : Option (Line × Parse) :=
  match parse.wanted with
  | [] => none
  | wanted :: outer =>
    let requested := TokenSet.singleton wanted
    let answer := (parse.host.scan requested).1
    let (entry, host) := parse.host.step (.scan requested)
    let line : Line := { wanted, entry, state := host.state, refuses := answer.refuses }
    match answer.token? with
    | some token => some (line, { parse with host, wanted := token.next?.toList ++ outer })
    | none => some ({ parse with host }.goOn line)

def run : Nat → Parse → List Line × Parse
  | 0, parse => ([], parse)
  | count + 1, parse =>
    match parse.step with
    | none => ([], parse)
    | some (line, next) =>
      let (lines, last) := run count next
      (line :: lines, last)

structure Ready (parse : Parse) (wanted openers : List Token) (state : State) (offset : Nat)
    (ahead : List Char) : Prop where
  host_at : parse.host.At ahead
  wanted_eq : parse.wanted = wanted
  openers_eq : parse.openers = openers
  state_eq : parse.host.state = state
  position_eq : parse.host.position = offset

variable {parse : Parse} {wanted token : Token} {outer openers : List Token} {state inner : State}
  {offset : Nat} {gap text rest ahead : List Char}

theorem step_of_finds
    (h : parse.Ready (wanted :: outer) openers state offset (gap ++ (text ++ rest)))
    (hf : (scan state (.singleton wanted) (gap ++ (text ++ rest))).Finds token gap text inner) :
    ∃ next, parse.step = some (.found wanted offset token gap text inner, next) ∧
      next.Ready (token.next?.toList ++ outer) openers inner
        (offset + encodedSize gap + encodedSize text) rest := by
  obtain ⟨ha, hw, ho, rfl, rfl⟩ := h
  obtain ⟨he, hr⟩ := Host.step_scan_cut ha hf.token_eq hf.calls_cut
  have hp := Host.step_after parse.host (.scan (.singleton wanted))
  have hi := ha.state_step_scan.trans hf.state_eq
  refine ⟨⟨(parse.host.step (.scan (.singleton wanted))).2, token.next?.toList ++ outer,
    openers⟩, ?_, ⟨hr, rfl, rfl, hi, ?_⟩⟩
  · simp only [step, hw, ho, ha.scan_fst, hf.token_eq, hf.not_refuses, he, hi, Line.found]
  · rw [← hp, he]
    rfl

theorem scan_of_passes {refuses : Bool}
    (h : parse.Ready (wanted :: outer) openers state offset ahead)
    (hf : (scan state (.singleton wanted) ahead).Passes inner refuses) :
    ∃ next : Parse, next.Ready (wanted :: outer) openers inner offset ahead ∧
      parse.step = some (next.goOn { wanted, entry := .idle offset, state := inner, refuses }) := by
  obtain ⟨ha, hw, ho, rfl, rfl⟩ := h
  obtain ⟨he, hr⟩ := Host.step_scan_idle ha hf.token_eq
  have hp := Host.step_after parse.host (.scan (.singleton wanted))
  have hi := ha.state_step_scan.trans hf.state_eq
  refine ⟨⟨(parse.host.step (.scan (.singleton wanted))).2, wanted :: outer, openers⟩,
    ⟨hr, rfl, rfl, hi, ?_⟩, ?_⟩
  · rw [← hp, he]
    rfl
  · simp only [step, hw, ho, ha.scan_fst, hf.token_eq, hf.refuses_eq, he, hi]

theorem Ready.ahead_eq {waiting : List Token} (h : parse.Ready waiting openers state offset ahead) :
    parse.ahead = ahead := h.host_at.ahead_eq

theorem Ready.take {waiting : List Token}
    (h : parse.Ready waiting openers state offset (text ++ rest)) (line : Line) :
    ∃ next, parse.take line text.length =
        ({ line with taken? := some (.cut offset none [] text) }, next) ∧
      next.Ready waiting openers state (offset + encodedSize text) rest := by
  obtain ⟨ha, hw, ho, rfl, rfl⟩ := h
  obtain ⟨he, hr⟩ := Host.step_take ha text.length
  rw [List.take_left] at he
  rw [List.drop_left] at hr
  have hp := Host.step_after parse.host (.take text.length)
  refine ⟨{ parse with host := (parse.host.step (.take text.length)).2 }, ?_,
    ⟨hr, hw, ho, rfl, ?_⟩⟩
  · simp only [Parse.take, he]
  · rw [← hp, he]
    rfl

theorem goOn_escape {waiting : List Token} {c : Char}
    (h : parse.Ready waiting openers state offset ('\\' :: c :: rest)) (line : Line) :
    ∃ next, parse.goOn line =
        ({ line with taken? := some (.cut offset none [] ['\\', c]) }, next) ∧
      next.Ready waiting openers state (offset + encodedSize ['\\', c]) rest := by
  have ht : parse.Ready waiting openers state offset (['\\', c] ++ rest) := h
  rw [goOn, h.ahead_eq]
  exact ht.take line

theorem goOn_closeBrace {waiting : List Token}
    (h : parse.Ready waiting openers state offset ('\x7d' :: rest)) (line : Line) :
    ∃ next, parse.goOn line =
        ({ line with taken? := some (.cut offset none [] ['\x7d']) }, next) ∧
      next.Ready waiting openers state (offset + encodedSize ['\x7d']) rest := by
  have ht : parse.Ready waiting openers state offset (['\x7d'] ++ rest) := h
  rw [goOn, h.ahead_eq]
  exact ht.take line

theorem goOn_openBrace {waiting : List Token} {opener : Token}
    (h : parse.Ready waiting (opener :: openers) state offset ('\x7b' :: rest)) (line : Line) :
    ∃ next, parse.goOn line =
        ({ line with taken? := some (.cut offset none [] ['\x7b']) }, next) ∧
      next.Ready (opener :: waiting) openers state (offset + encodedSize ['\x7b']) rest := by
  have ha := h.ahead_eq
  obtain ⟨host_at, wanted_eq, openers_eq, state_eq, position_eq⟩ := h
  have ht : Parse.Ready { parse with wanted := opener :: waiting, openers } (opener :: waiting)
      openers state offset (['\x7b'] ++ rest) :=
    ⟨host_at, rfl, rfl, state_eq, position_eq⟩
  rw [goOn, ha]
  simp only [wanted_eq, openers_eq, List.take_succ_cons, List.take_zero, List.tail_cons,
    List.cons_append, List.nil_append]
  exact ht.take line

theorem goOn_opener {margin : List Blank} {enclosure : Enclosure}
    (h : parse.ahead = margin.map Blank.char ++ enclosure.char :: rest) (line : Line) :
    parse.goOn line = (line, { parse with wanted := [] }) := by
  rw [goOn, h]
  cases margin with
  | nil =>
    cases enclosure with
    | quotes quote => cases quote <;> rfl
    | slashes => rfl
  | cons kind margin => cases kind <;> rfl

inductive Leads : Parse → List Line → Parse → Prop where
  | stay (parse : Parse) : Leads parse [] parse
  | step {first next last : Parse} {line : Line} {lines : List Line}
      (head : first.step = some (line, next)) (later : Leads next lines last) :
      Leads first (line :: lines) last

theorem Leads.trans {first middle last : Parse} {lines later : List Line}
    (h : Leads first lines middle) (hl : Leads middle later last) :
    Leads first (lines ++ later) last := by
  induction h with
  | stay parse => exact hl
  | step head _ ih => exact .step head (ih hl)

theorem Leads.run_eq {first last : Parse} {lines : List Line} (h : Leads first lines last)
    (hw : last.wanted = []) (more : Nat) : first.run (lines.length + more) = (lines, last) := by
  induction h with
  | stay parse =>
    have hs : parse.step = none := by simp only [Parse.step, hw]
    cases more with
    | zero => rfl
    | succ more => simp [run, hs]
  | step head _ ih =>
    rw [List.length_cons, Nat.add_right_comm]
    simp only [run, head, ih hw]

/-- The parser sees what the transcript says. It arrives, or it gives up. -/
def Follows (first : Parse) (transcript : Transcript) (arrived : Parse → Prop) : Prop :=
  ∃ last, Leads first transcript.lines last ∧
    (transcript.complete = true → arrived last) ∧
    (transcript.complete = false → last.wanted = [])

theorem Follows.andThen {first : Parse} {earlier later : Transcript} {middle arrived : Parse → Prop}
    (h : first.Follows earlier middle) (hl : ∀ parse, middle parse → parse.Follows later arrived) :
    first.Follows (earlier.andThen later) arrived := by
  obtain ⟨stop, hs, ha, hg⟩ := h
  cases hc : earlier.complete with
  | false =>
    have he : earlier.andThen later = earlier := by simp [Transcript.andThen, hc]
    rw [he]
    refine ⟨stop, hs, ?_, hg⟩
    intro ht
    rw [hc] at ht
    cases ht
  | true =>
    have he : earlier.andThen later = ⟨earlier.lines ++ later.lines, later.complete⟩ := by
      simp [Transcript.andThen, hc]
    obtain ⟨last, hr, hd⟩ := hl stop (ha hc)
    rw [he]
    exact ⟨last, hs.trans hr, hd⟩

theorem follows_singleton {first next : Parse} {line : Line} {arrived : Parse → Prop}
    (h : first.step = some (line, next)) (ha : arrived next) :
    first.Follows ⟨[line], true⟩ arrived := by
  refine ⟨next, .step h (.stay next), ?_, ?_⟩
  · intro _
    exact ha
  · intro hc
    cases hc

end Parse

end Offside
