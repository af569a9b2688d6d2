import Offside.Proofs.Transition

/-!
# Only legal tokens are found

A parser says which tokens it would accept, and a scan finds none that would derail it. A parser
that recovers from an error requests everything, and gets neither content nor a NEWLINE.
-/

namespace Offside

set_option autoImplicit false

/-- What a parser that scans in `state` can rely on when it gets `token`. -/
structure Token.Legal (token : Token) (state : State) (requested : TokenSet) : Prop where
  not_left_out : token ∉ [Token.comment, .closeParen, .closeBracket, .closeBrace]
  granted : requested.allows token ∨
    token = .stringEnd ∧ requested.allows .stringContent ∨
    token = .regexEnd ∧ requested.allows .regexContent ∨
    token = .dedent ∧ ∀ other ∈ [Token.newline, .closeParen, .closeBracket, .closeBrace],
      requested.allows other = false
  in_string : token = .stringContent ∨ token = .stringEnd → state.stack ≠ []
  string_first : requested.allows .stringContent → state.stack ≠ [] →
    requested.isErrorRecovery = false → token ≠ .regexContent ∧ token ≠ .regexEnd
  recovering : requested.isErrorRecovery →
    token ∈ [Token.indent, .dedent, .stringStart, .regexStart]

theorem TokenSet.withinBrackets_eq_false_iff {set : TokenSet} :
    set.withinBrackets = false ↔
      ∀ closer ∈ [Token.closeParen, .closeBracket, .closeBrace], set.allows closer = false := by
  have hempty : set.withinBrackets = false ↔ set ∩ brackets = ∅ := by
    simp [withinBrackets, intersects, isEmpty]
  rw [hempty]
  constructor
  · intro he closer hc
    have ha : (set ∩ brackets).allows closer = false := by rw [he, allows_empty]
    have hb : brackets.allows closer = true := by simpa [brackets] using hc
    rwa [allows_inter, hb, Bool.and_true] at ha
  · intro h
    have hbits : ∀ index : Fin 16, brackets.bits.getLsbD index = true →
        ∃ closer ∈ [Token.closeParen, .closeBracket, .closeBrace],
          closer.index = index := by decide
    have hzero : (set ∩ brackets).bits = 0#16 := by
      apply BitVec.eq_of_getLsbD_eq
      intro index hi
      have hand : (set ∩ brackets).bits.getLsbD index =
          (set.bits.getLsbD index && brackets.bits.getLsbD index) := BitVec.getLsbD_and ..
      rw [hand, BitVec.getLsbD_zero, Bool.and_eq_false_iff]
      cases hb : brackets.bits.getLsbD index with
      | false => exact .inr rfl
      | true =>
        obtain ⟨closer, hc, hindex⟩ := hbits ⟨index, hi⟩ hb
        have hallows := h closer hc
        rw [allows, hindex] at hallows
        exact .inl hallows
    exact congrArg TokenSet.mk hzero

theorem Layout.wantsDedent_iff {requested : TokenSet} :
    wantsDedent requested = true ↔ requested.allows .dedent = true ∨
      ∀ other ∈ [Token.newline, .closeParen, .closeBracket, .closeBrace],
        requested.allows other = false := by
  rw [List.forall_mem_cons, ← TokenSet.withinBrackets_eq_false_iff]
  simp only [wantsDedent, Bool.or_eq_true, Bool.and_eq_true, Bool.not_eq_true']

theorem Layout.breaksLine_iff {requested : TokenSet} :
    breaksLine requested = true ↔
      requested.allows .newline = true ∧ requested.isErrorRecovery = false := by
  simp only [breaksLine, Bool.and_eq_true, Bool.not_eq_true']

theorem Literal.allows_startToken {requested : TokenSet} {c : Char} {literal : Literal}
    (h : ofOpener? requested c = some literal) : requested.allows literal.startToken := by
  unfold ofOpener? at h
  split at h
  · rename_i delimiter hd
    cases h
    split at hd
    · assumption
    · cases hd
  · split at h
    · rename_i hr
      cases h
      exact (Bool.and_eq_true_iff.mp hr).1
    · cases h

section Course

variable {state : State} {requested : TokenSet} {ahead : List Char} {answer : Answer}
  {literal : Literal} {layout : Layout} {token : Token}

theorem legal_of_piece {piece : Piece} (hm : Mode.select state requested = .inside literal)
    (h : piece.token? literal = some token) : token.Legal state requested := by
  have hk : token = literal.contentToken ∨ token = literal.endToken :=
    (Piece.token?_cases h).imp_right And.left
  cases literal with
  | string delimiter =>
    obtain ⟨hr, hs, ht⟩ := Mode.select_eq_string_iff.mp hm
    have hstring : token = .stringContent ∨ token = .stringEnd := hk
    have hstack : state.stack ≠ [] := by
      intro hn
      simp [State.top?, hn] at ht
    refine ⟨?_, ?_, fun _ => hstack, ?_, ?_⟩
    · rcases hstring with rfl | rfl <;> decide
    · rcases hstring with rfl | rfl
      · exact .inl hs
      · exact .inr (.inl ⟨rfl, hs⟩)
    · intro _ _ _
      rcases hstring with rfl | rfl <;> decide
    · intro hx
      rw [hr] at hx
      cases hx
  | regex =>
    obtain ⟨hr, hs, ht⟩ := Mode.select_eq_regex_iff.mp hm
    have hregex : token = .regexContent ∨ token = .regexEnd := hk
    refine ⟨?_, ?_, ?_, ?_, ?_⟩
    · rcases hregex with rfl | rfl <;> decide
    · rcases hregex with rfl | rfl
      · exact .inl hs
      · exact .inr (.inr (.inl ⟨rfl, hs⟩))
    · intro hstring
      rcases hregex with rfl | rfl <;> rcases hstring with hc | hc <;> cases hc
    · intro hc hstack
      exact absurd (List.head?_eq_none_iff.mp (ht hc)) hstack
    · intro hx
      rw [hr] at hx
      cases hx

theorem legal_of_due {baseline : UInt8} (h : layout.token? requested baseline = some token) :
    token.Legal state requested := by
  have hk : token = .indent ∨ token = .dedent ∨ token = .newline := by
    rcases Layout.token?_cases h with ⟨ht, -⟩ | ⟨ht, -⟩ | ⟨ht, -⟩
    · exact .inl ht
    · exact .inr (.inl ht)
    · exact .inr (.inr ht)
  refine ⟨?_, ?_, ?_, ?_, ?_⟩
  · rcases hk with rfl | rfl | rfl <;> decide
  · rcases Layout.token?_cases h with ⟨rfl, hi⟩ | ⟨rfl, hd⟩ | ⟨rfl, hb⟩
    · simp only [Layout.indents, Bool.and_eq_true] at hi
      exact .inl hi.1.1
    · simp only [Layout.dedents, Bool.and_eq_true] at hd
      rcases Layout.wantsDedent_iff.mp hd.1.1.1 with ha | hn
      · exact .inl ha
      · exact .inr (.inr (.inr ⟨rfl, hn⟩))
    · exact .inl (Bool.and_eq_true_iff.mp hb).1
  · intro hstring
    rcases hk with rfl | rfl | rfl <;> rcases hstring with hc | hc <;> cases hc
  · intro _ _ _
    rcases hk with rfl | rfl | rfl <;> decide
  · intro hx
    rcases Layout.token?_cases h with ⟨rfl, -⟩ | ⟨rfl, -⟩ | ⟨rfl, hb⟩
    · decide
    · decide
    · simp [Layout.breaksLine, hx] at hb

theorem legal_of_opener {c : Char} (h : Literal.ofOpener? requested c = some literal) :
    literal.startToken.Legal state requested := by
  have ha := Literal.allows_startToken h
  cases literal with
  | string delimiter =>
    refine ⟨by simp [Literal.startToken], .inl ha, ?_, ?_, fun _ => by simp [Literal.startToken]⟩
    · rintro (hc | hc) <;> cases hc
    · intro _ _ _
      simp [Literal.startToken]
  | regex =>
    refine ⟨by decide, .inl ha, ?_, fun _ _ _ => by decide, fun _ => by decide⟩
    rintro (hc | hc) <;> cases hc

theorem Course.legal (course : Course state requested ahead answer)
    (h : answer.token? = some token) : token.Legal state requested := by
  cases course with
  | piece mode => exact legal_of_piece mode h
  | broken => cases h
  | due _ _ token_due =>
    cases h
    exact legal_of_due token_due
  | idle => cases h
  | refused => cases h
  | opened _ _ _ _ opener =>
    cases h
    exact legal_of_opener opener

end Course

/-- Wherever a scan begins, in whatever state and whatever is requested, the token that it finds is
one that the parser can expect. -/
theorem found_token_is_legal (input : String) (offset : Nat) (state : State)
    (requested : TokenSet) (token : Token)
    (h : ((Source.ofString input).scan offset state requested).answer.token? = some token) :
    token.Legal state requested := by
  let ahead : List Char := ((Reader.ofSource (Source.ofString input)).begin offset).ahead
  obtain ⟨answer, course, ht, -, -⟩ := exists_course state requested ahead
  apply course.legal
  rw [← ht]
  exact h

/-- A block ends although only the end of a string was requested, whose content comes first. -/
theorem found_token_is_legal_implied :
    let state : State := { stack := [.ofQuote .back], baseline := 4 }
    let requested : TokenSet := .ofTokens [.stringContent, .stringEnd]
    ((Source.ofString "").scan 0 state requested).answer.token? = some .dedent ∧
      Token.dedent.Legal state requested := by
  intro state requested
  have ht : ((Source.ofString "").scan 0 state requested).answer.token? = some .dedent := by
    decide +kernel
  exact ⟨ht, found_token_is_legal "" 0 state requested .dedent ht⟩

end Offside
