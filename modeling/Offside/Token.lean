/-!
# Tokens

The tokens that a parser leaves to this scanner. The comment and the three closing brackets are
never found by a scan: a parser only says of them whether it would accept one.
-/

namespace Offside

set_option autoImplicit false

inductive Token where
  | newline
  | indent
  | dedent
  | stringStart
  | stringContent
  | stringEnd
  | regexStart
  | regexContent
  | regexEnd
  | comment
  | closeParen
  | closeBracket
  | closeBrace
  deriving DecidableEq, Repr, Inhabited

namespace Token

def all : List Token :=
  [newline, indent, dedent, stringStart, stringContent, stringEnd, regexStart, regexContent,
    regexEnd, comment, closeParen, closeBracket, closeBrace]

/-- The position of a token in the table that a parser hands over. -/
def index : Token → Nat
  | newline => 0
  | indent => 1
  | dedent => 2
  | stringStart => 3
  | stringContent => 4
  | stringEnd => 5
  | regexStart => 6
  | regexContent => 7
  | regexEnd => 8
  | comment => 9
  | closeParen => 10
  | closeBracket => 11
  | closeBrace => 12

def name : Token → String
  | newline => "NEWLINE"
  | indent => "INDENT"
  | dedent => "DEDENT"
  | stringStart => "STRING_START"
  | stringContent => "STRING_CONTENT"
  | stringEnd => "STRING_END"
  | regexStart => "REGEX_START"
  | regexContent => "REGEX_CONTENT"
  | regexEnd => "REGEX_END"
  | comment => "COMMENT"
  | closeParen => "CLOSE_PAREN"
  | closeBracket => "CLOSE_BRACKET"
  | closeBrace => "CLOSE_BRACE"

def label : Token → String
  | newline => "Newline"
  | indent => "Indent"
  | dedent => "Dedent"
  | stringStart => "StringStart"
  | stringContent => "StringContent"
  | stringEnd => "StringEnd"
  | regexStart => "RegexStart"
  | regexContent => "RegexContent"
  | regexEnd => "RegexEnd"
  | comment => "Comment"
  | closeParen => "CloseParen"
  | closeBracket => "CloseBracket"
  | closeBrace => "CloseBrace"

theorem mem_all (token : Token) : token ∈ all := by
  cases token <;> decide

theorem getElem?_all (token : Token) : all[token.index]? = some token := by
  cases token <;> rfl

theorem index_lt (token : Token) : token.index < 13 := by
  cases token <;> decide

theorem index_inj {left right : Token} : left.index = right.index ↔ left = right := by
  constructor
  · intro h
    have hl := getElem?_all left
    rw [h, getElem?_all right, Option.some.injEq] at hl
    exact hl.symm
  · rintro rfl
    rfl

end Token

end Offside
