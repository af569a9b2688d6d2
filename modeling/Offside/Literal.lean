import Offside.Delimiter
import Offside.Reader
import Offside.TokenSet

/-!
# Literals

The inside of a string or a regex is cut into pieces of plain text that are as long as possible. A
literal cannot go on past a line break or the end of the input, so a piece that ends there is no
token.
-/

namespace Offside

set_option autoImplicit false

inductive Literal where
  | string (delimiter : Delimiter)
  | regex
  deriving DecidableEq

inductive PieceEnd where
  /-- The start of an escape or a brace, which the parser reads by itself. -/
  | yielded
  | closed
  | lineBreak
  | endOfInput
  deriving DecidableEq, Repr

/-- The longest piece of plain text: its number of characters and what ends it. -/
structure Piece where
  length : Nat
  ending : PieceEnd
  deriving DecidableEq, Repr

namespace Literal

def startToken : Literal → Token
  | string _ => .stringStart
  | regex => .regexStart

def contentToken : Literal → Token
  | string _ => .stringContent
  | regex => .regexContent

def endToken : Literal → Token
  | string _ => .stringEnd
  | regex => .regexEnd

/-- Nothing closes a string whose delimiter has no known quote. -/
def closing? : Literal → Option Char
  | string delimiter => delimiter.closing?
  | regex => some '/'

/-- The literal that `c` opens, when the parser would accept it. -/
def ofOpener? (requested : TokenSet) (c : Char) : Option Literal :=
  match (if requested.allows .stringStart then Delimiter.ofOpener? c else none) with
  | some delimiter => some (string delimiter)
  | none => if requested.allows .regexStart && c == '/' then some regex else none

/-- Only strings hold expressions between braces. -/
def interpolates : Literal → Bool
  | string _ => true
  | regex => false

def yields (literal : Literal) (c : Char) : Bool :=
  c == '\\' || literal.interpolates && (c == '\x7b' || c == '\x7d')

/-- What a character ends that is not plain text wherever it stands. NUL is the end of input. -/
def stop? (literal : Literal) (c : Char) : Option PieceEnd :=
  if c = '\x00' then some .endOfInput
  else if literal.yields c then some .yielded
  else if literal.closing? = some c then some .closed
  else none

def isPlain (literal : Literal) (c : Char) : Bool := (literal.stop? c).isNone

/-- The text of the longest piece in front. A line break is part of it only as its first
character. -/
def plainText (literal : Literal) : List Char → List Char
  | [] => []
  | c :: rest =>
    if literal.isPlain c then
      c :: rest.takeWhile fun next => literal.isPlain next && next != '\n'
    else []

def piece (literal : Literal) (ahead : List Char) : Piece :=
  let length := (literal.plainText ahead).length
  { length, ending := (literal.stop? ((ahead.drop length).headD '\x00')).getD .lineBreak }

end Literal

namespace Piece

/-- At the end of the input there may be a block to close, so the literal gives way. -/
def isExhausted (piece : Piece) : Bool :=
  piece.length == 0 && piece.ending == .endOfInput

def token? (literal : Literal) : Piece → Option Token
  | ⟨0, .closed⟩ => some literal.endToken
  | ⟨_ + 1, .closed⟩ | ⟨_ + 1, .yielded⟩ => some literal.contentToken
  | _ => none

/-- The closing character is read only when no text stands before it. A piece that ends at a line
break or at the end of the input stays unmarked. -/
def calls : Piece → List Call
  | ⟨0, .closed⟩ => [.advance, .mark]
  | ⟨length, .closed⟩ | ⟨length, .yielded⟩ => List.replicate length .advance ++ [.mark]
  | ⟨length, .lineBreak⟩ | ⟨length, .endOfInput⟩ => List.replicate length .advance

end Piece

namespace Literal

theorem plainText_prefix (literal : Literal) (ahead : List Char) :
    literal.plainText ahead <+: ahead := by
  cases ahead with
  | nil => simp [plainText]
  | cons c rest =>
    simp only [plainText]
    split
    · exact List.cons_prefix_cons.mpr ⟨rfl, List.takeWhile_prefix _⟩
    · exact List.nil_prefix

theorem isPlain_of_mem_plainText {literal : Literal} {ahead : List Char} {c : Char}
    (h : c ∈ literal.plainText ahead) : literal.isPlain c := by
  cases ahead with
  | nil => simp [plainText] at h
  | cons first rest =>
    simp only [plainText] at h
    split at h
    · rcases List.mem_cons.mp h with rfl | hc
      · assumption
      · have ha := List.all_takeWhile (l := rest)
          (p := fun next => literal.isPlain next && next != '\n')
        simp only [List.all_eq_true, Bool.and_eq_true] at ha
        exact (ha c hc).1
    · simp at h

end Literal

end Offside
