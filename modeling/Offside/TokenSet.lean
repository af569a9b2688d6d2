import Offside.Text.Flags
import Offside.Token

/-!
# Token sets

With each scan a parser says which tokens it would accept. The set is a 16-bit word in which the
bit of a token is its index. The bits above the last token mean nothing and are kept.
-/

namespace Offside

set_option autoImplicit false

structure TokenSet where
  bits : BitVec 16
  deriving DecidableEq, Inhabited

namespace TokenSet

def empty : TokenSet := ⟨0⟩

def singleton (token : Token) : TokenSet := ⟨BitVec.twoPow 16 token.index⟩

protected def union (left right : TokenSet) : TokenSet := ⟨left.bits ||| right.bits⟩

protected def inter (left right : TokenSet) : TokenSet := ⟨left.bits &&& right.bits⟩

protected def diff (left right : TokenSet) : TokenSet := ⟨left.bits &&& ~~~right.bits⟩

def symmDiff (left right : TokenSet) : TokenSet := ⟨left.bits ^^^ right.bits⟩

instance : EmptyCollection TokenSet := ⟨empty⟩
instance : Singleton Token TokenSet := ⟨singleton⟩
instance : Union TokenSet := ⟨TokenSet.union⟩
instance : Inter TokenSet := ⟨TokenSet.inter⟩
instance : SDiff TokenSet := ⟨TokenSet.diff⟩

def ofTokens (tokens : List Token) : TokenSet :=
  tokens.foldl (fun set token => set ∪ singleton token) ∅

/-- Entry `n` of a table tells whether token `n` is accepted. Entries that are missing read as
refusals, and those behind the last token are ignored. -/
def ofTable (table : List Bool) : TokenSet :=
  ofTokens (((Token.all.zip table).filter Prod.snd).map Prod.fst)

def brackets : TokenSet := ofTokens [.closeParen, .closeBracket, .closeBrace]

def all : TokenSet := ofTokens Token.all

def truncate (set : TokenSet) : TokenSet := set ∩ all

def complement (set : TokenSet) : TokenSet := all \ set

def isEmpty (set : TokenSet) : Bool := set == ∅

def contains (set other : TokenSet) : Bool := set ∩ other == other

def intersects (set other : TokenSet) : Bool := !(set ∩ other).isEmpty

def isAll (set : TokenSet) : Bool := set.contains all

/-- The set with these bits, unless one of them belongs to no token. -/
def ofBits? (bits : BitVec 16) : Option TokenSet :=
  if all.contains ⟨bits⟩ then some ⟨bits⟩ else none

def allows (set : TokenSet) (token : Token) : Bool := set.bits.getLsbD token.index

def toList (set : TokenSet) : List Token := Token.all.filter set.allows

/-- A closing bracket is acceptable only between brackets. -/
def withinBrackets (set : TokenSet) : Bool := set.intersects brackets

/-- No parse accepts the inside of a literal together with a deeper line. A parser that asks for
both is trying every token to recover from an error. -/
def isErrorRecovery (set : TokenSet) : Bool :=
  (set.allows .stringContent || set.allows .regexContent) && set.allows .indent

def text (set : TokenSet) : String :=
  "TokenSet(" ++ Text.flags (Token.all.map Token.name) set.bits.toNat ++ ")"

@[simp] theorem allows_empty (token : Token) : (∅ : TokenSet).allows token = false := by
  cases token <;> rfl

@[simp] theorem allows_union (left right : TokenSet) (token : Token) :
    (left ∪ right).allows token = (left.allows token || right.allows token) :=
  BitVec.getLsbD_or ..

@[simp] theorem allows_inter (left right : TokenSet) (token : Token) :
    (left ∩ right).allows token = (left.allows token && right.allows token) :=
  BitVec.getLsbD_and ..

@[simp] theorem allows_singleton (member token : Token) :
    (singleton member).allows token = decide (token = member) := by
  cases member <;> cases token <;> decide

@[simp] theorem allows_ofTokens (tokens : List Token) (token : Token) :
    (ofTokens tokens).allows token = decide (token ∈ tokens) := by
  suffices h : ∀ set : TokenSet,
      (tokens.foldl (fun set token => set ∪ singleton token) set).allows token =
        (set.allows token || decide (token ∈ tokens)) by
    simpa [ofTokens] using h ∅
  induction tokens with
  | nil => simp
  | cons member rest ih =>
    intro set
    simp only [List.foldl_cons, ih, allows_union, allows_singleton, List.mem_cons,
      Bool.or_assoc, Bool.decide_or]

theorem mem_toList (set : TokenSet) (token : Token) : token ∈ set.toList ↔ set.allows token := by
  simp [toList, Token.mem_all]

end TokenSet

end Offside
