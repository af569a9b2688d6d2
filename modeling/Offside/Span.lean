/-!
# Spans

A span is a range of byte offsets, such as the place of a token in its source.
-/

namespace Offside

set_option autoImplicit false

/-- The offsets from `start` up to but not including `stop`. -/
structure Span where
  start : Nat := 0
  stop : Nat := 0
  deriving DecidableEq, Inhabited

namespace Span

/-- A span that stops before it starts has length zero. -/
def length (span : Span) : Nat := span.stop - span.start

def isEmpty (span : Span) : Bool := span.start == span.stop

@[simp] theorem isEmpty_iff (span : Span) : span.isEmpty ↔ span.start = span.stop := by
  simp [isEmpty]

end Span

end Offside
