import Offside.Delimiter

/-!
# Scanner state

All that a scan remembers from earlier ones. There is one baseline only, since a parser keeps a
snapshot of the state for every place it may come back to.
-/

namespace Offside

set_option autoImplicit false

/-- The delimiters of the open strings, innermost first, and the indentation of the block. -/
structure State where
  stack : List Delimiter := []
  baseline : UInt8 := 0
  deriving DecidableEq, Inhabited

namespace State

/-- A string is not opened inside this many others. -/
def maxDepth : Nat := 255

/-- Indentations beyond this column are not told apart. -/
def maxBaseline : Nat := 255

def depth (state : State) : Nat := state.stack.length

def top? (state : State) : Option Delimiter := state.stack.head?

def isInitial (state : State) : Bool := state == {}

def push? (state : State) (delimiter : Delimiter) : Option State :=
  if maxDepth ≤ state.depth then none
  else some { state with stack := delimiter :: state.stack }

def pop (state : State) : State := { state with stack := state.stack.tail }

def enterBlock (state : State) (width : Nat) : State :=
  { state with baseline := UInt8.ofNat (min width maxBaseline) }

def leaveBlock (state : State) : State := { state with baseline := 0 }

@[simp] theorem stack_enterBlock (state : State) (width : Nat) :
    (state.enterBlock width).stack = state.stack := rfl

theorem baseline_enterBlock (state : State) (width : Nat) :
    (state.enterBlock width).baseline.toNat = min width 255 := by
  have h : min width 255 < 256 := by omega
  simp [enterBlock, maxBaseline, UInt8.toNat_ofNat', Nat.mod_eq_of_lt h]

@[simp] theorem stack_leaveBlock (state : State) : state.leaveBlock.stack = state.stack := rfl

@[simp] theorem baseline_leaveBlock (state : State) : state.leaveBlock.baseline = 0 := rfl

@[simp] theorem baseline_pop (state : State) : state.pop.baseline = state.baseline := rfl

theorem push?_eq_some_iff {state opened : State} {delimiter : Delimiter} :
    state.push? delimiter = some opened ↔
      state.depth < maxDepth ∧ opened = { state with stack := delimiter :: state.stack } := by
  simp [push?, eq_comm]

theorem pop_of_push? {state opened : State} {delimiter : Delimiter}
    (h : state.push? delimiter = some opened) : opened.pop = state := by
  obtain ⟨_, rfl⟩ := push?_eq_some_iff.mp h
  rfl

end State

end Offside
