import Mathlib.Tactic.Common

/-!
A bounded, non-blocking pipe that a waiter watches for edges. A write either
adds a byte and raises the edge, or finds the pipe full and does neither; a
waiter that wakes up for the pipe takes the edge, not a byte; a read takes
one byte if there is one.
-/

namespace GitRpc.Library.WakeupPipe

structure EdgePipe where
  capacity : Nat
  bytes : Nat
  edge : Bool
  positive : 0 < capacity
  bounded : bytes ≤ capacity

namespace EdgePipe

def new (capacity : Nat) (hpositive : 0 < capacity) : EdgePipe :=
  ⟨capacity, 0, false, hpositive, Nat.zero_le capacity⟩

def Full (p : EdgePipe) : Prop := p.bytes = p.capacity

instance (p : EdgePipe) : Decidable p.Full := inferInstanceAs (Decidable (p.bytes = p.capacity))

def write (p : EdgePipe) : EdgePipe :=
  if hfull : p.Full then p
  else { p with
    bytes := p.bytes + 1
    edge := true
    bounded := Nat.lt_of_le_of_ne p.bounded hfull }

def read (p : EdgePipe) : EdgePipe :=
  { p with bytes := p.bytes - 1, bounded := Nat.le_trans (Nat.sub_le p.bytes 1) p.bounded }

def takeEdge (p : EdgePipe) : EdgePipe := { p with edge := false }

/-- A write that raises no edge has found the pipe full, and left it so. -/
theorem write_edge_or_full (p : EdgePipe) : p.write.edge = true ∨ p.Full ∧ p.write = p := by
  unfold write
  split
  · rename_i hfull
    exact .inr ⟨hfull, rfl⟩
  · exact .inl rfl

theorem not_full_read (p : EdgePipe) : ¬ p.read.Full := by
  have hpositive := p.positive
  have hbounded := p.bounded
  show ¬ p.bytes - 1 = p.capacity
  omega

end EdgePipe

end GitRpc.Library.WakeupPipe
