/-!
# Spans

A span is a range of byte offsets in a source text, the end excluded.
-/

namespace Stackscript

/-- A range of byte offsets in a source text, the end excluded. -/
structure Span where
  start : Nat
  stop : Nat
deriving DecidableEq, Inhabited

namespace Span

/-- The smallest span that holds both. -/
def join (a b : Span) : Span := ⟨min a.start b.start, max a.stop b.stop⟩

/-- The number of bytes. -/
def length (s : Span) : Nat := s.stop - s.start

/-- The span holds no byte. -/
def isEmpty (s : Span) : Bool := s.start == s.stop

/-- The span moved forward by `n` bytes. -/
def shift (n : Nat) (s : Span) : Span := ⟨s.start + n, s.stop + n⟩

end Span

/-- A value together with the part of the source text that it belongs to. -/
structure Located (α : Type) where
  span : Span
  val : α
deriving DecidableEq

end Stackscript
