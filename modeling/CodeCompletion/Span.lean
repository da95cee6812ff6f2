import CodeCompletion.Text.Offset

namespace CodeCompletion

/-- The bytes from `start` up to, but not including, `stop`. -/
structure Span where
  start : Nat
  stop : Nat
  deriving Repr, DecidableEq, Inhabited

namespace Span

def empty (at_ : Nat) : Span := ⟨at_, at_⟩

def join (a b : Span) : Span := ⟨a.start, b.stop⟩

/-- The number of bytes; zero for a span that ends before it starts. -/
def length (a : Span) : Nat := a.stop - a.start

def isEmpty (a : Span) : Bool := a.start == a.stop

/-- Whether the offset lies in the span or at one of its ends. -/
def touches (a : Span) (pos : Nat) : Bool := decide (a.start ≤ pos) && decide (pos ≤ a.stop)

def contains (a : Span) (pos : Nat) : Bool := decide (a.start ≤ pos) && decide (pos < a.stop)

def encloses (a b : Span) : Bool := decide (a.start ≤ b.start) && decide (b.stop ≤ a.stop)

/-- The text under the span; empty when its ends are not boundaries of the text in order. -/
def slice (a : Span) (text : String) : String :=
  String.ofList (Text.slice a.start a.stop text.toList)

end Span

structure TextEdit where
  range : Span
  newText : String
  deriving Repr, DecidableEq, Inhabited

def TextEdit.insertAt (offset : Nat) (text : String) : TextEdit :=
  ⟨Span.empty offset, text⟩

end CodeCompletion
