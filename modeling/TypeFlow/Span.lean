namespace TypeFlow

-- A range of byte offsets. Nothing forces `start ≤ stop`: a span is what a reader of source handed
-- over.
structure Span where
  start : UInt32 := 0
  stop : UInt32 := 0
  deriving DecidableEq, Repr, Inhabited

namespace Span

def point (offset : UInt32) : Span := ⟨offset, offset⟩

def len (s : Span) : UInt32 := s.stop - s.start

def isEmpty (s : Span) : Bool := s.start == s.stop

def merge (s t : Span) : Span := ⟨min s.start t.start, max s.stop t.stop⟩

def contains (s t : Span) : Bool := s.start ≤ t.start && t.stop ≤ s.stop

def before (s t : Span) : Bool := s.start < t.start || (s.start == t.start && s.stop < t.stop)

def text (s : Span) : String := toString s.start ++ ".." ++ toString s.stop

@[simp] theorem isEmpty_point (o : UInt32) : (point o).isEmpty = true := by simp [point, isEmpty]

@[simp] theorem len_point (o : UInt32) : (point o).len = 0 := by simp [point, len]

@[simp] theorem contains_self (s : Span) : s.contains s = true := by simp [contains]

end Span

end TypeFlow
