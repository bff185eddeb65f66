import TypeFlow.Diagnostic.Record

namespace TypeFlow

structure QueueConfig where
  -- The most errors kept; zero keeps all.
  errorLimit : Nat := 0
  deduplicate : Bool := true
  deriving DecidableEq, Repr

structure DiagnosticQueue where
  config : QueueConfig := {}
  accepted : List Diagnostic := []
  deriving DecidableEq, Repr

structure ErrorGuarantee where
  deriving DecidableEq, Repr

def ErrorGuarantee.text (_ : ErrorGuarantee) : String := "error(s) emitted"

namespace Diagnostic

def key (d : Diagnostic) : ErrorCode × Option Span × String := (d.code, d.primarySpan, d.message)

def sortKey (d : Diagnostic) : UInt32 × UInt32 :=
  match d.primarySpan with
  | some s => (s.start, s.stop)
  | none => (4294967295, 4294967295)

def sortLE (d e : Diagnostic) : Bool :=
  d.sortKey.1 < e.sortKey.1 || (d.sortKey.1 == e.sortKey.1 && d.sortKey.2 ≤ e.sortKey.2)

end Diagnostic

namespace DiagnosticQueue

def errorCount (q : DiagnosticQueue) : Nat := q.accepted.countP (·.isError)

def limitReached (q : DiagnosticQueue) : Bool :=
  0 < q.config.errorLimit && q.config.errorLimit ≤ q.errorCount

def repeats (q : DiagnosticQueue) (d : Diagnostic) : Bool :=
  q.config.deduplicate && q.accepted.any (·.key == d.key)

def accepts (q : DiagnosticQueue) (d : Diagnostic) : Bool :=
  !(d.isError && q.limitReached) && !q.repeats d

def add (q : DiagnosticQueue) (d : Diagnostic) : DiagnosticQueue :=
  if q.accepts d then { q with accepted := q.accepted ++ [d] } else q

def addAll (q : DiagnosticQueue) (ds : List Diagnostic) : DiagnosticQueue := ds.foldl add q

def isEmpty (q : DiagnosticQueue) : Bool := q.accepted.isEmpty

def guarantee (q : DiagnosticQueue) : Option ErrorGuarantee :=
  if 0 < q.errorCount then some ⟨⟩ else none

-- Queue an error. The token is handed out whether or not the error is kept.
def emit (q : DiagnosticQueue) (d : Diagnostic) : ErrorGuarantee × DiagnosticQueue := (⟨⟩, q.add d)

def flush (q : DiagnosticQueue) : List Diagnostic × DiagnosticQueue :=
  (q.accepted.mergeSort Diagnostic.sortLE, { q with accepted := [] })

end DiagnosticQueue

end TypeFlow
