namespace TypeFlow

structure Handle where
  raw : UInt32 := 0
  deriving DecidableEq, Repr, Inhabited

namespace Handle

def shardCount : Nat := 16

def maxSlot : UInt32 := 0x0FFFFFFF

def ofParts (shard slot : UInt32) : Handle := ⟨(shard <<< 28) ||| slot⟩

def shard (h : Handle) : Nat := (h.raw >>> 28).toNat

def slot (h : Handle) : Nat := (h.raw &&& maxSlot).toNat

def text (h : Handle) : String := "Name(" ++ toString h.shard ++ ":" ++ toString h.slot ++ ")"

end Handle

end TypeFlow
