import TypeFlow.Intern.Handle

namespace TypeFlow

structure Pool (α : Type) where
  entries : List α := []
  deriving Repr

namespace Pool

variable {α : Type} [DecidableEq α]

def size (p : Pool α) : Nat := p.entries.length

def shardEntries (shardOf : α → Nat) (p : Pool α) (shard : Nat) : List α :=
  p.entries.filter (fun a => shardOf a == shard)

def insert (p : Pool α) (a : α) : Pool α :=
  if a ∈ p.entries then p else ⟨p.entries ++ [a]⟩

def place (shardOf : α → Nat) (p : Pool α) (a : α) : Nat × Nat :=
  (shardOf a, (p.shardEntries shardOf (shardOf a)).idxOf a)

def handleOf (shardOf : α → Nat) (p : Pool α) (a : α) : Handle :=
  let (shard, slot) := p.place shardOf a
  .ofParts shard.toUInt32 slot.toUInt32

def intern (shardOf : α → Nat) (p : Pool α) (a : α) : Handle × Pool α :=
  let q := p.insert a
  (q.handleOf shardOf a, q)

def lookup (shardOf : α → Nat) (p : Pool α) (h : Handle) : Option α :=
  (p.shardEntries shardOf h.shard)[h.slot]?

theorem mem_insert (p : Pool α) (a : α) : a ∈ (p.insert a).entries := by
  by_cases h : a ∈ p.entries <;> simp [insert, h]

theorem entries_insert_of_mem {p : Pool α} {a : α} (h : a ∈ p.entries) : p.insert a = p := by
  simp [insert, h]

end Pool

end TypeFlow
