import TypeFlow.Intern.Build
import TypeFlow.Proofs.Intern.Types

namespace TypeFlow

namespace Handle

variable {a : Handle}

theorem ofParts_shard_slot (a : Handle) : ofParts a.shard.toUInt32 a.slot.toUInt32 = a := by
  have hshard : a.raw.toNat / 2 ^ 28 < shardCount := Nat.div_lt_of_lt_mul a.raw.toNat_lt
  have hslot : a.raw.toNat % 2 ^ 28 ≤ maxSlot.toNat := Nat.le_of_lt_succ (Nat.mod_lt _ (by decide))
  have hs : a.shard = a.raw.toNat / 2 ^ 28 := by
    rw [shard, UInt32.toNat_shiftRight]
    show a.raw.toNat >>> 28 = _
    rw [Nat.shiftRight_eq_div_pow]
  have hi : a.slot = a.raw.toNat % 2 ^ 28 := by
    rw [slot, UInt32.toNat_and]
    show a.raw.toNat &&& (2 ^ 28 - 1) = _
    rw [Nat.and_two_pow_sub_one_eq_mod]
  have hraw := toNat_ofParts hshard hslot
  rw [← hs, ← hi, Nat.shiftLeft_eq] at hraw
  have heq : (ofParts a.shard.toUInt32 a.slot.toUInt32).raw = a.raw := UInt32.toNat_inj.mp (by omega)
  generalize ofParts a.shard.toUInt32 a.slot.toUInt32 = b at heq
  obtain ⟨b⟩ := b
  obtain ⟨a⟩ := a
  exact congrArg mk heq

theorem mem_insertSorted {b : Handle} {bs : List Handle} : b ∈ insertSorted a bs ↔ b = a ∨ b ∈ bs := by
  induction bs with
  | nil => simp [insertSorted]
  | cons c cs ih =>
    rw [insertSorted]
    split
    · next h => simp [h]
    · split <;> simp [ih, or_left_comm]

theorem mem_sorted {as : List Handle} : a ∈ sorted as ↔ a ∈ as := by
  induction as with
  | nil => simp [sorted]
  | cons b bs ih =>
    rw [sorted, List.foldr_cons, mem_insertSorted, ← sorted, ih, List.mem_cons]

theorem pairwise_insertSorted {bs : List Handle} (h : bs.Pairwise fun b c => b.raw < c.raw) :
    (insertSorted a bs).Pairwise fun b c => b.raw < c.raw := by
  induction bs with
  | nil => exact List.pairwise_singleton _ _
  | cons b bs ih =>
    obtain ⟨hb, hbs⟩ := List.pairwise_cons.mp h
    rw [insertSorted]
    split
    · exact h
    · next hne =>
      split
      · next hlt =>
        exact List.pairwise_cons.mpr ⟨List.forall_mem_cons.mpr ⟨hlt, fun c hc => UInt32.lt_trans hlt (hb c hc)⟩, h⟩
      · next hge =>
        refine List.pairwise_cons.mpr ⟨fun c hc => ?_, ih hbs⟩
        rcases mem_insertSorted.mp hc with rfl | hc
        · refine UInt32.lt_of_le_of_ne (UInt32.not_lt.mp hge) fun heq => hne ?_
          obtain ⟨b⟩ := b
          obtain ⟨c⟩ := c
          exact congrArg mk heq.symm
        · exact hb c hc

theorem pairwise_sorted (as : List Handle) : (sorted as).Pairwise fun b c => b.raw < c.raw := by
  induction as with
  | nil => exact .nil
  | cons a as ih => exact pairwise_insertSorted ih

theorem sorted_of_pairwise {as : List Handle} (h : as.Pairwise fun b c => b.raw < c.raw) : sorted as = as := by
  induction as with
  | nil => rfl
  | cons a as ih =>
    obtain ⟨ha, has⟩ := List.pairwise_cons.mp h
    rw [sorted, List.foldr_cons, ← sorted, ih has]
    cases as with
    | nil => rfl
    | cons b bs =>
      have hlt := ha b List.mem_cons_self
      have hne : a ≠ b := fun heq => absurd (heq ▸ hlt) (UInt32.lt_irrefl _)
      rw [insertSorted, if_neg hne, if_pos hlt]

end Handle

namespace Pool

variable {α : Type} [DecidableEq α] {shardOf : α → Nat} {p : Pool α} {a : α} {h : Handle}

theorem handleOf_of_lookup (hp : p.entries.Nodup) (ha : p.lookup shardOf h = some a) : p.handleOf shardOf a = h := by
  obtain ⟨hlt, hget⟩ := List.getElem?_eq_some_iff.mp ha
  have hshard : shardOf a = h.shard := by
    have hmem : a ∈ p.shardEntries shardOf h.shard := List.mem_of_getElem? ha
    simpa using (List.mem_filter.mp hmem).2
  have hslot : (p.shardEntries shardOf h.shard).idxOf a = h.slot := by
    rw [← hget]
    exact (hp.filter _).idxOf_getElem _ hlt
  rw [handleOf, place, hshard, hslot]
  exact h.ofParts_shard_slot

end Pool

namespace TypeNode

def withChildren : TypeNode → List Handle → TypeNode
  | pointer m _, [a] => pointer m a
  | reference m _, [a] => reference m a
  | fixedArray len _, [a] => fixedArray len a
  | dynArray _, [a] => dynArray a
  | map _ _, [a, b] => map a b
  | tuple _, as => tuple as
  | function _ v _, as => function as.dropLast v (as.getLast?.getD {})
  | option _, [a] => option a
  | result _ _, [a, b] => result a b
  | channel _, [a] => channel a
  | named d _, as => named d as
  | interface d _, as => interface d as
  | union _, as => union as
  | n, _ => n

theorem withChildren_children (n : TypeNode) : n.withChildren n.children = n := by
  cases n <;> simp [withChildren, children]

end TypeNode

namespace TypePool

variable {hash : TypeNode → Nat} {p q r : TypePool} {a b : Handle} {n : TypeNode} {P : TypeNode → Prop}

-- A type that is in the pool with all that it is made of, to a depth.
inductive Grounded (hash : TypeNode → Nat) (p : TypePool) : Nat → Handle → Prop
  | intro {k : Nat} {a : Handle} {n : TypeNode} (hn : p.lookup hash a = some n)
    (hparts : ∀ b ∈ n.children, Grounded hash p k b) : Grounded hash p (k + 1) a

theorem Grounded.mono {k m : Nat} (h : p.Grounded hash k a) (hle : k ≤ m) : p.Grounded hash m a := by
  induction h generalizing m with
  | intro hn _ ih =>
    cases m with
    | zero => cases hle
    | succ m => exact .intro hn fun b hb => ih b hb (Nat.le_of_succ_le_succ hle)

inductive Occurs (hash : TypeNode → Nat) (p : TypePool) (P : TypeNode → Prop) : Handle → Prop
  | here {a : Handle} {n : TypeNode} (hn : p.lookup hash a = some n) (h : P n) : Occurs hash p P a
  | part {a b : Handle} {n : TypeNode} (hn : p.lookup hash a = some n) (hb : b ∈ n.children)
    (h : Occurs hash p P b) : Occurs hash p P a

theorem occurs_iff (hn : p.lookup hash a = some n) :
    p.Occurs hash P a ↔ P n ∨ ∃ b ∈ n.children, p.Occurs hash P b := by
  constructor
  · intro h
    cases h with
    | here hm h => exact .inl (Option.some.inj (hn.symm.trans hm) ▸ h)
    | part hm hb h => exact .inr ⟨_, Option.some.inj (hn.symm.trans hm) ▸ hb, h⟩
  · rintro (h | ⟨b, hb, h⟩)
    · exact .here hn h
    · exact .part hn hb h

def Proper (hash : TypeNode → Nat) (p : TypePool) : TypeNode → Prop
  | .tuple as => 2 ≤ as.length
  | .union as => 2 ≤ as.length ∧ as.Pairwise (fun b c => b.raw < c.raw) ∧ ∀ a ∈ as, p.unionParts hash a = .ok [a]
  | _ => True

structure Exact (hash : TypeNode → Nat) (p : TypePool) : Prop extends p.Sound hash where
  grounded : ∀ {a n}, p.lookup hash a = some n → p.Grounded hash p.nodes.size a
  proper : ∀ n ∈ p.nodes.entries, p.Proper hash n
  cached : ∀ {n f}, n ∈ p.nodes.entries → p.flags.lookup n = some f → p.computeFlags hash n = .ok f

structure Grows (hash : TypeNode → Nat) (p q : TypePool) : Prop where
  lookup : ∀ {a n}, p.lookup hash a = some n → q.lookup hash a = some n
  flagsOf : ∀ {a f}, p.flagsOf hash a = some f → q.flagsOf hash a = some f

namespace Grows

theorem refl (hash : TypeNode → Nat) (p : TypePool) : p.Grows hash p := ⟨id, id⟩

theorem trans (h : p.Grows hash q) (k : q.Grows hash r) : p.Grows hash r :=
  ⟨fun ha => k.lookup (h.lookup ha), fun ha => k.flagsOf (h.flagsOf ha)⟩

variable (h : p.Grows hash q)
include h

theorem grounded {k : Nat} (ha : p.Grounded hash k a) : q.Grounded hash k a := by
  induction ha with
  | intro hn _ ih => exact .intro (h.lookup hn) ih

theorem unionParts {as : List Handle} (ha : p.unionParts hash a = .ok as) : q.unionParts hash a = .ok as := by
  unfold TypePool.unionParts at ha ⊢
  cases hn : p.lookup hash a with
  | none => rw [hn] at ha; cases ha
  | some n =>
    rw [hn] at ha
    rwa [h.lookup hn]

theorem proper (hn : p.Proper hash n) : q.Proper hash n := by
  cases n
  case union => exact ⟨hn.1, hn.2.1, fun a ha => h.unionParts (hn.2.2 a ha)⟩
  all_goals exact hn

end Grows

theorem computeFlags_iff {f : TypeFlags} :
    p.computeFlags hash n = .ok f ↔ ∃ fs, List.Forall₂ (fun a g => p.flagsOf hash a = some g) n.children fs ∧
      f = n.ownFlags.union (.propagate fs) := by
  have hflag (a : Handle) (g : TypeFlags) :
      ((p.flagsOf hash a).map Except.ok).getD (.error (InternError.unknownPart a)) = .ok g ↔ p.flagsOf hash a = some g := by
    cases p.flagsOf hash a <;> simp
  unfold computeFlags
  constructor
  · intro h
    obtain ⟨fs, hfs, h⟩ := exists_of_bind_ok h
    cases h
    exact ⟨fs, (mapM_eq_ok_iff.mp hfs).imp fun a g => (hflag a g).mp, rfl⟩
  · rintro ⟨fs, hfs, rfl⟩
    rw [mapM_eq_ok_iff.mpr (hfs.imp fun a g => (hflag a g).mpr)]
    rfl

theorem Grows.computeFlags {f : TypeFlags} (h : p.Grows hash q) (hf : p.computeFlags hash n = .ok f) :
    q.computeFlags hash n = .ok f := by
  obtain ⟨fs, hfs, rfl⟩ := computeFlags_iff.mp hf
  exact computeFlags_iff.mpr ⟨fs, hfs.imp fun _ _ => h.flagsOf, rfl⟩

theorem lookup_of_flagsOf {f : TypeFlags} (h : p.flagsOf hash a = some f) :
    ∃ n, p.lookup hash a = some n ∧ p.flags.lookup n = some f := Option.bind_eq_some_iff.mp h

theorem isSome_lookup_of_computeFlags {f : TypeFlags} (h : p.computeFlags hash n = .ok f) (hb : b ∈ n.children) :
    (p.lookup hash b).isSome := by
  obtain ⟨fs, hfs, -⟩ := computeFlags_iff.mp h
  obtain ⟨g, -, hg⟩ := exists_of_forall₂_left hfs hb
  obtain ⟨m, hm, -⟩ := lookup_of_flagsOf hg
  exact Option.isSome_of_eq_some hm

namespace Exact

variable (hp : p.Exact hash)
include hp

theorem handle_eq (hn : p.lookup hash a = some n) : p.nodes.handleOf (shardOf hash) n = a :=
  Pool.handleOf_of_lookup hp.nodup hn

theorem exists_flagsOf (hn : p.lookup hash a = some n) :
    ∃ f, p.flagsOf hash a = some f ∧ p.computeFlags hash n = .ok f := by
  obtain ⟨f, hf⟩ := Option.isSome_iff_exists.mp (hp.flags n (Pool.mem_of_lookup hn))
  exact ⟨f, by rw [flagsOf, hn]; exact hf, hp.cached (Pool.mem_of_lookup hn) hf⟩

theorem isSome_children (hn : p.lookup hash a = some n) (hb : b ∈ n.children) : (p.lookup hash b).isSome := by
  obtain ⟨f, -, hf⟩ := hp.exists_flagsOf hn
  exact isSome_lookup_of_computeFlags hf hb

theorem tryIntern_self (hn : p.lookup hash a = some n) : p.tryIntern hash n = .ok (a, p) := by
  unfold tryIntern
  split
  · next b hb => rw [← hp.handleOf_of_fixed hb, hp.handle_eq hn]
  · rw [if_pos (Pool.mem_of_lookup hn), hp.handle_eq hn]

theorem of_add (hproper : p.Proper hash n) (hnew : n ∉ p.nodes.entries) (h : p.add hash n = .ok (a, q)) :
    q.Exact hash ∧ p.Grows hash q := by
  have hgives := hp.gives_of_add h
  obtain ⟨f, hf, h⟩ := exists_of_bind_ok h
  split at h
  · cases h
    have hgrows : p.Grows hash { p with nodes := p.nodes.insert n, flags := (n, f) :: p.flags } := by
      refine ⟨fun hm => Pool.lookup_extend (p.nodes.prefix_insert n) hm, fun {b g} hg => ?_⟩
      obtain ⟨m, hm, hg⟩ := lookup_of_flagsOf hg
      have hne : (m == n) = false := beq_false_of_ne fun heq => hnew (heq ▸ Pool.mem_of_lookup hm)
      refine Option.bind_eq_some_iff.mpr ⟨m, Pool.lookup_extend (p.nodes.prefix_insert n) hm, ?_⟩
      rw [List.lookup_cons, hne]
      exact hg
    have hsize : (p.nodes.insert n).size = p.nodes.size + 1 := by
      rw [Pool.size, Pool.entries_insert_of_not_mem hnew, List.length_append]
      rfl
    refine ⟨⟨hgives.sound, fun {b m} hm => ?_, fun m hm => ?_, fun {m g} hm hg => ?_⟩, hgrows⟩
    · rcases Pool.mem_insert_iff.mp (Pool.mem_of_lookup hm) with hold | rfl
      · have hhandle := hgrows.lookup (hp.lookup_handleOf hold)
        have heq := (Pool.handleOf_of_lookup hgives.sound.nodup hhandle).symm.trans
          (Pool.handleOf_of_lookup hgives.sound.nodup hm)
        have hgrounded := hgrows.grounded (hp.grounded (heq ▸ hp.lookup_handleOf hold))
        exact hgrounded.mono (hsize.symm ▸ Nat.le_succ p.nodes.size)
      · show Grounded hash _ (p.nodes.insert m).size b
        rw [hsize]
        refine .intro hm fun c hc => hgrows.grounded ?_
        obtain ⟨k, hk⟩ := Option.isSome_iff_exists.mp (isSome_lookup_of_computeFlags hf hc)
        exact hp.grounded hk
    · rcases Pool.mem_insert_iff.mp hm with hold | rfl
      · exact hgrows.proper (hp.proper m hold)
      · exact hgrows.proper hproper
    · rw [List.lookup_cons] at hg
      split at hg
      · next heq =>
        cases hg
        rw [eq_of_beq heq]
        exact hgrows.computeFlags hf
      · next hne =>
        rcases Pool.mem_insert_iff.mp hm with hold | rfl
        · exact hgrows.computeFlags (hp.cached hold hg)
        · simp at hne
  · cases h

theorem of_tryIntern (hproper : p.Proper hash n) (h : p.tryIntern hash n = .ok (a, q)) :
    q.Exact hash ∧ p.Grows hash q ∧ q.lookup hash a = some n := by
  have hgives := hp.gives_of_tryIntern h
  have hlookup : q.lookup hash a = some n := by
    rw [hgives.handle]
    refine hgives.sound.lookup_handleOf ?_
    rw [hgives.nodes]
    exact p.nodes.mem_insert n
  unfold tryIntern at h
  split at h
  · cases h
    exact ⟨hp, .refl hash p, hlookup⟩
  split at h
  · cases h
    exact ⟨hp, .refl hash p, hlookup⟩
  · next hnew =>
    obtain ⟨hexact, hgrows⟩ := hp.of_add hproper hnew h
    exact ⟨hexact, hgrows, hlookup⟩

end Exact

theorem exact_initial (hash : TypeNode → Nat) : Exact hash {} where
  toSound := sound_initial hash
  grounded {a n} hn := .intro hn fun b hb => by
    have hchildren : ∀ n ∈ TypeNode.fixed, n.children = [] := by decide
    rw [hchildren n (Pool.mem_of_lookup hn)] at hb
    cases hb
  proper n hn := by
    have hfixed : ∀ n ∈ TypeNode.fixed, n.fixedHandle?.isSome := by decide
    have hn := hfixed n hn
    cases n <;> trivial
  cached {n f} hn hf := by
    have hcached : ∀ n ∈ TypeNode.fixed, n.children = [] ∧
        ({} : TypePool).flags.lookup n = some (n.ownFlags.union (.propagate [])) := by decide
    obtain ⟨hchildren, hlookup⟩ := hcached n hn
    refine computeFlags_iff.mpr ⟨[], ?_, Option.some.inj (hf.symm.trans hlookup)⟩
    rw [hchildren]
    exact .nil

inductive Constructs (hash : TypeNode → Nat) (p : TypePool) : TypeNode → Handle → TypePool → Prop
  | unit : Constructs hash p (.tuple []) .unit p
  | element (a : Handle) : Constructs hash p (.tuple [a]) a p
  | node {n : TypeNode} {a : Handle} {q : TypePool} (hunion : ∀ as, n ≠ .union as) (hproper : p.Proper hash n)
    (h : p.tryIntern hash n = .ok (a, q)) : Constructs hash p n a q
  | never {as : List Handle} {bss : List (List Handle)}
    (hparts : List.Forall₂ (fun b bs => p.unionParts hash b = .ok bs) as bss) (h : Handle.sorted bss.flatten = []) :
    Constructs hash p (.union as) .never p
  | member {as : List Handle} {bss : List (List Handle)} {a : Handle}
    (hparts : List.Forall₂ (fun b bs => p.unionParts hash b = .ok bs) as bss) (h : Handle.sorted bss.flatten = [a]) :
    Constructs hash p (.union as) a p
  | union {as : List Handle} {bss : List (List Handle)} {a : Handle} {q : TypePool}
    (hparts : List.Forall₂ (fun b bs => p.unionParts hash b = .ok bs) as bss)
    (hlength : 2 ≤ (Handle.sorted bss.flatten).length)
    (h : p.tryIntern hash (.union (Handle.sorted bss.flatten)) = .ok (a, q)) : Constructs hash p (.union as) a q

theorem construct_tuple {as : List Handle} (h : 2 ≤ as.length) :
    p.construct hash (.tuple as) = p.tryIntern hash (.tuple as) := by
  match as with
  | [] => cases h
  | [_] => cases Nat.le_of_succ_le_succ h
  | _ :: _ :: _ => rfl

theorem ofMembers_union {as : List Handle} (h : 2 ≤ as.length) :
    p.ofMembers hash as = p.tryIntern hash (.union as) := by
  match as with
  | [] => cases h
  | [_] => cases Nat.le_of_succ_le_succ h
  | _ :: _ :: _ => rfl

theorem constructs (h : p.construct hash n = .ok (a, q)) : Constructs hash p n a q := by
  cases n
  case tuple as =>
    match as with
    | [] =>
      cases h
      exact .unit
    | [b] =>
      cases h
      exact .element _
    | b :: c :: cs => exact .node nofun (Nat.le_add_left 2 _) h
  case union as =>
    obtain ⟨bss, hbss, h⟩ := exists_of_bind_ok h
    have hparts := mapM_eq_ok_iff.mp hbss
    cases hsorted : Handle.sorted bss.flatten with
    | nil =>
      rw [hsorted] at h
      cases h
      exact .never hparts hsorted
    | cons b bs =>
      rw [hsorted] at h
      cases bs with
      | nil =>
        cases h
        exact .member hparts hsorted
      | cons c cs => exact .union hparts (hsorted ▸ Nat.le_add_left 2 _) (hsorted ▸ h)
  all_goals exact .node nofun True.intro h

theorem Exact.single_of_unionParts (hp : p.Exact hash) {bs : List Handle} (h : p.unionParts hash a = .ok bs)
    (hb : b ∈ bs) : p.unionParts hash b = .ok [b] := by
  have hself := h
  unfold unionParts at h
  split at h
  · next as has =>
    cases h
    exact (hp.proper _ (Pool.mem_of_lookup has)).2.2 b hb
  · cases h
    cases hb
  · cases h
    cases List.mem_singleton.mp hb
    exact hself
  · cases h

theorem Exact.proper_union (hp : p.Exact hash) {as : List Handle} {bss : List (List Handle)}
    (hparts : List.Forall₂ (fun b bs => p.unionParts hash b = .ok bs) as bss)
    (hlength : 2 ≤ (Handle.sorted bss.flatten).length) : p.Proper hash (.union (Handle.sorted bss.flatten)) := by
  refine ⟨hlength, Handle.pairwise_sorted _, fun b hb => ?_⟩
  obtain ⟨bs, hbs, hb⟩ := List.mem_flatten.mp (Handle.mem_sorted.mp hb)
  obtain ⟨c, -, hc⟩ := exists_of_forall₂_right hparts hbs
  exact hp.single_of_unionParts hc hb

theorem Exact.of_construct (hp : p.Exact hash) (h : p.construct hash n = .ok (a, q)) :
    q.Exact hash ∧ p.Grows hash q := by
  cases constructs h with
  | unit | element | never | member => exact ⟨hp, .refl hash p⟩
  | node _ hproper h =>
    obtain ⟨hq, hgrows, -⟩ := hp.of_tryIntern hproper h
    exact ⟨hq, hgrows⟩
  | union hparts hlength h =>
    obtain ⟨hq, hgrows, -⟩ := hp.of_tryIntern (hp.proper_union hparts hlength) h
    exact ⟨hq, hgrows⟩

theorem Exact.construct_self (hp : p.Exact hash) (hn : p.lookup hash a = some n) :
    p.construct hash n = .ok (a, p) := by
  have hproper := hp.proper n (Pool.mem_of_lookup hn)
  cases n
  case tuple as => rw [construct_tuple hproper, hp.tryIntern_self hn]
  case union as =>
    obtain ⟨hlength, hsorted, hsingle⟩ := hproper
    have hparts : as.mapM (p.unionParts hash) = .ok (as.map fun b => [b]) := by
      refine mapM_eq_ok_iff.mpr (List.forall₂_map_right_iff.mpr (List.forall₂_same.mpr hsingle))
    have hflatten : (as.map fun b => [b]).flatten = as := by simp [← List.flatMap_def]
    rw [construct, hparts]
    show p.ofMembers hash (Handle.sorted (as.map fun b => [b]).flatten) = _
    rw [hflatten, Handle.sorted_of_pairwise hsorted, ofMembers_union hlength]
    exact hp.tryIntern_self hn
  all_goals exact hp.tryIntern_self hn

theorem Exact.tryIntern_error (hp : p.Exact hash) {e : InternError} (hparts : ∀ b ∈ n.children, (p.lookup hash b).isSome)
    (h : p.tryIntern hash n = .error e) : ∃ shard, e = .shardOverflow shard := by
  unfold tryIntern at h
  split at h
  · cases h
  split at h
  · cases h
  · obtain ⟨f, hf⟩ := hp.toSound.computeFlags_ok hparts
    rw [add, hf] at h
    split at h
    · cases h
    · cases h
      exact ⟨_, rfl⟩

theorem Exact.construct_error (hp : p.Exact hash) {e : InternError}
    (hparts : ∀ b ∈ n.children, (p.lookup hash b).isSome) (h : p.construct hash n = .error e) :
    ∃ shard, e = .shardOverflow shard := by
  cases n
  case tuple as =>
    match as with
    | [] | [_] => cases h
    | _ :: _ :: _ => exact hp.tryIntern_error hparts h
  case union as =>
    rcases exists_of_bind_error h with hmapM | ⟨bss, hbss, h⟩
    · have hok : ∀ b ∈ as, ∃ bs, p.unionParts hash b = .ok bs := fun b hb => by
        obtain ⟨m, hm⟩ := Option.isSome_iff_exists.mp (hparts b hb)
        unfold unionParts
        rw [hm]
        cases m <;> exact ⟨_, rfl⟩
      obtain ⟨bss, hbss⟩ := exists_mapM_ok hok
      cases hbss.symm.trans hmapM
    · have hmembers : ∀ b ∈ Handle.sorted bss.flatten, (p.lookup hash b).isSome := fun b hb => by
        obtain ⟨bs, hbs, hb⟩ := List.mem_flatten.mp (Handle.mem_sorted.mp hb)
        obtain ⟨c, -, hc⟩ := exists_of_forall₂_right (mapM_eq_ok_iff.mp hbss) hbs
        have hsingle := hp.single_of_unionParts hc hb
        unfold unionParts at hsingle
        split at hsingle
        all_goals first | (rename_i hm; exact Option.isSome_of_eq_some hm) | cases hsingle
      generalize Handle.sorted bss.flatten = cs at h hmembers
      match cs with
      | [] | [_] => cases h
      | c :: d :: ds => exact hp.tryIntern_error (n := .union (c :: d :: ds)) hmembers h
  all_goals exact hp.tryIntern_error hparts h

end TypePool

end TypeFlow
