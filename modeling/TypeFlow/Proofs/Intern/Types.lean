import TypeFlow.Intern.Types
import TypeFlow.Proofs.Intern.Pool
import TypeFlow.Proofs.Lists

namespace TypeFlow

namespace TypeNode

variable {n : TypeNode} {a : Handle} {i : Nat}

theorem fixedHandle?_fixed : fixed.map fixedHandle? = (List.range fixed.length).map fun i => some ⟨i.toUInt32⟩ := by
  decide

theorem fixedHandle?_of_getElem? (hn : fixed[i]? = some n) : n.fixedHandle? = some ⟨i.toUInt32⟩ := by
  obtain ⟨hi, -⟩ := List.getElem?_eq_some_iff.mp hn
  have hmap : (fixed.map fixedHandle?)[i]? = some n.fixedHandle? := by
    rw [List.getElem?_map, hn, Option.map_some]
  rw [fixedHandle?_fixed, List.getElem?_map, List.getElem?_range hi] at hmap
  exact (Option.some.inj hmap).symm

theorem mem_fixed (hn : n.fixedHandle? = some a) : n ∈ fixed := by
  cases n
  case prim p => cases p <;> decide
  all_goals first | decide | cases hn

theorem ofParts_fixed (hn : n.fixedHandle? = some a) : Handle.ofParts 0 (fixed.idxOf n).toUInt32 = a := by
  have hplace := fixedHandle?_of_getElem? (List.getElem?_idxOf (mem_fixed hn))
  rw [hn] at hplace
  rw [Option.some.inj hplace]
  simp [Handle.ofParts]

end TypeNode

namespace TypePool

variable {hash : TypeNode → Nat} {p q : TypePool} {n : TypeNode} {a : Handle}

theorem shardOf_lt (hash : TypeNode → Nat) (n : TypeNode) : shardOf hash n < Handle.shardCount := by
  unfold shardOf
  split
  · decide
  · exact Nat.mod_lt _ (by decide)

theorem shardOf_fixed (hash : TypeNode → Nat) (hn : n.fixedHandle? = some a) : shardOf hash n = 0 := by
  rw [shardOf, hn, Option.isSome_some, if_pos rfl]

theorem shardEntries_fixed (hash : TypeNode → Nat) :
    Pool.shardEntries (shardOf hash) ⟨TypeNode.fixed⟩ 0 = TypeNode.fixed := by
  refine List.filter_eq_self.mpr fun n hn => ?_
  obtain ⟨i, hi⟩ := List.mem_iff_getElem?.mp hn
  rw [shardOf_fixed hash (TypeNode.fixedHandle?_of_getElem? hi)]
  rfl

theorem handleOf_fixed (hash : TypeNode → Nat) (hn : n.fixedHandle? = some a) :
    Pool.handleOf (shardOf hash) ⟨TypeNode.fixed⟩ n = a := by
  rw [Pool.handleOf, Pool.place, shardOf_fixed hash hn, shardEntries_fixed]
  exact TypeNode.ofParts_fixed hn

structure Sound (hash : TypeNode → Nat) (p : TypePool) : Prop where
  nodup : p.nodes.entries.Nodup
  fixed : TypeNode.fixed <+: p.nodes.entries
  roomy : p.nodes.Roomy (shardOf hash)
  flags : ∀ n ∈ p.nodes.entries, (p.flags.lookup n).isSome

theorem sound_initial (hash : TypeNode → Nat) : Sound hash {} where
  nodup := by decide
  fixed := List.prefix_rfl
  roomy := ⟨fun n _ => shardOf_lt hash n,
    fun _ => Nat.le_trans (List.length_filter_le _ _) (by decide)⟩
  flags := by decide

structure Gives (hash : TypeNode → Nat) (p : TypePool) (n : TypeNode) (a : Handle) (q : TypePool) : Prop where
  sound : q.Sound hash
  nodes : q.nodes = p.nodes.insert n
  handle : a = q.nodes.handleOf (shardOf hash) n
  nextVar : q.nextVar = p.nextVar

namespace Sound

variable (hp : p.Sound hash)
include hp

theorem mem_of_fixed (hn : n.fixedHandle? = some a) : n ∈ p.nodes.entries :=
  hp.fixed.subset (TypeNode.mem_fixed hn)

theorem handleOf_of_fixed (hn : n.fixedHandle? = some a) : p.nodes.handleOf (shardOf hash) n = a := by
  rw [Pool.handleOf_extend (p := ⟨TypeNode.fixed⟩) hp.fixed (TypeNode.mem_fixed hn), handleOf_fixed hash hn]

theorem lookup_handleOf (hn : n ∈ p.nodes.entries) :
    p.lookup hash (p.nodes.handleOf (shardOf hash) n) = some n :=
  hp.roomy.lookup_handleOf hn

theorem lookup_of_fixed {i : Nat} (hi : i < TypeNode.fixed.length) :
    p.lookup hash ⟨i.toUInt32⟩ = TypeNode.fixed[i]? := by
  have hn : TypeNode.fixed[i]? = some TypeNode.fixed[i] := List.getElem?_eq_getElem hi
  have hhandle := TypeNode.fixedHandle?_of_getElem? hn
  rw [hn, ← hp.handleOf_of_fixed hhandle, hp.lookup_handleOf (hp.mem_of_fixed hhandle)]

theorem flagsOf_isSome (ha : (p.lookup hash a).isSome) : (p.flagsOf hash a).isSome := by
  obtain ⟨m, hm⟩ := Option.isSome_iff_exists.mp ha
  rw [flagsOf, hm]
  exact hp.flags m (Pool.mem_of_lookup hm)

theorem gives_of_add (h : p.add hash n = .ok (a, q)) : Gives hash p n a q := by
  obtain ⟨f, -, h⟩ := exists_of_bind_ok h
  split at h
  · next hroom =>
    cases h
    refine ⟨⟨Pool.nodup_insert hp.nodup n, hp.fixed.trans (p.nodes.prefix_insert n),
      hp.roomy.insert (shardOf_lt hash n) hroom, fun m hm => ?_⟩, rfl, rfl, rfl⟩
    rw [List.lookup_cons]
    cases hmn : m == n with
    | true => rfl
    | false =>
      rcases Pool.mem_insert_iff.mp hm with hm | rfl
      · exact hp.flags m hm
      · simp at hmn
  · cases h

theorem gives_of_tryIntern (h : p.tryIntern hash n = .ok (a, q)) : Gives hash p n a q := by
  unfold tryIntern at h
  split at h
  · next c hc =>
    cases h
    exact ⟨hp, (Pool.entries_insert_of_mem (hp.mem_of_fixed hc)).symm, (hp.handleOf_of_fixed hc).symm, rfl⟩
  split at h
  · next hmem =>
    cases h
    exact ⟨hp, (Pool.entries_insert_of_mem hmem).symm, rfl, rfl⟩
  · exact hp.gives_of_add h

theorem computeFlags_ok (hparts : ∀ b ∈ n.children, (p.lookup hash b).isSome) :
    ∃ f, p.computeFlags hash n = .ok f := by
  have hflags : ∀ b ∈ n.children, ∃ f,
      ((p.flagsOf hash b).map Except.ok).getD (.error (.unknownPart b)) = (.ok f : Except InternError TypeFlags) := by
    intro b hb
    obtain ⟨f, hf⟩ := Option.isSome_iff_exists.mp (hp.flagsOf_isSome (hparts b hb))
    exact ⟨f, by rw [hf, Option.map_some, Option.getD_some]⟩
  obtain ⟨fs, hfs⟩ := exists_mapM_ok hflags
  exact ⟨_, by rw [computeFlags, hfs]; rfl⟩

theorem tryIntern_ok (hparts : ∀ b ∈ n.children, (p.lookup hash b).isSome)
    (hroom : (p.nodes.insert n).Roomy (shardOf hash)) : ∃ b q, p.tryIntern hash n = .ok (b, q) := by
  unfold tryIntern
  split
  · exact ⟨_, _, rfl⟩
  split
  · exact ⟨_, _, rfl⟩
  · next hmem =>
    obtain ⟨f, hf⟩ := hp.computeFlags_ok hparts
    rw [add, hf]
    exact ⟨_, _, if_pos (hroom.room hmem)⟩

end Sound

inductive Request where
  | intern (n : TypeNode)
  | freshVar
  deriving DecidableEq, Repr

namespace Request

def node (v : UInt32) : Request → TypeNode
  | intern n => n
  | freshVar => .var v

def next (v : UInt32) : Request → UInt32
  | intern _ => v
  | freshVar => v + 1

def nodes (v : UInt32) : List Request → List TypeNode
  | [] => []
  | r :: rs => r.node v :: nodes (r.next v) rs

end Request

def answer (hash : TypeNode → Nat) (p : TypePool) : Request → Except InternError (Handle × TypePool)
  | .intern n => p.tryIntern hash n
  | .freshVar => p.freshVar hash

def answerAll (hash : TypeNode → Nat) (p : TypePool) : List Request → Except InternError (List Handle × TypePool)
  | [] => return ([], p)
  | r :: rs => do
    let (a, p) ← p.answer hash r
    let (as, p) ← p.answerAll hash rs
    return (a :: as, p)

def isGrounded (hash : TypeNode → Nat) (p : TypePool) : List Request → Bool
  | [] => true
  | r :: rs =>
    (r.node p.nextVar).children.all (fun a => (p.lookup hash a).isSome) &&
      match p.answer hash r with
      | .ok (_, q) => q.isGrounded hash rs
      | .error _ => true

def filled (p : TypePool) (rs : List Request) : Pool TypeNode :=
  (Request.nodes p.nextVar rs).foldl Pool.insert p.nodes

theorem answer_eq (hash : TypeNode → Nat) (p : TypePool) (r : Request) :
    p.answer hash r = { p with nextVar := r.next p.nextVar }.tryIntern hash (r.node p.nextVar) := by
  cases r <;> rfl

theorem Sound.renumber (hp : p.Sound hash) (v : UInt32) : Sound hash { p with nextVar := v } :=
  ⟨hp.nodup, hp.fixed, hp.roomy, hp.flags⟩

theorem Sound.gives_of_answer (hp : p.Sound hash) {r : Request} (h : p.answer hash r = .ok (a, q)) :
    Gives hash { p with nextVar := r.next p.nextVar } (r.node p.nextVar) a q := by
  rw [answer_eq] at h
  exact (hp.renumber _).gives_of_tryIntern h

theorem Gives.filled_eq {r : Request} (h : Gives hash { p with nextVar := r.next p.nextVar } (r.node p.nextVar) a q)
    (rs : List Request) : q.filled rs = p.filled (r :: rs) := by
  rw [filled, filled, h.nodes, h.nextVar]
  rfl

theorem Sound.answerAll_eq (hp : p.Sound hash) {rs : List Request} {as : List Handle}
    (h : p.answerAll hash rs = .ok (as, q)) :
    q.Sound hash ∧ q.nodes = p.filled rs ∧
      as = (Request.nodes p.nextVar rs).map (q.nodes.handleOf (shardOf hash)) := by
  induction rs generalizing p as with
  | nil =>
    cases h
    exact ⟨hp, rfl, rfl⟩
  | cons r rs ih =>
    obtain ⟨⟨a, p'⟩, hanswer, h⟩ := exists_of_bind_ok h
    obtain ⟨⟨as', q'⟩, hrest, h⟩ := exists_of_bind_ok h
    cases h
    have hgives := hp.gives_of_answer hanswer
    obtain ⟨hq, hfilled, has⟩ := ih hgives.sound hrest
    have hgrows : p'.nodes.entries <+: q.nodes.entries := by
      rw [hfilled]
      exact Pool.prefix_insertAll _ _
    have hmem : r.node p.nextVar ∈ p'.nodes.entries := hgives.nodes ▸ Pool.mem_insert _ _
    refine ⟨hq, hfilled.trans (hgives.filled_eq rs), congrArg₂ List.cons ?_ ?_⟩
    · rw [hgives.handle, Pool.handleOf_extend hgrows hmem]
    · rw [has, hgives.nextVar]

theorem Sound.answerAll_ok (hp : p.Sound hash) {rs : List Request} (hground : p.isGrounded hash rs = true)
    (hroom : (p.filled rs).Roomy (shardOf hash)) : ∃ as q, p.answerAll hash rs = .ok (as, q) := by
  induction rs generalizing p with
  | nil => exact ⟨_, _, rfl⟩
  | cons r rs ih =>
    obtain ⟨hparts, hground⟩ := Bool.and_eq_true_iff.mp hground
    have hparts : ∀ b ∈ (r.node p.nextVar).children, (p.lookup hash b).isSome := List.all_eq_true.mp hparts
    have hgrows : (p.nodes.insert (r.node p.nextVar)).entries <+: (p.filled (r :: rs)).entries :=
      Pool.prefix_insertAll _ _
    obtain ⟨a, p', hanswer⟩ : ∃ a p', p.answer hash r = .ok (a, p') := by
      rw [answer_eq]
      exact (hp.renumber _).tryIntern_ok hparts (hroom.mono hgrows)
    have hgives := hp.gives_of_answer hanswer
    rw [hanswer] at hground
    obtain ⟨as, q, hrest⟩ := ih hgives.sound hground ((hgives.filled_eq rs).symm ▸ hroom)
    have hrun : p.answerAll hash (r :: rs) = (p'.answerAll hash rs >>= fun b => pure (a :: b.1, b.2)) := by
      rw [answerAll, hanswer]
      rfl
    rw [hrest] at hrun
    exact ⟨_, _, hrun⟩

def Request.freshOnes {β : Type} (rs : List Request) (bs : List β) : List β :=
  ((rs.zip bs).filter fun a => a.1 = .freshVar).map (·.2)

namespace Request

variable {β γ : Type} {rs : List Request}

theorem freshOnes_map (f : β → γ) (rs : List Request) (bs : List β) :
    freshOnes rs (bs.map f) = (freshOnes rs bs).map f := by
  simp [freshOnes, List.zip_map_right, List.filter_map, Function.comp_def]

theorem freshOnes_subset (rs : List Request) (bs : List β) : freshOnes rs bs ⊆ bs := by
  intro b hb
  obtain ⟨⟨r, b⟩, hmem, rfl⟩ := List.mem_map.mp hb
  exact (List.of_mem_zip (List.mem_of_mem_filter hmem)).2

theorem freshOnes_nodes (v : UInt32) (rs : List Request) :
    freshOnes rs (nodes v rs) = (List.range (rs.count .freshVar)).map fun i => .var (v + i.toUInt32) := by
  induction rs generalizing v with
  | nil => rfl
  | cons r rs ih =>
    cases r with
    | intern n => simpa [freshOnes, nodes, node, next] using ih v
    | freshVar =>
      have hshift (i : Nat) : v + 1 + i.toUInt32 = v + (i + 1).toUInt32 := by
        have hsucc : (i + 1).toUInt32 = i.toUInt32 + 1 := UInt32.ofNat_add i 1
        rw [hsucc, UInt32.add_assoc, UInt32.add_comm 1]
      have htail := ih (v + 1)
      simp only [hshift] at htail
      rw [List.count_cons_self, List.range_succ_eq_map, List.map_cons, List.map_map]
      refine congrArg₂ List.cons ?_ htail
      exact congrArg TypeNode.var (UInt32.add_zero v).symm

theorem length_nodes (v : UInt32) (rs : List Request) : (nodes v rs).length = rs.length := by
  induction rs generalizing v with
  | nil => rfl
  | cons r rs ih => rw [nodes, List.length_cons, List.length_cons, ih]

end Request

theorem nodup_vars {k : Nat} (hk : k ≤ 2 ^ 32) : ((List.range k).map fun i => TypeNode.var i.toUInt32).Nodup := by
  refine List.Nodup.map_on (fun i hi j hj heq => ?_) List.nodup_range
  have hi := Nat.lt_of_lt_of_le (List.mem_range.mp hi) hk
  have hj := Nat.lt_of_lt_of_le (List.mem_range.mp hj) hk
  have hword := congrArg UInt32.toNat (TypeNode.var.inj heq)
  rwa [UInt32.toNat_ofNat_of_lt' hi, UInt32.toNat_ofNat_of_lt' hj] at hword

theorem Sound.count_lt (hp : p.Sound hash) {k : Nat} (hk : k ≤ 2 ^ 32)
    (h : ∀ i < k, TypeNode.var i.toUInt32 ∈ p.nodes.entries) : k < 2 ^ 32 := by
  have hdisjoint : List.Disjoint TypeNode.fixed ((List.range k).map fun i => TypeNode.var i.toUInt32) := by
    intro n hn hvar
    obtain ⟨i, hi⟩ := List.mem_iff_getElem?.mp hn
    obtain ⟨j, -, rfl⟩ := List.mem_map.mp hvar
    cases TypeNode.fixedHandle?_of_getElem? hi
  have hnodup : (TypeNode.fixed ++ (List.range k).map fun i => TypeNode.var i.toUInt32).Nodup :=
    List.Nodup.append (by decide) (nodup_vars hk) hdisjoint
  have hsub : TypeNode.fixed ++ (List.range k).map (fun i => TypeNode.var i.toUInt32) ⊆ p.nodes.entries := by
    refine List.append_subset.mpr ⟨hp.fixed.subset, fun n hn => ?_⟩
    obtain ⟨i, hi, rfl⟩ := List.mem_map.mp hn
    exact h i (List.mem_range.mp hi)
  have hlength := (List.subperm_of_subset hnodup hsub).length_le
  have hsize : p.nodes.entries.length ≤ (Handle.maxSlot.toNat + 1) * Handle.shardCount := hp.roomy.size_le hp.nodup
  have hcapacity : (Handle.maxSlot.toNat + 1) * Handle.shardCount = 2 ^ 32 := by decide
  rw [List.length_append, List.length_map, List.length_range] at hlength
  have hfixed : TypeNode.fixed.length = 20 := rfl
  omega

theorem Sound.freshVars_lt (hp : p.Sound hash) {rs : List Request}
    (h : ∀ n ∈ Request.nodes 0 rs, n ∈ p.nodes.entries) : rs.count .freshVar < 2 ^ 32 := by
  by_contra hge
  have hall : ∀ i < 2 ^ 32, TypeNode.var i.toUInt32 ∈ p.nodes.entries := by
    intro i hi
    refine h _ (Request.freshOnes_subset rs _ ?_)
    rw [Request.freshOnes_nodes]
    refine List.mem_map.mpr ⟨i, List.mem_range.mpr (by omega), ?_⟩
    rw [UInt32.zero_add]
  exact absurd (hp.count_lt le_rfl hall) (lt_irrefl _)

structure Answered (hash : TypeNode → Nat) (p : TypePool) (ns : List TypeNode) (as : List Handle) : Prop where
  sound : p.Sound hash
  mem : ∀ n ∈ ns, n ∈ p.nodes.entries
  handles : as = ns.map (p.nodes.handleOf (shardOf hash))

namespace Answered

variable {ns : List TypeNode} {as : List Handle}

theorem of_run {rs : List Request} (hp : p.Sound hash) (h : p.answerAll hash rs = .ok (as, q)) :
    q.Answered hash (Request.nodes p.nextVar rs) as ∧ p.nodes.entries <+: q.nodes.entries := by
  obtain ⟨hq, hnodes, has⟩ := hp.answerAll_eq h
  refine ⟨⟨hq, fun n hn => ?_, has⟩, ?_⟩
  · rw [hnodes]
    exact Pool.mem_insertAll hn _
  · rw [hnodes]
    exact Pool.prefix_insertAll _ _

variable (h : p.Answered hash ns as)
include h

theorem of_mem_zip {b : TypeNode × Handle} (hb : b ∈ ns.zip as) :
    b.1 ∈ p.nodes.entries ∧ b.2 = p.nodes.handleOf (shardOf hash) b.1 := by
  rw [h.handles, ← List.map_prod_left_eq_zip] at hb
  obtain ⟨n, hn, rfl⟩ := List.mem_map.mp hb
  exact ⟨h.mem n hn, rfl⟩

theorem eq_iff {b c : TypeNode × Handle} (hb : b ∈ ns.zip as) (hc : c ∈ ns.zip as) : b.2 = c.2 ↔ b.1 = c.1 := by
  obtain ⟨hbmem, hbeq⟩ := h.of_mem_zip hb
  obtain ⟨hcmem, hceq⟩ := h.of_mem_zip hc
  rw [hbeq, hceq]
  exact h.sound.roomy.handleOf_inj hbmem hcmem

theorem lookup {b : TypeNode × Handle} (hb : b ∈ ns.zip as) : p.lookup hash b.2 = some b.1 := by
  obtain ⟨hmem, heq⟩ := h.of_mem_zip hb
  rw [heq, h.sound.lookup_handleOf hmem]

theorem eq_fixed_iff {b : TypeNode × Handle} (hb : b ∈ ns.zip as) {i : Nat} (hi : i < TypeNode.fixed.length) :
    b.2 = ⟨i.toUInt32⟩ ↔ TypeNode.fixed[i]? = some b.1 := by
  constructor
  · intro heq
    rw [← h.sound.lookup_of_fixed hi, ← heq, h.lookup hb]
  · intro hfixed
    rw [(h.of_mem_zip hb).2, h.sound.handleOf_of_fixed (TypeNode.fixedHandle?_of_getElem? hfixed)]

end Answered

theorem Answered.nodup_freshOnes {rs : List Request} {as : List Handle}
    (h : p.Answered hash (Request.nodes 0 rs) as) : (Request.freshOnes rs as).Nodup := by
  have hvars : (Request.freshOnes rs (Request.nodes 0 rs)).Nodup := by
    rw [Request.freshOnes_nodes]
    simpa only [UInt32.zero_add] using nodup_vars (Nat.le_of_lt (h.sound.freshVars_lt h.mem))
  have hsub := Request.freshOnes_subset rs (Request.nodes 0 rs)
  rw [h.handles, Request.freshOnes_map]
  refine hvars.map_on fun m hm n hn heq => ?_
  exact (h.sound.roomy.handleOf_inj (h.mem m (hsub hm)) (h.mem n (hsub hn))).mp heq

def BelowCapacity (hash : TypeNode → Nat) (rs : List Request) : Prop :=
  ∀ shard, ((filled {} rs).shardEntries (shardOf hash) shard).length ≤ Handle.maxSlot.toNat + 1

-- Requests that the shards have room for are answered. In every run that is answered, equal types have equal
-- handles and different types different ones; every handle leads back to its type for good; the first twenty
-- handles are those of the fixed types and of no others; and no variable is handed out twice.
theorem answerAll_identifies (hash : TypeNode → Nat) (rs : List Request) :
    (BelowCapacity hash rs → isGrounded hash {} rs = true → ∃ as p, answerAll hash {} rs = .ok (as, p)) ∧
      ∀ as p, answerAll hash {} rs = .ok (as, p) → as.length = rs.length ∧
        (∀ a ∈ (Request.nodes 0 rs).zip as, ∀ b ∈ (Request.nodes 0 rs).zip as, a.2 = b.2 ↔ a.1 = b.1) ∧
        (∀ a ∈ (Request.nodes 0 rs).zip as, p.lookup hash a.2 = some a.1 ∧
          ∀ rs' as' q, p.answerAll hash rs' = .ok (as', q) → q.lookup hash a.2 = some a.1) ∧
        (∀ i < 20, p.lookup hash ⟨i.toUInt32⟩ = TypeNode.fixed[i]? ∧
          ∀ a ∈ (Request.nodes 0 rs).zip as, a.2 = ⟨i.toUInt32⟩ ↔ TypeNode.fixed[i]? = some a.1) ∧
        (Request.freshOnes rs as).Nodup := by
  refine ⟨fun hroom hground => ?_, fun as p hrun => ?_⟩
  · exact (sound_initial hash).answerAll_ok hground ⟨fun n _ => shardOf_lt hash n, hroom⟩
  have h : p.Answered hash (Request.nodes 0 rs) as := (Answered.of_run (sound_initial hash) hrun).1
  refine ⟨?_, fun a ha b hb => h.eq_iff ha hb, fun a ha => ⟨h.lookup ha, ?_⟩,
    fun i hi => ⟨h.sound.lookup_of_fixed hi, fun a ha => h.eq_fixed_iff ha hi⟩, h.nodup_freshOnes⟩
  · rw [h.handles, List.length_map, Request.length_nodes]
  · intro rs' as' q hrun'
    obtain ⟨-, hgrows⟩ := Answered.of_run h.sound hrun'
    exact Pool.lookup_extend hgrows (h.lookup ha)

def sampleRequests : List Request :=
  [.intern (.dynArray ⟨2⟩), .freshVar, .intern (.option ⟨0x10000000⟩), .intern (.dynArray ⟨2⟩), .freshVar,
    .intern .unit]

theorem answerAll_identifies_sample :
    ∃ p, answerAll (fun n => n.children.length) {} sampleRequests =
        .ok ([⟨0x10000000⟩, ⟨20⟩, ⟨0x10000001⟩, ⟨0x10000000⟩, ⟨21⟩, ⟨15⟩], p) ∧
      p.lookup (fun n => n.children.length) ⟨0x10000001⟩ = some (.option ⟨0x10000000⟩) := by
  obtain ⟨hanswered, hidentifies⟩ := answerAll_identifies (fun n => n.children.length) sampleRequests
  obtain ⟨as, p, hrun⟩ :=
    hanswered (fun shard => Nat.le_trans (List.length_filter_le _ _) (by decide)) (by decide)
  obtain ⟨q, hanswers⟩ : ∃ q, answerAll (fun n => n.children.length) {} sampleRequests =
      .ok ([⟨0x10000000⟩, ⟨20⟩, ⟨0x10000001⟩, ⟨0x10000000⟩, ⟨21⟩, ⟨15⟩], q) := ⟨_, rfl⟩
  obtain ⟨-, -, hlookup, -⟩ := hidentifies as p hrun
  rw [hanswers] at hrun
  cases hrun
  exact ⟨p, hanswers, (hlookup (.option ⟨0x10000000⟩, ⟨0x10000001⟩) (by decide)).1⟩

end TypePool

end TypeFlow
