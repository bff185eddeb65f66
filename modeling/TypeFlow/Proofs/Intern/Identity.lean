import TypeFlow.Proofs.Intern.Trees

namespace TypeFlow

open Ty

namespace TypeNode

def ofTree (name : String → Handle) : Ty → List Handle → TypeNode
  | .prim p, _ => prim p
  | .unit, _ => unit
  | .never, _ => never
  | .untypedNone, _ => untypedNone
  | .untypedNil, _ => untypedNil
  | .pointer m _, [a] => pointer m a
  | .reference m _, [a] => reference m a
  | .fixedArray len _, [a] => fixedArray len.toUInt64 a
  | .dynArray _, [a] => dynArray a
  | .map .., [a, b] => map a b
  | .tuple _, as => tuple as
  | .function _ v _, as => function as.dropLast v (as.getLast?.getD {})
  | .option _, [a] => option a
  | .result .., [a, b] => result a b
  | .channel _, [a] => channel a
  | .named d _, as => named d.toUInt32 as
  | .interface d _, as => interface d.toUInt32 as
  | .union _, as => union as
  | .param x i, _ => param (name x) i.toUInt32
  | .var i, _ => var i.toUInt32
  | .const c, _ => const c
  | _, _ => error

end TypeNode

namespace TypePool
variable {hash : TypeNode → Nat} {word : Handle → String} {p q : TypePool} {a b : Handle} {n m : TypeNode} {t u : Ty}
  {ts us : List Ty}

theorem ofTree_tree (hproper : p.Proper hash n) (hunion : ∀ as, n ≠ .union as) {name : String → Handle}
    (hname : ∀ x i, n = .param x i → name (word x) = x) (hlength : n.children.length = ts.length) :
    TypeNode.ofTree name (n.tree word ts) n.children = n ∧ (n.tree word ts).children = ts := by
  cases n
  case union as => exact absurd rfl (hunion as)
  case tuple as =>
    rw [TypeNode.tree, mkTuple_eq_tuple (hlength ▸ hproper)]
    exact ⟨rfl, rfl⟩
  case function ps v r =>
    obtain ⟨us, t, rfl⟩ := (List.eq_nil_or_concat' ts).resolve_left fun h => by simp [TypeNode.children, h] at hlength
    simp [TypeNode.tree, TypeNode.ofTree, TypeNode.children, Ty.children]
  case pointer | reference | fixedArray | dynArray | option | channel =>
    obtain ⟨t, rfl⟩ := List.length_eq_one_iff.mp hlength.symm
    simp [TypeNode.tree, TypeNode.ofTree, TypeNode.children, Ty.children]
  case map | result =>
    obtain ⟨t, u, rfl⟩ := List.length_eq_two.mp hlength.symm
    exact ⟨rfl, rfl⟩
  case named | interface => simp [TypeNode.tree, TypeNode.ofTree, TypeNode.children, Ty.children]
  case param x i =>
    cases List.eq_nil_of_length_eq_zero hlength.symm
    simp [TypeNode.tree, TypeNode.ofTree, Ty.children, hname x i rfl]
  case var i =>
    cases List.eq_nil_of_length_eq_zero hlength.symm
    simp [TypeNode.tree, TypeNode.ofTree, Ty.children]
  all_goals
    cases List.eq_nil_of_length_eq_zero hlength.symm
    exact ⟨rfl, rfl⟩

theorem mem_unionParts_tree (hproper : p.Proper hash n) (hunion : ∀ as, n ≠ .union as)
    (hlength : n.children.length = ts.length) (hu : u ∈ (n.tree word ts).unionParts) : u = n.tree word ts := by
  cases n
  case union as => exact absurd rfl (hunion as)
  case never => cases hu
  case tuple as =>
    rw [TypeNode.tree, mkTuple_eq_tuple (hlength ▸ hproper)] at hu ⊢
    exact List.mem_singleton.mp hu
  case pointer | reference | fixedArray | dynArray | option | channel =>
    obtain ⟨t, rfl⟩ := List.length_eq_one_iff.mp hlength.symm
    exact List.mem_singleton.mp hu
  case map | result =>
    obtain ⟨t, v, rfl⟩ := List.length_eq_two.mp hlength.symm
    exact List.mem_singleton.mp hu
  all_goals exact List.mem_singleton.mp hu

theorem Unfolds.unionParts_single (hp : p.Exact hash) (h : p.Unfolds hash word a t)
    (ha : p.unionParts hash a = .ok [a]) : t.unionParts = [t] := by
  obtain ⟨us, hus, hmem⟩ := h.exists_unionParts ha
  obtain ⟨n, ts, hn, hts, rfl⟩ := h.exists_parts
  have hproper := hp.proper n (Pool.mem_of_lookup hn)
  unfold TypePool.unionParts at ha
  rw [hn] at ha
  cases n
  case union as =>
    cases ha
    cases Nat.le_of_succ_le_succ hproper.1
  case never => cases ha
  case tuple as =>
    rw [TypeNode.tree, mkTuple_eq_tuple (hts.length_eq ▸ hproper)]
    rfl
  case pointer | reference | fixedArray | dynArray | option | channel =>
    obtain ⟨t, rfl⟩ := List.length_eq_one_iff.mp hts.length_eq.symm
    rfl
  case map | result =>
    obtain ⟨t, u, rfl⟩ := List.length_eq_two.mp hts.length_eq.symm
    rfl
  all_goals rfl

theorem mem_mkUnion_single (h : ∀ t ∈ ts, t.Canonical ∧ t.unionParts = [t]) :
    u ∈ (mkUnion ts).unionParts ↔ u ∈ ts := by
  rw [mem_unionParts_mkUnion fun t ht => (h t ht).1]
  constructor
  · rintro ⟨t, ht, hu⟩
    rw [(h t ht).2, List.mem_singleton] at hu
    exact hu ▸ ht
  · exact fun hu => ⟨u, hu, (h u hu).2 ▸ List.mem_singleton_self u⟩

theorem single_of_union (hp : p.Exact hash) {as : List Handle} (hn : p.lookup hash a = some (.union as))
    (hts : List.Forall₂ (p.Unfolds hash word) as ts) : ∀ t ∈ ts, t.Canonical ∧ t.unionParts = [t] := by
  intro t ht
  obtain ⟨b, hb, hunfolds⟩ := exists_of_forall₂_right hts ht
  have hsingle := (hp.proper _ (Pool.mem_of_lookup hn)).2.2 b (List.of_mem_zip hb).1
  exact ⟨hunfolds.canonical, hunfolds.unionParts_single hp hsingle⟩

theorem exists_ne_of_union (hp : p.Exact hash) {as : List Handle} (hn : p.lookup hash a = some (.union as)) (b : Handle) :
    ∃ c ∈ as, c ≠ b := by
  obtain ⟨hlength, hsorted, -⟩ := hp.proper _ (Pool.mem_of_lookup hn)
  match as with
  | [] => cases hlength
  | [_] => cases Nat.le_of_succ_le_succ hlength
  | c :: d :: ds =>
    have hlt := (List.pairwise_cons.mp hsorted).1 d List.mem_cons_self
    by_cases hcb : c = b
    · exact ⟨d, List.mem_cons_of_mem _ List.mem_cons_self, fun hdb => by
        rw [hcb, hdb] at hlt
        exact absurd hlt (UInt32.lt_irrefl _)⟩
    · exact ⟨c, List.mem_cons_self, hcb⟩

theorem eq_of_pairwise_raw {as bs : List Handle} (ha : as.Pairwise fun b c => b.raw < c.raw)
    (hb : bs.Pairwise fun b c => b.raw < c.raw) (h : ∀ c, c ∈ as ↔ c ∈ bs) : as = bs := by
  have hnodup {cs : List Handle} (hcs : cs.Pairwise fun b c => b.raw < c.raw) : cs.Nodup :=
    hcs.imp fun {b c} hlt heq => absurd (heq ▸ hlt) (UInt32.lt_irrefl _)
  have hperm : as.Perm bs := (List.perm_ext_iff_of_nodup (hnodup ha) (hnodup hb)).mpr h
  exact hperm.eq_of_pairwise (fun _ _ _ _ h k => absurd h (UInt32.lt_asymm k)) ha hb

theorem Unfolds.inj (hp : p.Exact hash) {name : String → Handle}
    (hname : ∀ x i, .param x i ∈ p.nodes.entries → name (word x) = x) (h : p.Unfolds hash word a t)
    (k : p.Unfolds hash word b t) : a = b := by
  suffices hall : ∀ b, p.Unfolds hash word b t → a = b from hall b k
  refine parts_induction (fun a n ts hn hts ih b k => ?_) h
  have hT := Unfolds.of_parts hn hts
  refine parts_induction (motive := fun b u => u = n.tree word ts → a = b) (fun b m us hm hus ihb heq => ?_) k rfl
  have hpn := hp.proper n (Pool.mem_of_lookup hn)
  have hpm := hp.proper m (Pool.mem_of_lookup hm)
  by_cases hnu : ∃ as, n = .union as <;> by_cases hmu : ∃ bs, m = .union bs
  · obtain ⟨as, rfl⟩ := hnu
    obtain ⟨bs, rfl⟩ := hmu
    have hsame (u : Ty) : u ∈ ts ↔ u ∈ us := by
      rw [← mem_mkUnion_single (single_of_union hp hn hts), ← mem_mkUnion_single (single_of_union hp hm hus)]
      exact iff_of_eq (congrArg (u ∈ Ty.unionParts ·) heq.symm)
    have hmembers (c : Handle) : c ∈ as ↔ c ∈ bs := by
      constructor
      · intro hc
        obtain ⟨t, ht, hinj⟩ := exists_of_forall₂_left ih hc
        obtain ⟨d, hd, hdt⟩ := exists_of_forall₂_right hus ((hsame t).mp (List.of_mem_zip ht).2)
        exact hinj d hdt ▸ (List.of_mem_zip hd).1
      · intro hc
        obtain ⟨u, hu, hcu⟩ := exists_of_forall₂_left hus hc
        obtain ⟨d, hd, hinj⟩ := exists_of_forall₂_right ih ((hsame u).mpr (List.of_mem_zip hu).2)
        exact hinj c hcu ▸ (List.of_mem_zip hd).1
    have hn' := eq_of_pairwise_raw hpn.2.1 hpm.2.1 hmembers
    rw [← hp.handle_eq hn, ← hp.handle_eq hm, hn']
  · obtain ⟨as, rfl⟩ := hnu
    obtain ⟨c, hc, hne⟩ := exists_ne_of_union hp hn b
    obtain ⟨t, ht, hinj⟩ := exists_of_forall₂_left ih hc
    have hmem : t ∈ ((TypeNode.union as).tree word ts).unionParts :=
      (mem_mkUnion_single (single_of_union hp hn hts)).mpr (List.of_mem_zip ht).2
    have ht' := mem_unionParts_tree hpm (fun bs hbs => hmu ⟨bs, hbs⟩) hus.length_eq (heq ▸ hmem)
    exact absurd (hinj b (ht' ▸ .of_parts hm hus)) hne
  · obtain ⟨bs, rfl⟩ := hmu
    obtain ⟨c, hc, hne⟩ := exists_ne_of_union hp hm a
    obtain ⟨u, hu, hinj⟩ := exists_of_forall₂_left ihb hc
    have hmem : u ∈ ((TypeNode.union bs).tree word us).unionParts :=
      (mem_mkUnion_single (single_of_union hp hm hus)).mpr (List.of_mem_zip hu).2
    have hu' := mem_unionParts_tree hpn (fun as has => hnu ⟨as, has⟩) hts.length_eq (heq ▸ hmem)
    exact absurd (hinj hu').symm hne
  · have hnameN : ∀ x i, n = .param x i → name (word x) = x := fun x i hx => hname x i (hx ▸ Pool.mem_of_lookup hn)
    have hnameM : ∀ x i, m = .param x i → name (word x) = x := fun x i hx => hname x i (hx ▸ Pool.mem_of_lookup hm)
    obtain ⟨hnode, hchildren⟩ := ofTree_tree hpn (fun as has => hnu ⟨as, has⟩) hnameN hts.length_eq
    obtain ⟨hnode', hchildren'⟩ := ofTree_tree hpm (fun bs hbs => hmu ⟨bs, hbs⟩) hnameM hus.length_eq
    have hparts : ts = us := by rw [← hchildren, ← hchildren', heq]
    subst hparts
    have hsame : n.children = m.children := eq_of_forall₂ ih hus fun c d t hc hd => hc d hd
    rw [← hp.handle_eq hn, ← hp.handle_eq hm, ← hnode, ← hnode', hsame, heq]

noncomputable def idOf (hash : TypeNode → Nat) (word : Handle → String) (p : TypePool) (t : Ty) : Nat :=
  open Classical in if h : ∃ a, p.Unfolds hash word a t then h.choose.raw.toNat else 0

theorem idOf_eq (hp : p.Exact hash) {name : String → Handle}
    (hname : ∀ x i, .param x i ∈ p.nodes.entries → name (word x) = x) (h : p.Unfolds hash word a t) :
    p.idOf hash word t = a.raw.toNat := by
  have hex : ∃ a, p.Unfolds hash word a t := ⟨a, h⟩
  rw [idOf, dif_pos hex, Unfolds.inj hp hname hex.choose_spec h]

theorem idOf_grows (hp : p.Exact hash) (hq : q.Exact hash) (hgrows : p.Grows hash q) {name : String → Handle}
    (hname : ∀ x i, .param x i ∈ q.nodes.entries → name (word x) = x) (h : p.Unfolds hash word a t) :
    q.idOf hash word t = p.idOf hash word t := by
  have hname' : ∀ x i, .param x i ∈ p.nodes.entries → name (word x) = x := fun x i hx =>
    hname x i (Pool.mem_of_lookup (hgrows.lookup (hp.lookup_handleOf hx)))
  rw [idOf_eq hq hname (h.mono hgrows), idOf_eq hp hname' h]

end TypePool

end TypeFlow
