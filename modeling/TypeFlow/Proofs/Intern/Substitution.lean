import TypeFlow.Proofs.Intern.Rewriting

namespace TypeFlow

open Ty

namespace TypeNode

def isHole : TypeNode → Bool
  | param .. | var _ => true
  | _ => false

theorem children_withChildren {n : TypeNode} {as : List Handle} (h : n.children.length = as.length) :
    (n.withChildren as).children = as := by
  cases n
  case function ps v r =>
    obtain ⟨bs, b, rfl⟩ := (List.eq_nil_or_concat' as).resolve_left fun h' => by simp [children, h'] at h
    simp [withChildren, children]
  case pointer | reference | fixedArray | dynArray | option | channel =>
    obtain ⟨a, rfl⟩ := List.length_eq_one_iff.mp h.symm
    rfl
  case map | result =>
    obtain ⟨a, b, rfl⟩ := List.length_eq_two.mp h.symm
    rfl
  case tuple | union | named | interface => rfl
  all_goals exact (List.eq_nil_of_length_eq_zero h.symm).symm

theorem tree_withChildren {n : TypeNode} {as : List Handle} {ts : List Ty} (h : n.children.length = as.length)
    (hts : n.children.length = ts.length) (word : Handle → String) :
    (n.withChildren as).tree word ts = n.tree word ts := by
  cases n
  case pointer | reference | fixedArray | dynArray | option | channel =>
    obtain ⟨a, rfl⟩ := List.length_eq_one_iff.mp h.symm
    obtain ⟨t, rfl⟩ := List.length_eq_one_iff.mp hts.symm
    rfl
  case map | result =>
    obtain ⟨a, b, rfl⟩ := List.length_eq_two.mp h.symm
    obtain ⟨t, u, rfl⟩ := List.length_eq_two.mp hts.symm
    rfl
  all_goals rfl

end TypeNode

namespace TypePool

variable {hash : TypeNode → Nat} {word : Handle → String} {p q : TypePool} {a b : Handle} {n : TypeNode} {t u : Ty}
  {ts : List Ty} {leaf : TypeNode → Option Handle} {f : TypeFlags} {mask : TypeFlags}

structure Summarizes (hash : TypeNode → Nat) (p : TypePool) (f : TypeFlags) (a : Handle) : Prop where
  hasVar : f.hasVar = true ↔ p.Occurs hash (fun n => ∃ i, n = .var i) a
  hasParam : f.hasParam = true ↔ p.Occurs hash (fun n => ∃ x i, n = .param x i) a
  hasError : f.hasError = true ↔ p.Occurs hash (fun n => n = .error) a
  hasUntyped : f.hasUntyped = true ↔ p.Occurs hash (fun n => n = .untypedNone ∨ n = .untypedNil) a
  hasConst : f.hasConst = true ↔ p.Occurs hash (fun n => ∃ c, n = .const c) a

theorem Exact.meets_iff (hp : p.Exact hash) (hf : p.flagsOf hash a = some f) :
    f.meets mask = true ↔ p.Occurs hash (fun n => n.ownFlags.meets mask = true) a := by
  obtain ⟨n, hn, -⟩ := lookup_of_flagsOf hf
  have ha := hp.grounded hn
  clear hn
  generalize p.nodes.size = k at ha
  induction ha generalizing f with
  | @intro k a n hn _ ih =>
    obtain ⟨g, hg, hcompute⟩ := hp.exists_flagsOf hn
    cases hf.symm.trans hg
    obtain ⟨fs, hfs, rfl⟩ := computeFlags_iff.mp hcompute
    rw [occurs_iff hn, meets_union, Bool.or_eq_true, TypeFlags.meets_propagate_iff]
    refine or_congr_right ⟨?_, ?_⟩
    · rintro ⟨g, hg, hmeets⟩
      obtain ⟨b, hb, hbg⟩ := exists_of_forall₂_right hfs hg
      exact ⟨b, (List.of_mem_zip hb).1, (ih b (List.of_mem_zip hb).1 hbg).mp hmeets⟩
    · rintro ⟨b, hb, hmeets⟩
      obtain ⟨g, hg, hbg⟩ := exists_of_forall₂_left hfs hb
      exact ⟨g, (List.of_mem_zip hg).2, (ih b hb hbg).mpr hmeets⟩

theorem Occurs.imp {P Q : TypeNode → Prop} (h : p.Occurs hash P a) (hPQ : ∀ n, P n → Q n) : p.Occurs hash Q a := by
  induction h with
  | here hn h => exact .here hn (hPQ _ h)
  | part hn hb _ ih => exact .part hn hb ih

theorem Occurs.exists {P : TypeNode → Prop} (h : p.Occurs hash P a) : ∃ n, P n := by
  induction h with
  | here _ h => exact ⟨_, h⟩
  | part _ _ _ ih => exact ih

theorem occurs_congr {P Q : TypeNode → Prop} (h : ∀ n, P n ↔ Q n) : p.Occurs hash P a ↔ p.Occurs hash Q a :=
  ⟨fun k => k.imp fun n => (h n).mp, fun k => k.imp fun n => (h n).mpr⟩

theorem Exact.summarizes (hp : p.Exact hash) (hf : p.flagsOf hash a = some f) : p.Summarizes hash f a := by
  have hflag (mask : TypeFlags) {flag : Bool} {P : TypeNode → Prop} (hmeets : f.meets mask = flag)
      (hP : ∀ n : TypeNode, n.ownFlags.meets mask = true ↔ P n) : flag = true ↔ p.Occurs hash P a := by
    rw [← hmeets, hp.meets_iff hf]
    exact occurs_congr hP
  constructor
  · exact hflag { hasVar := true } (by simp [TypeFlags.meets]) fun n => by
      cases n <;> simp [TypeNode.ownFlags, TypeFlags.meets, TypeFlags.empty]
  · exact hflag { hasParam := true } (by simp [TypeFlags.meets]) fun n => by
      cases n <;> simp [TypeNode.ownFlags, TypeFlags.meets, TypeFlags.empty]
  · exact hflag { hasError := true } (by simp [TypeFlags.meets]) fun n => by
      cases n <;> simp [TypeNode.ownFlags, TypeFlags.meets, TypeFlags.empty]
  · exact hflag { hasUntyped := true } (by simp [TypeFlags.meets]) fun n => by
      cases n <;> simp [TypeNode.ownFlags, TypeFlags.meets, TypeFlags.empty]
  · exact hflag { hasConst := true } (by simp [TypeFlags.meets]) fun n => by
      cases n <;> simp [TypeNode.ownFlags, TypeFlags.meets, TypeFlags.empty]

-- A rewriting of handles does what a rewriting of trees does.
structure Mirrors (hash : TypeNode → Nat) (word : Handle → String) (p : TypePool) (leaf : TypeNode → Option Handle)
    (leaf' : Ty → Option Ty) : Prop where
  substitutes : Substitutes leaf'
  closed : ∀ {n : TypeNode}, n.isHole = false → leaf n = none
  replaced : ∀ {n b}, leaf n = some b → ∃ u, leaf' (n.tree word []) = some u ∧ p.Unfolds hash word b u
  kept : ∀ {n : TypeNode}, n.isHole = true → leaf n = none → leaf' (n.tree word []) = none

theorem rewrite_tree {leaf' : Ty → Option Ty} (hleaf : p.Mirrors hash word leaf leaf') (hnone : leaf n = none)
    (hlength : n.children.length = ts.length) (hts : ∀ t ∈ ts, t.Canonical) :
    (n.tree word ts).rewrite leaf' = n.tree word (ts.map (Ty.rewrite leaf')) := by
  have hclosed {t : Ty} (ht : t.isHole = false) := hleaf.substitutes.rewrite_closed ht
  cases n
  case param | var =>
    cases List.eq_nil_of_length_eq_zero hlength.symm
    rw [rewrite_eq, hleaf.kept rfl hnone]
    rfl
  case tuple => exact hleaf.substitutes.rewrite_mkTuple ts
  case union => exact hleaf.substitutes.rewrite_mkUnion hts
  case function ps v r =>
    obtain ⟨us, t, rfl⟩ := (List.eq_nil_or_concat' ts).resolve_left fun h => by simp [TypeNode.children, h] at hlength
    rw [TypeNode.tree, hclosed rfl]
    simp [mapParts, TypeNode.tree]
  case pointer | reference | fixedArray | dynArray | option | channel =>
    obtain ⟨t, rfl⟩ := List.length_eq_one_iff.mp hlength.symm
    exact hclosed rfl
  case map | result =>
    obtain ⟨t, u, rfl⟩ := List.length_eq_two.mp hlength.symm
    exact hclosed rfl
  all_goals exact hclosed rfl

theorem Unfolds.isSome_lookup (h : p.Unfolds hash word a t) : (p.lookup hash a).isSome := by
  obtain ⟨n, -, hn, -⟩ := h.exists_parts
  exact Option.isSome_of_eq_some hn

theorem unfolds_rewrite {leaf' : Ty → Option Ty} (hp : p.Exact hash) (hleaf : p.Mirrors hash word leaf leaf')
    (h : p.Unfolds hash word a t) : Ends hash (fun e => ∃ shard, e = .shardOverflow shard) (rewrite hash leaf a) p
      fun b q => q.Unfolds hash word b (t.rewrite leaf') := by
  obtain ⟨n₀, -, hn₀, -⟩ := h.exists_parts
  suffices hends : Ends hash (fun e => ∃ shard, e = .shardOverflow shard) (rewrite hash leaf a) p fun b q =>
      ∀ t, p.Unfolds hash word a t → q.Unfolds hash word b (t.rewrite leaf') from hends.imp fun b q _ hb => hb t h
  refine ends_rewrite (R := fun a b q => ∀ t, p.Unfolds hash word a t → q.Unfolds hash word b (t.rewrite leaf'))
    (fun hgrows h t ht => (h t ht).mono hgrows) ?_ ?_ hp hn₀
  · intro a n b q hn hgrows hb t ht
    obtain ⟨m, ts, hm, hts, rfl⟩ := ht.exists_parts
    cases hn.symm.trans hm
    have hhole : n.isHole = true := by
      by_contra hne
      exact nomatch (hleaf.closed (Bool.eq_false_iff.mpr hne)).symm.trans hb
    have hchildren : n.children = [] := by cases n <;> first | rfl | cases hhole
    rw [hchildren] at hts
    cases hts
    obtain ⟨u, hu, hunfolds⟩ := hleaf.replaced hb
    rw [rewrite_eq, hu, Option.getD_some]
    exact hunfolds.mono hgrows
  · intro a n bs q hn hnone hq hgrows hbs
    refine ends_build hq (fun e he => hq.construct_error (fun b hb => ?_) he) fun b r hr t ht => ?_
    · rw [TypeNode.children_withChildren hbs.length_eq] at hb
      obtain ⟨c, hc, hcb⟩ := exists_of_forall₂_right hbs hb
      obtain ⟨t, ht⟩ := (hp.grounded (Option.some_get (hp.isSome_children hn (List.of_mem_zip hc).1)).symm).exists_unfolds word
      exact (hcb t ht).isSome_lookup
    · obtain ⟨m, ts, hm, hts, rfl⟩ := ht.exists_parts
      cases hn.symm.trans hm
      rw [rewrite_tree hleaf hnone hts.length_eq fun t ht => by
        obtain ⟨c, -, hc⟩ := exists_of_forall₂_right hts ht
        exact hc.canonical]
      rw [← TypeNode.tree_withChildren hbs.length_eq (hts.length_eq.trans (List.length_map _).symm) word]
      refine unfolds_construct hq hr ?_
      rw [TypeNode.children_withChildren hbs.length_eq, List.forall₂_map_right_iff]
      exact forall₂_of_common hbs hts fun c b t hb ht => hb t ht

theorem mirrors_paramLeaf {args : List Handle} (hargs : List.Forall₂ (p.Unfolds hash word) args ts) :
    p.Mirrors hash word (paramLeaf args) (Ty.paramLeaf ts) where
  substitutes := substitutes_paramLeaf fun t ht => by
    obtain ⟨b, -, hb⟩ := exists_of_forall₂_right hargs ht
    exact hb.canonical
  closed {n} h := by cases n <;> first | rfl | cases h
  replaced {n b} h := by
    cases n <;> simp only [paramLeaf, reduceCtorEq] at h
    case param x i =>
      obtain ⟨hi, rfl⟩ := List.getElem?_eq_some_iff.mp h
      have hi' : i.toNat < ts.length := hargs.length_eq ▸ hi
      exact ⟨ts[i.toNat], List.getElem?_eq_getElem hi', hargs.get hi hi'⟩
  kept {n} hhole h := by
    cases n
    case param x i =>
      refine List.getElem?_eq_none_iff.mpr ?_
      rw [← hargs.length_eq]
      exact List.getElem?_eq_none_iff.mp h
    case var => rfl
    all_goals cases hhole

theorem mirrors_varLeaf {bindings : List (UInt32 × Handle)} {bindings' : VarBindings}
    (h : List.Forall₂ (fun x y => x.1.toNat = y.1 ∧ p.Unfolds hash word x.2 y.2) bindings bindings') :
    p.Mirrors hash word (varLeaf bindings) (Ty.varLeaf bindings') where
  substitutes := substitutes_varLeaf fun y hy => by
    obtain ⟨x, -, -, hx⟩ := exists_of_forall₂_right h hy
    exact hx.canonical
  closed {n} h := by cases n <;> first | rfl | cases h
  replaced {n b} hb := by
    cases n <;> simp only [varLeaf, reduceCtorEq] at hb
    case var i =>
      show ∃ u, bindings'.lookup i.toNat = some u ∧ _
      induction h with
      | nil => cases hb
      | @cons x y _ _ hxy _ ih =>
        obtain ⟨hkey, hunfolds⟩ := hxy
        rw [List.lookup_cons] at hb ⊢
        rw [← hkey]
        by_cases hi : i = x.1
        · rw [beq_iff_eq.mpr hi] at hb
          cases hb
          exact ⟨y.2, by rw [beq_iff_eq.mpr (congrArg UInt32.toNat hi)], hunfolds⟩
        · have hne : (i.toNat == x.1.toNat) = false := beq_false_of_ne fun h => hi (UInt32.toNat_inj.mp h)
          rw [beq_false_of_ne hi] at hb
          rw [hne]
          exact ih hb
  kept {n} hhole hnone := by
    cases n
    case param => rfl
    case var i =>
      show bindings'.lookup i.toNat = none
      refine List.lookup_eq_none_iff.mpr fun y hy => ?_
      obtain ⟨x, hx, hkey, -⟩ := exists_of_forall₂_right h hy
      have hne := List.lookup_eq_none_iff.mp hnone x (List.of_mem_zip hx).1
      rw [← hkey]
      exact bne_iff_ne.mpr fun heq => by simp [UInt32.toNat_inj.mp heq] at hne
    all_goals cases hhole

def supply (hash : TypeNode → Nat) (p : TypePool) : Request → Except InternError (Handle × TypePool)
  | .intern n => p.construct hash n
  | .freshVar => p.freshVar hash

def supplyAll (hash : TypeNode → Nat) (p : TypePool) : List Request → Except InternError (List Handle × TypePool)
  | [] => return ([], p)
  | r :: rs => do
    let (a, p) ← p.supply hash r
    let (as, p) ← p.supplyAll hash rs
    return (a :: as, p)

theorem Exact.of_supply (hp : p.Exact hash) {r : Request} (h : p.supply hash r = .ok (a, q)) :
    q.Exact hash ∧ p.Grows hash q := by
  cases r with
  | intern n => exact hp.of_construct h
  | freshVar =>
    have hgrows : p.Grows hash { p with nextVar := p.nextVar + 1 } := ⟨id, id⟩
    have hnext : Exact hash { p with nextVar := p.nextVar + 1 } :=
      ⟨hp.toSound.renumber _, fun hn => hgrows.grounded (hp.grounded hn), fun n hn => hgrows.proper (hp.proper n hn),
        fun hn hf => hgrows.computeFlags (hp.cached hn hf)⟩
    obtain ⟨hq, hgrows', -⟩ := hnext.of_tryIntern (n := .var p.nextVar) True.intro h
    exact ⟨hq, hgrows.trans hgrows'⟩

theorem Exact.of_supplyAll (hp : p.Exact hash) {rs : List Request} {as : List Handle}
    (h : p.supplyAll hash rs = .ok (as, q)) : q.Exact hash ∧ p.Grows hash q := by
  induction rs generalizing p as with
  | nil =>
    cases h
    exact ⟨hp, .refl hash _⟩
  | cons r rs ih =>
    obtain ⟨⟨a, p'⟩, hfirst, h⟩ := exists_of_bind_ok h
    obtain ⟨⟨as', q'⟩, hrest, h⟩ := exists_of_bind_ok h
    cases h
    obtain ⟨hp', hgrows⟩ := hp.of_supply hfirst
    obtain ⟨hq, hgrows'⟩ := ih hp' hrest
    exact ⟨hq, hgrows.trans hgrows'⟩

theorem not_occurs_of_skips {P : TypeNode → Prop} (hp : p.Exact hash) (hf : p.flagsOf hash a = some f)
    (hskip : (!f.meets mask) = true) (hP : ∀ n, P n → n.ownFlags.meets mask = true) : ¬ p.Occurs hash P a := by
  intro h
  rw [(hp.meets_iff hf).mpr (h.imp hP)] at hskip
  cases hskip

theorem hasParam_of_paramLeaf {args : List Handle} {n : TypeNode} (h : paramLeaf args n ≠ none) :
    n.ownFlags.meets { hasParam := true } = true := by
  cases n <;> first | rfl | exact absurd rfl h

theorem hasVar_of_varLeaf {bindings : List (UInt32 × Handle)} {n : TypeNode} (h : varLeaf bindings n ≠ none) :
    n.ownFlags.meets { hasVar := true } = true := by
  cases n <;> first | rfl | exact absurd rfl h

namespace Exact

variable (hp : p.Exact hash) (hn : p.lookup hash a = some n)

include hp hn

theorem substituteParams_eq (args : List Handle) :
    substituteParams hash args a p = rewrite hash (paramLeaf args) a p := by
  cases args with
  | nil =>
    refine (mapTypes_self hp hn fun h => ?_).symm
    have hnone : ∀ n, paramLeaf [] n = none := fun n => by cases n <;> rfl
    obtain ⟨n, hne⟩ := h.exists
    exact hne (hnone n)
  | cons b bs =>
    exact mapTypes_eq_rewrite (fun hq hf hskip => not_occurs_of_skips hq hf hskip fun _ => hasParam_of_paramLeaf) hp hn

theorem substituteVars_eq (bindings : List (UInt32 × Handle)) :
    substituteVars hash bindings a p = rewrite hash (varLeaf bindings) a p :=
  mapTypes_eq_rewrite (fun hq hf hskip => not_occurs_of_skips hq hf hskip fun _ => hasVar_of_varLeaf) hp hn

end Exact

abbrev IsVar (n : TypeNode) : Prop := ∃ i, n = .var i

abbrev IsParam (n : TypeNode) : Prop := ∃ x i, n = .param x i

theorem Exact.occurs_isParam_iff (hp : p.Exact hash) (h : p.Unfolds hash word a t) :
    p.Occurs hash IsParam a ↔ ¬ t.ParamFree := by
  rw [← (hp.summarizes (h.flagsOf hp)).hasParam, ← hasParam_eq_false_iff, Bool.not_eq_false]

theorem Unfolds.paramsBelow (h : p.Unfolds hash word a t) {k : Nat}
    (hbelow : ∀ x i, p.Occurs hash (· = .param x i) a → i.toNat < k) : t.ParamsBelow k := by
  suffices hall : (∀ x i, p.Occurs hash (· = .param x i) a → i.toNat < k) → t.ParamsBelow k from hall hbelow
  refine parts_induction (fun a n ts hn hts ih hbelow => ?_) h
  have hclosed := (byHead_paramsBelow k).closed
  refine closed_tree hclosed.mkTuple hclosed.mkUnion (fun t _ hparam hparts => .intro (fun x i hx => ?_) hparts)
    fun t ht => ?_
  · obtain ⟨y, j, hy, rfl⟩ := hparam x i hx
    exact hbelow y j (.here hn hy)
  · obtain ⟨b, hb, hbt⟩ := exists_of_forall₂_right ih ht
    exact hbt fun x i hx => hbelow x i (.part hn (List.of_mem_zip hb).1 hx)

theorem Exact.exists_unfolds_all (hp : p.Exact hash) (word : Handle → String) {as : List Handle}
    (h : ∀ a ∈ as, (p.lookup hash a).isSome) : ∃ ts, List.Forall₂ (p.Unfolds hash word) as ts :=
  exists_forall₂ fun a ha => by
    obtain ⟨n, hn⟩ := Option.isSome_iff_exists.mp (h a ha)
    exact (hp.grounded hn).exists_unfolds word

theorem Exact.exists_unfolds_bindings (hp : p.Exact hash) (word : Handle → String) {bindings : List (UInt32 × Handle)}
    (h : ∀ x ∈ bindings, (p.lookup hash x.2).isSome) : ∃ bindings' : VarBindings,
      List.Forall₂ (fun x y => x.1.toNat = y.1 ∧ p.Unfolds hash word x.2 y.2) bindings bindings' :=
  exists_forall₂ fun x hx => by
    obtain ⟨n, hn⟩ := Option.isSome_iff_exists.mp (h x hx)
    obtain ⟨t, ht⟩ := (hp.grounded hn).exists_unfolds word
    exact ⟨(x.1.toNat, t), rfl, ht⟩

-- The flags that a pool keeps tell what occurs in a type at any depth. Going by them, substitution gives the
-- handle and the pool that visiting every node gives; it stays where nothing is replaced; and unless a shard is
-- full it ends, with the type of the tree substituted, free of parameters where the arguments are and cover them.
theorem substitution_by_flags (hash : TypeNode → Nat) (word : Handle → String) {rs : List Request} {as : List Handle}
    (hrun : supplyAll hash {} rs = .ok (as, p)) (ha : (p.lookup hash a).isSome) :
    ∃ t, p.Unfolds hash word a t ∧ p.flagsOf hash a = some t.flags ∧ p.Summarizes hash t.flags a ∧
      (∀ args, substituteParams hash args a p = rewrite hash (paramLeaf args) a p) ∧
      (∀ bindings, substituteVars hash bindings a p = rewrite hash (varLeaf bindings) a p) ∧
      (¬ p.Occurs hash IsParam a → ∀ args, substituteParams hash args a p = some (.ok (a, p))) ∧
      (¬ p.Occurs hash IsVar a → ∀ bindings, substituteVars hash bindings a p = some (.ok (a, p))) ∧
      (∀ args, (∀ b ∈ args, (p.lookup hash b).isSome) → ∃ ts, List.Forall₂ (p.Unfolds hash word) args ts ∧
        Ends hash (fun e => ∃ shard, e = .shardOverflow shard) (substituteParams hash args a) p fun b q =>
          q.Unfolds hash word b (t.substParams ts) ∧
          ((∀ x i, p.Occurs hash (· = .param x i) a → i.toNat < args.length) →
            (∀ b ∈ args, ¬ p.Occurs hash IsParam b) → ¬ q.Occurs hash IsParam b)) ∧
      ∀ bindings, (∀ x ∈ bindings, (p.lookup hash x.2).isSome) → ∃ bindings' : VarBindings,
        List.Forall₂ (fun x y => x.1.toNat = y.1 ∧ p.Unfolds hash word x.2 y.2) bindings bindings' ∧
        Ends hash (fun e => ∃ shard, e = .shardOverflow shard) (substituteVars hash bindings a) p fun b q =>
          q.Unfolds hash word b (t.substVars bindings') := by
  obtain ⟨hp, -⟩ := (exact_initial hash).of_supplyAll hrun
  obtain ⟨n, hn⟩ := Option.isSome_iff_exists.mp ha
  obtain ⟨t, ht⟩ := (hp.grounded hn).exists_unfolds word
  have hflags := ht.flagsOf hp
  refine ⟨t, ht, hflags, hp.summarizes hflags, hp.substituteParams_eq hn, hp.substituteVars_eq hn, fun hnone args => ?_,
    fun hnone bindings => ?_, fun args hargs => ?_, fun bindings hbindings => ?_⟩
  · rw [hp.substituteParams_eq hn]
    refine mapTypes_self hp hn fun h => hnone (h.imp fun n hne => ?_)
    cases n <;> first | exact ⟨_, _, rfl⟩ | exact absurd rfl hne
  · rw [hp.substituteVars_eq hn]
    refine mapTypes_self hp hn fun h => hnone (h.imp fun n hne => ?_)
    cases n <;> first | exact ⟨_, rfl⟩ | exact absurd rfl hne
  · obtain ⟨ts, hts⟩ := hp.exists_unfolds_all word hargs
    have hends := unfolds_rewrite hp (mirrors_paramLeaf hts) ht
    rw [← substParams_eq_rewrite ht.canonical] at hends
    refine ⟨ts, hts, (hends.of_eq (hp.substituteParams_eq hn args).symm).imp fun b q hq hb => ⟨hb, ?_⟩⟩
    intro hbelow hfree
    rw [hq.occurs_isParam_iff hb, not_not]
    have hparams : ∀ u ∈ ts, u.ParamFree := fun u hu => by
      obtain ⟨c, hc, hcu⟩ := exists_of_forall₂_right hts hu
      exact Classical.byContradiction fun h => hfree c (List.of_mem_zip hc).1 ((hp.occurs_isParam_iff hcu).mpr h)
    exact (paramFree_substParams_iff hparams).mpr (ht.paramsBelow (hts.length_eq ▸ hbelow))
  · obtain ⟨bindings', hbs⟩ := hp.exists_unfolds_bindings word hbindings
    have hends := unfolds_rewrite hp (mirrors_varLeaf hbs) ht
    rw [← substVars_eq_rewrite ht.canonical] at hends
    exact ⟨bindings', hbs, hends.of_eq (hp.substituteVars_eq hn bindings).symm⟩

def collapseRequests : List Request :=
  [.intern (.param ⟨7⟩ 0), .intern (.option ⟨20⟩), .intern (.param ⟨8⟩ 1), .intern (.union [⟨0x10000000⟩, ⟨21⟩]),
    .intern (.option ⟨2⟩)]

def collapsePool : TypePool :=
  (((supplyAll (fun n => n.children.length) {} collapseRequests).toOption).map (·.2)).getD {}

-- Both members of the union become one type, which then stands for itself.
theorem substitution_by_flags_collapse :
    let hash (n : TypeNode) := n.children.length
    let args : List Handle := [⟨2⟩, ⟨0x10000001⟩]
    supplyAll hash {} collapseRequests =
        .ok ([⟨20⟩, ⟨0x10000000⟩, ⟨21⟩, ⟨0x20000000⟩, ⟨0x10000001⟩], collapsePool) ∧
      collapsePool.flagsOf hash ⟨0x20000000⟩ = some { hasParam := true } ∧
      substituteParams hash args ⟨0x20000000⟩ collapsePool = rewrite hash (paramLeaf args) ⟨0x20000000⟩ collapsePool ∧
      substituteParams hash args ⟨0x20000000⟩ collapsePool ≠ none := by
  intro hash args
  have hrun : supplyAll hash {} collapseRequests =
      .ok ([⟨20⟩, ⟨0x10000000⟩, ⟨21⟩, ⟨0x20000000⟩, ⟨0x10000001⟩], collapsePool) := eq_ok_of_fst {} (by decide +kernel)
  obtain ⟨t, -, -, -, hsame, -, -, -, hargs, -⟩ := substitution_by_flags hash (fun a => toString a.raw) hrun
    (a := ⟨0x20000000⟩) (by decide +kernel)
  obtain ⟨ts, -, hends⟩ := hargs args (by decide +kernel)
  refine ⟨hrun, by decide +kernel, hsame args, fun hnone => ?_⟩
  rcases hends with ⟨e, he, -⟩ | ⟨b, q, hb, -⟩
  · cases hnone.symm.trans he
  · cases hnone.symm.trans hb

end TypePool

end TypeFlow
