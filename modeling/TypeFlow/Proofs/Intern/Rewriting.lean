import TypeFlow.Proofs.Intern.Trees

namespace TypeFlow

open Ty

namespace TypePool

variable {α β : Type} {hash : TypeNode → Nat} {word : Handle → String} {p q : TypePool} {a b : Handle} {n : TypeNode}
  {E : InternError → Prop} {skips : TypeFlags → Bool} {leaf : TypeNode → Option Handle}

theorem run_bind (x : Interning α) (f : α → Interning β) (p : TypePool) : (x >>= f) p =
    match (x p : Option (Except InternError (α × TypePool))) with
    | none => none
    | some (.error e) => some (.error e)
    | some (.ok (v, q)) => f v q := by
  show Option.bind (x p) _ = _
  rcases (x p : Option (Except InternError (α × TypePool))) with _ | (_ | ⟨_, _⟩) <;> rfl

-- A run ends, with a failure of the given kind or with a result, and a pool that has only grown.
def Ends (hash : TypeNode → Nat) (E : InternError → Prop) (x : Interning α) (p : TypePool)
    (Q : α → TypePool → Prop) : Prop :=
  (∃ e, x p = some (.error e) ∧ E e) ∨ ∃ v q, x p = some (.ok (v, q)) ∧ q.Exact hash ∧ p.Grows hash q ∧ Q v q

namespace Ends

variable {x : Interning α} {f : α → Interning β} {Q : α → TypePool → Prop} {R : β → TypePool → Prop}

theorem pure {v : α} (hp : p.Exact hash) (h : Q v p) : Ends hash E (pure v) p Q :=
  .inr ⟨v, p, rfl, hp, .refl hash p, h⟩

theorem bind (hx : Ends hash E x p Q)
    (hf : ∀ v q, q.Exact hash → p.Grows hash q → Q v q → Ends hash E (f v) q R) : Ends hash E (x >>= f) p R := by
  rcases hx with ⟨e, hx, he⟩ | ⟨v, q, hx, hq, hgrows, hQ⟩
  · exact .inl ⟨e, by rw [run_bind, hx], he⟩
  · have hrun : (x >>= f) p = f v q := by rw [run_bind, hx]
    rcases hf v q hq hgrows hQ with ⟨e, hf, he⟩ | ⟨w, r, hf, hr, hgrows', hR⟩
    · exact .inl ⟨e, hrun.trans hf, he⟩
    · exact .inr ⟨w, r, hrun.trans hf, hr, hgrows.trans hgrows', hR⟩

theorem imp {R : α → TypePool → Prop} (hx : Ends hash E x p Q) (h : ∀ v q, q.Exact hash → Q v q → R v q) :
    Ends hash E x p R :=
  hx.imp_right fun ⟨v, q, hrun, hq, hgrows, hQ⟩ => ⟨v, q, hrun, hq, hgrows, h v q hq hQ⟩

theorem of_eq {y : Interning α} (hx : Ends hash E x p Q) (h : x p = y p) : Ends hash E y p Q := by
  unfold Ends at hx ⊢
  rwa [← h]

theorem mapM {x : α → Interning β} {R : α → β → TypePool → Prop} {as : List α} (hp : p.Exact hash)
    (hmono : ∀ {a b q r}, q.Grows hash r → R a b q → R a b r)
    (h : ∀ a ∈ as, ∀ q, q.Exact hash → p.Grows hash q → Ends hash E (x a) q (R a)) :
    Ends hash E (as.mapM x) p fun bs q => List.Forall₂ (R · · q) as bs := by
  induction as generalizing p with
  | nil => exact .pure hp .nil
  | cons a as ih =>
    obtain ⟨ha, has⟩ := List.forall_mem_cons.mp h
    rw [List.mapM_cons]
    refine (ha p hp (.refl hash p)).bind fun b q hq hgrows hb => ?_
    refine (ih hq fun a ha r hr hgrows' => has a ha r hr (hgrows.trans hgrows')).bind fun bs r hr hgrows' hbs => ?_
    exact .pure hr (.cons (hmono hgrows' hb) hbs)

end Ends

theorem mapTypesTo_eq {f : TypeFlags} (k : Nat) (hn : p.lookup hash a = some n) (hf : p.flagsOf hash a = some f)
    (hself : p.construct hash n = .ok (a, p)) : mapTypesTo hash skips leaf (k + 1) a p =
      if skips f then some (.ok (a, p)) else
        ((leaf n).elim (n.children.mapM (mapTypesTo hash skips leaf k) >>= fun bs => build hash (n.withChildren bs))
          pure) p := by
  have hknown (x : TypeFlags → Interning Handle) : (known (flagsOf hash) a >>= x) p = x f p := by
    rw [run_bind, known, hf]
  have hlookup (x : TypeNode → Interning Handle) : (known (TypePool.lookup hash) a >>= x) p = x n p := by
    rw [run_bind, known, hn]
  rw [mapTypesTo, hknown]
  split
  · rfl
  rw [hlookup]
  cases leaf n with
  | some b => rfl
  | none =>
    have hbuild : build hash n p = some (.ok (a, p)) := congrArg some hself
    cases n <;> simp [TypeNode.children, TypeNode.withChildren, hbuild] <;> rfl

theorem ends_build {R : Handle → TypePool → Prop} (hp : p.Exact hash)
    (herror : ∀ e, p.construct hash n = .error e → E e)
    (hok : ∀ a q, p.construct hash n = .ok (a, q) → R a q) : Ends hash E (build hash n) p R := by
  cases h : p.construct hash n with
  | error e => exact .inl ⟨e, congrArg some h, herror e h⟩
  | ok r =>
    obtain ⟨a, q⟩ := r
    obtain ⟨hq, hgrows⟩ := hp.of_construct h
    exact .inr ⟨a, q, congrArg some h, hq, hgrows, hok a q h⟩

theorem ends_mapTypesTo {R : Handle → Handle → TypePool → Prop}
    (hmono : ∀ {a b q r}, q.Grows hash r → R a b q → R a b r)
    (hself : ∀ {a q f}, q.Exact hash → p.Grows hash q → q.flagsOf hash a = some f → skips f = true → R a a q)
    (hleaf : ∀ {a n b q}, p.lookup hash a = some n → p.Grows hash q → leaf n = some b → R a b q)
    (hnode : ∀ {a n bs q}, p.lookup hash a = some n → leaf n = none → q.Exact hash → p.Grows hash q →
      List.Forall₂ (R · · q) n.children bs → Ends hash E (build hash (n.withChildren bs)) q (R a))
    {k : Nat} (ha : p.Grounded hash k a) (hq : q.Exact hash) (hgrows : p.Grows hash q) :
    Ends hash E (mapTypesTo hash skips leaf k a) q (R a) := by
  induction ha generalizing q with
  | @intro k a n hn _ ih =>
    have hn' := hgrows.lookup hn
    obtain ⟨f, hf, -⟩ := hq.exists_flagsOf hn'
    have heq : mapTypesTo hash skips leaf (k + 1) a q = _ := mapTypesTo_eq k hn' hf (hq.construct_self hn')
    have hpure {b : Handle} (h : mapTypesTo hash skips leaf (k + 1) a q = some (.ok (b, q))) (hR : R a b q) :
        Ends hash E (mapTypesTo hash skips leaf (k + 1) a) q (R a) := .inr ⟨b, q, h, hq, .refl hash q, hR⟩
    split at heq
    · next hskip => exact hpure heq (hself hq hgrows hf hskip)
    · cases hl : leaf n with
      | some b =>
        rw [hl] at heq
        exact hpure heq (hleaf hn hgrows hl)
      | none =>
        rw [hl] at heq
        have hends : Ends hash E (n.children.mapM (mapTypesTo hash skips leaf k) >>= fun bs =>
            build hash (n.withChildren bs)) q (R a) := by
          have hparts : Ends hash E (n.children.mapM (mapTypesTo hash skips leaf k)) q fun bs q =>
              List.Forall₂ (R · · q) n.children bs :=
            .mapM hq hmono fun b hb r hr hgrows' => ih b hb hr (hgrows.trans hgrows')
          exact hparts.bind fun bs r hr hgrows' hbs => hnode hn hl hr (hgrows.trans hgrows') hbs
        exact hends.of_eq heq.symm

theorem mapTypesTo_grows {k : Nat} (hp : p.Exact hash) (ha : p.Grounded hash k a) :
    Ends hash (fun _ => True) (mapTypesTo hash skips leaf k a) p fun _ _ => True :=
  ends_mapTypesTo (R := fun _ _ _ => True) (fun _ _ => trivial) (fun _ _ _ _ => trivial) (fun _ _ _ => trivial)
    (fun _ _ hq _ _ => ends_build hq (fun _ _ => trivial) fun _ _ _ => trivial) ha hp (.refl hash p)

theorem mapM_self {x : Handle → Interning Handle} {as : List Handle} (h : ∀ a ∈ as, x a p = some (.ok (a, p))) :
    as.mapM x p = some (.ok (as, p)) := by
  induction as with
  | nil => rfl
  | cons a as ih =>
    obtain ⟨ha, has⟩ := List.forall_mem_cons.mp h
    rw [List.mapM_cons, run_bind, ha]
    show (as.mapM x >>= _) p = _
    rw [run_bind, ih has]
    rfl

theorem mapTypesTo_self {k : Nat} (hp : p.Exact hash) (ha : p.Grounded hash k a)
    (h : ¬ p.Occurs hash (leaf · ≠ none) a) : mapTypesTo hash skips leaf k a p = some (.ok (a, p)) := by
  induction ha with
  | @intro k a n hn _ ih =>
    have hleaf : leaf n = none := Classical.byContradiction fun hne => h (.here hn hne)
    have hparts : n.children.mapM (mapTypesTo hash skips leaf k) p = some (.ok (n.children, p)) :=
      mapM_self fun b hb => ih b hb fun k => h (.part hn hb k)
    obtain ⟨f, hf, -⟩ := hp.exists_flagsOf hn
    rw [mapTypesTo_eq k hn hf (hp.construct_self hn), hleaf]
    split
    · rfl
    · show (n.children.mapM (mapTypesTo hash skips leaf k) >>= _) p = _
      rw [run_bind, hparts]
      show build hash (n.withChildren n.children) p = _
      rw [n.withChildren_children]
      exact congrArg some (hp.construct_self hn)

theorem mapM_congr {x y : Handle → Interning Handle} {as : List Handle} (hp : p.Exact hash)
    (hx : ∀ a ∈ as, ∀ q, q.Exact hash → p.Grows hash q → Ends hash (fun _ => True) (x a) q fun _ _ => True)
    (h : ∀ a ∈ as, ∀ q, q.Exact hash → p.Grows hash q → x a q = y a q) : as.mapM x p = as.mapM y p := by
  induction as generalizing p with
  | nil => rfl
  | cons a as ih =>
    obtain ⟨ha, has⟩ := List.forall_mem_cons.mp h
    obtain ⟨hxa, hxas⟩ := List.forall_mem_cons.mp hx
    rw [List.mapM_cons, List.mapM_cons, run_bind, run_bind, ← ha p hp (.refl hash p)]
    rcases hxa p hp (.refl hash p) with ⟨e, hrun, -⟩ | ⟨b, q, hrun, hq, hgrows, -⟩
    · rw [hrun]
    · rw [hrun]
      show (as.mapM x >>= _) q = (as.mapM y >>= _) q
      rw [run_bind, run_bind, ih hq (fun a ha r hr hgrows' => hxas a ha r hr (hgrows.trans hgrows'))
        fun a ha r hr hgrows' => has a ha r hr (hgrows.trans hgrows')]

theorem mapTypesTo_congr {k : Nat}
    (hskips : ∀ {q : TypePool} {a : Handle} {f : TypeFlags}, q.Exact hash → q.flagsOf hash a = some f →
      skips f = true → ¬ q.Occurs hash (leaf · ≠ none) a)
    (ha : p.Grounded hash k a) (hq : q.Exact hash) (hgrows : p.Grows hash q) :
    mapTypesTo hash skips leaf k a q = mapTypesTo hash (fun _ => false) leaf k a q := by
  induction ha generalizing q with
  | @intro k a n hn hparts ih =>
    have hn' := hgrows.lookup hn
    obtain ⟨f, hf, -⟩ := hq.exists_flagsOf hn'
    by_cases hskip : skips f = true
    · have hnone := hskips hq hf hskip
      have hgrounded := hgrows.grounded (.intro hn hparts)
      rw [mapTypesTo_self hq hgrounded hnone, mapTypesTo_self hq hgrounded hnone]
    · rw [mapTypesTo_eq k hn' hf (hq.construct_self hn'), mapTypesTo_eq k hn' hf (hq.construct_self hn'), if_neg hskip,
        if_neg Bool.false_ne_true]
      cases leaf n with
      | some b => rfl
      | none =>
        show (n.children.mapM (mapTypesTo hash skips leaf k) >>= _) q =
          (n.children.mapM (mapTypesTo hash (fun _ => false) leaf k) >>= _) q
        rw [run_bind, run_bind, mapM_congr hq
          (fun b hb r hr hgrows' => mapTypesTo_grows hr ((hgrows.trans hgrows').grounded (hparts b hb)))
          fun b hb r hr hgrows' => ih b hb hr (hgrows.trans hgrows')]

theorem ends_rewrite {R : Handle → Handle → TypePool → Prop}
    (hmono : ∀ {a b q r}, q.Grows hash r → R a b q → R a b r)
    (hleaf : ∀ {a n b q}, p.lookup hash a = some n → p.Grows hash q → leaf n = some b → R a b q)
    (hnode : ∀ {a n bs q}, p.lookup hash a = some n → leaf n = none → q.Exact hash → p.Grows hash q →
      List.Forall₂ (R · · q) n.children bs → Ends hash E (build hash (n.withChildren bs)) q (R a))
    (hp : p.Exact hash) (hn : p.lookup hash a = some n) : Ends hash E (rewrite hash leaf a) p (R a) := by
  refine ends_mapTypesTo (R := R) hmono (fun _ _ _ hskip => ?_) hleaf hnode (hp.grounded hn) hp (.refl hash p)
  exact absurd hskip Bool.false_ne_true

theorem mapTypes_self (hp : p.Exact hash) (hn : p.lookup hash a = some n) (h : ¬ p.Occurs hash (leaf · ≠ none) a) :
    mapTypes hash skips leaf a p = some (.ok (a, p)) :=
  mapTypesTo_self hp (hp.grounded hn) h

theorem mapTypes_eq_rewrite
    (hskips : ∀ {q : TypePool} {a : Handle} {f : TypeFlags}, q.Exact hash → q.flagsOf hash a = some f →
      skips f = true → ¬ q.Occurs hash (leaf · ≠ none) a)
    (hp : p.Exact hash) (hn : p.lookup hash a = some n) :
    mapTypes hash skips leaf a p = rewrite hash leaf a p :=
  mapTypesTo_congr hskips (hp.grounded hn) hp (.refl hash p)

end TypePool

end TypeFlow
