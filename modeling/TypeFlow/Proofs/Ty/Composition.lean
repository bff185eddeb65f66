import TypeFlow.Proofs.Lists
import TypeFlow.Proofs.Ty.Rewriting

namespace TypeFlow

namespace Ty

def isHole : Ty → Bool
  | param .. | var _ => true
  | _ => false

structure Substitutes (leaf : Ty → Option Ty) : Prop where
  isHole : ∀ {t u}, leaf t = some u → t.isHole = true
  canonical : ∀ {t u}, leaf t = some u → u.Canonical

variable {leaf f g : Ty → Option Ty} {t u : Ty} {ts args : List Ty}

theorem mapParts_of_isHole (h : t.isHole = true) (f : Ty → Ty) : t.mapParts f = t := by
  cases t <;> first | rfl | cases h

theorem eq_of_unionParts (ht : t.Canonical) (hu : u.Canonical) (h : ∀ v, v ∈ t.unionParts ↔ v ∈ u.unionParts) :
    t = u := by
  rw [← mkUnion_singleton ht, ← mkUnion_singleton hu]
  exact mkUnion_congr fun v => by simp [h]

namespace Substitutes

variable (hl : Substitutes leaf)

include hl

theorem eq_none (h : t.isHole = false) : leaf t = none :=
  Option.eq_none_iff_forall_ne_some.mpr fun _ hu => Bool.false_ne_true (h.symm.trans (hl.isHole hu))

theorem rewrite_closed (h : t.isHole = false) : t.rewrite leaf = t.mapParts (rewrite leaf) := by
  rw [rewrite_eq, hl.eq_none h, Option.getD_none]

theorem canonical_rewrite (t : Ty) : (t.rewrite leaf).Canonical := by
  induction t using parts_induction with
  | h t ih =>
    rw [rewrite_eq]
    cases hleaf : leaf t with
    | some u => exact hl.canonical hleaf
    | none => exact canonical_mapParts ih

theorem mem_unionParts_rewrite (ht : t.Canonical) :
    u ∈ (t.rewrite leaf).unionParts ↔ ∃ s ∈ t.unionParts, u ∈ (s.rewrite leaf).unionParts := by
  cases t with
  | union ts =>
    rw [hl.rewrite_closed rfl]
    exact mem_unionParts_mkUnion_map fun s _ => hl.canonical_rewrite s
  | never =>
    rw [hl.rewrite_closed rfl]
    simp [mapParts, unionParts]
  | _ => simp [unionParts]

theorem rewrite_mkUnion (h : ∀ t ∈ ts, t.Canonical) :
    (mkUnion ts).rewrite leaf = mkUnion (ts.map (rewrite leaf)) := by
  have hcanonical : ∀ t ∈ ts, (t.rewrite leaf).Canonical := fun t _ => hl.canonical_rewrite t
  refine eq_of_unionParts (hl.canonical_rewrite _) (.mkUnion (List.forall_mem_map.mpr hcanonical)) fun u => ?_
  rw [hl.mem_unionParts_rewrite (.mkUnion h), mem_unionParts_mkUnion_map hcanonical]
  constructor
  · rintro ⟨s, hs, hu⟩
    obtain ⟨t, ht, hst⟩ := (mem_unionParts_mkUnion h).mp hs
    exact ⟨t, ht, (hl.mem_unionParts_rewrite (h t ht)).mpr ⟨s, hst, hu⟩⟩
  · rintro ⟨t, ht, hu⟩
    obtain ⟨s, hst, hu⟩ := (hl.mem_unionParts_rewrite (h t ht)).mp hu
    exact ⟨s, (mem_unionParts_mkUnion h).mpr ⟨t, ht, hst⟩, hu⟩

theorem rewrite_mkTuple (ts : List Ty) : (mkTuple ts).rewrite leaf = mkTuple (ts.map (rewrite leaf)) := by
  match ts with
  | [] => exact hl.rewrite_closed rfl
  | [t] => rfl
  | t :: u :: us => exact hl.rewrite_closed rfl

theorem rewrite_mapParts {f : Ty → Ty} (ht : t.isHole = false) (h : ∀ u ∈ t.parts, (f u).Canonical) :
    (t.mapParts f).rewrite leaf = t.mapParts fun u => (f u).rewrite leaf := by
  cases t with
  | param | var => cases ht
  | tuple ts =>
    rw [mapParts, hl.rewrite_mkTuple, List.map_map]
    rfl
  | union ts =>
    have hparts : ∀ u ∈ ts.map f, u.Canonical := List.forall_mem_map.mpr h
    rw [mapParts, hl.rewrite_mkUnion hparts, List.map_map]
    rfl
  | function | named | interface =>
    rw [hl.rewrite_closed rfl]
    simp [mapParts]
  | _ => exact hl.rewrite_closed rfl

end Substitutes

def thenRewrite (f g : Ty → Option Ty) (t : Ty) : Option Ty :=
  match f t with
  | some u => some (u.rewrite g)
  | none => g t

theorem rewrite_rewrite (hf : Substitutes f) (hg : Substitutes g) (t : Ty) :
    (t.rewrite f).rewrite g = t.rewrite (thenRewrite f g) := by
  induction t using parts_induction with
  | h t ih =>
    cases hleaf : f t with
    | some u =>
      rw [rewrite_eq f, rewrite_eq (thenRewrite f g), thenRewrite, hleaf]
      rfl
    | none =>
      rw [rewrite_eq f, rewrite_eq (thenRewrite f g), thenRewrite, hleaf]
      dsimp only [Option.getD_none]
      cases hhole : t.isHole with
      | true => rw [mapParts_of_isHole hhole, mapParts_of_isHole hhole, rewrite_eq, mapParts_of_isHole hhole]
      | false =>
        rw [hg.rewrite_mapParts hhole fun u _ => hf.canonical_rewrite u, hg.eq_none hhole]
        exact mapParts_congr ih

theorem substitutes_paramLeaf (h : ∀ a ∈ args, a.Canonical) : Substitutes (paramLeaf args) where
  isHole {t u} k := by cases t <;> first | rfl | cases k
  canonical {t u} k := by
    cases t <;> simp only [paramLeaf, reduceCtorEq] at k
    exact h u (List.mem_of_getElem? k)

theorem substitutes_varLeaf {bindings : VarBindings} (h : ∀ e ∈ bindings, e.2.Canonical) :
    Substitutes (varLeaf bindings) where
  isHole {t u} k := by cases t <;> first | rfl | cases k
  canonical {t u} k := by
    cases t <;> simp only [varLeaf, reduceCtorEq] at k
    exact h _ (mem_of_lookup k)

theorem canonical_substParams (ht : t.Canonical) (h : ∀ a ∈ args, a.Canonical) :
    (t.substParams args).Canonical := by
  rw [substParams_eq_rewrite ht]
  exact (substitutes_paramLeaf h).canonical_rewrite t

theorem canonical_substVars {bindings : VarBindings} (ht : t.Canonical) (h : ∀ e ∈ bindings, e.2.Canonical) :
    (t.substVars bindings).Canonical := by
  rw [substVars_eq_rewrite ht]
  exact (substitutes_varLeaf h).canonical_rewrite t

theorem substParams_substParams (ht : t.Canonical) {as bs : List Ty} (ha : ∀ a ∈ as, a.Canonical)
    (hb : ∀ b ∈ bs, b.Canonical) (hbelow : t.ParamsBelow as.length) :
    (t.substParams as).substParams bs = t.substParams (as.map (substParams bs)) := by
  rw [substParams_eq_rewrite (canonical_substParams ht ha), substParams_eq_rewrite ht, substParams_eq_rewrite ht,
    rewrite_rewrite (substitutes_paramLeaf ha) (substitutes_paramLeaf hb)]
  refine rewrite_congr (hbelow.imp fun u hu => ?_)
  cases u with
  | param x i =>
    have hlt : i < as.length := hu x i rfl
    have hi : as[i]? = some as[i] := List.getElem?_eq_getElem hlt
    have hai := substParams_eq_rewrite (ha _ (List.mem_of_getElem? hi)) bs
    simp only [thenRewrite, paramLeaf, List.getElem?_map, hi, hai, Option.map_some]
  | _ => rfl

theorem Everywhere.and {P Q : Ty → Prop} (h : t.Everywhere P) (k : t.Everywhere Q) :
    t.Everywhere fun u => P u ∧ Q u := by
  induction h with
  | intro here _ ih => exact .intro ⟨here, k.node⟩ fun u hu => ih u hu (k.part hu)

-- Unknowns in place of the parameters, and then types in place of the unknowns.
theorem substVars_substParams {vs : List Nat} {cs : List Ty} (ht : t.Canonical) (hc : ∀ c ∈ cs, c.Canonical)
    (hdistinct : vs.Nodup) (hfresh : ¬ t.Somewhere fun u => ∃ v ∈ vs, u = .var v)
    (hlength : cs.length = vs.length) (hbelow : t.ParamsBelow vs.length) :
    (t.substParams (vs.map .var)).substVars (vs.zip cs) = t.substParams cs := by
  have hvars : ∀ a ∈ vs.map Ty.var, a.Canonical := List.forall_mem_map.mpr fun v _ => .leaf True.intro rfl
  have hvalues : ∀ e ∈ vs.zip cs, e.2.Canonical := fun e he => hc e.2 (List.of_mem_zip he).2
  rw [substVars_eq_rewrite (canonical_substParams ht hvars), substParams_eq_rewrite ht, substParams_eq_rewrite ht,
    rewrite_rewrite (substitutes_paramLeaf hvars) (substitutes_varLeaf hvalues)]
  refine rewrite_congr ((hbelow.and (not_somewhere_iff.mp hfresh)).imp fun u hu => ?_)
  cases u with
  | param x i =>
    have hlt : i < vs.length := hu.1 x i rfl
    have hv : vs[i]? = some vs[i] := List.getElem?_eq_getElem hlt
    have hlt' : i < cs.length := hlength ▸ hlt
    have hi : cs[i]? = some cs[i] := List.getElem?_eq_getElem hlt'
    simp only [thenRewrite, paramLeaf, List.getElem?_map, hv, hi, Option.map_some, rewrite_eq, varLeaf,
      lookup_zip hdistinct hv hi, Option.getD_some]
  | var i =>
    refine List.lookup_eq_none_iff.mpr fun e he => bne_iff_ne.mpr fun heq => hu.2 ⟨i, ?_, rfl⟩
    exact heq ▸ (List.of_mem_zip he).1
  | _ => rfl

theorem substitution_composes (ht : t.Built) :
    (∀ as bs : List Ty, (∀ a ∈ as, a.Built) → (∀ b ∈ bs, b.Built) → t.ParamsBelow as.length →
      (t.substParams as).substParams bs = t.substParams (as.map (substParams bs))) ∧
    ∀ (vs : List Nat) (cs : List Ty), vs.Nodup → (¬ t.Somewhere fun u => ∃ v ∈ vs, u = .var v) →
      cs.length = vs.length → (∀ c ∈ cs, c.Built) → t.ParamsBelow vs.length →
      (t.substParams (vs.map .var)).substVars (vs.zip cs) = t.substParams cs :=
  ⟨fun _ _ ha hb =>
      substParams_substParams ht.canonical (fun a h => (ha a h).canonical) fun b h => (hb b h).canonical,
    fun _ _ hdistinct hfresh hlength hc =>
      substVars_substParams ht.canonical (fun c h => (hc c h).canonical) hdistinct hfresh hlength⟩

-- Members that become unions, and members that become one.
theorem substitution_composes_union :
    let T := Ty.param "T" 0
    let t := mkUnion [T, .option (.param "U" 1)]
    let int := Ty.prim .i32
    let as := [mkUnion [int, T], T]
    let bs := [mkUnion [int, .unit]]
    let cs := [.option int, int]
    (t.substParams as).substParams bs = t.substParams (as.map (substParams bs)) ∧
      (t.substParams ([4, 7].map .var)).substVars ([4, 7].zip cs) = t.substParams cs ∧
      t.substParams cs = .option int := by
  intro T t int as bs cs
  have hT : T.Built := .param "T" 0
  have hint : int.Built := .fixed (by decide)
  have hunit : unit.Built := .fixed (by decide)
  have ht : t.Built := .mkUnion (by simpa using ⟨hT, .option (.param "U" 1)⟩)
  have hbelow : t.ParamsBelow 2 := by
    refine (byHead_paramsBelow 2).mkUnion_iff.mpr (List.forall_mem_cons.mpr ⟨paramsBelow_param (by decide), ?_⟩)
    refine List.forall_mem_singleton.mpr (.intro nofun (List.forall_mem_singleton.mpr ?_))
    exact paramsBelow_param (by decide)
  have hfresh : ¬ t.Somewhere fun u => ∃ v ∈ [4, 7], u = .var v :=
    not_somewhere_iff.mpr ((hasVar_eq_false_iff.mp (by rfl)).imp fun u hu ⟨v, _, heq⟩ => hu v heq)
  obtain ⟨hparams, hvars⟩ := substitution_composes ht
  refine ⟨hparams as bs ?_ ?_ hbelow, hvars [4, 7] cs (by decide) hfresh rfl ?_ hbelow, by decide⟩
  · exact List.forall_mem_cons.mpr ⟨.mkUnion (by simpa using ⟨hint, hT⟩), List.forall_mem_singleton.mpr hT⟩
  · exact List.forall_mem_singleton.mpr (.mkUnion (by simpa using ⟨hint, hunit⟩))
  · exact List.forall_mem_cons.mpr ⟨.option hint, List.forall_mem_singleton.mpr hint⟩

end Ty

end TypeFlow
