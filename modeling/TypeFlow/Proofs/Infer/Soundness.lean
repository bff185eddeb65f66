import Mathlib.Data.List.Nodup
import TypeFlow.Proofs.Infer.Findings

namespace TypeFlow

open BodyState (Writes)

variable {c : BodyContext} {tested : Path → Prop} {good : Ty → Prop} {F : Findings}

theorem Turn.finalIds_partsIn (types : Expr → Option Ty) (σ : Scope) (e : Expr) :
    Turn.finalIds ((c.partsIn types σ e).map Turn.of) = e.parts.flatMap Expr.ids := by
  rw [← Turn.ids_partsIn types σ e, Turn.finalIds, List.filter_eq_self.mpr]
  exact List.forall_mem_map.mpr fun _ _ => rfl

theorem Expr.ids_of_site {e : Expr} {site : Site} (h : e.site? = some site) :
    e.ids = e.parts.flatMap Expr.ids ++ [site.id] := by
  rw [Expr.ids_eq, h]
  rfl

theorem Expr.isUntypedLiteral_part {e p : Expr} (h : e.isUntypedLiteral = true) (hp : p ∈ e.parts) :
    p.isUntypedLiteral = true := by
  cases e
  case int | float | noneLit | nilLit => cases hp
  case neg s q =>
    rw [List.mem_singleton.mp hp]
    cases q
    case int | float => rfl
    all_goals cases h
  all_goals cases h

theorem BodyState.Untouched.part {s : BodyState} {e p : Expr} (h : s.Untouched e) (hp : p ∈ e.parts) :
    s.Untouched p := by
  rcases h with h | h
  · exact .inl (Expr.isUntypedLiteral_part h hp)
  · refine .inr fun i hi => h i ?_
    rw [Expr.ids_eq]
    exact List.mem_append_left _ (List.mem_flatMap.mpr ⟨p, hp, hi⟩)

theorem Turn.open_parts {types : Expr → Option Ty} {σ : Scope} {e : Expr} {site : Site} {s : BodyState}
    (hsite : e.site? = some site) (hnodup : e.ids.Nodup) (huntouched : s.Untouched e) :
    Turn.Open site.id s ((c.partsIn types σ e).map Turn.of) := by
  rw [Expr.ids_of_site hsite] at hnodup
  obtain ⟨hparts, -, hown⟩ := List.nodup_append.mp hnodup
  obtain ⟨heach, hpairs⟩ := List.nodup_flatMap.mp hparts
  refine ⟨List.forall_mem_map.mpr fun q hq => ?_, Turn.settled_of_apart ?_, fun hi => ?_⟩
  · have hmem : q.2 ∈ e.parts := by
      rw [← c.map_snd_partsIn types σ e]
      exact List.mem_map_of_mem hq
    exact ⟨heach _ hmem, huntouched.part hmem⟩
  · rw [← c.map_snd_partsIn types σ e, List.pairwise_map] at hpairs
    exact List.pairwise_map.mpr (hpairs.imp fun hd i hi hj => hd hi hj)
  · rw [Turn.ids_partsIn] at hi
    exact hown _ hi _ (List.mem_singleton.mpr rfl) rfl

theorem Findings.Follows.visit {site : Site} {act : Infer Typed} {s t : BodyState} {is : List Nat}
    (h : F.Follows ((Infer.visit site act).after c s) is) (ht : t = act.after c s) :
    (Infer.visit site act).value c s = act.value c s ∧
      (Infer.visit site act).after c s = { t with types := (site.id, (act.value c s).ty) :: t.types } := by
  have hrunning := h.running
  have hs : s.aborted = false := by
    rw [← Bool.not_eq_true]
    intro hs
    rw [(Infer.run_visit_of_aborted c site act hs).1] at hrunning
    exact nomatch hs.symm.trans hrunning
  obtain ⟨hafter, hvalue⟩ := Infer.run_visit c site act hs ht
  rw [hafter] at hrunning
  split at hrunning
  · next ht => exact nomatch ht.symm.trans hrunning
  · next ht =>
    rw [if_neg ht] at hafter hvalue
    exact ⟨hvalue, hafter⟩

theorem Findings.checked_visit {L : BodyClosure c good} {hF : F.Permits good} {e : Expr} {site : Site}
    {act : Infer Typed} {s : BodyState} (hsite : e.site? = some site)
    (hplan : Plan (F.theory tested L hF) True ⟨site.id, s.scope, s.instOf site.id⟩
      ((c.partsIn F.exprType s.scope e).map Turn.of) act
      ((F.account c tested good).Leaves ⟨site.id, s.scope, s.instOf site.id⟩ e))
    (hready : s.Ready c.registry tested good e)
    (hfollows : F.Follows ((Infer.visit site act).after c s) e.ids) :
    F.Checked c tested good e s ((Infer.visit site act).value c s) ((Infer.visit site act).after c s) := by
  generalize ht : act.after c s = t
  obtain ⟨hvalue, hafter⟩ := hfollows.visit ht.symm
  have hids := Expr.ids_of_site hsite
  have hmem : site.id ∈ e.ids := by simp [hids]
  rw [hafter] at hfollows ⊢
  rw [hvalue]
  have hparts : F.Follows t (Turn.finalIds ((c.partsIn F.exprType s.scope e).map Turn.of)) := by
    rw [Turn.finalIds_partsIn]
    have hwrites := BodyState.writes_store (c := c) t site.id (act.value c s).ty
    refine (hfollows.mono ?_).of_writes hwrites fun i hi hmem => ?_
    · rw [hids]
      exact List.subset_append_left _ _
    · have hnodup := hready.nodup
      rw [hids] at hnodup
      exact (List.nodup_append.mp hnodup).2.2 i hi i hmem rfl
  obtain ⟨k, hown, hleaves, hat, hmeets⟩ := hplan.upholds s True.intro
    ⟨rfl, rfl, hready.fits, hready.records⟩
    (Turn.open_parts hsite hready.nodup hready.untouched) (ht ▸ hparts)
  rw [ht] at hat
  have hscope : k.scope = s.scope := hleaves.scope
  have htold : F.typeOf site.id = some (act.value c s).ty :=
    (hfollows.typeOf _ hmem).trans List.lookup_cons_self
  refine ⟨hleaves.result, ?_, hscope ▸ hat.fits, ?_, meets_of_parts (fun site' u hs hu => ?_) fun q hq => ?_⟩
  · rw [exprType, hsite]
    exact htold
  · exact ⟨List.forall_mem_cons.mpr ⟨hleaves.result.ty, hat.records.type⟩, hat.records.inst⟩
  · cases hsite.symm.trans hs
    cases htold.symm.trans hu
    rcases hready.untouched with hlit | hnew
    · exact spec_of_isUntypedLiteral hlit
    · have hspec := hleaves.spec
      rw [(hnew _ hmem).2] at hspec
      have hown : k.own = site.id := hown
      have hinst : k.inst = F.instOf site.id := by
        rw [← hat.inst, hown, hfollows.instOf _ hmem]
        rfl
      have hk : k = ⟨site.id, s.scope, F.instOf site.id⟩ := by rw [← hinst, ← hown, ← hscope]
      exact hk ▸ hspec
  · exact hmeets (Turn.of q) (List.mem_map_of_mem hq) rfl

theorem Expr.sound (tested : Path → Prop) (L : BodyClosure c good) (e : Expr) (ht : ∀ p ∈ e.tested, tested p)
    (h : e.Complete ∧ e.isPresent = true ∨ good .error) : e.Sound c tested good := by
  induction e using Expr.parts_induction with
  | h e ih =>
    intro F hF hg x used s hx hready hfollows
    rw [Expr.tested_eq] at ht
    rw [Expr.sources_eq] at hg
    obtain ⟨hown, hbelow⟩ := List.forall_mem_append.mp ht
    obtain ⟨hgown, hgbelow⟩ := List.forall_mem_append.mp hg
    cases hsite : e.site? with
    | none =>
      cases e
      case missing =>
        have herror : good .error := h.elim (nomatch ·.2) id
        exact ⟨⟨.inl herror, ⟨nofun, nofun⟩, ⟨nofun, nofun⟩⟩, rfl, hready.fits, hready.records,
          Findings.meets_of_parts nofun nofun⟩
      all_goals cases hsite
    | some site =>
      have hparts (p : Expr) (hp : p ∈ e.required ∨ p ∈ e.parts ∧ p.isPresent = true) :
          (F.theory tested L hF).runs p.asChild := by
        have hmem : p ∈ e.parts := hp.elim Expr.mem_parts_of_mem_required And.left
        refine ⟨rfl, ih p hmem (fun q hq => hbelow q (List.mem_flatMap.mpr ⟨p, hmem, hq⟩)) ?_,
          fun q hq => hgbelow q (List.mem_flatMap.mpr ⟨p, hmem, hq⟩)⟩
        exact h.imp_left fun hc => hc.1.runs hp
      obtain ⟨act, heq, hplan⟩ := plan_node (T := F.theory tested L hF) (A := True)
        (g := ⟨site.id, s.scope, s.instOf site.id⟩) (x := x) hsite rfl hparts hown
        (fun _ _ => True.intro) hgown hx used
      rw [heq] at hfollows ⊢
      exact Findings.checked_visit hsite hplan hready hfollows

end TypeFlow
