import TypeFlow.Proofs.Check.ErrorFree
import TypeFlow.Proofs.Check.Reached
import TypeFlow.Proofs.Check.Sites

namespace TypeFlow

inductive Expr.Occurs (n : Expr) : Expr → Prop
  | here : Occurs n n
  | inside {e p : Expr} (hp : p ∈ e.parts) (h : Occurs n p) : Occurs n e

theorem Expr.Occurs.ids_subset {e n : Expr} (h : n.Occurs e) : n.ids ⊆ e.ids := by
  induction h with
  | here => exact List.Subset.refl _
  | @inside e p hp _ ih =>
    rw [ids_eq e]
    exact fun i hi => List.mem_append_left _ (List.mem_flatMap.mpr ⟨p, hp, ih hi⟩)

theorem BodyContext.exists_within (c : BodyContext) (types : Expr → Option Ty) {e n : Expr} (h : n.Occurs e)
    (σ : Scope) : ∃ υ, c.Within types σ e υ n := by
  induction h generalizing σ with
  | here => exact ⟨σ, .here σ n⟩
  | @inside e p hp _ ih =>
    rw [← c.map_snd_partsIn types σ e] at hp
    obtain ⟨⟨τ, p⟩, hmem, rfl⟩ := List.mem_map.mp hp
    obtain ⟨υ, hυ⟩ := ih τ
    exact ⟨υ, .inside hmem hυ⟩

namespace Findings

def Binds (F : Findings) (good : Ty → Prop) : Expr → Prop
  | .block _ ss _ => ∀ span x m e, .bind span x m none e ∈ ss → ∃ t, F.exprType e = some t ∧ good t
  | _ => True

variable {F : Findings} {c : BodyContext} {tested : Path → Prop} {good : Ty → Prop} {σ : Scope} {e n : Expr}
  {s : Site} {t : Ty}

theorem binds_of_spec (h : F.errors = []) {g k : Spot} (hspec : (F.account c tested good).Spec g n t k) :
    F.Binds (·.isUntyped = false) n := by
  cases n
  case block s ss e =>
    intro span x m e hmem
    have hinit : (F.account c tested good).Initializes none e := hspec hmem
    obtain ⟨t, ht, hfailed⟩ := hinit True.intro
    exact ⟨t, ht, Bool.eq_false_iff.mpr fun huntyped => not_failed h (hfailed huntyped)⟩
  all_goals exact True.intro

theorem Meets.binds (hmeets : F.Meets c tested good σ e) (h : F.errors = []) (hn : n.Occurs e)
    (hs : n.site? = some s) (ht : F.typeOf s.id = some t) : F.Binds (·.isUntyped = false) n := by
  obtain ⟨υ, hυ⟩ := c.exists_within F.exprType hn σ
  exact binds_of_spec h (hmeets υ n s t hυ hs ht)

theorem Binds.untypedFree (h : F.Binds (·.isUntyped = false) n)
    (hloose : ∀ i ∈ n.ids, ∀ t, F.typeOf i = some t → t.Loose Ty.UntypedFree) : F.Binds Ty.UntypedFree n := by
  cases n
  case block s ss last =>
    intro span x m e hmem
    obtain ⟨t, ht, htyped⟩ := h span x m e hmem
    refine ⟨t, ht, ?_⟩
    unfold exprType at ht
    split at ht
    · next place hplace =>
      have hid : place.id ∈ e.ids := by simp [Expr.ids_of_site hplace]
      have hpart : e ∈ (Expr.block s ss last).parts :=
        List.mem_append_left _ (List.mem_flatMap.mpr ⟨_, hmem, List.mem_singleton_self e⟩)
      exact (hloose _ ((Expr.Occurs.inside hpart .here).ids_subset hid) t ht).typed htyped
    · cases ht
      exact .leaf rfl rfl
  all_goals exact True.intro

end Findings

namespace CheckResult

structure Binds (res : CheckResult) (good : Ty → Prop) (e : Expr) : Prop where
  reached : res.Reaches e
  bound : ∀ n s t, n.Occurs e → n.site? = some s → res.findings.typeOf s.id = some t → res.findings.Binds good n

def BuildsTyped (res : CheckResult) (e : Expr) : Prop :=
  ∀ p ∈ e.sources, ∀ t ∈ res.findings.exprType p, t.isUntyped = false

theorem Binds.untypedFree {res : CheckResult} {e : Expr} {b : BodyState}
    (h : res.Binds (·.isUntyped = false) e) (hfollows : res.findings.Follows b e.ids)
    (hb : b.Records (Ty.Loose Ty.UntypedFree)) : res.Binds Ty.UntypedFree e where
  reached := h.reached
  bound n s t hn hs ht := by
    refine (h.bound n s t hn hs ht).untypedFree fun i hi u hu => ?_
    rw [hfollows.typeOf i (hn.ids_subset hi)] at hu
    exact hb.type _ (mem_of_lookup hu)

end CheckResult

namespace Module

variable {m : Module} {config : CheckConfig}

theorem binds_job (h : (m.check config).errors = []) {j : BodyJob}
    (hj : j ∈ BodyJob.ofModule (m.check config).registry m.number.1) :
    (m.check config).Binds (·.isUntyped = false) j.body := by
  obtain ⟨b, hb⟩ := BodyJob.exists_run m.number.1.registered.registry config.policy
    m.number.1.registered.nextVar hj
  have L : BodyLaws (j.context (m.check config).registry config.policy) fun _ => True :=
    ⟨TypeLaws.trivial _, fun _ _ _ => True.intro⟩
  have hchecked := checked_check (fun _ => True) hb (.inr h) L (fun _ => True.intro)
    (fun _ _ => True.intro) (fun _ _ => True.intro) (.inr True.intro)
  exact ⟨reaches_job (.inr h) hj, fun n s t hn hs ht => hchecked.meets.binds h hn hs ht⟩

theorem binds_const (h : (m.check config).errors = []) {k : ConstItem} (hk : k ∈ m.number.1.consts) :
    (m.check config).Binds (·.isUntyped = false) k.value := by
  have hcounts := m.counts_number
  obtain ⟨b, hb, hchecks⟩ := exists_of_forall₂_left m.number.1.checked_consts hk
  have hfollows : (m.check config).findings.Follows b k.value.ids :=
    follows_const hcounts.nodup (fun i hi => (hcounts.mem hi).2) hb
  have hsilent : b.errors = [] := errors_of_mem (List.mem_append_left _ (List.of_mem_zip hb).2) h
  obtain ⟨c, hmeets⟩ := Register.meets_of_checksTo hchecks (nodup_const hk) hsilent hfollows
  exact ⟨reaches_const hk, fun n s t hn hs ht => hmeets.binds h hn hs ht⟩

theorem exprType_of_mem_consts {b : BodyState} (hb : b ∈ m.number.1.registered.consts) {p : Expr} {t : Ty}
    (ht : b.findings.exprType p = some t) : (m.check config).findings.exprType p = some t := by
  have hcounts := m.counts_number
  unfold Findings.exprType at ht ⊢
  split at ht
  · next s _ =>
    obtain ⟨k, hk, hchecks⟩ := exists_of_forall₂_right m.number.1.checked_consts hb
    have hi : s.id ∈ k.value.ids := by
      by_contra hout
      exact nomatch (Register.unrecorded_of_checksTo hchecks hout).1.symm.trans ht
    exact (lookup_const hcounts.nodup (fun i hi => (hcounts.mem hi).2) hk hi).1.trans ht
  · exact ht

theorem clean_untypedFree (h : (m.check config).errors = [])
    (hc : ∀ k ∈ m.number.1.consts, (m.check config).BuildsTyped k.value) :
    m.number.1.registered.Clean (·.isUntyped = false) fun _ => False := by
  let quiet (b : BodyState) : Prop :=
    ∀ k ∈ m.number.1.consts, ∀ p ∈ k.value.sources, ∀ t, b.findings.exprType p = some t → t.isUntyped = false
  have hquiet : ∀ b ∈ m.number.1.registered.consts, quiet b :=
    fun b hb k hk p hp t ht => hc k hk p hp t (exprType_of_mem_consts hb ht)
  refine (Register.clean_declarations (·.isUntyped = false) quiet m.number.1 {}).2
    (silent_registered h hquiet) ⟨?_, fun k hk => ?_, fun _ _ _ _ => rfl⟩
  · exact ⟨⟨nofun, nofun, nofun, nofun, nofun⟩, nofun⟩
  · refine ⟨.inr rfl, nodup_const hk, fun b hb p hp t ht huntyped => ?_⟩
    exact nomatch (hb k hk p hp t ht).symm.trans huntyped

-- Constants are visible in every body, so what a body binds depends on what they were built over.
theorem untypedFree_check (m : Module) (config : CheckConfig) (h : (m.check config).errors = []) :
    (∀ j ∈ BodyJob.ofModule (m.check config).registry m.number.1,
      (m.check config).Binds (·.isUntyped = false) j.body) ∧
    (∀ k ∈ m.number.1.consts, (m.check config).Binds (·.isUntyped = false) k.value) ∧
    ((∀ k ∈ m.number.1.consts, (m.check config).BuildsTyped k.value) →
      (∀ j ∈ BodyJob.ofModule (m.check config).registry m.number.1,
        (m.check config).BuildsTyped j.body → (m.check config).Binds Ty.UntypedFree j.body) ∧
      (∀ k ∈ m.number.1.consts, (m.check config).Binds Ty.UntypedFree k.value) ∧
      ∀ e ∈ (m.check config).registry.consts, e.2.ty.UntypedFree) := by
  refine ⟨fun j hj => binds_job h hj, fun k hk => binds_const h hk, fun hc => ?_⟩
  have hcounts := m.counts_number
  have hcount : ∀ i ∈ m.number.1.ids, i < m.number.2 := fun i hi => (hcounts.mem hi).2
  have hclean := clean_untypedFree h hc
  have herror : Ty.UntypedFree .error := .leaf rfl rfl
  refine ⟨fun j hj hsources => ?_, fun k hk => ?_, hclean.registry.constant⟩
  · obtain ⟨b, hb⟩ := BodyJob.exists_run m.number.1.registered.registry config.policy
      m.number.1.registered.nextVar hj
    have hholds := BodyJob.holds_ofModule hclean.registry.supplies m.number.1 j hj
    have L := hclean.registry.closure (c := j.context (m.check config).registry config.policy) hholds.ret
    have hchecked := loose_check (fun _ => True) hb (.inr h) L (fun _ => herror) hholds.param
      (fun _ _ => True.intro) (fun p hp t ht huntyped => nomatch (hsources p hp t ht).symm.trans huntyped)
      (.inr herror)
    obtain ⟨n, rfl⟩ := BodyJob.eq_run_of_mem hb
    have hrunning := BodyJob.running_run (.inr (errors_of_mem_states (List.of_mem_zip hb).2 h))
    exact (binds_job h hj).untypedFree (follows_checkNumbered hcounts.nodup hcount hb hrunning) hchecked.records
  · obtain ⟨b, hb, -⟩ := exists_of_forall₂_left m.number.1.checked_consts hk
    exact (binds_const h hk).untypedFree (follows_const hcounts.nodup hcount hb)
      (hclean.const b (List.of_mem_zip hb).2)

def limits : Module where
  consts := [⟨"LIMITS", none, .array {} [.int {} 1, .int {} 2], {}⟩]
  functions := [⟨"main", [], [], false, none,
    .block {} [.bind {} "pair" false none (.tuple {} [.ident {} "LIMITS", .bool {} true])] .missing, {}⟩]

theorem buildsTyped_limits : (∀ k ∈ limits.number.1.consts, (limits.check {}).BuildsTyped k.value) ∧
    ∀ f ∈ limits.number.1.functions, (limits.check {}).BuildsTyped f.body := by
  have hvalue : (Expr.array ⟨2, {}⟩ [.int ⟨0, {}⟩ 1, .int ⟨1, {}⟩ 2]).sources = [.int ⟨0, {}⟩ 1] := by
    simp [Expr.sources_eq, Expr.parts, Expr.ownSources]
  have hbody : (Expr.block ⟨6, {}⟩ [.bind {} "pair" false none (.tuple ⟨5, {}⟩
      [.ident ⟨3, {}⟩ "LIMITS", .bool ⟨4, {}⟩ true])] .missing).sources =
        [.ident ⟨3, {}⟩ "LIMITS", .bool ⟨4, {}⟩ true] := by
    simp [Expr.sources_eq, Expr.parts, Expr.ownSources, Stmt.exprs]
  refine ⟨List.forall_mem_singleton.mpr ?_, List.forall_mem_singleton.mpr ?_⟩
  · intro p hp
    obtain rfl := List.mem_singleton.mp (hvalue ▸ hp)
    decide +kernel
  · intro p hp
    rcases List.mem_cons.mp (hbody ▸ hp) with rfl | hp
    · decide +kernel
    · obtain rfl := List.mem_singleton.mp hp
      decide +kernel

theorem untypedFree_limits : (limits.check {}).errors = [] ∧
    (∀ k ∈ limits.number.1.consts, (limits.check {}).BuildsTyped k.value) ∧
    (∃ j ∈ BodyJob.ofModule (limits.check {}).registry limits.number.1,
      (limits.check {}).BuildsTyped j.body ∧ (limits.check {}).Binds Ty.UntypedFree j.body) ∧
    ∃ t, (limits.check {}).registry.consts.map (·.2.ty) = [t] ∧ t.UntypedFree := by
  have h : (limits.check {}).errors = [] := by decide +kernel
  obtain ⟨hconsts, hfunctions⟩ := buildsTyped_limits
  obtain ⟨hbodies, -, hstored⟩ := (untypedFree_check limits {} h).2.2 hconsts
  have hsite : (BodyJob.ofModule (limits.check {}).registry limits.number.1).head?.bind (·.body.site?) =
      some ⟨6, {}⟩ := by decide +kernel
  obtain ⟨j, hhead, -⟩ := Option.bind_eq_some_iff.mp hsite
  have hj := List.mem_of_head? hhead
  have hsources : (limits.check {}).BuildsTyped j.body := by
    rcases List.mem_append.mp hj with hj | hj
    · obtain ⟨f, hf, hjob⟩ := List.mem_filterMap.mp hj
      exact (BodyJob.body_of_ofFunction hjob).1 ▸ hfunctions f hf
    · cases hj
  have hty : (limits.check {}).registry.consts.map (·.2.ty) = [.dynArray (.prim .i32)] := by decide +kernel
  refine ⟨h, hconsts, ⟨j, hj, hsources, hbodies j hj hsources⟩, _, hty, ?_⟩
  obtain ⟨e, he, heq⟩ := List.mem_map.mp (hty ▸ List.mem_singleton_self _)
  exact heq ▸ hstored e he

def noneArray : Module where
  functions := [⟨"main", [], [], false, none,
    .block {} [.bind {} "x" false none (.array {} [.noneLit {}])] .missing, {}⟩]

example : (noneArray.check {}).errors = [] ∧
    (noneArray.check {}).findings.typeOf 1 = some (.dynArray .untypedNone) :=
  ⟨by decide +kernel, by decide +kernel⟩

end Module

end TypeFlow
