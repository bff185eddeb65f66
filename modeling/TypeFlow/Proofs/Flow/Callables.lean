import TypeFlow.Infer.Condition
import TypeFlow.Proofs.Flow.Rooted

namespace TypeFlow

inductive Ty.Offers : Ty → Ty → Prop
  | error : Offers .error .error
  | function (ps : List Ty) (v : Bool) (r : Ty) : Offers (.function ps v r) (.function ps v r)
  | option {t f : Ty} : Offers t f → Offers (.option t) f
  | union {ts : List Ty} {t f : Ty} : t ∈ ts → Offers t f → Offers (.union ts) f

namespace Ty

variable {f t u : Ty} {ts : List Ty}

theorem Offers.optionInner (h : u.Offers f) (k : t.optionInner = some u) : t.Offers f := by
  cases t <;> simp only [Ty.optionInner, reduceCtorEq, Option.some.injEq] at k
  subst k
  exact .option h

theorem Offers.unionParts (h : u.Offers f) (k : u ∈ t.unionParts) : t.Offers f := by
  cases t <;> simp only [Ty.unionParts, List.mem_singleton, List.not_mem_nil] at k
  case union ts => exact .union k h
  all_goals exact k ▸ h

theorem exists_of_offers_ofMembers (h : (ofMembers ts).Offers f) : ∃ t ∈ ts, t.Offers f := by
  match ts, h with
  | [t], h => exact ⟨t, by simp, h⟩
  | _ :: _ :: _, .union hmem h => exact ⟨_, hmem, h⟩

theorem exists_of_offers_mkUnion (h : (mkUnion ts).Offers f) : ∃ t ∈ ts, t.Offers f := by
  obtain ⟨u, hu, hf⟩ := exists_of_offers_ofMembers h
  obtain ⟨t, ht, hut⟩ := List.mem_flatMap.mp (mem_sorted.mp hu)
  exact ⟨t, ht, hf.unionParts hut⟩

def Shows (d t : Ty) : Prop := ∀ f, t.Offers f → d.Offers f

end Ty

namespace Registry

variable {r : Registry} {d t u : Ty}

theorem offers_of_exhaustiveMembers {f : Ty} {ms : List Ty} (h : r.exhaustiveMembers t = some ms)
    (hu : u ∈ ms) (hf : u.Offers f) : t.Offers f := by
  unfold exhaustiveMembers at h
  split at h
  · cases h
    exact .union hu hf
  · split at h
    · obtain ⟨d, -, hd⟩ := exists_of_mem_mapM h hu
      unfold plainDecl at hd
      split at hd
      · split at hd <;> cases hd
        cases hf
      · cases hd
    · cases h
  · cases h

theorem shows_of_canHold (h : d.Shows t) (k : r.canHold t u = true) : d.Shows u := by
  intro f hf
  refine h f ?_
  rcases Bool.or_eq_true_iff.mp k with heq | k
  · exact eq_of_beq heq ▸ hf
  · split at k
    · unfold implements at k
      split at k
      · cases hf
      · cases k
    · exact .union (List.contains_iff_mem.mp k) hf
    · cases k

end Registry

namespace Narrowing

variable {r : Registry} {n : Narrowing}

theorem shows_base (n : Narrowing) : n.declared.Shows n.base := by
  unfold base
  split
  · next u hu =>
    split
    · exact fun f hf => hf.optionInner hu
    · exact fun _ => id
  · exact fun _ => id

theorem shows_remaining (h : n.declared.Shows n.ty) : n.declared.Shows (n.remaining r) := by
  unfold remaining
  split
  · exact h
  · next ms hms =>
    have hleft : ∀ m ∈ ms.filter fun m => !n.excludes m, n.declared.Shows m :=
      fun m hm f hf => n.shows_base f (Registry.offers_of_exhaustiveMembers hms (List.mem_filter.mp hm).1 hf)
    split
    · exact nofun
    · next t heq => exact hleft t (by simp [heq])
    · split
      · intro f hf
        obtain ⟨t, ht, hft⟩ := Ty.exists_of_offers_mkUnion hf
        exact hleft t ht f hft
      · exact h

theorem shows_refine {f : Fact} (h : n.declared.Shows n.ty)
    (hf : ∀ t, f = .is t → n.declared.Shows t) : n.declared.Shows (n.refine r f).ty := by
  cases f with
  | is t => exact hf t rfl
  | isNot t => exact shows_remaining (n := { n with excluded := Ty.insertSorted t n.excluded }) h
  | notNone =>
    intro g hg
    cases ho : n.ty.optionInner with
    | none => exact h g (by simpa [refine, ho] using hg)
    | some u =>
      have hu : u.Offers g := by simpa [refine, ho] using hg
      exact h g (hu.optionInner ho)
  | isNone => exact h

end Narrowing

def Narrowing.Suits (o : Option Local) (p : Path) (n : Narrowing) : Prop :=
  p.fields = [] → ∀ loc, o = some loc → n.declared = loc.ty ∧ loc.ty.Shows n.ty

def Layer.Matches (σ : Scope) (l : Layer) : Prop := l.Rooted Narrowing.Suits σ

namespace Layer

variable {r : Registry} {σ τ : Scope} {l m : Layer}

theorem matches_empty (σ : Scope) : Matches σ {} := nofun

theorem Matches.invalidate (h : l.Matches σ) (p : Path) : (l.invalidate p).Matches σ :=
  Rooted.invalidate h p

theorem Matches.apply {f : FlowFact} (h : l.Matches σ)
    (hd : f.path.fields = [] → ∃ loc, σ.lookup f.path.root = some loc ∧ loc.ty = f.declared)
    (ht : f.path.fields = [] → ∀ t, f.fact = .is t → f.declared.Shows t) :
    (l.apply r f).Matches σ := by
  refine Rooted.apply h fun hp loc hloc => ?_
  obtain ⟨loc', hloc', heq⟩ := hd hp
  cases hloc.symm.trans hloc'
  have hview := l.declared_view f.path f.declared
  have hbefore : (l.view f.path f.declared).declared.Shows (l.view f.path f.declared).ty := by
    rcases view_cases (l := l) f.path f.declared with hmem | hnew
    · obtain ⟨hdecl, hshows⟩ := h _ hmem hp loc hloc
      exact hdecl ▸ hshows
    · rw [hnew]
      exact fun _ => id
  have htest : ∀ t, f.fact = .is t → (l.view f.path f.declared).declared.Shows t := by
    rw [hview]
    exact ht hp
  have hafter := Narrowing.shows_refine (r := r) hbefore htest
  rw [hview] at hafter
  rw [heq]
  exact ⟨(Narrowing.declared_refine _).trans hview, hafter⟩

theorem Matches.merge (hl : l.Matches σ) (hm : m.Matches σ) : (l.merge r m).Matches σ := by
  refine Rooted.merge hl hm fun ha hb hmerge hp loc hloc => ?_
  obtain ⟨hdecl, hleft⟩ := ha hp loc hloc
  obtain ⟨-, hright⟩ := hb hp loc hloc
  refine ⟨(Narrowing.declared_merge hmerge).trans hdecl, ?_⟩
  unfold Narrowing.merge at hmerge
  split at hmerge
  · cases hmerge
  · split at hmerge
    · rwa [← Option.some.inj hmerge]
    · split at hmerge
      · rwa [← Option.some.inj hmerge]
      · cases hmerge

theorem Matches.bind (h : l.Matches σ) (x : String) (loc : Local) :
    (l.invalidate ⟨x, []⟩).Matches (σ.bind x loc) := Rooted.bind h x loc

theorem Matches.leave {f : FlowStack} (h : f.top.Matches τ) (ho : τ.outer = σ.own :: σ.outer) :
    (τ.ownNames.foldl (fun f x => f.invalidate ⟨x, []⟩) f).top.Matches σ := Rooted.leave h ho

end Layer

end TypeFlow
