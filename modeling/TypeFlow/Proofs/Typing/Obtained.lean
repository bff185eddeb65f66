import TypeFlow.Proofs.Check.Stored
import TypeFlow.Proofs.Ty.Composition

namespace TypeFlow

structure Registry.Provides (good : Ty → Prop) (r : Registry) : Prop where
  aliased : ∀ {x t}, r.typeDef x = some (.alias t) → good t
  default : ∀ {d info g t}, r.decl? d = some info → g ∈ info.generics → g.default = some t → good t

theorem DeclInfo.canonical_instantiate (info : DeclInfo) (d : DeclId) {args : List Ty}
    (h : ∀ a ∈ args, a.Canonical) : (info.instantiate d args).Canonical := by
  unfold instantiate
  split <;> exact .intro True.intro h

namespace Registry

variable {r : Registry} {scope : Generics}

theorem canonical_nullary {x : String} {n : Nat} {t u : Ty} (ht : t.Canonical) (h : nullary x n t = .ok u) :
    u.Canonical := by
  unfold nullary at h
  split at h <;> cases h
  exact ht

theorem canonical_builtinType {x : String} {t : Ty} (h : builtinType x = some t) : t.Canonical := by
  unfold builtinType at h
  split at h
  · cases h
    exact .leaf True.intro rfl
  · split at h
    · cases h
      exact .leaf True.intro rfl
    · obtain ⟨p, -, rfl⟩ := Option.map_eq_some_iff.mp h
      exact .leaf True.intro rfl

theorem canonical_constArg {w : Written} {t : Ty} (h : r.constArg scope w = some t) : t.Canonical := by
  unfold constArg at h
  split at h
  · cases h
  · split at h
    · cases h
      exact .leaf True.intro rfl
    · obtain ⟨info, -, h⟩ := Option.bind_eq_some_iff.mp h
      obtain ⟨v, -, rfl⟩ := Option.map_eq_some_iff.mp h
      exact .leaf True.intro rfl

theorem canonical_fillDefaults {ps : Generics} {done : List Ty}
    (hps : ∀ g ∈ ps, ∀ t, g.default = some t → t.Canonical) (hdone : ∀ t ∈ done, t.Canonical) :
    ∀ t ∈ fillDefaults ps done, t.Canonical := by
  induction ps generalizing done with
  | nil => exact hdone
  | cons p ps ih =>
    obtain ⟨hp, hps⟩ := List.forall_mem_cons.mp hps
    refine ih hps (List.forall_mem_append.mpr ⟨hdone, List.forall_mem_singleton.mpr ?_⟩)
    cases hdefault : p.default with
    | none => exact .leaf True.intro rfl
    | some t => exact Ty.canonical_substParams (hp t hdefault) hdone

mutual

theorem canonical_resolve (h : r.Provides Ty.Canonical) : (w : Written) → ∀ {t}, r.resolve scope w = .ok t →
    t.Canonical
  | .named x ws, t, k => by
    rw [resolve] at k
    split at k
    · next p _ => exact canonical_nullary (Ty.Canonical.leaf (t := p.ty) True.intro rfl) k
    split at k
    · next u hu => exact canonical_nullary (canonical_builtinType hu) k
    split at k
    · next u hu => exact canonical_nullary (h.aliased hu) k
    · split at k
      · next info hinfo =>
        split at k
        · obtain ⟨args, hargs, k⟩ := exists_of_bind_ok k
          cases k
          have hdefault : ∀ g ∈ info.generics, ∀ u, g.default = some u → u.Canonical :=
            fun g hg u => h.default hinfo hg
          exact info.canonical_instantiate _ (canonical_resolveArgs h ws hdefault (List.forall_mem_nil _) hargs)
        · cases k
      · cases k
    · cases k
  | .pointer m w, t, k | .reference m w, t, k | .fixedArray m w, t, k => by
    obtain ⟨u, hu, k⟩ := exists_of_bind_ok k
    cases k
    exact .single True.intro rfl (canonical_resolve h w hu)
  | .dynArray w, t, k | .option w, t, k | .channel w, t, k => by
    obtain ⟨u, hu, k⟩ := exists_of_bind_ok k
    cases k
    exact .single True.intro rfl (canonical_resolve h w hu)
  | .map w w', t, k | .result w w', t, k => by
    obtain ⟨u, hu, k⟩ := exists_of_bind_ok k
    obtain ⟨u', hu', k⟩ := exists_of_bind_ok k
    cases k
    exact .pair True.intro rfl (canonical_resolve h w hu) (canonical_resolve h w' hu')
  | .tuple ws, t, k => by
    obtain ⟨us, hus, k⟩ := exists_of_bind_ok k
    cases k
    exact .mkTuple (canonical_resolveAll h ws hus)
  | .function ws v w, t, k => by
    obtain ⟨us, hus, k⟩ := exists_of_bind_ok k
    obtain ⟨u, hu, k⟩ := exists_of_bind_ok k
    cases k
    exact .intro True.intro (List.forall_mem_cons.mpr ⟨canonical_resolve h w hu, canonical_resolveAll h ws hus⟩)
  | .union ws, t, k => by
    obtain ⟨us, hus, k⟩ := exists_of_bind_ok k
    cases k
    exact .mkUnion (canonical_resolveAll h ws hus)
  | .never, t, k => by
    cases k
    exact .leaf True.intro rfl

theorem canonical_resolveAll (h : r.Provides Ty.Canonical) : (ws : List Written) →
    ∀ {ts}, r.resolveAll scope ws = .ok ts → ∀ t ∈ ts, t.Canonical
  | [], ts, k => by
    cases k
    exact nofun
  | w :: ws, ts, k => by
    obtain ⟨u, hu, k⟩ := exists_of_bind_ok k
    obtain ⟨us, hus, k⟩ := exists_of_bind_ok k
    cases k
    exact List.forall_mem_cons.mpr ⟨canonical_resolve h w hu, canonical_resolveAll h ws hus⟩

theorem canonical_resolveArgs (h : r.Provides Ty.Canonical) {x : String} : (ws : List Written) →
    ∀ {ps : Generics} {done args}, (∀ g ∈ ps, ∀ t, g.default = some t → t.Canonical) →
      (∀ t ∈ done, t.Canonical) → r.resolveArgs scope x ws ps done = .ok args → ∀ t ∈ args, t.Canonical
  | [], ps, done, args, hps, hdone, k => by
    cases k
    exact canonical_fillDefaults hps hdone
  | w :: ws, [], done, args, _, hdone, k => by
    cases k
    exact hdone
  | w :: ws, p :: ps, done, args, hps, hdone, k => by
    obtain ⟨-, hps⟩ := List.forall_mem_cons.mp hps
    have hconcat {u : Ty} (hu : u.Canonical) : ∀ t ∈ done ++ [u], t.Canonical :=
      List.forall_mem_append.mpr ⟨hdone, List.forall_mem_singleton.mpr hu⟩
    rw [resolveArgs] at k
    split at k
    · split at k
      · next u hu => exact canonical_resolveArgs h ws hps (hconcat (canonical_constArg hu)) k
      · cases k
    · obtain ⟨u, hu, k⟩ := exists_of_bind_ok k
      exact canonical_resolveArgs h ws hps (hconcat (canonical_resolve h w hu)) k

end

end Registry

theorem Ty.Canonical.optionInner {t u : Ty} (h : t.Canonical) (k : t.optionInner = some u) : u.Canonical := by
  cases t <;> cases k
  exact h.part (List.mem_singleton_self u)

namespace Narrowing

variable {r : Registry} {n : Narrowing} (h : n.Holds Ty.Canonical)

include h

theorem canonical_base : n.base.Canonical := by
  unfold base
  split
  · next u hu =>
    split
    · exact h.declared.optionInner hu
    · exact h.declared
  · exact h.declared

theorem canonical_remaining : (n.remaining r).Canonical := by
  unfold remaining
  split
  · exact h.ty
  · next ms hms =>
    have hleft : ∀ m ∈ ms.filter fun m => !n.excludes m, m.Canonical := by
      intro m hm
      rcases Registry.mem_exhaustiveMembers hms (List.mem_filter.mp hm).1 with hpart | ⟨d, rfl⟩
      · exact (canonical_base h).part hpart
      · exact .leaf True.intro rfl
    split
    · exact .leaf True.intro rfl
    · next t heq => exact hleft t (heq ▸ List.mem_singleton_self t)
    · split
      · exact .mkUnion hleft
      · exact h.ty

theorem canonical_refine {f : Fact} (hf : ∀ t, f = .is t → t.Canonical) : (n.refine r f).Holds Ty.Canonical := by
  cases f with
  | is t => exact ⟨h.declared, hf t rfl⟩
  | isNot t =>
    have hexcluded : Holds Ty.Canonical { n with excluded := Ty.insertSorted t n.excluded } := ⟨h.declared, h.ty⟩
    exact ⟨h.declared, canonical_remaining hexcluded⟩
  | notNone =>
    refine ⟨h.declared, ?_⟩
    rw [refine]
    cases hinner : n.ty.optionInner with
    | none => exact h.ty
    | some u => exact h.ty.optionInner hinner
  | isNone => exact h

end Narrowing

theorem Layer.canonical_apply {r : Registry} {l : Layer} {f : FlowFact} (hl : l.Holds Ty.Canonical)
    (hdeclared : f.declared.Canonical) (hf : ∀ t, f.fact = .is t → t.Canonical) :
    (l.apply r f).Holds Ty.Canonical :=
  hl.set (Narrowing.canonical_refine (hl.view hdeclared) hf)

mutual

inductive Ty.Obtained : Ty → Prop
  | call {ts : List Ty} {t : Ty} (h : Ty.Makes ts t) (hts : ∀ u ∈ ts, Ty.Obtained u) : Ty.Obtained t
  | substParams {t : Ty} {args : List Ty} (ht : Ty.Obtained t) (hargs : ∀ a ∈ args, Ty.Obtained a) :
    Ty.Obtained (t.substParams args)
  | substVars {t : Ty} {bindings : Ty.VarBindings} (ht : Ty.Obtained t) (h : ∀ e ∈ bindings, Ty.Obtained e.2) :
    Ty.Obtained (t.substVars bindings)
  | resolve {r : Registry} {scope : Generics} {w : Written} {t : Ty}
    (haliased : ∀ x u, r.typeDef x = some (.alias u) → Ty.Obtained u)
    (hdefault : ∀ d info, r.decl? d = some info →
      ∀ g ∈ info.generics, ∀ u, g.default = some u → Ty.Obtained u)
    (h : r.resolve scope w = .ok t) : Ty.Obtained t
  | narrowed {l : Layer} {p : Path} {t : Ty} (hl : Layer.Obtained l) (h : l.narrowed p = some t) : Ty.Obtained t

inductive Layer.Obtained : Layer → Prop
  | empty : Layer.Obtained {}
  | apply {r : Registry} {l : Layer} {f : FlowFact} (hl : Layer.Obtained l) (hdeclared : Ty.Obtained f.declared)
    (hf : ∀ t, f.fact = .is t → Ty.Obtained t) : Layer.Obtained (l.apply r f)
  | invalidate {l : Layer} (p : Path) (hl : Layer.Obtained l) : Layer.Obtained (l.invalidate p)
  | merge {r : Registry} {l m : Layer} (hl : Layer.Obtained l) (hm : Layer.Obtained m) :
    Layer.Obtained (l.merge r m)

end

mutual

theorem Ty.Obtained.canonical {t : Ty} : Ty.Obtained t → t.Canonical
  | .call h hts => h.canonical fun u hu => (hts u hu).canonical
  | .substParams ht hargs => Ty.canonical_substParams ht.canonical fun a ha => (hargs a ha).canonical
  | .substVars ht h => Ty.canonical_substVars ht.canonical fun e he => (h e he).canonical
  | .resolve haliased hdefault h =>
    Registry.canonical_resolve ⟨fun hx => (haliased _ _ hx).canonical,
      fun hd hg ht => (hdefault _ _ hd _ hg _ ht).canonical⟩ _ h
  | .narrowed hl h => by
    obtain ⟨n, hn, rfl⟩ := Option.map_eq_some_iff.mp h
    exact (hl.canonical.get hn).ty

theorem Layer.Obtained.canonical {l : Layer} : Layer.Obtained l → l.Holds Ty.Canonical
  | .empty => nofun
  | .apply hl hdeclared hf =>
    Layer.canonical_apply hl.canonical hdeclared.canonical fun t ht => (hf t ht).canonical
  | .invalidate p hl => hl.canonical.invalidate p
  | .merge hl hm => hl.canonical.merge hm.canonical

end

theorem obtained_types_canonical :
    (∀ t : Ty, t.Obtained → t.Canonical) ∧
    (∀ xs ys : List Ty, (∀ x ∈ xs, x.Obtained) → (∀ y ∈ ys, y.Obtained) →
      (Ty.mkUnion xs = Ty.mkUnion ys ↔ ∀ u : Ty, (∃ x ∈ xs, u.MemberOf x) ↔ ∃ y ∈ ys, u.MemberOf y)) ∧
    ∀ xs ys zs : List Ty, (∀ y ∈ ys, y.Obtained) →
      Ty.mkUnion (xs ++ [Ty.mkUnion ys] ++ zs) = Ty.mkUnion (xs ++ ys ++ zs) :=
  ⟨fun _ => Ty.Obtained.canonical,
    fun _ _ hx hy => Ty.mkUnion_eq_iff (fun x h => (hx x h).canonical) fun y h => (hy y h).canonical,
    fun _ _ _ hy => Ty.mkUnion_flatten fun y h => (hy y h).canonical⟩

-- A union put in place of a parameter of a union, which then loses a member.
theorem obtained_types_canonical_narrowed :
    let T := Ty.param "T" 0
    let number := Ty.mkUnion [.prim .i32, .prim .f64]
    let declared := (Ty.mkUnion [T, .unit]).substParams [number]
    let p : Path := ⟨"x", []⟩
    let l := Layer.apply {} {} ⟨p, declared, .isNot .unit⟩
    l.narrowed p = some number ∧ declared.Canonical ∧ number.Canonical ∧
      Ty.mkUnion ([.never] ++ [Ty.mkUnion [number, .unit]] ++ []) = declared := by
  intro T number declared p l
  have hfixed {t : Ty} (h : t ∈ Ty.fixedTypes) : Ty.Obtained t := .call (.fixed h) nofun
  have hnumber : number.Obtained :=
    .call (.union _) (by simpa using ⟨hfixed (by decide), hfixed (by decide)⟩)
  have hunit : Ty.Obtained .unit := hfixed (by decide)
  have hwritten : Registry.resolve {} [⟨"T", 0, .type [] none⟩] (.union [.named "T" [], .named "void" []]) =
      .ok (.mkUnion [T, .unit]) := rfl
  have hdeclared : declared.Obtained :=
    .substParams (.resolve (r := {}) nofun nofun hwritten) (by simpa using hnumber)
  have hnarrowed : l.narrowed p = some number := by decide
  have hl : l.Obtained := .apply .empty hdeclared nofun
  obtain ⟨hcanonical, -, hflatten⟩ := obtained_types_canonical
  refine ⟨hnarrowed, hcanonical _ hdeclared, hcanonical _ (.narrowed hl hnarrowed), ?_⟩
  rw [hflatten _ _ _ (by simpa using ⟨hnumber, hunit⟩)]
  decide

end TypeFlow
