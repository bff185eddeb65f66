import TypeFlow.Proofs.Infer.Plan
import TypeFlow.Proofs.Infer.Scoping

namespace TypeFlow

variable {c : BodyContext} {T : Theory c} {A : Prop} {g : Spot}

namespace Theory

theorem fits_applyAll {σ : Scope} {l : Layer} {fs : List FlowFact} (hl : T.fits σ l)
    (h : ∀ f ∈ fs, T.Fact σ f) : T.fits σ (l.applyAll c.registry fs) := by
  induction fs generalizing l with
  | nil => exact hl
  | cons f fs ih => exact ih (T.apply hl (h f (by simp))) fun k hk => h k (by simp [hk])

theorem fits_foldl_merge {σ : Scope} {l : Layer} {ls : List Layer} (hl : T.fits σ l)
    (h : ∀ m ∈ ls, T.fits σ m) : T.fits σ (ls.foldl (Layer.merge c.registry) l) := by
  induction ls generalizing l with
  | nil => exact hl
  | cons m ls ih => exact ih (T.merge hl (h m (by simp))) fun n hn => h n (by simp [hn])

theorem fits_joined {σ : Scope} {os : List Outcome} {l : Layer} (h : ∀ o ∈ os, T.fits σ o.layer)
    (hj : FlowStack.joined c.registry os = some l) : T.fits σ l := by
  unfold FlowStack.joined at hj
  have hm : ∀ m ∈ (os.filter fun o => !o.terminal).map (·.layer), T.fits σ m := by
    intro m hm
    obtain ⟨o, ho, rfl⟩ := List.mem_map.mp hm
    exact h o (List.mem_filter.mp ho).1
  split at hj
  · cases hj
  · next m ms heq =>
    rw [heq] at hm
    cases hj
    exact T.fits_foldl_merge (hm m (by simp)) fun n hn => hm n (by simp [hn])

end Theory

section Reading

variable {α : Type} {us : List Turn} {Q : α → Spot → Prop}

theorem plan_registry {f : Registry → Infer α} (h : Plan T A g us (f c.registry) Q) :
    Plan T A g us (Infer.registry >>= f) Q := Plan.read (f := fun d => f d.registry) h

theorem plan_assignable {t u : Ty} {f : Bool → Infer α}
    (h : Plan T A g us (f (c.registry.assignableIn c.bounds t u)) Q) :
    Plan T A g us (Infer.assignable t u >>= f) Q :=
  Plan.read (f := fun d => read >>= fun e => f (d.registry.assignableIn e.bounds t u)) (.read h)

end Reading

theorem rule_look {α : Type} {f : Sight → α} {Q : α → Prop}
    (h : A → ∀ v : Sight, v.scope = g.scope → T.fits g.scope v.layer →
      (v.aborted = true → T.stopped) → Q (f v)) :
    Rule T A g [] (do return f (← Infer.look)) Q :=
  Rule.andThen Plan.look fun v => Rule.pure fun hA => h hA.1 v hA.2.1 hA.2.2.1 hA.2.2.2

theorem rule_isAborted : Rule T A g [] Infer.isAborted fun b => b = true → T.stopped :=
  rule_look (f := (·.aborted)) fun _ _ _ _ h => h

theorem rule_lookupLocal (x : String) :
    Rule T A g [] (Infer.lookupLocal x) fun o =>
      o = g.scope.lookup x ∧ ∀ l, o = some l → T.good l.ty := by
  refine rule_look (f := (·.scope.lookup x)) fun _ v hscope hfits _ => ?_
  rw [hscope]
  exact ⟨rfl, fun l hl => T.lookup hfits hl⟩

theorem rule_narrowing (p : Path) :
    Rule T A g [] (Infer.narrowing p) fun o => ∃ l, T.fits g.scope l ∧ o = l.get p :=
  rule_look (f := (·.layer.get p)) fun _ v _ hfits _ => ⟨v.layer, hfits, rfl⟩

theorem rule_narrowed (p : Path) :
    Rule T A g [] (Infer.narrowed p) fun o => (∀ t, o = some t →
      T.good t ∧ (T.final → p.fields = [] → ∀ l, g.scope.lookup p.root = some l → T.views l.ty t)) ∧
        ∃ l, T.fits g.scope l ∧ o = l.narrowed p := by
  refine rule_look (f := (·.layer.narrowed p)) fun _ v _ hfits _ => ⟨fun t ht => ?_, v.layer, hfits, rfl⟩
  obtain ⟨n, hn, rfl⟩ := Option.map_eq_some_iff.mp ht
  refine ⟨T.entry hfits hn, fun hfinal hp l hl => ?_⟩
  obtain ⟨root, fields⟩ := p
  cases hp
  exact (T.settled hfinal).known hfits hn hl

theorem rule_report (span : Span) (cause : Cause) :
    Rule T A g [] (Infer.report span cause) fun t => t = .error ∧ T.reported span :=
  Plan.report span cause

theorem rule_error (span : Span) (cause : Cause) : Rule T A g [] (Infer.report span cause) T.good :=
  (rule_report span cause).imp fun _ _ h => h.1 ▸ T.error h.2

theorem Rule.fine {us : List Turn} {x : Infer Ty} (h : Rule T A g us x T.good) : Rule T A g us x T.fine :=
  h.imp fun _ _ ht => .inl ht

theorem rule_fault (span : Span) (cause : Cause) :
    Rule T A g [] (discard (Infer.report span cause)) fun _ => T.reported span :=
  (rule_report span cause).discard fun _ _ h => h.2

theorem rule_resolveType {w : Written} (hw : T.written w) (span : Span) :
    Rule T A g [] (Infer.resolveType w span) fun t => T.good t ∧ t = c.writtenType w := by
  unfold Infer.resolveType
  refine .read (.read ?_)
  split
  · next t ht => exact Rule.pure fun _ => ⟨T.laws.resolve hw ht, by simp [BodyContext.writtenType, ht]⟩
  · next e he =>
    refine (rule_report _ _).imp fun t _ ht => ⟨ht.1 ▸ T.error ht.2, ?_⟩
    simp [BodyContext.writtenType, he, ht.1]

theorem rule_applyFacts {fs : List FlowFact} (h : A → ∀ f ∈ fs, T.Fact g.scope f) :
    Rule T A g [] (Infer.applyFacts fs) fun _ => True :=
  .amend (.apply fs) fun hA _ hl => T.fits_applyAll hl (h hA)

theorem rule_joinBranches {os : List Outcome} (h : A → ∀ o ∈ os, T.fits g.scope o.layer) :
    Rule T A g [] (Infer.joinBranches os) fun _ => True := by
  refine .amend (.join os) fun hA l hl => ?_
  cases hj : FlowStack.joined c.registry os with
  | none => exact hl
  | some m => exact T.fits_joined (h hA) hj

theorem rule_invalidate (p : Path) : Rule T A g [] (Infer.invalidate p) fun _ => True :=
  .amend (.forget p) fun _ _ hl => T.invalidate p hl

theorem rule_overwrite (p : Path) : Rule T A g [] (Infer.overwrite p) fun _ => True :=
  .amend (.write p) fun _ _ hl => T.invalidate p hl

theorem rule_invalidateAll (ps : List Path) :
    Rule T A g [] (Infer.invalidateAll ps) fun _ => True := by
  induction ps generalizing A with
  | nil => exact Rule.pure fun _ => True.intro
  | cons p ps ih => exact (rule_invalidate p).andThen fun _ => ih

theorem rule_declaredFrom {t : Ty} {p : Path} (h : A → T.good t ∧ T.bound g.scope p t) (fs : List String) :
    Rule T A g [] (Infer.declaredFrom t p fs) fun o =>
      ∀ u, o = some u → T.good u ∧ T.bound g.scope ⟨p.root, p.fields ++ fs⟩ u := by
  induction fs generalizing A t p with
  | nil =>
    refine Rule.pure fun hA u hu => ?_
    rw [List.append_nil]
    exact Option.some.inj hu ▸ h hA
  | cons f fs ih =>
    unfold Infer.declaredFrom
    refine (rule_narrowed p).andThen fun o => plan_registry ?_
    split
    · next u hu =>
      refine (ih (p := p.field f) fun hA => ?_).imp fun o _ ho v hv => ?_
      · obtain ⟨hA, hgood, l, hfits, rfl⟩ := hA
        refine ⟨T.laws.fieldType ?_ hu, T.through hfits (h hA).2 hu⟩
        cases hn : l.narrowed p with
        | none => exact .inl (h hA).1
        | some v => exact .inl (hgood v hn).1
      · have hv := ho v hv
        rwa [Path.field, List.append_assoc] at hv
    · exact Rule.pure fun _ _ hu => absurd hu (by simp)

theorem rule_declaredType (p : Path) :
    Rule T A g [] (Infer.declaredType p) fun o => ∀ u, o = some u → T.good u ∧ T.bound g.scope p u := by
  unfold Infer.declaredType
  refine (rule_lookupLocal p.root).andThen fun o => ?_
  cases o with
  | none => exact Rule.pure fun _ => nofun
  | some l => exact rule_declaredFrom (fun hA => ⟨hA.2.2 l rfl, T.root hA.2.1.symm⟩) p.fields

structure Account.OnPath (T : Account c) (σ : Scope) (path : Option Path) (q : Path × Ty) : Prop where
  path : path = some q.1
  about : T.about q.1
  good : T.good q.2
  bound : T.bound σ q.1 q.2

theorem rule_narrowable {path : Option Path} (h : ∀ p, path = some p → T.about p) :
    Rule T A g [] (Infer.narrowable path) fun o => ∀ q, o = some q → T.OnPath g.scope path q := by
  unfold Infer.narrowable
  split
  · exact Rule.pure fun _ => nofun
  · next p =>
    refine (rule_declaredType p).andThen fun o => Rule.pure fun hA q hq => ?_
    obtain ⟨t, ht, rfl⟩ := Option.map_eq_some_iff.mp hq
    obtain ⟨hgood, hbound⟩ := hA.2 t ht
    exact ⟨rfl, h p rfl, hgood, hbound⟩

theorem rule_localPath (path : Option Path) :
    Rule T A g [] (Infer.localPath path) fun o => ∀ p, o = some p →
      path = some p ∧ (g.scope.lookup p.root).isSome = true := by
  unfold Infer.localPath
  split
  · exact Rule.pure fun _ => nofun
  · refine (rule_lookupLocal _).andThen fun o => Rule.pure fun hA q hq => ?_
    obtain ⟨l, rfl, rfl⟩ := Option.map_eq_some_iff.mp hq
    exact ⟨rfl, by rw [← hA.2.1]; rfl⟩

theorem rule_requireMutable (p : Path) (span : Span) :
    Rule T A g [] (Infer.requireMutable p span) fun _ => True := by
  unfold Infer.requireMutable
  refine (rule_lookupLocal _).andThen fun o => ?_
  cases o with
  | none => exact Rule.pure fun _ => True.intro
  | some l => exact Rule.ite (fun _ => Rule.pure fun _ => True.intro) fun _ => (rule_fault _ _).trivial

theorem rule_write (p : Path) (span : Span) : Rule T A g [] (Infer.write p span) fun _ => True :=
  (rule_requireMutable p span).andThen fun _ => rule_overwrite p

end TypeFlow
