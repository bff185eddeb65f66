import TypeFlow.Proofs.Infer.Rules.Nodes

namespace TypeFlow

def GenericArg.places (span : Span) : GenericArg → List Span
  | .type _ => [span]
  | .value _ => []

def FieldInit.span : FieldInit → Span
  | .mk _ _ s => s

def Arm.places : Arm → List Span
  | .onType _ _ s => [s]
  | .onValue _ _ _ => []

def Stmt.places : Stmt → List Span
  | .assign s _ _ => [s]
  | _ => []

namespace Expr

def operands : Expr → List Expr
  | call _ _ _ as => as
  | construct _ _ _ fs => fs.map (·.value)
  | e => e.parts

inductive Node : Expr → Expr → Prop
  | here (e : Expr) : Node e e
  | inside {e p n : Expr} (hp : p ∈ e.operands) (h : Node p n) : Node e n

def aftermath : Expr → List Span
  | index s _ _ | isTest s _ _ _ => [s.span]
  | call s _ gs as => gs.flatMap (·.places s.span) ++ as.map (·.span) ++ [s.span]
  | method s _ _ _ => [s.span, s.span]
  | mutArg _ e => [e.span]
  | borrow s m _ => if m then [s.span] else []
  | construct s _ gs fs =>
    fs.map (·.span) ++ gs.flatMap (·.places s.span) ++ fs.map (·.value.span) ++ [s.span]
  | matchOn s _ as _ => as.flatMap (·.places) ++ [s.span]
  | block _ ss _ => ss.flatMap (·.places)
  | _ => []

inductive Stops : Expr → List Span → Prop
  | here (e : Expr) : Stops e e.aftermath
  | inside {e p : Expr} {l : List Span} (hp : p ∈ e.parts) (h : Stops p l) : Stops e (l ++ e.aftermath)

end Expr

namespace BodyState

variable {c : BodyContext} {I : List Span → Prop} {L M : List Span} {E F : List Expr} {s t u : BodyState}

def Reached (s : BodyState) (e : Expr) : Prop :=
  ∀ n site, e.Node n → n.site? = some site → (s.typeOf site.id).isSome = true

theorem isSome_typeOf_of_suffix {i : Nat} (h : s.types <:+ t.types) (hi : (s.typeOf i).isSome = true) :
    (t.typeOf i).isSome = true := by
  obtain ⟨later, hlater⟩ := h
  rw [typeOf, ← hlater, List.lookup_append, Option.isSome_or]
  exact Bool.or_eq_true_iff.mpr (.inr hi)

theorem Reached.mono {e : Expr} (h : s.Reached e) (ht : s.types <:+ t.types) : t.Reached e :=
  fun n site hn hs => isSome_typeOf_of_suffix ht (h n site hn hs)

theorem reached_missing (s : BodyState) : s.Reached .missing := by
  intro n site hn hs
  cases hn with
  | here => cases hs
  | inside hp => cases hp

structure Advances (c : BodyContext) (E : List Expr) (s t : BodyState) : Prop where
  running : t.aborted = false
  errors : c.policy = .abort → t.errors = s.errors
  types : s.types <:+ t.types
  reached : ∀ e ∈ E, t.Reached e

structure Halts (c : BodyContext) (I : List Span → Prop) (L : List Span) (s t : BodyState) : Prop where
  policy : c.policy = .abort
  stopped : t.aborted = true
  errors : ∃ first late l, t.errors = s.errors ++ first :: late ∧ (l = [] ∨ I l) ∧
    (late.map (·.span)).Sublist (l ++ L)

structure Lags (L : List Span) (s t : BodyState) : Prop where
  stopped : t.aborted = true
  errors : ∃ late, t.errors = s.errors ++ late ∧ (late.map (·.span)).Sublist L

theorem Advances.trans (h : Advances c E s t) (k : Advances c F t u) : Advances c (E ++ F) s u where
  running := k.running
  errors hp := (k.errors hp).trans (h.errors hp)
  types := h.types.trans k.types
  reached := List.forall_mem_append.mpr ⟨fun e he => (h.reached e he).mono k.types, k.reached⟩

theorem Advances.halts (h : Advances c E s t) (k : Halts c I M t u) : Halts c I (L ++ M) s u := by
  obtain ⟨first, late, l, herrors, hl, hsub⟩ := k.errors
  refine ⟨k.policy, k.stopped, first, late, l, by rw [herrors, h.errors k.policy], hl, hsub.trans ?_⟩
  exact (List.sublist_append_right L M).append_left l

theorem Halts.lags (h : Halts c I L s t) (k : Lags M t u) : Halts c I (L ++ M) s u := by
  obtain ⟨first, late, l, herrors, hl, hsub⟩ := h.errors
  obtain ⟨later, hlater, hsub'⟩ := k.errors
  refine ⟨h.policy, k.stopped, first, late ++ later, l, by simp [hlater, herrors], hl, ?_⟩
  rw [List.map_append, ← List.append_assoc]
  exact hsub.append hsub'

theorem Lags.trans (h : Lags L s t) (k : Lags M t u) : Lags (L ++ M) s u := by
  obtain ⟨late, herrors, hsub⟩ := h.errors
  obtain ⟨later, hlater, hsub'⟩ := k.errors
  refine ⟨k.stopped, late ++ later, by simp [hlater, herrors], ?_⟩
  rw [List.map_append]
  exact hsub.append hsub'

end BodyState

namespace Infer

open BodyState (Advances Halts Lags)

variable {c : BodyContext} {I : List Span → Prop} {A B : Prop} {L M : List Span} {E F : List Expr}
  {α β : Type} {x y : Infer α} {f : α → Infer β} {Q Q' : α → Prop} {R : β → Prop}

-- From a running state, an action gives types to the trees `E` or stops. From a stopped one, under `A`,
-- it reports at places of `L` only. Where checking is stopped in the end, `Q` holds of the value.
structure Course (c : BodyContext) (I : List Span → Prop) (A : Prop) (L : List Span) (E : List Expr)
    (x : Infer α) (Q : α → Prop) : Prop where
  late : A → ∀ s : BodyState, s.aborted = true → Lags L s (x.after c s) ∧ Q (x.value c s)
  live : ∀ s : BodyState, s.aborted = false →
    Advances c E s (x.after c s) ∨ Halts c I L s (x.after c s) ∧ Q (x.value c s)

namespace Course

theorem pure {a : α} (h : A → Q a) : Course c I A [] [] (Pure.pure a) Q where
  late hA s hs := ⟨⟨hs, [], by simp, .slnil⟩, h hA⟩
  live s hs := .inl ⟨hs, fun _ => rfl, List.suffix_refl _, nofun⟩

theorem done (a : α) : Course c I A [] [] (Pure.pure a) fun _ => True := pure fun _ => True.intro

theorem bind (hx : Course c I A L E x Q) (hf : ∀ a, Course c I (Q a) M F (f a) R) :
    Course c I A (L ++ M) (E ++ F) (x >>= f) R where
  late hA s hs := by
    obtain ⟨hlags, hQ⟩ := hx.late hA s hs
    obtain ⟨hrest, hR⟩ := (hf _).late hQ _ hlags.stopped
    exact ⟨hlags.trans hrest, hR⟩
  live s hs := by
    rcases hx.live s hs with hadv | ⟨hhalts, hQ⟩
    · rcases (hf (x.value c s)).live _ hadv.running with hrest | ⟨hrest, hR⟩
      · exact .inl (hadv.trans hrest)
      · exact .inr ⟨hadv.halts hrest, hR⟩
    · obtain ⟨hrest, hR⟩ := (hf _).late hQ _ hhalts.stopped
      exact .inr ⟨hhalts.lags hrest, hR⟩

theorem mono (hx : Course c I A L E x Q) (hA : B → A) (hL : L.Sublist M) (hF : F ⊆ E)
    (hQ : ∀ a, Q a → Q' a) : Course c I B M F x Q' where
  late hB s hs := by
    obtain ⟨⟨hstopped, late, herrors, hsub⟩, hvalue⟩ := hx.late (hA hB) s hs
    exact ⟨⟨hstopped, late, herrors, hsub.trans hL⟩, hQ _ hvalue⟩
  live s hs := by
    rcases hx.live s hs with hadv | ⟨⟨hpolicy, hstopped, first, late, l, herrors, hl, hsub⟩, hvalue⟩
    · exact .inl { hadv with reached := fun e he => hadv.reached e (hF he) }
    · exact .inr ⟨⟨hpolicy, hstopped, first, late, l, herrors, hl, hsub.trans (hL.append_left l)⟩,
        hQ _ hvalue⟩

theorem through {J : List Span → Prop} (hx : Course c I A L E x Q) (hI : ∀ l, I l → J l) :
    Course c J A L E x Q where
  late := hx.late
  live s hs := by
    rcases hx.live s hs with hadv | ⟨⟨hpolicy, hstopped, first, late, l, herrors, hl, hsub⟩, hvalue⟩
    · exact .inl hadv
    · exact .inr ⟨⟨hpolicy, hstopped, first, late, l, herrors, hl.imp_right (hI l), hsub⟩, hvalue⟩

theorem imp (hx : Course c I A L E x Q) (hQ : ∀ a, Q a → Q' a) : Course c I A L E x Q' :=
  hx.mono id (.refl L) (List.Subset.refl E) hQ

theorem trivial (hx : Course c I A L E x Q) : Course c I A L E x fun _ => True :=
  hx.imp fun _ _ => True.intro

theorem assuming (hx : Course c I A L E x Q) (hA : B → A) : Course c I B L E x Q :=
  hx.mono hA (.refl L) (List.Subset.refl E) fun _ h => h

theorem within (hx : Course c I A L E x Q) (hL : L.Sublist M) (hF : F ⊆ E) : Course c I A M F x Q :=
  hx.mono id hL hF fun _ h => h

theorem andThen (hx : Course c I A L E x Q) (hf : ∀ a, Course c I (Q a) [] [] (f a) R) :
    Course c I A L E (x >>= f) R := by
  have hbind := hx.bind hf
  rwa [List.append_nil, List.append_nil] at hbind

theorem map {g : α → β} (hx : Course c I A L E x Q) (hR : ∀ a, Q a → R (g a)) :
    Course c I A L E (do return g (← x)) R := hx.andThen fun a => .pure (hR a)

theorem returns (hx : Course c I A L E x Q) (g : α → β) :
    Course c I A L E (do return g (← x)) fun _ => True := hx.andThen fun a => .done (g a)

theorem discard (hx : Course c I A L E x Q) : Course c I A L E (Functor.discard x) fun _ => True :=
  hx.returns _

theorem ite {p : Prop} [Decidable p] (hx : p → Course c I A L E x Q) (hy : ¬ p → Course c I A L E y Q) :
    Course c I A L E (if p then x else y) Q := by
  split
  · next h => exact hx h
  · next h => exact hy h

theorem missing {e : Expr} (hx : Course c I A L E x Q) (he : ¬ e.isPresent = true) :
    Course c I A L (e :: E) x Q where
  late := hx.late
  live s hs := by
    have hmissing : e = .missing := by
      cases e
      case missing => rfl
      all_goals exact absurd rfl he
    rcases hx.live s hs with hadv | hhalts
    · refine .inl { hadv with reached := List.forall_mem_cons.mpr ⟨?_, hadv.reached⟩ }
      rw [hmissing]
      exact BodyState.reached_missing _
    · exact .inr hhalts

end Course

def Quiet (c : BodyContext) (x : Infer α) : Prop :=
  ∀ s, (x.after c s).errors = s.errors ∧ (x.after c s).aborted = s.aborted ∧ (x.after c s).types = s.types

theorem quiet_pure (a : α) : Quiet c (pure a) := fun _ => ⟨rfl, rfl, rfl⟩

theorem Quiet.bind (hx : Quiet c x) (hf : ∀ a, Quiet c (f a)) : Quiet c (x >>= f) := by
  intro s
  obtain ⟨herrors, haborted, htypes⟩ := hx s
  obtain ⟨herrors', haborted', htypes'⟩ := hf (x.value c s) (x.after c s)
  exact ⟨herrors'.trans herrors, haborted'.trans haborted, htypes'.trans htypes⟩

theorem Course.after (hx : Quiet c x) (hf : ∀ a, Course c I A L E (f a) R) :
    Course c I A L E (x >>= f) R where
  late hA s hs := by
    obtain ⟨herrors, haborted, -⟩ := hx s
    obtain ⟨⟨hstopped, late, hlate, hsub⟩, hR⟩ := (hf (x.value c s)).late hA _ (haborted.trans hs)
    exact ⟨⟨hstopped, late, by rw [after_bind, hlate, herrors], hsub⟩, hR⟩
  live s hs := by
    obtain ⟨herrors, haborted, htypes⟩ := hx s
    have hstep : Advances c [] s (x.after c s) :=
      ⟨haborted.trans hs, fun _ => herrors, by simp [htypes], nofun⟩
    rcases (hf (x.value c s)).live _ hstep.running with hadv | ⟨hhalts, hR⟩
    · exact .inl (hstep.trans hadv)
    · exact .inr ⟨hstep.halts (L := []) hhalts, hR⟩

theorem quiet_registry : Quiet c registry := fun _ => ⟨rfl, rfl, rfl⟩

theorem quiet_assignable (t u : Ty) : Quiet c (assignable t u) := fun _ => ⟨rfl, rfl, rfl⟩

theorem quiet_lookupLocal (name : String) : Quiet c (lookupLocal name) := fun _ => ⟨rfl, rfl, rfl⟩

theorem quiet_narrowed (p : Path) : Quiet c (narrowed p) := fun _ => ⟨rfl, rfl, rfl⟩

theorem quiet_perform (a : Step) : Quiet c (perform a) := fun _ => ⟨rfl, rfl, rfl⟩

theorem quiet_readLocal (x : String) (l : Local) : Quiet c (readLocal x l) := fun _ => ⟨rfl, rfl, rfl⟩

theorem quiet_bindLocal (name : String) (t : Ty) (m : Bool) : Quiet c (bindLocal name t m) :=
  fun _ => ⟨rfl, rfl, rfl⟩

theorem quiet_declaredFrom (t : Ty) (p : Path) (fs : List String) : Quiet c (declaredFrom t p fs) := by
  induction fs generalizing t p with
  | nil => exact quiet_pure _
  | cons f fs ih =>
    refine (quiet_narrowed p).bind fun o => quiet_registry.bind fun r => ?_
    split
    · exact ih _ _
    · exact quiet_pure _

theorem quiet_declaredType (p : Path) : Quiet c (declaredType p) := by
  refine (quiet_lookupLocal p.root).bind fun o => ?_
  cases o with
  | none => exact quiet_pure _
  | some l => exact quiet_declaredFrom _ _ _

theorem quiet_narrowable (path : Option Path) : Quiet c (narrowable path) := by
  cases path with
  | none => exact quiet_pure _
  | some p => exact (quiet_declaredType p).bind fun _ => quiet_pure _

theorem quiet_localPath (path : Option Path) : Quiet c (localPath path) := by
  cases path with
  | none => exact quiet_pure _
  | some p => exact (quiet_lookupLocal p.root).bind fun _ => quiet_pure _

theorem quiet_knownPath (path : Option Path) : Quiet c (knownPath path) := by
  refine (quiet_localPath path).bind fun o => ?_
  cases o with
  | none => exact quiet_pure _
  | some p => exact quiet_narrowed p

theorem quiet_narrowingOf (path : Option (Path × Ty)) : Quiet c (narrowingOf path) := by
  cases path with
  | none => exact quiet_pure _
  | some q => exact fun _ => ⟨rfl, rfl, rfl⟩

theorem quiet_invalidateAll (ps : List Path) : Quiet c (invalidateAll ps) := by
  induction ps with
  | nil => exact quiet_pure _
  | cons p ps ih => exact (quiet_perform (.forget p)).bind fun _ => ih

namespace Course

theorem quiet (hx : Quiet c x) : Course c I A [] [] x fun _ => True where
  late _ s hs := by
    obtain ⟨herrors, haborted, -⟩ := hx s
    exact ⟨⟨haborted.trans hs, [], by simp [herrors], .slnil⟩, True.intro⟩
  live s hs := by
    obtain ⟨herrors, haborted, htypes⟩ := hx s
    exact .inl ⟨haborted.trans hs, fun _ => herrors, by simp [htypes], nofun⟩

theorem inBranch (hx : Course c I A L E x Q) (fs : List FlowFact) :
    Course c I A L E (inBranch fs x) fun r => Q r.1 := by
  have hpush : Quiet c (pushBranch fs) := quiet_perform (.push fs)
  have hpop : Quiet c popBranch := fun _ => ⟨rfl, rfl, rfl⟩
  exact .after hpush fun _ => hx.andThen fun a => .after hpop fun l => .pure fun hQ => hQ

theorem inScope (hx : Course c I A L E x Q) : Course c I A L E (inScope x) Q := by
  have henter : Quiet c enterScope := quiet_perform .enter
  have hleave : Quiet c leaveScope := quiet_perform .leave
  exact .after henter fun _ => hx.andThen fun a => .after hleave fun _ => .pure fun hQ => hQ

theorem inLoop (hx : Course c I A L E x Q) : Course c I A L E (inLoop x) Q := by
  have hdepth (f : Nat → Nat) : Quiet c (modify fun s => { s with loopDepth := f s.loopDepth } : Infer Unit) :=
    fun _ => ⟨rfl, rfl, rfl⟩
  exact .after (hdepth (· + 1)) fun _ => hx.andThen fun a => .after (hdepth (· - 1)) fun _ => .pure fun hQ => hQ

end Course

theorem course_report (span : Span) (cause : Cause) (h : A → [span].Sublist L) :
    Course c I A L [] (report span cause) (· = .error) := by
  have hafter (s : BodyState) : (report span cause).after c s =
      { s with errors := s.errors ++ [⟨span, cause⟩], aborted := s.aborted || c.policy == .abort } := rfl
  refine ⟨fun hA s hs => ⟨⟨by simp [hafter, hs], _, rfl, h hA⟩, rfl⟩, fun s hs => ?_⟩
  cases hp : c.policy with
  | recover => exact .inl ⟨by simp [hafter, hs, hp], by simp [hp], List.suffix_refl _, nofun⟩
  | abort => exact .inr ⟨⟨hp, by simp [hafter, hp], _, [], [], rfl, .inl rfl, List.nil_sublist _⟩, rfl⟩

theorem course_fault (span : Span) (cause : Cause) (h : A → [span].Sublist L) :
    Course c I A L [] (discard (report span cause)) fun _ => True :=
  (course_report span cause h).discard

theorem course_requireAssignable (span : Span) (t u : Ty) :
    Course c I A [] [] (requireAssignable span t u) fun _ => True where
  late _ s hs := by
    rw [after_requireAssignable, hs, Bool.true_or, if_pos rfl]
    exact ⟨⟨hs, [], by simp, .slnil⟩, True.intro⟩
  live s hs := by
    rw [after_requireAssignable]
    split
    · exact .inl ⟨hs, fun _ => rfl, List.suffix_refl _, nofun⟩
    · exact (course_report span _ False.elim).live s hs |>.imp_right fun h => ⟨h.1, True.intro⟩

theorem Course.congr (hx : Course c I A L E x Q)
    (h : ∀ s, y.after c s = x.after c s ∧ y.value c s = x.value c s) : Course c I A L E y Q where
  late hA s hs := by
    rw [(h s).1, (h s).2]
    exact hx.late hA s hs
  live s hs := by
    rw [(h s).1, (h s).2]
    exact hx.live s hs

theorem Course.read {f : BodyContext → Infer α} (hf : Course c I A L E (f c) Q) :
    Course c I A L E (MonadReader.read >>= f) Q := hf.congr fun _ => ⟨rfl, rfl⟩

theorem course_resolveType {f : Ty → Infer β} (w : Written) (span : Span)
    (h : ∀ t, Course c I A L E (f t) R) (h' : ∀ cause, Course c I A L E (report span cause >>= f) R) :
    Course c I A L E (resolveType w span >>= f) R := by
  simp only [resolveType, bind_assoc]
  refine .read (.read ?_)
  split
  · next t _ =>
    rw [pure_bind]
    exact h t
  · exact h' _

theorem course_requireMutable (p : Path) (span : Span) (h : A → [span].Sublist L) :
    Course c I A L [] (requireMutable p span) fun _ => True := by
  have hnone : Course c I A L [] (pure () : Infer Unit) fun _ => True :=
    (Course.done ()).within (List.nil_sublist L) (List.Subset.refl _)
  refine .after (quiet_lookupLocal p.root) fun o => ?_
  cases o with
  | none => exact hnone
  | some l => exact .ite (fun _ => hnone) fun _ => course_fault span _ h

theorem course_write (p : Path) (span : Span) (h : A → [span].Sublist L) :
    Course c I A L [] (write p span) fun _ => True :=
  (course_requireMutable p span h).andThen fun _ => .quiet (quiet_perform (.write p))

theorem Course.resume {a : α} (hx : Course c I False L E x fun _ => True) :
    Course c I A L E (do if ← isAborted then return a else x) fun _ => True where
  late _ s hs := by
    have hrun : (do if ← isAborted then return a else x : Infer α).after c s = s := by
      rw [after_bind, (run_isAborted c s).1, (run_isAborted c s).2, hs]
      rfl
    rw [hrun]
    exact ⟨⟨hs, [], by simp, List.nil_sublist L⟩, True.intro⟩
  live s hs := by
    have hrun : (do if ← isAborted then return a else x : Infer α).after c s = x.after c s := by
      rw [after_bind, (run_isAborted c s).1, (run_isAborted c s).2, hs]
      rfl
    rw [hrun]
    exact (hx.live s hs).imp_right fun h => ⟨h.1, True.intro⟩

theorem Course.visit {e : Expr} {site : Site} {act : Infer Typed} (hs : e.site? = some site)
    (h : Course c (fun l => ∃ p ∈ e.parts, p.Stops l) False e.aftermath e.operands act fun _ => True) :
    Course c e.Stops A [] [e] (visit site act) (·.ty = .error) where
  late _ s hs := by
    obtain ⟨hafter, hvalue⟩ := run_visit_of_aborted c site act hs
    rw [hafter, hvalue]
    exact ⟨⟨hs, [], by simp, .slnil⟩, rfl⟩
  live s hrunning := by
    obtain ⟨hafter, hvalue⟩ := run_visit c site act hrunning rfl
    rcases h.live s hrunning with hadv | ⟨⟨hpolicy, hstopped, first, late, l, herrors, hl, hsub⟩, -⟩
    · have hgoes : ¬ (act.after c s).aborted = true := by simp [hadv.running]
      rw [if_neg hgoes] at hafter
      rw [hafter]
      have htypes : (act.after c s).types <:+ (site.id, (act.value c s).ty) :: (act.after c s).types :=
        List.suffix_cons _ _
      refine .inl ⟨hadv.running, hadv.errors, hadv.types.trans htypes, ?_⟩
      refine List.forall_mem_singleton.mpr fun n place hn hplace => ?_
      cases hn with
      | here =>
        cases hs.symm.trans hplace
        simp [BodyState.typeOf]
      | inside hp hn => exact (hadv.reached _ hp).mono htypes n place hn hplace
    · rw [if_pos hstopped] at hafter hvalue
      rw [hafter, hvalue]
      refine .inr ⟨⟨hpolicy, hstopped, first, late, l ++ e.aftermath, herrors, .inr ?_, ?_⟩, rfl⟩
      · rcases hl with rfl | ⟨p, hp, hl⟩
        · exact .here e
        · exact .inside hp hl
      · rwa [List.append_nil]

end Infer

def Child.Runs (c : BodyContext) (I : List Span → Prop) (ch : Child) : Prop :=
  ∀ x used, Infer.Course c I True [] [ch.expr] (ch.run x used) (·.ty = .error)

namespace Infer

variable {c : BodyContext} {I : List Span → Prop} {A : Prop} {ch : Child} {cs : List Child}

theorem course_inferIn (h : ch.Runs c I) (x : Option Ty) (used : Bool) :
    Course c I A [] [ch.expr] (ch.inferIn x used) (· = .error) :=
  ((h x used).assuming fun _ => True.intro).map fun _ ht => ht

theorem course_infer (h : ch.Runs c I) (x : Option Ty) :
    Course c I A [] [ch.expr] (ch.infer x) (· = .error) := course_inferIn h x true

theorem course_ignored (h : ch.Runs c I) (x : Option Ty) :
    Course c I A [] [ch.expr] (discard (ch.infer x)) fun _ => True := (course_infer h x).discard

theorem course_check (h : ch.Runs c I) (t : Ty) :
    Course c I A [] [ch.expr] (check ch t) fun _ => True :=
  (course_infer h (some t)).andThen fun _ => (course_requireAssignable _ _ _).returns _

theorem course_condition (h : ch.Runs c I) : Course c I A [] [ch.expr] (condition ch) fun _ => True := by
  refine Course.andThen ((h _ true).assuming fun _ => True.intro) fun t => ?_
  exact (course_requireAssignable _ _ _).returns _

theorem course_inferAll (h : ∀ ch ∈ cs, ch.Runs c I) :
    Course c I A [] (cs.map (·.expr)) (inferAll cs) fun _ => True := by
  induction cs generalizing A with
  | nil => exact .done _
  | cons ch cs ih =>
    obtain ⟨hch, hcs⟩ := List.forall_mem_cons.mp h
    exact (course_ignored hch none).bind fun _ => ih hcs

end Infer

end TypeFlow
