import TypeFlow.Check.Bodies
import TypeFlow.Proofs.Check.Jobs
import TypeFlow.Proofs.Check.Declarations
import TypeFlow.Proofs.Check.Stored

namespace TypeFlow

def ConstItem.ChecksTo (item : ConstItem) (b : BodyState) : Prop :=
  ∃ (c : BodyContext) (declared : Option Ty) (n : Nat), c.policy = .recover ∧
    b = (Register.constType item declared).after c { nextVar := n }

namespace Registration

structure Silent (quiet : BodyState → Prop) (s : Registration) : Prop where
  errors : s.errors = []
  consts : ∀ b ∈ s.consts, b.errors = [] ∧ quiet b

structure Extends (ks : List ConstItem) (s t : Registration) : Prop where
  errors : s.errors <+: t.errors
  consts : ∃ bs, t.consts = s.consts ++ bs ∧ List.Forall₂ ConstItem.ChecksTo ks bs

structure Clean (ok : Ty → Prop) (pend : DeclId → Prop) (s : Registration)
    (recorded : Ty → Prop := Ty.Loose (Ty.Everywhere ok)) : Prop where
  registry : s.registry.Clean ok pend
  const : ∀ b ∈ s.consts, b.Records recorded

variable {quiet : BodyState → Prop} {ks ls : List ConstItem} {s t u : Registration}

theorem Extends.of_same (herrors : s.errors <+: t.errors) (hconsts : t.consts = s.consts) : Extends [] s t :=
  ⟨herrors, [], by rw [hconsts, List.append_nil], .nil⟩

theorem Extends.refl (s : Registration) : Extends [] s s := .of_same (List.prefix_refl _) rfl

theorem Extends.trans (h : Extends ks s t) (k : Extends ls t u) : Extends (ks ++ ls) s u := by
  obtain ⟨bs, hbs, hb⟩ := h.consts
  obtain ⟨ds, hds, hd⟩ := k.consts
  exact ⟨h.errors.trans k.errors, bs ++ ds, by rw [hds, hbs, List.append_assoc], List.rel_append hb hd⟩

theorem Silent.before (h : t.Silent quiet) (k : Extends ks s t) : s.Silent quiet := by
  obtain ⟨bs, hbs, -⟩ := k.consts
  refine ⟨List.prefix_nil.mp (h.errors ▸ k.errors), fun b hb => h.consts b ?_⟩
  rw [hbs]
  exact List.mem_append_left _ hb

end Registration

namespace Register

open Registration

variable {α β : Type} {ok : Ty → Prop} {quiet : BodyState → Prop} {ks ls : List ConstItem} {A B : Prop}
  {pend pend' : DeclId → Prop}

def Yields (quiet : BodyState → Prop) (ks : List ConstItem) (P : Registration → Prop) (x : Register α)
    (Q : α → Registration → Prop) : Prop :=
  ∀ s, s.Extends ks (x.run s).2 ∧ ((x.run s).2.Silent quiet → P s → Q (x.run s).1 (x.run s).2)

abbrev Tidy (ok : Ty → Prop) (quiet : BodyState → Prop) (ks : List ConstItem) (pend : DeclId → Prop) (A : Prop)
    (x : Register α) (Q : α → Prop) : Prop :=
  Yields quiet ks (fun s => s.Clean ok pend ∧ A) x fun a s => s.Clean ok pend ∧ Q a

namespace Yields

variable {P P' : Registration → Prop} {Q Q' : α → Registration → Prop} {R : β → Registration → Prop}
  {x : Register α} {f : α → Register β}

theorem seq (hx : Yields quiet ks P x Q) (hf : ∀ a, Yields quiet ls (Q a) (f a) R) :
    Yields quiet (ks ++ ls) P (x >>= f) R := by
  intro s
  obtain ⟨hext, hQ⟩ := hx s
  obtain ⟨hext', hR⟩ := hf (x.run s).1 (x.run s).2
  exact ⟨hext.trans hext', fun hsilent hP => hR hsilent (hQ (hsilent.before hext') hP)⟩

theorem bind (hx : Yields quiet [] P x Q) (hf : ∀ a, Yields quiet ks (Q a) (f a) R) :
    Yields quiet ks P (x >>= f) R :=
  hx.seq hf

theorem imp (hx : Yields quiet ks P x Q) (hP : ∀ s, P' s → P s) (hQ : ∀ a s, Q a s → Q' a s) :
    Yields quiet ks P' x Q' :=
  fun s => ⟨(hx s).1, fun hsilent h => hQ _ _ ((hx s).2 hsilent (hP s h))⟩

theorem and (hx : Yields quiet ks P x Q) (A : Prop) :
    Yields quiet ks (fun s => P s ∧ A) x fun a s => Q a s ∧ A :=
  fun s => ⟨(hx s).1, fun hsilent hs => ⟨(hx s).2 hsilent hs.1, hs.2⟩⟩

end Yields

namespace Tidy

variable {Q Q' : α → Prop} {R : β → Prop} {x y : Register α} {f : α → Register β}

theorem pure {a : α} (h : A → Q a) : Tidy ok quiet [] pend A (Pure.pure a) Q :=
  fun s => ⟨.refl s, fun _ hs => ⟨hs.1, h hs.2⟩⟩

theorem seq (hx : Tidy ok quiet ks pend A x Q) (hf : ∀ a, Tidy ok quiet ls pend (A ∧ Q a) (f a) R) :
    Tidy ok quiet (ks ++ ls) pend A (x >>= f) R := by
  intro s
  obtain ⟨hext, hQ⟩ := hx s
  obtain ⟨hext', hR⟩ := hf (x.run s).1 (x.run s).2
  refine ⟨hext.trans hext', fun hsilent hs => ?_⟩
  obtain ⟨hclean, hq⟩ := hQ (hsilent.before hext') hs
  exact hR hsilent ⟨hclean, hs.2, hq⟩

theorem bind (hx : Tidy ok quiet [] pend A x Q) (hf : ∀ a, Tidy ok quiet ks pend (A ∧ Q a) (f a) R) :
    Tidy ok quiet ks pend A (x >>= f) R :=
  hx.seq hf

theorem imp (hx : Tidy ok quiet ks pend A x Q) (h : ∀ a, A → Q a → Q' a) : Tidy ok quiet ks pend A x Q' :=
  fun s => ⟨(hx s).1, fun hsilent hs => ((hx s).2 hsilent hs).imp_right (h _ hs.2)⟩

theorem assuming (hx : Tidy ok quiet ks pend A x Q) (h : B → A) : Tidy ok quiet ks pend B x Q :=
  fun s => ⟨(hx s).1, fun hsilent hs => (hx s).2 hsilent ⟨hs.1, h hs.2⟩⟩

theorem ite {p : Prop} [Decidable p] (hx : p → Tidy ok quiet ks pend A x Q)
    (hy : ¬ p → Tidy ok quiet ks pend A y Q) :
    Tidy ok quiet ks pend A (if p then x else y) Q := by
  split
  · next h => exact hx h
  · next h => exact hy h

end Tidy

theorem tidy_report (span : Span) (cause : Cause) :
    Tidy ok quiet [] pend A (report span cause) fun _ => False := by
  intro s
  refine ⟨.of_same (List.prefix_append _ _) rfl, fun hsilent => ?_⟩
  exact absurd hsilent.errors (List.append_ne_nil_of_right_ne_nil _ (List.cons_ne_nil _ _))

theorem tidy_get : Tidy ok quiet [] pend A (get : Register Registration) (·.Clean ok pend) :=
  fun s => ⟨.refl s, fun _ hs => ⟨hs.1, hs.1⟩⟩

theorem tidy_modifyRegistry {f : Registry → Registry} (h : A → ∀ r, r.Clean ok pend → (f r).Clean ok pend) :
    Tidy ok quiet [] pend A (modifyRegistry f) fun _ => True :=
  fun _ => ⟨.of_same (List.prefix_refl _) rfl,
    fun _ hs => ⟨⟨h hs.2 _ hs.1.registry, hs.1.const⟩, True.intro⟩⟩

theorem tidy_keep {added : Option Registry} (span : Span) (x : String)
    (h : A → ∀ r, added = some r → r.Clean ok pend) :
    Tidy ok quiet [] pend A (keep added span x) fun _ => True := by
  unfold keep
  split
  · next r => exact tidy_modifyRegistry fun hA _ _ => h hA r rfl
  · exact (tidy_report _ _).imp fun _ _ => False.elim

theorem tidy_resolve [Ty.Common ok] (scope : Generics) (span : Span) (w : Written) :
    Tidy ok quiet [] pend A (resolve scope span w) (Ty.Everywhere ok) := by
  unfold resolve
  refine tidy_get.bind fun s => ?_
  split
  · next t ht => exact .pure fun hA => (hA.2.registry.resolveLaws scope).resolve w (fun _ _ => True.intro) ht
  · exact (tidy_report _ _).bind fun _ => .pure fun hA => hA.2.elim

def TypesClean (ok : Ty → Prop) (gs : Generics) : Prop := ∀ g ∈ gs, ∀ t ∈ g.types, t.Everywhere ok

theorem tidy_resolveBounds [Ty.Common ok] (scope : Generics) (span : Span) (ws : List Written) :
    Tidy ok quiet [] pend A (resolveBounds scope span ws) fun ts => ∀ t ∈ ts, t.Everywhere ok := by
  induction ws generalizing A with
  | nil => exact .pure fun _ => List.forall_mem_nil _
  | cons w ws ih =>
    unfold resolveBounds
    refine (tidy_resolve scope span w).bind fun t => .ite (fun _ => ih) fun _ => .ite (fun _ => ?_) fun _ => ?_
    · exact ih.bind fun ts => .pure fun hA => List.forall_mem_cons.mpr ⟨hA.1.2, hA.2⟩
    · exact (tidy_report _ _).bind fun _ => ih

theorem tidy_resolveGenericKind [Ty.Common ok] (scope : Generics) (x : String) (i : Nat) (span : Span)
    (k : GenericItemKind) :
    Tidy ok quiet [] pend A (resolveGenericKind scope span k) fun kind =>
      ∀ t ∈ GenericParam.types ⟨x, i, kind⟩, t.Everywhere ok := by
  unfold resolveGenericKind
  split
  · refine (tidy_resolveBounds _ _ _).bind fun bs => .pure fun hA => ?_
    exact List.forall_mem_append.mpr ⟨hA.2, nofun⟩
  · refine (tidy_resolveBounds _ _ _).bind fun bs => (tidy_resolve _ _ _).bind fun t => .pure fun hA => ?_
    exact List.forall_mem_append.mpr ⟨hA.1.2, List.forall_mem_singleton.mpr hA.2⟩
  · exact (tidy_resolve _ _ _).bind fun t => .pure fun hA => List.forall_mem_singleton.mpr hA.2

theorem tidy_resolveGenericsFrom [Ty.Common ok] (scope : Generics) (i : Nat) (gs : List GenericItem) :
    Tidy ok quiet [] pend A (resolveGenericsFrom scope i gs) (TypesClean ok) := by
  induction gs generalizing A i with
  | nil => exact .pure fun _ => nofun
  | cons g gs ih =>
    unfold resolveGenericsFrom
    refine (tidy_resolveGenericKind scope g.name i _ _).bind fun k => (ih (i + 1)).bind fun ps => ?_
    exact .pure fun hA => List.forall_mem_cons.mpr ⟨hA.1.2, hA.2⟩

theorem yields_setGenerics [Ty.Common ok] {ids : List (Option DeclId)} {gss : List (List GenericItem)}
    (h : A → ids.length = gss.length) :
    Yields quiet [] (fun s => s.Clean ok pend ∧ A) (setGenerics ids gss) fun _ s =>
      (s.Clean ok fun i => pend i ∧ some i ∉ ids) ∧ A := by
  induction ids generalizing gss pend with
  | nil =>
    intro s
    refine ⟨.refl s, fun _ hs => ⟨⟨hs.1.registry.mono fun i hi => ⟨hi, List.not_mem_nil⟩, hs.1.const⟩, hs.2⟩⟩
  | cons id ids ih =>
    cases gss with
    | nil => cases id <;> exact fun s => ⟨.refl s, fun _ hs => nomatch h hs.2⟩
    | cons gs gss =>
      have hlength : A → ids.length = gss.length := fun hA => Nat.succ.inj (h hA)
      cases id with
      | none =>
        refine (ih hlength).imp (fun _ => id) fun _ s hs => ⟨⟨hs.1.registry.mono ?_, hs.1.const⟩, hs.2⟩
        exact fun i hi => ⟨hi.1, by simpa using hi.2⟩
      | some d =>
        refine Yields.bind (Tidy.imp (tidy_resolveGenericsFrom (placeholders 0 gs) 0 gs) fun _ => And.intro)
          fun ps => ?_
        refine Yields.bind (Q := fun _ s => (s.Clean ok fun i => pend i ∧ i ≠ d) ∧ A) ?_ fun _ =>
          (ih hlength).imp (fun _ => id) fun _ s hs => ⟨⟨hs.1.registry.mono ?_, hs.1.const⟩, hs.2⟩
        · intro s
          refine ⟨.of_same (List.prefix_refl _) rfl, fun _ hs => ?_⟩
          obtain ⟨hclean, hA, hps⟩ := hs
          refine ⟨⟨?_, hclean.const⟩, hA⟩
          refine hclean.registry.modifyDecl (fun info hinfo => ?_) fun i hi hp => ⟨hp, hi⟩
          exact ⟨hinfo.kind, fun g hg => .inl (hps g hg)⟩
        · rintro i ⟨⟨hp, hne⟩, hi⟩
          exact ⟨hp, by simpa [hne] using hi⟩

theorem clean_addAlias {r : Registry} (x : String) {t : Ty} (h : r.Clean ok pend) (ht : t.Everywhere ok) :
    ((r.addAlias x t).getD r).Clean ok pend := by
  unfold Registry.addAlias
  split
  · exact h
  · refine ⟨List.forall_mem_append.mpr ⟨h.aliased, ?_⟩, h.decl, h.function, h.method, h.constant⟩
    exact List.forall_mem_singleton.mpr (List.forall_mem_singleton.mpr ht)

theorem tidy_freshAliases (pending as : List AliasItem) :
    Tidy ok quiet [] pend A (freshAliases pending as) fun _ => True := by
  induction as generalizing A pending with
  | nil => exact .pure fun _ => True.intro
  | cons a as ih =>
    unfold freshAliases
    refine tidy_get.bind fun s => .ite (fun _ => ?_) fun _ => ih _
    exact (tidy_report _ _).bind fun _ => ih _

theorem tidy_aliasRound [Ty.Common ok] (as : List AliasItem) :
    Tidy ok quiet [] pend A (aliasRound as) fun _ => True := by
  induction as generalizing A with
  | nil => exact .pure fun _ => True.intro
  | cons a as ih =>
    unfold aliasRound
    refine tidy_get.bind fun s => ?_
    dsimp only
    split
    · next t ht =>
      refine (tidy_modifyRegistry fun hA _ _ => ?_).bind fun _ => ih
      have hlaws := hA.2.registry.resolveLaws []
      exact clean_addAlias a.name hA.2.registry (hlaws.resolve a.target (fun _ _ => True.intro) ht)
    · exact ih.bind fun _ => .pure fun _ => True.intro

theorem tidy_failAlias (a : AliasItem) (e : ResolveError) :
    Tidy ok quiet [] pend A (failAlias a e) fun _ => False :=
  (tidy_report _ _).bind fun _ => (tidy_modifyRegistry fun hA => hA.2.elim).imp fun _ hA _ => hA.2

theorem tidy_failAliases [Ty.Common ok] (as : List (AliasItem × ResolveError)) :
    Tidy ok quiet [] pend A (failAliases as) fun _ => True := by
  induction as generalizing A with
  | nil => exact .pure fun _ => True.intro
  | cons a as ih => exact (tidy_failAlias a.1 a.2).bind fun _ => ih

theorem tidy_retryable [Ty.Common ok] (as : List (AliasItem × ResolveError)) :
    Tidy ok quiet [] pend A (retryable as) fun _ => True := by
  induction as generalizing A with
  | nil => exact .pure fun _ => True.intro
  | cons a as ih =>
    obtain ⟨a, e⟩ := a
    cases e with
    | unknownType x => exact ih.bind fun _ => .pure fun _ => True.intro
    | genericArgCount | constArgExpected => exact (tidy_failAlias a _).bind fun _ => ih

theorem tidy_aliasRounds [Ty.Common ok] (n : Nat) (as : List AliasItem) :
    Tidy ok quiet [] pend A (aliasRounds n as) fun _ => True := by
  induction n generalizing A as with
  | zero => exact .pure fun _ => True.intro
  | succ n ih =>
    unfold aliasRounds
    refine (tidy_aliasRound as).bind fun failed => .ite (fun _ => tidy_failAliases failed) fun _ => ?_
    refine (tidy_retryable failed).bind fun pending => .ite (fun _ => .pure fun _ => True.intro) fun _ => ?_
    exact ih pending

theorem tidy_aliases [Ty.Common ok] (as : List AliasItem) : Tidy ok quiet [] pend A (aliases as) fun _ => True :=
  (tidy_freshAliases [] as).bind fun _ => tidy_aliasRounds _ _

theorem writes_constType (c : BodyContext) (item : ConstItem) (declared : Option Ty) (s : BodyState) :
    BodyState.Writes c item.value.ids s ((constType item declared).after c s) := by
  unfold constType
  split
  · next t ht =>
    have hinfer := (item.value.confined c (some t) true s).1
    exact hinfer.trans ((Infer.writes_requireAssignable c _ _ _ _).mono (List.nil_subset _))
  · have hinfer := (item.value.confined c none true s).1
    rw [Infer.after_bind]
    split
    · exact hinfer.trans ((BodyState.writes_report _ _ _).mono (List.nil_subset _))
    · exact hinfer

theorem unrecorded_of_checksTo {item : ConstItem} {b : BodyState} (h : item.ChecksTo b) {i : Nat}
    (hi : i ∉ item.value.ids) : b.typeOf i = none ∧ b.instOf i = none := by
  obtain ⟨c, declared, n, -, rfl⟩ := h
  have hwrites := writes_constType c item declared { nextVar := n }
  exact ⟨hwrites.typeOf i hi, hwrites.instOf i hi⟩

theorem running_of_checksTo {item : ConstItem} {b : BodyState} (h : item.ChecksTo b) : b.aborted = false := by
  obtain ⟨c, declared, n, hc, rfl⟩ := h
  rcases (writes_constType c item declared { nextVar := n }).stops with hstops | ⟨habort, -⟩
  · exact hstops
  · exact nomatch hc.symm.trans habort

structure ConstReady (ok : Ty → Prop) (quiet : BodyState → Prop) (item : ConstItem) : Prop where
  complete : item.value.Complete ∧ item.value.isPresent = true ∨ ok .error
  nodup : item.value.ids.Nodup
  gathers : ∀ b, quiet b → ∀ p ∈ item.value.sources, b.findings.Gathers (Ty.Everywhere ok) p

theorem permits_of_errors {good : Ty → Prop} {b : BodyState} (h : b.errors = []) :
    b.findings.Permits good := fun hne => absurd h hne

theorem follows_self {b : BodyState} (h : b.aborted = false) (is : List Nat) : b.findings.Follows b is :=
  ⟨List.Subset.refl _, h, fun _ _ => rfl, fun _ _ => rfl⟩

theorem ready_initial (r : Registry) (tested : Path → Prop) (good : Ty → Prop) (n : Nat) {e : Expr}
    (h : e.ids.Nodup) : BodyState.Ready r tested good { nextVar := n } e where
  fits := ⟨by simp [Scope.Holds], by simp [Layer.Holds], Layer.matches_empty _, nofun⟩
  records := ⟨nofun, nofun⟩
  nodup := h
  untouched := .inr fun _ _ => ⟨rfl, rfl⟩

theorem checked_constType {c : BodyContext} {good : Ty → Prop} (L : BodyClosure c good)
    {item : ConstItem} (hitem : item.value.Complete ∧ item.value.isPresent = true ∨ good .error)
    (hn : item.value.ids.Nodup) {declared : Option Ty} (hd : ∀ t, declared = some t → good t) {n : Nat}
    {b : BodyState} (hb : b = (constType item declared).after c { nextVar := n }) (h : b.errors = [])
    {F : Findings} (hF : F.Permits good) (hfollows : F.Follows b item.value.ids)
    (hg : ∀ p ∈ item.value.sources, F.Gathers good p) :
    F.Meets c (fun _ => True) good {} item.value ∧ b.Records (Ty.Loose good) ∧
      good ((constType item declared).value c { nextVar := n }) := by
  have hready := ready_initial c.registry (fun _ => True) good n hn
  have hsound := Expr.sound (fun _ => True) L item.value (fun _ _ => True.intro) hitem F hF hg
  subst hb
  revert h hfollows
  unfold constType
  cases hfilter : declared.filter fun t => !t.isError with
  | some t =>
    intro h hfollows
    have ht : good t := hd t (Option.eq_some_of_filter_eq_some hfilter)
    obtain ⟨hfollows, -⟩ := hfollows.requireAssignable (fun _ => True) good
    have hchecked := hsound (some t) true _ (fun u hu => .inl (Option.some.inj hu ▸ ht)) hready hfollows
    exact ⟨hchecked.meets, Infer.records_requireAssignable hchecked.records, ht⟩
  | none =>
    dsimp only
    rw [Infer.after_bind, Infer.value_bind]
    split
    · intro h
      exact absurd h (List.append_ne_nil_of_right_ne_nil _ (List.cons_ne_nil _ _))
    · next huntyped =>
      intro h hfollows
      have hchecked := hsound none true _ nofun hready hfollows
      refine ⟨hchecked.meets, hchecked.records, ?_⟩
      cases declared with
      | none => exact hchecked.result.ty.typed (Bool.eq_false_iff.mpr huntyped)
      | some t => exact hd t rfl

theorem meets_of_checksTo {item : ConstItem} {b : BodyState} (h : item.ChecksTo b) (hn : item.value.ids.Nodup)
    (hb : b.errors = []) {F : Findings} (hfollows : F.Follows b item.value.ids) :
    ∃ c, F.Meets c (fun _ => True) (fun _ => True) {} item.value := by
  obtain ⟨c, declared, n, -, heq⟩ := h
  have L : BodyClosure c fun _ => True := ⟨.trivial c, fun _ _ _ => True.intro⟩
  have hchecked := checked_constType L (.inr True.intro) hn (fun _ _ => True.intro) heq hb
    (fun _ => True.intro) hfollows fun _ _ _ _ _ => True.intro
  exact ⟨c, hchecked.1⟩

theorem clean_addConst {r r' : Registry} {x : String} {info : ConstInfo} (h : r.Clean ok pend)
    (ht : info.ty.Everywhere ok) (k : r.addConst x info = some r') : r'.Clean ok pend := by
  obtain ⟨-, rfl⟩ := Registry.eq_of_addConst k
  exact ⟨h.aliased, h.decl, h.function, h.method,
    List.forall_mem_append.mpr ⟨h.constant, List.forall_mem_singleton.mpr ht⟩⟩

theorem tidy_const [Ty.Common ok] (item : ConstItem) :
    Tidy ok quiet [item] (fun _ => False) (ConstReady ok quiet item) (const item) fun _ => True := by
  unfold const
  extract_lets finish
  have hfinish : ∀ declared, Tidy ok quiet [item] (fun _ => False)
      (ConstReady ok quiet item ∧ ∀ t, declared = some t → t.Everywhere ok) (finish declared) fun _ => True := by
    intro declared s
    let c : BodyContext := { registry := s.registry }
    let body := (constType item declared).after c { nextVar := s.nextVar }
    let ty := (constType item declared).value c { nextVar := s.nextVar }
    let t : Registration := { s with consts := s.consts ++ [body], nextVar := body.nextVar }
    let info : ConstInfo := ⟨ty, item.value.constValue s.registry body.scope, item.span⟩
    have hrun : (finish declared).run s =
        (keep (s.registry.addConst item.name info) item.span item.name).run t := rfl
    rw [hrun]
    have hext : s.Extends [item] t :=
      ⟨List.prefix_refl _, [body], rfl, .cons ⟨c, declared, s.nextVar, rfl, rfl⟩ .nil⟩
    have hkeep : Tidy ok quiet [] (fun _ => False) (ty.Everywhere ok ∧ s.registry.Clean ok fun _ => False)
        (keep (s.registry.addConst item.name info) item.span item.name) fun _ => True :=
      tidy_keep _ _ fun hA r hr => clean_addConst hA.2 hA.1 hr
    obtain ⟨hext', hclean⟩ := hkeep t
    refine ⟨hext.trans hext', fun hsilent hs => ?_⟩
    obtain ⟨hclean₀, hitem, hd⟩ := hs
    obtain ⟨herrors, hquiet⟩ := (hsilent.before hext').consts body (by simp [t])
    have L := hclean₀.registry.closure (c := c) (Ty.everywhere_leaf rfl rfl)
    have hfollows : body.findings.Follows body item.value.ids :=
      follows_self (running_of_checksTo ⟨c, declared, s.nextVar, rfl, rfl⟩) _
    obtain ⟨-, hrecords, hty⟩ := checked_constType L (hitem.complete.imp_right fun herror => .leaf herror rfl)
      hitem.nodup hd rfl herrors (permits_of_errors herrors) hfollows (hitem.gathers _ hquiet)
    have hconsts := List.forall_mem_append.mpr ⟨hclean₀.const, List.forall_mem_singleton.mpr hrecords⟩
    exact hclean hsilent ⟨⟨hclean₀.registry, hconsts⟩, hty, hclean₀.registry⟩
  split
  · refine Tidy.bind (f := fun t => finish (some t)) (tidy_resolve [] item.span _) fun t => ?_
    exact (hfinish (some t)).assuming fun hA => ⟨hA.1, fun u hu => Option.some.inj hu ▸ hA.2⟩
  · exact (hfinish none).assuming fun hA => ⟨hA, nofun⟩

theorem tidy_consts [Ty.Common ok] (items : List ConstItem) :
    Tidy ok quiet items (fun _ => False) (∀ c ∈ items, ConstReady ok quiet c) (consts items)
      fun _ => True := by
  induction items with
  | nil => exact .pure fun _ => True.intro
  | cons c cs ih =>
    refine ((tidy_const c).assuming fun hA => hA c (by simp)).seq fun _ => ?_
    exact ih.assuming fun hA d hd => hA.1 d (by simp [hd])

theorem tidy_fields [Ty.Common ok] (scope : Generics) (done : List (String × Ty)) (fs : List FieldItem) :
    Tidy ok quiet [] pend (∀ e ∈ done, e.2.Everywhere ok) (fields scope done fs) fun es =>
      ∀ e ∈ es, e.2.Everywhere ok := by
  induction fs generalizing done with
  | nil => exact .pure id
  | cons f fs ih =>
    unfold fields
    refine .ite (fun _ => ?_) fun _ => ?_
    · exact (tidy_report _ _).bind fun _ => (ih done).assuming And.left
    · refine (tidy_resolve scope f.span f.ty).bind fun t => (ih _).assuming fun hA => ?_
      exact List.forall_mem_append.mpr ⟨hA.1, List.forall_mem_singleton.mpr hA.2⟩

theorem clean_noteImplementor {r : Registry} (h : r.Clean ok pend) (i d : DeclId) :
    (if ((r.implementors i).getD []).contains d then r else r.addImplementor i d).Clean ok pend := by
  split
  · exact h
  · refine h.modifyDecl (fun info hinfo => ?_) fun _ _ => id
    split
    · exact ⟨nofun, hinfo.generic⟩
    · exact hinfo

theorem tidy_implementsList [Ty.Common ok] (d : DeclId) (scope : Generics) (span : Span) (ws : List Written) :
    Tidy ok quiet [] pend A (implementsList d scope span ws) fun ts => ∀ t ∈ ts, t.Everywhere ok := by
  induction ws generalizing A with
  | nil => exact .pure fun _ => List.forall_mem_nil _
  | cons w ws ih =>
    unfold implementsList
    refine (tidy_resolve scope span w).bind fun t => ?_
    split
    · exact ih
    · refine (tidy_modifyRegistry fun _ r hr => clean_noteImplementor hr _ d).bind fun _ => ?_
      exact ih.bind fun ts => .pure fun hA => List.forall_mem_cons.mpr ⟨hA.1.1.2, hA.2⟩
    · exact (tidy_report _ _).bind fun _ => ih

theorem tidy_setKind {d : DeclId} {kind : DeclKind} (h : A → ∀ t ∈ kind.types, t.Everywhere ok) :
    Tidy ok quiet [] pend A (modifyRegistry fun r => r.modifyDecl d fun info => { info with kind })
      fun _ => True :=
  tidy_modifyRegistry fun hA _ hr => hr.modifyDecl (fun _ hinfo => ⟨h hA, hinfo.generic⟩) fun _ _ => id

theorem tidy_struct [Ty.Common ok] (id : DeclId) (item : StructItem) :
    Tidy ok quiet [] pend A (struct id item) fun _ => True := by
  unfold struct
  refine tidy_get.bind fun s => ((tidy_fields _ [] item.fields).assuming fun _ => nofun).bind fun fs => ?_
  refine (tidy_implementsList id _ _ _).bind fun ts => tidy_setKind fun hA => ?_
  exact List.forall_mem_append.mpr ⟨List.forall_mem_map.mpr hA.1.2, hA.2⟩

theorem tidy_backing [Ty.Common ok] (span : Span) (w : Option Written) :
    Tidy ok quiet [] pend A (backing span w) (Ty.Everywhere ok) := by
  unfold backing
  split
  · exact .pure fun _ => Ty.everywhere_leaf rfl rfl
  · refine (tidy_resolve _ _ _).bind fun t => ?_
    dsimp only
    split
    · exact .pure And.right
    · exact (tidy_report _ _).bind fun _ => .pure fun hA => hA.1.2

theorem tidy_variants (span : Span) (done vs : List String) :
    Tidy ok quiet [] pend A (variants span done vs) fun _ => True := by
  induction vs generalizing A done with
  | nil => exact .pure fun _ => True.intro
  | cons v vs ih => exact .ite (fun _ => (tidy_report _ _).bind fun _ => ih done) fun _ => ih _

theorem tidy_enum [Ty.Common ok] (id : DeclId) (item : EnumItem) :
    Tidy ok quiet [] pend A (enum id item) fun _ => True := by
  unfold enum
  refine (tidy_backing _ _).bind fun b => (tidy_variants _ _ _).bind fun vs => ?_
  refine (tidy_implementsList id _ _ _).bind fun ts => tidy_setKind fun hA => ?_
  exact List.forall_mem_cons.mpr ⟨hA.1.1.2, hA.2⟩

theorem tidy_structs [Ty.Common ok] (ids : List (Option DeclId)) (items : List StructItem) :
    Tidy ok quiet [] pend A (structs ids items) fun _ => True := by
  induction ids generalizing A items with
  | nil => exact .pure fun _ => True.intro
  | cons id ids ih =>
    cases items with
    | nil => cases id <;> exact .pure fun _ => True.intro
    | cons item items =>
      cases id with
      | none => exact ih items
      | some d => exact (tidy_struct d item).bind fun _ => ih items

theorem tidy_enums [Ty.Common ok] (ids : List (Option DeclId)) (items : List EnumItem) :
    Tidy ok quiet [] pend A (enums ids items) fun _ => True := by
  induction ids generalizing A items with
  | nil => exact .pure fun _ => True.intro
  | cons id ids ih =>
    cases items with
    | nil => cases id <;> exact .pure fun _ => True.intro
    | cons item items =>
      cases id with
      | none => exact ih items
      | some d => exact (tidy_enum d item).bind fun _ => ih items

theorem tidy_params [Ty.Common ok] (scope : Generics) (items : List ParamItem) :
    Tidy ok quiet [] pend A (params scope items) fun ps =>
      (∀ p ∈ ps, p.ty.Everywhere ok) ∧ ps.length = items.length := by
  induction items generalizing A with
  | nil => exact .pure fun _ => ⟨nofun, rfl⟩
  | cons p ps ih =>
    unfold params
    refine (tidy_resolve scope p.span p.ty).bind fun t => ih.bind fun ps => .pure fun hA => ?_
    exact ⟨List.forall_mem_cons.mpr ⟨hA.1.2, hA.2.1⟩, congrArg (· + 1) hA.2.2⟩

theorem tidy_returnType [Ty.Common ok] (scope : Generics) (span : Span) (w : Option Written) :
    Tidy ok quiet [] pend A (returnType scope span w) (Ty.Everywhere ok) := by
  unfold returnType
  split
  · exact .pure fun _ => Ty.everywhere_leaf rfl rfl
  · exact tidy_resolve scope span _

theorem clean_signature {sig : Signature} (hg : TypesClean ok sig.generics)
    (hp : ∀ p ∈ sig.params, p.ty.Everywhere ok) (hr : sig.ret.Everywhere ok) :
    ∀ t ∈ sig.types, t.Everywhere ok := by
  intro t ht
  simp only [Signature.types, List.mem_append, List.mem_flatMap, List.mem_map, List.mem_singleton] at ht
  rcases ht with (⟨g, hmem, ht⟩ | ⟨p, hmem, rfl⟩) | rfl
  · exact hg g hmem t ht
  · exact hp p hmem
  · exact hr

theorem clean_addFunction {r r' : Registry} {sig : Signature} (h : r.Clean ok pend)
    (hsig : (∀ t ∈ sig.types, t.Everywhere ok) ∧ (sig.variadic = true → sig.params = [] → ok .error))
    (k : r.addFunction sig = some r') : r'.Clean ok pend := by
  obtain ⟨-, rfl⟩ := Registry.eq_of_addFunction k
  exact ⟨h.aliased, h.decl, List.forall_mem_append.mpr ⟨h.function, List.forall_mem_singleton.mpr hsig⟩,
    h.method, h.constant⟩

theorem clean_addMethod {r r' : Registry} {m : MethodSig} (h : r.Clean ok pend)
    (hsig : ∀ t ∈ m.sig.types, t.Everywhere ok) (k : r.addMethod m = some r') : r'.Clean ok pend := by
  obtain ⟨-, rfl⟩ := Registry.eq_of_addMethod k
  exact ⟨h.aliased, h.decl, h.function,
    List.forall_mem_append.mpr ⟨h.method, List.forall_mem_singleton.mpr hsig⟩, h.constant⟩

theorem tidy_function [Ty.Common ok] (f : FunctionItem) :
    Tidy ok quiet [] pend (f.variadic = true → f.params = [] → ok .error) (function f) fun _ => True := by
  unfold function
  refine (tidy_resolveGenericsFrom _ 0 f.generics).bind fun gs => (tidy_params gs f.params).bind fun ps => ?_
  refine (tidy_returnType gs f.span f.ret).bind fun t => tidy_get.bind fun s => ?_
  refine tidy_keep _ _ fun hA r hr => ?_
  obtain ⟨⟨⟨⟨hvariadic, hgs⟩, hps, hlength⟩, ht⟩, hs⟩ := hA
  refine clean_addFunction hs.registry ⟨clean_signature hgs hps ht, fun hv hnil => hvariadic hv ?_⟩ hr
  have hps : ps = [] := hnil
  rw [hps] at hlength
  exact List.length_eq_zero_iff.mp hlength.symm

theorem tidy_method [Ty.Common ok] (m : MethodItem) : Tidy ok quiet [] pend A (method m) fun _ => True := by
  unfold method
  refine tidy_get.bind fun _ => ?_
  split
  · exact (tidy_report _ _).imp fun _ _ => False.elim
  · refine tidy_get.bind fun _ => (tidy_params _ m.params).bind fun ps => ?_
    refine (tidy_returnType _ m.span m.ret).bind fun t => tidy_get.bind fun s => ?_
    refine tidy_keep _ _ fun hA r hr => clean_addMethod hA.2.registry ?_ hr
    exact clean_signature nofun hA.1.1.2.1 hA.1.2

theorem tidy_functions [Ty.Common ok] (fs : List FunctionItem) :
    Tidy ok quiet [] pend (∀ f ∈ fs, f.variadic = true → f.params = [] → ok .error) (functions fs)
      fun _ => True := by
  induction fs with
  | nil => exact .pure fun _ => True.intro
  | cons f fs ih =>
    refine ((tidy_function f).assuming fun hA => hA f (by simp)).bind fun _ => ?_
    exact ih.assuming fun hA d hd => hA.1 d (by simp [hd])

theorem tidy_methods [Ty.Common ok] (ms : List MethodItem) :
    Tidy ok quiet [] pend A (methods ms) fun _ => True := by
  induction ms generalizing A with
  | nil => exact .pure fun _ => True.intro
  | cons m ms ih => exact (tidy_method m).bind fun _ => ih

theorem clean_addDecl {r r' : Registry} {info : DeclInfo} {id : DeclId} (h : r.Clean ok pend)
    (hinfo : info.Clean ok (pend' id)) (hp : ∀ i, pend i → pend' i) (k : r.addDecl info = some (id, r')) :
    r'.Clean ok pend' := by
  obtain ⟨-, rfl, rfl⟩ := Registry.eq_of_addDecl k
  refine ⟨List.forall_mem_append.mpr ⟨h.aliased, List.forall_mem_singleton.mpr nofun⟩, ?_,
    h.function, h.method, h.constant⟩
  intro i old hi
  have hold : (r.decls ++ [info])[i]? = some old := hi
  rw [List.getElem?_append] at hold
  split at hold
  · exact (h.decl hold).mono (hp i)
  · next hge =>
    obtain ⟨hlt, heq⟩ := List.getElem?_eq_some_iff.mp hold
    have hlen : i = r.decls.length :=
      Nat.le_antisymm (Nat.sub_eq_zero_iff_le.mp (Nat.lt_one_iff.mp hlt)) (Nat.not_lt.mp hge)
    subst hlen
    rw [← heq]
    simpa using hinfo

theorem yields_declare [Ty.Common ok] (x : String) (span : Span) (gs : List GenericItem) {kind : DeclKind}
    (hk : ∀ t ∈ kind.types, t.Everywhere ok) :
    Yields quiet [] (·.Clean ok pend) (declare x span gs kind) fun id s =>
      s.Clean ok fun i => pend i ∨ gs ≠ [] ∧ id = some i := by
  unfold declare
  refine Yields.bind (Q := fun s t => s.Clean ok pend ∧ t.Clean ok pend)
    (fun s => ⟨.refl s, fun _ hs => ⟨hs, hs⟩⟩) fun s => ?_
  split
  · next id r hadd =>
    refine fun t => ⟨.of_same (List.prefix_refl _) rfl, fun _ hs => ⟨?_, hs.2.const⟩⟩
    refine clean_addDecl hs.1.registry ⟨hk, fun g hg => .inr ⟨.inr ⟨?_, rfl⟩, ?_⟩⟩ (fun i => .inl) hadd
    · rintro rfl
      cases hg
    · exact default_placeholders 0 gs g hg
  · refine Yields.imp (P := fun t => t.Clean ok pend ∧ True) ?_ (fun t hs => ⟨hs.2, True.intro⟩) fun _ _ => id
    refine Yields.bind (tidy_report _ _) fun _ t => ⟨.refl t, fun _ hs => hs.2.elim⟩

def Declaring (ok : Ty → Prop) (quiet : BodyState → Prop) (generics : List (List GenericItem))
    (x : Register (List (Option DeclId))) : Prop :=
  ∀ (pend : DeclId → Prop) (A : Prop), Yields quiet [] (fun s => s.Clean ok pend ∧ A) x fun ids s =>
    (s.Clean ok fun i => pend i ∨ ∃ e ∈ ids.zip generics, e.2 ≠ [] ∧ e.1 = some i) ∧
      A ∧ ids.length = generics.length

theorem declaring_cons {gs : List GenericItem} {gss : List (List GenericItem)} {x : Register (Option DeclId)}
    {xs : Register (List (Option DeclId))}
    (hx : ∀ pend, Yields quiet [] (·.Clean ok pend) x fun id s =>
      s.Clean ok fun i => pend i ∨ gs ≠ [] ∧ id = some i)
    (hxs : Declaring ok quiet gss xs) :
    Declaring ok quiet (gs :: gss) (do
      let id ← x
      return id :: (← xs)) := by
  intro pend A
  refine ((hx pend).and A).bind fun id => (hxs _ A).bind fun ids s => ⟨.refl s, fun _ hs => ?_⟩
  obtain ⟨hclean, hA, hlength⟩ := hs
  refine ⟨⟨hclean.registry.mono fun i hi => ?_, hclean.const⟩, hA, congrArg (· + 1) hlength⟩
  rcases hi with (hi | hi) | ⟨e, he, hi⟩
  · exact .inl hi
  · exact .inr ⟨(id, gs), List.mem_cons_self, hi⟩
  · exact .inr ⟨e, List.mem_cons_of_mem _ he, hi⟩

theorem declaring_nil : Declaring ok quiet [] (pure []) :=
  fun _ _ s => ⟨.refl s, fun _ hs => ⟨⟨hs.1.registry.mono fun _ => .inl, hs.1.const⟩, hs.2, rfl⟩⟩

theorem declaring_structs [Ty.Common ok] (items : List StructItem) :
    Declaring ok quiet (items.map (·.generics)) (declareStructs items) := by
  induction items with
  | nil => exact declaring_nil
  | cons s ss ih => exact declaring_cons (fun _ => yields_declare _ _ _ (List.forall_mem_nil _)) ih

theorem declaring_enums [Ty.Common ok] (items : List EnumItem) :
    Declaring ok quiet (items.map fun _ => []) (declareEnums items) := by
  have hkind : ∀ t ∈ (DeclKind.enum (.prim .i32) [] []).types, t.Everywhere ok :=
    List.forall_mem_singleton.mpr (Ty.everywhere_leaf rfl rfl)
  induction items with
  | nil => exact declaring_nil
  | cons e es ih => exact declaring_cons (fun _ => yields_declare _ _ _ hkind) ih

theorem declaring_interfaces [Ty.Common ok] (items : List InterfaceItem) :
    Declaring ok quiet (items.map (·.generics)) (declareInterfaces items) := by
  induction items with
  | nil => exact declaring_nil
  | cons i is ih => exact declaring_cons (fun _ => yields_declare _ _ _ (List.forall_mem_nil _)) ih

theorem mem_of_zip {ids : List (Option DeclId)} {gss : List (List GenericItem)} {i : DeclId}
    (h : ∃ e ∈ ids.zip gss, e.2 ≠ [] ∧ e.1 = some i) : some i ∈ ids := by
  obtain ⟨e, he, -, hi⟩ := h
  exact hi ▸ (List.of_mem_zip he).1

theorem not_mem_zip_enums {ids : List (Option DeclId)} {es : List EnumItem} {i : DeclId} :
    ¬ ∃ e ∈ ids.zip (es.map fun _ => ([] : List GenericItem)), e.2 ≠ [] ∧ e.1 = some i := by
  rintro ⟨e, he, hne, -⟩
  obtain ⟨_, -, heq⟩ := List.mem_map.mp (List.of_mem_zip he).2
  exact hne heq.symm

theorem clean_declarations (ok : Ty → Prop) [Ty.Common ok] (quiet : BodyState → Prop) (m : Module) :
    Yields quiet m.consts
      (fun s => s.Clean ok (fun _ => False) ∧ (∀ c ∈ m.consts, ConstReady ok quiet c) ∧
        ∀ f ∈ m.functions, f.variadic = true → f.params = [] → ok .error)
      (declarations m) fun _ s => s.Clean ok fun _ => False := by
  unfold declarations
  refine (declaring_structs m.structs _ _).bind fun structIds => ?_
  refine (declaring_enums m.enums _ _).bind fun enumIds => ?_
  refine (declaring_interfaces m.interfaces _ _).bind fun interfaceIds => ?_
  refine Yields.bind (Tidy.imp (tidy_aliases m.aliases) fun _ hA _ => hA) fun _ => ?_
  refine (yields_setGenerics fun hA => hA.1.1.2).bind fun _ => ?_
  refine (yields_setGenerics fun hA => hA.2).bind fun _ => ?_
  have hrest : Tidy ok quiet (m.consts ++ []) (fun _ => False) ((∀ c ∈ m.consts, ConstReady ok quiet c) ∧
      ∀ f ∈ m.functions, f.variadic = true → f.params = [] → ok .error) (do
        consts m.consts
        structs structIds m.structs
        enums enumIds m.enums
        functions m.functions
        methods m.methods) fun _ => True := by
    refine ((tidy_consts m.consts).assuming And.left).seq fun _ => ?_
    refine (tidy_structs structIds m.structs).bind fun _ => (tidy_enums enumIds m.enums).bind fun _ => ?_
    refine ((tidy_functions m.functions).assuming fun hA => ?_).bind fun _ => tidy_methods m.methods
    exact hA.1.1.1.2
  rw [List.append_nil] at hrest
  refine Yields.imp hrest (fun s hs => ⟨⟨hs.1.registry.mono ?_, hs.1.const⟩, hs.2.1.1.1⟩) fun _ _ => And.left
  rintro i ⟨⟨((hi | hi) | hi) | hi, hstruct⟩, hinterface⟩
  · exact hi
  · exact hstruct (mem_of_zip hi)
  · exact not_mem_zip_enums hi
  · exact hinterface (mem_of_zip hi)

end Register

end TypeFlow
