import TypeFlow.Proofs.Check.Headings
import Mathlib.Data.List.Nodup

namespace TypeFlow

theorem lookup_of_mem {α β : Type} [BEq α] [LawfulBEq α] {k : α} {v : β} {es : List (α × β)}
    (hkeys : (es.map (·.1)).Nodup) (h : (k, v) ∈ es) : es.lookup k = some v := by
  obtain ⟨w, hw⟩ := Option.isSome_iff_exists.mp (isSome_lookup_of_mem h)
  have hsame : (k, w) = (k, v) := List.inj_on_of_nodup_map hkeys (mem_of_lookup hw) h rfl
  rw [hw, (Prod.mk.inj hsame).2]

namespace Registry

structure Derives (r : Registry) (done : List Settlement) : Prop where
  free : r.Free (done.map (·.item))
  accepted : ∀ d ∈ done, ∃ t, d.outcome = .ok t
  order : Register.InOrder r done

variable {r r' : Registry} {done part new : List Settlement} {d e : Settlement}

theorem resolve_of_embedsIn (h : r.EmbedsIn r') {w : Written} {t : Ty} (ht : r.resolve [] w = .ok t) :
    r'.resolve [] w = .ok t := by
  rcases agrees_resolve h w fun _ _ => rfl with heq | ⟨x, -, -, -, hunknown⟩
  · rw [← heq, ht]
  · rw [ht] at hunknown
    cases hunknown

theorem Free.left {as bs : List AliasItem} (h : r.Free (as ++ bs)) : r.Free as := by
  have hsub : (as.map (·.name)).Sublist ((as ++ bs).map (·.name)) := (List.sublist_append_left _ _).map _
  exact (hsub.append_left _).nodup h

theorem Free.not_mem_left {as bs : List AliasItem} {a : AliasItem} (h : r.Free (as ++ bs)) (ha : a ∈ bs) :
    a ∉ as := by
  have hnames := (List.nodup_append.mp h).2.1
  rw [List.map_append] at hnames
  exact fun hmem => (List.nodup_append.mp hnames).2.2 _ (List.mem_map_of_mem hmem) _ (List.mem_map_of_mem ha) rfl

theorem Free.nodup_settle (h : r.Free (done.map (·.item))) : ((r.settle done).types.map (·.1)).Nodup := by
  have hfree : (r.settle done).Free [] := Free.settle (by rwa [List.append_nil])
  simpa [Free] using hfree

theorem embedsIn_settle (h : r.Free (done.map (·.item))) (hsub : part ⊆ done) :
    (r.settle part).EmbedsIn (r.settle done) := by
  refine ⟨fun x def' hx => lookup_of_mem h.nodup_settle ?_, fun _ => rfl, rfl⟩
  rcases List.mem_append.mp (mem_of_lookup hx) with hold | hnew
  · exact List.mem_append_left _ hold
  · exact List.mem_append_right _ (List.map_subset _ hsub hnew)

namespace Derives

theorem eq_of_item_eq (h : r.Derives done) (hd : d ∈ done) (he : e ∈ done) (heq : d.item = e.item) :
    d = e := by
  have hnames : (done.map fun d => d.item.name).Nodup := by
    simpa [Function.comp_def] using (List.nodup_append.mp h.free).2.1
  exact List.inj_on_of_nodup_map hnames hd he (congrArg (·.name) heq)

theorem typeDef_settle (h : r.Derives done) (hd : d ∈ done) {t : Ty} (ht : d.outcome = .ok t) :
    (r.settle done).typeDef d.item.name = some (.alias t) := by
  have hentry : d.entry = (d.item.name, .alias t) := by
    rw [Settlement.entry, ht]
    rfl
  exact lookup_of_mem h.free.nodup_settle (List.mem_append_right _ (hentry ▸ List.mem_map_of_mem hd))

theorem resolve_of_before (h : r.Derives (new ++ d :: done)) (hfree : r.Free (part.map (·.item)))
    (hsub : new ⊆ part) : (r.settle part).resolve [] d.item.target = d.outcome := by
  obtain ⟨t, ht⟩ := h.accepted d (List.mem_append_right _ List.mem_cons_self)
  rw [ht]
  exact resolve_of_embedsIn (embedsIn_settle hfree hsub) (h.order.resolve ht)

theorem resolve_settle (h : r.Derives done) (hd : d ∈ done) :
    (r.settle done).resolve [] d.item.target = d.outcome := by
  obtain ⟨ds, es, rfl⟩ := List.append_of_mem hd
  exact h.resolve_of_before h.free (List.subset_append_left _ _)

theorem resolve_or_unknown (h : r.Derives done) (hsub : part ⊆ done) (hd : d ∈ done) :
    (r.settle part).resolve [] d.item.target = d.outcome ∨
      ∃ x, (r.settle part).resolve [] d.item.target = .error (.unknownType x) := by
  rcases agrees_resolve (embedsIn_settle h.free hsub) d.item.target fun _ _ => rfl with heq | ⟨x, -, -, -, heq⟩
  · exact .inl (heq.trans (h.resolve_settle hd))
  · exact .inr ⟨x, heq⟩

theorem exists_next (h : r.Derives done) (hfree : r.Free (part.map (·.item)))
    (hleft : ∃ d ∈ done, d ∉ part) :
    ∃ d ∈ done, d ∉ part ∧ (r.settle part).resolve [] d.item.target = d.outcome := by
  classical
  obtain ⟨d, hfind⟩ : ∃ d, done.find? (· ∉ part) = some d := by
    obtain ⟨d, hd, hnot⟩ := hleft
    exact Option.isSome_iff_exists.mp (List.find?_isSome.mpr ⟨d, hd, by simpa using hnot⟩)
  obtain ⟨hnot, ds, es, rfl, hds⟩ := List.find?_eq_some_iff_append.mp hfind
  refine ⟨d, List.mem_append_right _ List.mem_cons_self, by simpa using hnot, ?_⟩
  exact h.resolve_of_before hfree fun e he => by simpa using hds e he

theorem subset_of_inOrder (h : r.Derives done) (hsub : part ⊆ done)
    (hitems : ∀ d ∈ new, ∃ e ∈ done, e.item = d.item) (hok : ∀ d ∈ new, ∃ t, d.outcome = .ok t)
    (horder : Register.InOrder (r.settle part) new) : new ⊆ done := by
  induction new generalizing part with
  | nil => exact List.nil_subset _
  | cons d new ih =>
    obtain ⟨⟨e, he, heq⟩, hrest⟩ := List.forall_mem_cons.mp hitems
    obtain ⟨⟨t, ht⟩, hokrest⟩ := List.forall_mem_cons.mp hok
    have hres := horder.1 t ht
    rw [← heq] at hres
    have hed : e = d := by
      rcases h.resolve_or_unknown hsub he with hsame | ⟨x, hunknown⟩
      · rw [hres, ← ht] at hsame
        cases e
        cases d
        cases heq
        cases hsame
        rfl
      · rw [hres] at hunknown
        cases hunknown
    subst hed
    have hpart : part ++ [e] ⊆ done := List.append_subset.mpr ⟨hsub, by simpa using he⟩
    refine List.cons_subset.mpr ⟨he, ih hpart hrest hokrest ?_⟩
    rw [settle_append]
    exact horder.2

end Derives

end Registry

namespace Register

-- The rounds as a loop without a bound: each rule is a way in which a round can end.
inductive Rounds : List AliasItem → Registration → Registration → Prop
  | stuck {pending : List AliasItem} {s : Registration} :
      ((aliasRound pending).run s).1.length = pending.length →
      Rounds pending s ((failAliases ((aliasRound pending).run s).1).run ((aliasRound pending).run s).2).2
  | done {pending : List AliasItem} {s s' : Registration} :
      ((aliasRound pending).run s).1.length ≠ pending.length →
      (retryable ((aliasRound pending).run s).1).run ((aliasRound pending).run s).2 = ([], s') →
      Rounds pending s s'
  | again {pending rest : List AliasItem} {s s' s'' : Registration} :
      ((aliasRound pending).run s).1.length ≠ pending.length →
      (retryable ((aliasRound pending).run s).1).run ((aliasRound pending).run s).2 = (rest, s') →
      rest ≠ [] → Rounds rest s' s'' → Rounds pending s s''

theorem length_aliasRound_le (pending : List AliasItem) (s : Registration) :
    ((aliasRound pending).run s).1.length ≤ pending.length := by
  induction pending generalizing s with
  | nil => exact Nat.le_refl _
  | cons a pending ih =>
    rw [aliasRound]
    simp only [StateT.run_bind, StateT.run_get, pure_bind]
    split
    · exact Nat.le_succ_of_le (ih _)
    · exact Nat.succ_le_succ (ih s)

theorem length_retryable_le (failed : List (AliasItem × ResolveError)) (s : Registration) :
    ((retryable failed).run s).1.length ≤ failed.length := by
  induction failed generalizing s with
  | nil => exact Nat.le_refl _
  | cons f failed ih =>
    obtain ⟨a, e⟩ := f
    cases e with
    | unknownType x => exact Nat.succ_le_succ (ih s)
    | genericArgCount | constArgExpected => exact Nat.le_succ_of_le (ih _)

-- Fewer aliases are left after each round but the last, so the loop ends where the bounded one does.
theorem rounds_aliasRounds {fuel : Nat} {pending : List AliasItem} (s : Registration)
    (hfuel : pending.length < fuel) : Rounds pending s ((aliasRounds fuel pending).run s).2 := by
  induction fuel generalizing pending s with
  | zero => cases hfuel
  | succ fuel ih =>
    rw [run_aliasRounds_succ]
    dsimp only
    split
    · next hstuck => exact .stuck (eq_of_beq hstuck)
    · next hprogress =>
      have hne : ((aliasRound pending).run s).1.length ≠ pending.length := fun heq => hprogress (beq_iff_eq.mpr heq)
      split
      · next hempty => exact .done hne (Prod.ext (List.isEmpty_iff.mp hempty) rfl)
      · next hempty =>
        have hround := length_aliasRound_le pending s
        have hretry := length_retryable_le ((aliasRound pending).run s).1 ((aliasRound pending).run s).2
        have hrest := ih ((retryable ((aliasRound pending).run s).1).run ((aliasRound pending).run s).2).2
          (Nat.lt_of_le_of_lt hretry (by omega))
        exact .again hne rfl (fun hnil => hempty (List.isEmpty_iff.mpr hnil)) hrest

theorem run_retryable_unknown {failed : List (AliasItem × ResolveError)}
    (h : ∀ f ∈ failed, ∃ x, f.2 = .unknownType x) (s : Registration) :
    (retryable failed).run s = (failed.map (·.1), s) := by
  induction failed with
  | nil => rfl
  | cons f failed ih =>
    obtain ⟨a, e⟩ := f
    obtain ⟨⟨x, hx⟩, hrest⟩ := List.forall_mem_cons.mp h
    cases hx
    show (a :: ((retryable failed).run s).1, ((retryable failed).run s).2) = _
    rw [ih hrest]
    rfl

variable {r : Registry} {done part : List Settlement} {pending : List AliasItem} {s : Registration}

theorem run_aliasRound_of_derives (h : r.Derives done) (hs : s.registry = r.settle part) (hsub : part ⊆ done)
    (hperm : (part.map (·.item) ++ pending).Perm (done.map (·.item))) :
    ∃ new failed, (aliasRound pending).run s = (failed, s.settle new) ∧ new ⊆ done ∧
      (new.map (·.item) ++ failed.map (·.1)).Perm pending ∧ (∀ f ∈ failed, ∃ x, f.2 = .unknownType x) ∧
      (failed.length = pending.length → pending = []) := by
  have hfree : r.Free (part.map (·.item) ++ pending) := h.free.perm hperm
  obtain ⟨new, failed, hrun, hsplit, hok, horder, hfailed⟩ := run_aliasRound (hs ▸ hfree.settle)
  rw [hs] at horder hfailed
  have hitem {a : AliasItem} (ha : a ∈ pending) : ∃ d ∈ done, d.item = a :=
    List.mem_map.mp (hperm.mem_iff.mp (List.mem_append_right _ ha))
  have hnew : new ⊆ done := h.subset_of_inOrder hsub (fun d hd =>
    hitem (hsplit.mem_iff.mp (List.mem_append_left _ (List.mem_map_of_mem hd)))) hok horder
  refine ⟨new, failed, hrun, hnew, hsplit, fun f hf => ?_, fun hlength => ?_⟩
  · obtain ⟨ds, hds, hres⟩ := hfailed f hf
    obtain ⟨d, hd, hdf⟩ := hitem (hsplit.mem_iff.mp (List.mem_append_right _ (List.mem_map_of_mem hf)))
    obtain ⟨t, ht⟩ := h.accepted d hd
    have hpart : part ++ ds ⊆ done := List.append_subset.mpr ⟨hsub, List.Subset.trans hds.subset hnew⟩
    rw [← Registry.settle_append] at hres
    rcases h.resolve_or_unknown hpart hd with heq | ⟨x, heq⟩
    · rw [hdf, ht] at heq
      exact absurd (hres.symm.trans heq) nofun
    · rw [hdf] at heq
      exact ⟨x, Except.error.inj (hres.symm.trans heq)⟩
  · -- If nothing is settled, the alias that comes next in the derivation was missed.
    have hnil : new = [] := by
      have hlengths := hsplit.length_eq
      rw [List.length_append, List.length_map, List.length_map] at hlengths
      exact List.eq_nil_of_length_eq_zero (by omega)
    subst hnil
    by_contra hpending
    obtain ⟨a, ha⟩ := List.exists_mem_of_ne_nil pending hpending
    obtain ⟨b, hb, rfl⟩ := hitem ha
    have hleft : b ∉ part := fun hmem => hfree.not_mem_left ha (List.mem_map_of_mem hmem)
    obtain ⟨d, hd, hnot, hres⟩ := h.exists_next hfree.left ⟨b, hb, hleft⟩
    have hwaits : d.item ∈ pending := by
      refine (List.mem_append.mp (hperm.mem_iff.mpr (List.mem_map_of_mem hd))).resolve_left fun hmem => ?_
      obtain ⟨e, he, heq⟩ := List.mem_map.mp hmem
      exact hnot (h.eq_of_item_eq (hsub he) hd heq ▸ he)
    obtain ⟨f, hf, hitem⟩ := List.mem_map.mp (hsplit.mem_iff.mpr hwaits)
    obtain ⟨ds, hds, herr⟩ := hfailed f hf
    obtain ⟨t, ht⟩ := h.accepted d hd
    rw [List.prefix_nil.mp hds, Registry.settle_nil] at herr
    rw [← hitem, ht] at hres
    exact absurd (herr.symm.trans hres) nofun

theorem run_aliasRounds_of_derives {fuel : Nat} (h : r.Derives done) (hfuel : pending.length < fuel)
    (hs : s.registry = r.settle part) (hsub : part ⊆ done)
    (hperm : (part.map (·.item) ++ pending).Perm (done.map (·.item))) :
    ∃ new, ((aliasRounds fuel pending).run s).2 = s.settle new ∧ new ⊆ done ∧
      (new.map (·.item)).Perm pending := by
  induction fuel generalizing part pending s with
  | zero => cases hfuel
  | succ fuel ih =>
    obtain ⟨new, failed, hrun, hnew, hsplit, hwaits, hstuck⟩ := run_aliasRound_of_derives h hs hsub hperm
    have hlengths := hsplit.length_eq
    rw [List.length_append, List.length_map, List.length_map] at hlengths
    rw [run_aliasRounds_succ, hrun]
    dsimp only
    rw [run_retryable_unknown hwaits]
    dsimp only
    split
    · next hlast =>
      have hpending := hstuck (eq_of_beq hlast)
      subst hpending
      rw [List.length_nil, Nat.add_eq_zero_iff] at hlengths
      rw [List.eq_nil_of_length_eq_zero hlengths.1, List.eq_nil_of_length_eq_zero hlengths.2]
      exact ⟨[], rfl, List.nil_subset _, .refl _⟩
    · next hprogress =>
      split
      · next hempty =>
        rw [List.isEmpty_iff.mp hempty, List.append_nil] at hsplit
        exact ⟨new, rfl, hnew, hsplit⟩
      · have hnext : ((part ++ new).map (·.item) ++ failed.map (·.1)).Perm (done.map (·.item)) := by
          rw [List.map_append, List.append_assoc]
          exact (hsplit.append_left _).trans hperm
        have hless : (failed.map (·.1)).length < fuel := by
          rw [List.length_map]
          simp only [beq_iff_eq] at hprogress
          omega
        have hregistry : (s.settle new).registry = r.settle (part ++ new) := by
          rw [Registry.settle_append, ← hs]
          rfl
        obtain ⟨rest, hrest, hsubset, hitems⟩ :=
          ih hless hregistry (List.append_subset.mpr ⟨hsub, hnew⟩) hnext
        refine ⟨new ++ rest, ?_, List.append_subset.mpr ⟨hnew, hsubset⟩, ?_⟩
        · rw [hrest, s.settle_append]
        · rw [List.map_append]
          exact (hitems.append_left _).trans hsplit

theorem derives_of_errors_eq {as : List AliasItem} (h : s.registry.Free as)
    (herrors : ((aliases as).run s).2.errors = s.errors) :
    ∃ done, s.registry.Derives done ∧ (done.map (·.item)).Perm as := by
  obtain ⟨done, hrun, hperm, -, horder⟩ := run_aliases h
  refine ⟨done, ⟨h.perm hperm, fun d hd => ?_, horder⟩, hperm⟩
  have hnone : done.flatMap (·.errors) = [] := by
    rw [hrun] at herrors
    exact List.append_right_eq_self.mp herrors
  exact reportOf_eq_nil.mp (List.flatMap_eq_nil_iff.mp hnone d hd)

theorem run_aliases_of_derives {as : List AliasItem} (h : s.registry.Derives done)
    (hperm : as.Perm (done.map (·.item))) :
    ∃ new, ((aliases as).run s).2 = s.settle new ∧ new ⊆ done ∧ done ⊆ new ∧
      s.registry.Free (new.map (·.item)) := by
  rw [run_aliases_eq (h.free.perm hperm)]
  have hstart : s.registry = s.registry.settle [] := s.registry.settle_nil.symm
  obtain ⟨new, hrun, hnew, hitems⟩ :=
    run_aliasRounds_of_derives h (Nat.lt_succ_self as.length) hstart (List.nil_subset _) hperm
  refine ⟨new, hrun, hnew, fun d hd => ?_, h.free.perm (hitems.trans hperm)⟩
  obtain ⟨e, he, heq⟩ := List.mem_map.mp ((hitems.trans hperm).mem_iff.mpr (List.mem_map_of_mem hd))
  rwa [← h.eq_of_item_eq (hnew he) hd heq]

theorem aliases_of_derives {as : List AliasItem} (h : s.registry.Derives done)
    (hperm : as.Perm (done.map (·.item))) :
    let after := ((aliases as).run s).2
    after.errors = s.errors ∧ ∀ d ∈ done, ∀ t, d.outcome = .ok t →
      after.registry.typeDef d.item.name = some (.alias t) ∧
      after.registry.resolve [] d.item.target = .ok t := by
  obtain ⟨new, hrun, hnew, hdone, hfree⟩ := run_aliases_of_derives h hperm
  intro after
  have hembeds : (s.registry.settle done).EmbedsIn after.registry := by
    show (s.registry.settle done).EmbedsIn ((aliases as).run s).2.registry
    rw [hrun]
    exact Registry.embedsIn_settle hfree hdone
  refine ⟨?_, fun d hd t ht => ⟨?_, ?_⟩⟩
  · have hnone : new.flatMap (·.errors) = [] :=
      List.flatMap_eq_nil_iff.mpr fun d hd => reportOf_eq_nil.mpr (h.accepted d (hnew hd))
    show ((aliases as).run s).2.errors = s.errors
    rw [hrun, Registration.settle, hnone, List.append_nil]
  · exact hembeds.typeDef _ _ (h.typeDef_settle hd ht)
  · exact Registry.resolve_of_embedsIn hembeds ((h.resolve_settle hd).trans ht)

end Register

namespace Module

theorem free_begun (m : Module) {as : List AliasItem} (hnames : (as.map (·.name)).Nodup)
    (hnew : ∀ a ∈ as, a.name ∉ m.headings.map (·.name)) : m.begun.registry.Free as := by
  obtain ⟨ss, es, is, hkept, hregistry, hnodup, -⟩ := m.begun_eq
  refine List.nodup_append.mpr ⟨hnodup, hnames, fun x hx y hy heq => ?_⟩
  obtain ⟨a, ha, rfl⟩ := List.mem_map.mp hy
  rw [hregistry, Registry.names_declare] at hx
  exact hnew a ha (heq ▸ (hkept.map _).subset hx)

theorem registers_perm (m : Module) (as : List AliasItem) (hnames : (as.map (·.name)).Nodup)
    (hnew : ∀ a ∈ as, a.name ∉ m.headings.map (·.name)) :
    let after (bs : List AliasItem) := ((Register.aliases bs).run m.begun).2
    Register.Rounds as m.begun (after as) ∧
      ((after as).errors = m.begun.errors → ∀ bs : List AliasItem, bs.Perm as →
        (after bs).errors = m.begun.errors ∧ ∀ a ∈ as, ∃ t,
          (after as).registry.typeDef a.name = some (.alias t) ∧
          (after bs).registry.typeDef a.name = some (.alias t) ∧
          (after bs).registry.resolve [] a.target = .ok t) := by
  intro after
  have hfree := m.free_begun hnames hnew
  refine ⟨?_, fun hclean bs hbs => ?_⟩
  · show Register.Rounds as m.begun ((Register.aliases as).run m.begun).2
    rw [Register.run_aliases_eq hfree]
    exact Register.rounds_aliasRounds m.begun (Nat.lt_succ_self _)
  · obtain ⟨done, hderives, hitems⟩ := Register.derives_of_errors_eq hfree hclean
    obtain ⟨-, hfirst⟩ := Register.aliases_of_derives hderives hitems.symm
    obtain ⟨herrors, hsecond⟩ := Register.aliases_of_derives hderives (hbs.trans hitems.symm)
    refine ⟨herrors, fun a ha => ?_⟩
    obtain ⟨d, hd, rfl⟩ := List.mem_map.mp (hitems.mem_iff.mpr ha)
    obtain ⟨t, ht⟩ := hderives.accepted d hd
    exact ⟨t, (hfirst d hd t ht).1, hsecond d hd t ht⟩

def chained : Module where
  structs := [⟨"Box", [⟨"T", .type [] none, {}⟩], [], [], {}⟩]
  aliases := [⟨"Rows", .dynArray (.named "Row" []), {}⟩, ⟨"Row", .dynArray (.named "Cell" []), {}⟩,
    ⟨"Cell", .named "Box" [.named "i32" []], {}⟩]

theorem registers_chained :
    let after (bs : List AliasItem) := ((Register.aliases bs).run chained.begun).2
    (chained.aliases.map (·.name)).Nodup ∧ (∀ a ∈ chained.aliases, a.name ∉ chained.headings.map (·.name)) ∧
      (after chained.aliases).errors = chained.begun.errors ∧
      ∃ t, (after chained.aliases).registry.typeDef "Rows" = some (.alias t) ∧
        (after chained.aliases.reverse).registry.typeDef "Rows" = some (.alias t) ∧
        (after chained.aliases.reverse).registry.resolve [] (.dynArray (.named "Row" [])) = .ok t := by
  intro after
  have hnames : (chained.aliases.map (·.name)).Nodup := by decide
  have hnew : ∀ a ∈ chained.aliases, a.name ∉ chained.headings.map (·.name) := by decide
  have hclean : (after chained.aliases).errors = chained.begun.errors := by decide +kernel
  obtain ⟨-, hperm⟩ := registers_perm chained chained.aliases hnames hnew
  obtain ⟨-, hall⟩ := hperm hclean _ (List.reverse_perm _)
  exact ⟨hnames, hnew, hclean, hall ⟨"Rows", .dynArray (.named "Row" []), {}⟩ List.mem_cons_self⟩

end Module

end TypeFlow
