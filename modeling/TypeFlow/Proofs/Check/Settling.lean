import TypeFlow.Proofs.Check.Listing

namespace TypeFlow

structure Settlement where
  item : AliasItem
  outcome : Except ResolveError Ty

namespace Settlement

def refused (failed : AliasItem × ResolveError) : Settlement := ⟨failed.1, .error failed.2⟩

def entry (d : Settlement) : String × TypeDef :=
  (d.item.name, .alias (d.outcome.toOption.getD .error))

def errors (d : Settlement) : List CheckError := reportOf d.item.span d.outcome

end Settlement

namespace Registry

def settle (r : Registry) (done : List Settlement) : Registry :=
  { r with types := r.types ++ done.map (·.entry) }

theorem settle_nil (r : Registry) : r.settle [] = r := by
  simp [settle]

theorem settle_append (r : Registry) (ds es : List Settlement) :
    r.settle (ds ++ es) = (r.settle ds).settle es := by
  simp [settle]

def Free (r : Registry) (as : List AliasItem) : Prop := (r.types.map (·.1) ++ as.map (·.name)).Nodup

variable {r : Registry}

theorem typeDef_eq_none {x : String} (h : x ∉ r.types.map (·.1)) : r.typeDef x = none := by
  refine List.lookup_eq_none_iff.mpr fun e he => ?_
  have hne : x ≠ e.1 := fun heq => h (heq ▸ List.mem_map_of_mem he)
  simpa using hne

theorem Free.typeDef {a : AliasItem} {as : List AliasItem} (h : r.Free as) (ha : a ∈ as) :
    r.typeDef a.name = none :=
  typeDef_eq_none fun hmem =>
    (List.nodup_append.mp h).2.2 _ hmem _ (List.mem_map_of_mem ha) rfl

theorem Free.perm {as bs : List AliasItem} (h : r.Free as) (hperm : bs.Perm as) : r.Free bs := by
  have hnames : (bs.map (·.name)).Perm (as.map (·.name)) := hperm.map _
  exact (hnames.append_left _).nodup_iff.mpr h

theorem Free.tail {a : AliasItem} {as : List AliasItem} (h : r.Free (a :: as)) : r.Free as := by
  have hsub : (as.map (·.name)).Sublist ((a :: as).map (·.name)) := List.sublist_cons_self _ _
  exact (hsub.append_left _).nodup h

theorem Free.settle {done : List Settlement} {as : List AliasItem}
    (h : r.Free (done.map (·.item) ++ as)) : (r.settle done).Free as := by
  have hnames : (done.map (·.entry)).map (·.1) = (done.map (·.item)).map (·.name) := by
    simp [Settlement.entry]
  simpa [Free, Registry.settle, hnames] using h

end Registry

namespace Registration

def settle (s : Registration) (done : List Settlement) : Registration :=
  { s with registry := s.registry.settle done, errors := s.errors ++ done.flatMap (·.errors) }

theorem settle_nil (s : Registration) : s.settle [] = s := by
  simp [settle, Registry.settle_nil]

theorem settle_append (s : Registration) (ds es : List Settlement) :
    s.settle (ds ++ es) = (s.settle ds).settle es := by
  simp [settle, Registry.settle_append]

end Registration

namespace Register

open Settlement

theorem run_freshAliases {pending as : List AliasItem} {s : Registration}
    (h : s.registry.Free (pending ++ as)) : (freshAliases pending as).run s = (pending ++ as, s) := by
  induction as generalizing pending with
  | nil =>
    rw [List.append_nil]
    rfl
  | cons a as ih =>
    have hnone : s.registry.typeDef a.name = none := h.typeDef (by simp)
    have hnew : pending.any (·.name == a.name) = false := by
      have hnames := (List.nodup_append.mp h).2.1
      rw [List.map_append, List.map_cons] at hnames
      refine List.any_eq_false.mpr fun b hb heq => ?_
      exact (List.nodup_append.mp hnames).2.2 _ (List.mem_map_of_mem hb) _ List.mem_cons_self (eq_of_beq heq)
    rw [freshAliases]
    simp only [StateT.run_bind, StateT.run_get, pure_bind]
    rw [hnone, hnew, List.append_cons pending a as]
    exact ih (by rwa [← List.append_cons])

theorem addAlias_eq {r : Registry} (d : Settlement) (h : r.typeDef d.item.name = none) :
    (r.addAlias d.item.name (d.outcome.toOption.getD .error)).getD r = r.settle [d] := by
  simp [Registry.addAlias, h, Registry.settle, entry]

theorem run_failAlias {a : AliasItem} {s : Registration} (h : s.registry.typeDef a.name = none)
    (e : ResolveError) : ((failAlias a e).run s).2 = s.settle [refused (a, e)] := by
  show ({ s with
    registry := (s.registry.addAlias a.name .error).getD s.registry
    errors := s.errors ++ [⟨a.span, .ofResolve e⟩] } : Registration) = _
  rw [show (s.registry.addAlias a.name .error).getD s.registry = s.registry.settle [refused (a, e)] from
    addAlias_eq (refused (a, e)) h]
  rfl

theorem run_failAliases {failed : List (AliasItem × ResolveError)} {s : Registration}
    (h : s.registry.Free (failed.map (·.1))) :
    ((failAliases failed).run s).2 = s.settle (failed.map refused) := by
  induction failed generalizing s with
  | nil => exact s.settle_nil.symm
  | cons d failed ih =>
    obtain ⟨a, e⟩ := d
    have hfirst := run_failAlias (h.typeDef List.mem_cons_self) e
    have hrest : (s.settle [refused (a, e)]).registry.Free (failed.map (·.1)) := Registry.Free.settle h
    show ((failAliases failed).run ((failAlias a e).run s).2).2 = _
    rw [hfirst, ih hrest, ← Registration.settle_append]
    rfl

theorem run_retryable {failed : List (AliasItem × ResolveError)} {s : Registration}
    (h : s.registry.Free (failed.map (·.1))) :
    ∃ dropped : List (AliasItem × ResolveError), ∃ kept : List AliasItem,
      (retryable failed).run s = (kept, s.settle (dropped.map refused)) ∧
      (dropped.map (·.1) ++ kept).Perm (failed.map (·.1)) ∧
      ∀ d ∈ dropped, d ∈ failed ∧ ∀ x, d.2 ≠ .unknownType x := by
  induction failed generalizing s with
  | nil => exact ⟨[], [], congrArg ([], ·) s.settle_nil.symm, .refl _, nofun⟩
  | cons d failed ih =>
    obtain ⟨a, e⟩ := d
    by_cases he : ∃ x, e = .unknownType x
    · obtain ⟨x, rfl⟩ := he
      obtain ⟨dropped, kept, hrun, hperm, hdropped⟩ := ih (Registry.Free.tail h)
      refine ⟨dropped, a :: kept, ?_, ?_, ?_⟩
      · show (a :: ((retryable failed).run s).1, ((retryable failed).run s).2) = _
        rw [hrun]
      · exact List.perm_middle.trans (hperm.cons a)
      · exact fun d hd => ⟨List.mem_cons_of_mem _ (hdropped d hd).1, (hdropped d hd).2⟩
    · have hne : ∀ x, e ≠ .unknownType x := fun x hx => he ⟨x, hx⟩
      have hfirst := run_failAlias (h.typeDef List.mem_cons_self) e
      obtain ⟨dropped, kept, hrun, hperm, hdropped⟩ :=
        @ih (s.settle [refused (a, e)]) (Registry.Free.settle h)
      refine ⟨(a, e) :: dropped, kept, ?_, hperm.cons a, ?_⟩
      · rw [retryable]
        · show (retryable failed).run ((failAlias a e).run s).2 = _
          rw [hfirst, hrun, ← Registration.settle_append]
          rfl
        · exact hne
      · refine List.forall_mem_cons.mpr ⟨⟨List.mem_cons_self, hne⟩, fun d hd => ?_⟩
        exact ⟨List.mem_cons_of_mem _ (hdropped d hd).1, (hdropped d hd).2⟩

def Answered (r : Registry) (done : List Settlement) (d : Settlement) : Prop :=
  ∃ ds, ds <+: done ∧ (r.settle ds).resolve [] d.item.target = d.outcome

theorem Answered.now {r : Registry} {d : Settlement} (h : r.resolve [] d.item.target = d.outcome)
    (done : List Settlement) : Answered r done d :=
  ⟨[], List.nil_prefix, by rwa [r.settle_nil]⟩

theorem Answered.after {r : Registry} {done : List Settlement} {d : Settlement} (ds : List Settlement)
    (h : Answered (r.settle ds) done d) : Answered r (ds ++ done) d := by
  obtain ⟨es, hes, hres⟩ := h
  exact ⟨ds ++ es, (List.prefix_append_right_inj _).mpr hes, by rwa [r.settle_append]⟩

def InOrder (r : Registry) : List Settlement → Prop
  | [] => True
  | d :: done => (∀ t, d.outcome = .ok t → r.resolve [] d.item.target = .ok t) ∧ InOrder (r.settle [d]) done

theorem InOrder.append {r : Registry} {ds es : List Settlement} (hds : InOrder r ds)
    (hes : InOrder (r.settle ds) es) : InOrder r (ds ++ es) := by
  induction ds generalizing r with
  | nil => rwa [r.settle_nil] at hes
  | cons d ds ih =>
    refine ⟨hds.1, ih hds.2 ?_⟩
    rwa [← r.settle_append]

theorem inOrder_refused (r : Registry) (failed : List (AliasItem × ResolveError)) :
    InOrder r (failed.map refused) := by
  induction failed generalizing r with
  | nil => trivial
  | cons d failed ih => exact ⟨nofun, ih _⟩

theorem InOrder.resolve {r : Registry} {ds es : List Settlement} {d : Settlement} {t : Ty}
    (h : InOrder r (ds ++ d :: es)) (ht : d.outcome = .ok t) :
    (r.settle ds).resolve [] d.item.target = .ok t := by
  induction ds generalizing r with
  | nil =>
    rw [r.settle_nil]
    exact h.1 t ht
  | cons e ds ih =>
    have hrest := ih h.2
    rwa [← r.settle_append] at hrest

theorem InOrder.answered {r : Registry} {done : List Settlement} {d : Settlement} {t : Ty}
    (h : InOrder r done) (hd : d ∈ done) (ht : d.outcome = .ok t) : Answered r done d := by
  obtain ⟨ds, es, rfl⟩ := List.append_of_mem hd
  exact ⟨ds, List.prefix_append _ _, (h.resolve ht).trans ht.symm⟩

theorem run_aliasRound {pending : List AliasItem} {s : Registration} (h : s.registry.Free pending) :
    ∃ done failed, (aliasRound pending).run s = (failed, s.settle done) ∧
      (done.map (·.item) ++ failed.map (·.1)).Perm pending ∧
      (∀ d ∈ done, ∃ t, d.outcome = .ok t) ∧ InOrder s.registry done ∧
      ∀ d ∈ failed, Answered s.registry done (refused d) := by
  induction pending generalizing s with
  | nil => exact ⟨[], [], congrArg ([], ·) s.settle_nil.symm, .refl _, nofun, trivial, nofun⟩
  | cons a pending ih =>
    rw [aliasRound]
    simp only [StateT.run_bind, StateT.run_get, pure_bind]
    cases hres : s.registry.resolve [] a.target with
    | error e =>
      obtain ⟨done, failed, hrun, hperm, hdone, horder, hfailed⟩ := ih (Registry.Free.tail h)
      refine ⟨done, (a, e) :: failed, ?_, List.perm_middle.trans (hperm.cons a), hdone, horder, ?_⟩
      · show ((a, e) :: ((aliasRound pending).run s).1, ((aliasRound pending).run s).2) = _
        rw [hrun]
      · exact List.forall_mem_cons.mpr ⟨.now hres done, hfailed⟩
    | ok t =>
      let d : Settlement := ⟨a, .ok t⟩
      have hadd : (s.registry.addAlias a.name t).getD s.registry = s.registry.settle [d] :=
        addAlias_eq d (h.typeDef List.mem_cons_self)
      have hstate : { s with registry := s.registry.settle [d] } = s.settle [d] := by
        simp [Registration.settle, errors, reportOf, d]
      obtain ⟨done, failed, hrun, hperm, hdone, horder, hfailed⟩ :=
        @ih (s.settle [d]) (Registry.Free.settle h)
      refine ⟨d :: done, failed, ?_, hperm.cons a, List.forall_mem_cons.mpr ⟨⟨t, rfl⟩, hdone⟩,
        ⟨fun u hu => hres.trans hu, horder⟩, fun e he => (hfailed e he).after [d]⟩
      show (aliasRound pending).run { s with registry := (s.registry.addAlias a.name t).getD s.registry } = _
      rw [hadd, hstate, hrun, ← Registration.settle_append]
      rfl

def Settled (r : Registry) (done : List Settlement) (d : Settlement) : Prop :=
  ∃ ds es, done = ds ++ es ∧ (r.settle ds).resolve [] d.item.target = d.outcome ∧
    ∀ x, d.outcome = .error (.unknownType x) → ∀ e ∈ es, ∃ cause, e.outcome = .error cause

theorem Answered.settled {r : Registry} {done : List Settlement} {d : Settlement} (h : Answered r done d)
    (hknown : ∀ x, d.outcome ≠ .error (.unknownType x)) (rest : List Settlement) :
    Settled r (done ++ rest) d := by
  obtain ⟨ds, ⟨es, rfl⟩, hres⟩ := h
  exact ⟨ds, es ++ rest, List.append_assoc _ _ _, hres, fun x hx => absurd hx (hknown x)⟩

theorem Settled.after {r : Registry} {done : List Settlement} {d : Settlement} (ds : List Settlement)
    (h : Settled (r.settle ds) done d) : Settled r (ds ++ done) d := by
  obtain ⟨es, es', rfl, hres, hlast⟩ := h
  exact ⟨ds ++ es, es', (List.append_assoc _ _ _).symm, by rwa [r.settle_append], hlast⟩

theorem run_lastRound {pending : List AliasItem} {s : Registration} (h : s.registry.Free pending) :
    let round := (aliasRound pending).run s
    round.1.length = pending.length →
    ∃ done, ((failAliases round.1).run round.2).2 = s.settle done ∧ (done.map (·.item)).Perm pending ∧
      (∀ d ∈ done, Settled s.registry done d) ∧ InOrder s.registry done := by
  obtain ⟨done, failed, hround, hperm, -, -, hfailed⟩ := run_aliasRound h
  rw [hround]
  intro _ (hlast : failed.length = pending.length)
  have hnil : done = [] := by
    have hlength := hperm.length_eq
    rw [List.length_append, List.length_map, List.length_map] at hlength
    exact List.eq_nil_of_length_eq_zero (by omega)
  subst hnil
  refine ⟨failed.map refused, ?_, ?_, List.forall_mem_map.mpr fun d hd => ?_, inOrder_refused _ _⟩
  · have hfree : s.registry.Free (failed.map (·.1)) := h.perm hperm
    show ((failAliases failed).run (s.settle [])).2 = _
    rw [s.settle_nil]
    exact run_failAliases hfree
  · rwa [List.map_map]
  · obtain ⟨ds, hds, hres⟩ := hfailed d hd
    rw [List.prefix_nil.mp hds] at hres
    exact ⟨[], _, rfl, hres, fun x _ => List.forall_mem_map.mpr fun e _ => ⟨e.2, rfl⟩⟩

theorem run_round {pending : List AliasItem} {s : Registration} (h : s.registry.Free pending) :
    let round := (aliasRound pending).run s
    round.1.length ≠ pending.length →
    ∃ done kept, (retryable round.1).run round.2 = (kept, s.settle done) ∧ kept.length < pending.length ∧
      (done.map (·.item) ++ kept).Perm pending ∧
      (∀ d ∈ done, ∀ rest, Settled s.registry (done ++ rest) d) ∧ InOrder s.registry done := by
  obtain ⟨done, failed, hround, hperm, hdone, horder, hfailed⟩ := run_aliasRound h
  rw [hround]
  intro _ (hprogress : failed.length ≠ pending.length)
  have hfree : (s.settle done).registry.Free (failed.map (·.1)) := (h.perm hperm).settle
  obtain ⟨dropped, kept, hretry, hsplit, hdropped⟩ := run_retryable hfree
  refine ⟨done ++ dropped.map refused, kept, ?_, ?_, ?_, ?_, horder.append (inOrder_refused _ _)⟩
  · rw [s.settle_append]
    exact hretry
  · have hlength := hperm.length_eq
    have hkept := hsplit.length_eq
    rw [List.length_append, List.length_map, List.length_map] at hlength hkept
    omega
  · rw [List.map_append, List.map_map, List.append_assoc]
    exact (hsplit.append_left _).trans hperm
  · refine List.forall_mem_append.mpr ⟨fun d hd rest => ?_, List.forall_mem_map.mpr fun d hd rest => ?_⟩
    · obtain ⟨t, ht⟩ := hdone d hd
      rw [List.append_assoc]
      exact (horder.answered hd ht).settled (by simp [ht]) _
    · obtain ⟨hmem, hknown⟩ := hdropped d hd
      rw [List.append_assoc]
      exact (hfailed d hmem).settled (fun x hx => hknown x (Except.error.inj hx)) _

theorem run_aliasRounds_succ (fuel : Nat) (pending : List AliasItem) (s : Registration) :
    ((aliasRounds (fuel + 1) pending).run s).2 =
      let round := (aliasRound pending).run s
      let next := (retryable round.1).run round.2
      if round.1.length == pending.length then ((failAliases round.1).run round.2).2
      else if next.1.isEmpty then next.2
      else ((aliasRounds fuel next.1).run next.2).2 := by
  rw [aliasRounds]
  show ((if _ then _ else _ : Register Unit).run _).2 = _
  split
  · next h => exact (if_pos h).symm
  · next h =>
    show ((if _ then _ else _ : Register Unit).run _).2 = _
    refine Eq.trans ?_ (if_neg h).symm
    split
    · next hempty => exact (if_pos hempty).symm
    · next hempty => exact (if_neg hempty).symm

theorem run_aliasRounds {fuel : Nat} {pending : List AliasItem} {s : Registration}
    (hfuel : pending.length < fuel) (h : s.registry.Free pending) :
    ∃ done, ((aliasRounds fuel pending).run s).2 = s.settle done ∧ (done.map (·.item)).Perm pending ∧
      (∀ d ∈ done, Settled s.registry done d) ∧ InOrder s.registry done := by
  induction fuel generalizing pending s with
  | zero => cases hfuel
  | succ fuel ih =>
    rw [run_aliasRounds_succ]
    dsimp only
    split
    · next hlast => exact run_lastRound h (eq_of_beq hlast)
    · next hprogress =>
      obtain ⟨done, kept, hrun, hkept, hperm, hdone, horder⟩ :=
        run_round h fun heq => hprogress (beq_iff_eq.mpr heq)
      have hrest : ∃ rest, (if kept.isEmpty then s.settle done
            else ((aliasRounds fuel kept).run (s.settle done)).2) = (s.settle done).settle rest ∧
          (rest.map (·.item)).Perm kept ∧ (∀ d ∈ rest, Settled (s.settle done).registry rest d) ∧
          InOrder (s.settle done).registry rest := by
        split
        · next hempty =>
          rw [List.isEmpty_iff.mp hempty]
          exact ⟨[], (s.settle done).settle_nil.symm, .refl _, nofun, trivial⟩
        · exact ih (by omega) (h.perm hperm).settle
      obtain ⟨rest, hrest, hrestperm, hsettled, hrestorder⟩ := hrest
      rw [hrun]
      refine ⟨done ++ rest, hrest.trans (s.settle_append done rest).symm, ?_, ?_, horder.append hrestorder⟩
      · rw [List.map_append]
        exact (hrestperm.append_left _).trans hperm
      · refine List.forall_mem_append.mpr ⟨fun d hd => hdone d hd rest, fun d hd => ?_⟩
        exact (hsettled d hd).after done

theorem run_aliases_eq {as : List AliasItem} {s : Registration} (h : s.registry.Free as) :
    (aliases as).run s = (aliasRounds (as.length + 1) as).run s := by
  have hfresh : (freshAliases [] as).run s = (as, s) := run_freshAliases h
  rw [aliases, StateT.run_bind, hfresh]
  rfl

theorem run_aliases {as : List AliasItem} {s : Registration} (h : s.registry.Free as) :
    ∃ done, ((aliases as).run s).2 = s.settle done ∧ (done.map (·.item)).Perm as ∧
      (∀ d ∈ done, Settled s.registry done d) ∧ InOrder s.registry done := by
  rw [run_aliases_eq h]
  exact run_aliasRounds (Nat.lt_succ_self _) h

end Register

end TypeFlow
