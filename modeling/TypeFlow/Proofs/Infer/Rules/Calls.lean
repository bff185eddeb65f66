import TypeFlow.Proofs.Infer.Rules.Sites

namespace TypeFlow

open Theory

variable {c : BodyContext} {T : Theory c} {A : Prop} {g : Spot} {σ : Scope} {x : Option Ty}

def Account.CalledAs (T : Account c) (t : Ty) (es : List Expr) : Prop :=
  T.failed ∨ t = .error ∨
    ∃ ps v r, t = .function ps v r ∧ T.Passes (fun i => (ps[i]?).or ps.getLast?) 0 es

theorem Theory.failed_of_reported {span : Span} (h : T.reported span) : T.failed := .inr ⟨span, h⟩

theorem rule_callLocal (span : Span) (callee : String) {t : Ty} {cs : List Child} (ht : A → T.good t)
    (h : ∀ ch ∈ cs, T.runs ch) :
    Rule T A g (cs.map (·.turn g.scope)) (Infer.callLocal span callee t cs) fun u =>
      T.good u ∧ T.CalledAs t (cs.map (·.expr)) := by
  unfold Infer.callLocal
  split
  · next ps v r =>
    have hret : A → T.good r := fun hA => T.laws.part (ht hA) (by simp [Ty.parts])
    have hparam : A → ∀ i : Nat, T.Suggests ((ps[i]?).or ps.getLast?) := by
      intro hA i u hu
      have hmem : u ∈ ps := by
        rcases Option.or_eq_some_iff.mp hu with hu | ⟨-, hu⟩
        · exact List.mem_of_getElem? hu
        · exact List.mem_of_getLast? hu
      exact .inl (T.laws.part (ht hA) (by simp [Ty.parts, hmem]))
    refine plan_arity span _ _ h (.refl _) (fun _ => ?_) ?_
    · refine (rule_checkArgs hparam 0 h).returns fun _ hA hargs => ⟨hret hA, ?_⟩
      exact .inr (.inr ⟨ps, v, r, rfl, hargs⟩)
    · exact Rule.pure fun hA => ⟨hret hA.1, .inl (failed_of_reported hA.2)⟩
  · refine (rule_inferAll h).returns fun _ hA _ => ⟨ht hA, .inr (.inl rfl)⟩
  · rw [← List.append_nil (cs.map _)]
    refine (rule_inferAll h).andThen fun _ => (rule_report _ _).imp fun u _ hu => ?_
    exact ⟨hu.1 ▸ T.error hu.2, .inl (failed_of_reported hu.2)⟩

def Account.Settles (T : Account c) (g : Spot) (span : Span) (gs : Generics) (args : List (Expr × Ty))
    (f : Instantiation → Ty) (t : Ty) (k : Spot) : Prop :=
  (∃ i, k.inst = some i ∧ T.Instantiates gs args i ∧ t = f i) ∨
    k.inst = g.inst ∧ t = .error ∧ T.reported span

theorem plan_site {site : Site} (ho : site.id = g.own) {gs : Generics}
    {explicit : List GenericChild} {args : List (Child × Ty)} {f : Instantiation → Ty}
    (hg : gs.Holds T.good) (he : ∀ a ∈ explicit, T.RunsGeneric a)
    (h : ∀ a ∈ args, T.runs a.1 ∧ a.2.Applies T.good gs) (hp : ∀ a ∈ args, T.pattern a.2)
    (hr : ∀ i : Instantiation, i.Holds T.good gs → T.good (f i)) :
    Plan T A g (explicit.flatMap (·.turns g.scope) ++ args.map (·.1.turn g.scope)) (do
      match ← Infer.instantiate site.span gs explicit args with
      | some i =>
        Infer.recordInst site.id i
        return f i
      | none => return .error) fun t k =>
        T.good t ∧ k.scope = g.scope ∧ T.Settles g site.span gs (exprsOf args) f t k := by
  rw [← List.append_nil (_ ++ _)]
  refine (rule_instantiate site.span hg he h hp).andThen fun o => ?_
  cases o with
  | some i =>
    refine (Plan.recordInst ho fun hA => hA.2.holds.arg).map fun _ k hA hk => ?_
    subst hk
    exact ⟨hr i hA.2.holds, rfl, .inl ⟨i, rfl, hA.2, rfl⟩⟩
  | none => exact .pure fun hA => ⟨T.error hA.2, rfl, .inr ⟨rfl, rfl, hA.2⟩⟩

def argPairs (sig : Signature) (es : List Expr) : List (Expr × Ty) :=
  es.zip ((List.range es.length).map fun i => (sig.paramAt i).getD .error)

theorem mem_argPairs {sig : Signature} {es : List Expr} {k : Nat} {e : Expr} {t : Ty}
    (he : es[k]? = some e) (ht : sig.paramAt k = some t) : (e, t) ∈ argPairs sig es := by
  obtain ⟨hk, rfl⟩ := List.getElem?_eq_some_iff.mp he
  exact List.mem_of_getElem? (i := k) (by simp [argPairs, hk, ht])

theorem Signature.paramAt_eq_none {sig : Signature} {n i : Nat}
    (h : Takes sig.params.length sig.variadic n) (hi : i < n) (hp : sig.paramAt i = none) :
    sig.variadic = true ∧ sig.params = [] := by
  unfold paramAt at hp
  unfold Takes at h
  split at hp
  · next hlt =>
    have hmin : sig.minArgs ≤ sig.params.length := by
      unfold minArgs
      split <;> omega
    simp only [Option.map_eq_none_iff, List.getElem?_eq_none_iff] at hp
    omega
  · next hlt =>
    split at hp
    · next hv => exact ⟨hv, by simpa using hp⟩
    · next hv =>
      rw [if_neg hv] at h
      simp only [minArgs, if_neg hv] at hlt
      omega

section

variable {f : String} {sig : Signature} {cs : List Child}

theorem zip_paramAt (hsig : c.registry.function f = some sig)
    (htakes : Takes sig.params.length sig.variadic cs.length) (h : ∀ ch ∈ cs, T.runs ch) :
    ∀ a ∈ cs.zip ((List.range cs.length).map fun i => (sig.paramAt i).getD .error),
      (T.runs a.1 ∧ a.2.Applies T.good sig.generics) ∧ T.pattern a.2 := by
  intro a ha
  obtain ⟨h₁, h₂⟩ := List.of_mem_zip ha
  obtain ⟨i, hi, heq⟩ := List.mem_map.mp h₂
  rw [← heq]
  cases hp : sig.paramAt i with
  | none =>
    obtain ⟨hv, hnil⟩ := Signature.paramAt_eq_none htakes (List.mem_range.mp hi) hp
    refine ⟨⟨h _ h₁, fun args _ _ _ => ?_⟩, T.wildcard⟩
    rw [Option.getD_none, Ty.substParams_of_not_hasParam rfl]
    exact T.variadic hsig hv hnil
  | some t =>
    refine ⟨⟨h _ h₁, (T.laws.function hsig).toAll.paramAt hp⟩, ?_⟩
    obtain ⟨p, hmem, rfl⟩ := Signature.exists_of_paramAt hp
    exact T.callee hsig hmem

theorem exprsOf_zip (cs : List Child) (sig : Signature) :
    exprsOf (cs.zip ((List.range cs.length).map fun i => (sig.paramAt i).getD .error)) =
      argPairs sig (cs.map (·.expr)) := by
  simp [exprsOf, argPairs, List.zip_map_left]

def Account.CallsFunction (T : Account c) (g : Spot) (span : Span) (sig : Signature) (es : List Expr)
    (t : Ty) (k : Spot) : Prop :=
  if sig.generics.isEmpty then k.inst = g.inst ∧ (T.failed ∨ T.Passes sig.paramAt 0 es)
  else T.Settles g span sig.generics (argPairs sig es) (·.apply sig.ret) t k

theorem plain_explicit (explicit : List GenericChild) : Turn.Plain (explicit.flatMap (·.turns σ)) := by
  intro u hu
  obtain ⟨a, -, hu⟩ := List.mem_flatMap.mp hu
  cases a with
  | type w => cases hu
  | value ch =>
    rw [List.mem_singleton.mp hu]
    rfl

theorem covers_skip {us : List Turn} (hp : Turn.Plain us) (explicit : List GenericChild) :
    Turn.Covers us (explicit.flatMap (·.turns σ) ++ us) :=
  Turn.covers_of_perm (List.forall_mem_append.mpr ⟨plain_explicit explicit, hp⟩) List.perm_append_comm

theorem covers_args (explicit : List GenericChild) :
    Turn.Covers (cs.map (·.turn σ)) (explicit.flatMap (·.turns σ) ++ cs.map (·.turn σ)) :=
  covers_skip (List.forall_mem_map.mpr fun _ _ => rfl) explicit

theorem plan_callFunction {site : Site} (ho : site.id = g.own) (hsig : c.registry.function f = some sig)
    {explicit : List GenericChild} (he : ∀ a ∈ explicit, T.RunsGeneric a) (h : ∀ ch ∈ cs, T.runs ch) :
    Plan T A g (explicit.flatMap (·.turns g.scope) ++ cs.map (·.turn g.scope))
      (Infer.callFunction site sig explicit cs) fun t k =>
        T.good t ∧ k.scope = g.scope ∧ T.CallsFunction g site.span sig (cs.map (·.expr)) t k := by
  have hholds := T.laws.function hsig
  unfold Infer.callFunction Account.CallsFunction
  split
  · next hempty =>
    have hnone : sig.generics = [] := List.isEmpty_iff.mp hempty
    have hret : T.good sig.ret := Ty.Applies.closed (hnone ▸ hholds.ret)
    have hplain {act : Infer Ty} (hact : Rule T A g (cs.map (·.turn g.scope)) act fun t =>
        T.good t ∧ (T.failed ∨ T.Passes sig.paramAt 0 (cs.map (·.expr)))) :
        Plan T A g (explicit.flatMap (·.turns g.scope) ++ cs.map (·.turn g.scope)) act fun t k =>
          T.good t ∧ k.scope = g.scope ∧ k.inst = g.inst ∧
            (T.failed ∨ T.Passes sig.paramAt 0 (cs.map (·.expr))) := by
      refine (Plan.weaken hact (covers_args explicit)).imp fun t k _ ht => ?_
      obtain ⟨rfl, hgood, hargs⟩ := ht
      exact ⟨hgood, rfl, rfl, hargs⟩
    refine Rule.ite (fun _ => hplain ?_) fun _ => hplain ?_
    · rw [← List.append_nil (cs.map _)]
      refine (rule_inferAll h).andThen fun _ => (rule_report _ _).imp fun t _ ht => ?_
      exact ⟨ht.1 ▸ T.error ht.2, .inl (failed_of_reported ht.2)⟩
    · refine plan_arity site.span _ _ h (.refl _) (fun _ => ?_) ?_
      · have hparam (i : Nat) : T.Suggests (sig.paramAt i) :=
          fun t ht => .inl (Ty.Applies.closed (hnone ▸ hholds.toAll.paramAt ht))
        exact (rule_checkArgs (fun _ => hparam) 0 h).returns fun _ _ hargs => ⟨hret, .inr hargs⟩
      · exact Rule.pure fun hA => ⟨hret, .inl (failed_of_reported hA.2)⟩
  · refine plan_arity site.span _ _ h (covers_args explicit) (fun htakes => ?_) ?_
    · have hargs := zip_paramAt hsig htakes h
      have hsite := plan_site (A := A) (g := g) (f := (·.apply sig.ret)) ho hholds.generic he
        (fun a ha => (hargs a ha).1) (fun a ha => (hargs a ha).2)
        fun i hi => hi.apply hholds.ret
      rwa [exprsOf_zip, map_zip_left (Child.turn g.scope) (by simp)] at hsite
    · exact .pure fun hA => ⟨T.error hA.2, rfl, .inr ⟨rfl, rfl, hA.2⟩⟩

end

def Account.Calls (T : Account c) (g : Spot) (span : Span) (name : String) (es : List Expr) (t : Ty)
    (k : Spot) : Prop :=
  match g.scope.lookup name with
  | some l => k.inst = g.inst ∧ ∃ u, (T.final → T.views l.ty u) ∧ T.CalledAs u es
  | none => ∀ sig, c.registry.function name = some sig → T.CallsFunction g span sig es t k

theorem plan_call {site : Site} (ho : site.id = g.own) (callee : String)
    {explicit : List GenericChild} {cs : List Child} (he : ∀ a ∈ explicit, T.RunsGeneric a)
    (h : ∀ ch ∈ cs, T.runs ch) :
    Plan T A g (explicit.flatMap (·.turns g.scope) ++ cs.map (·.turn g.scope))
      (Infer.call site callee explicit cs) fun t k =>
        T.good t ∧ k.scope = g.scope ∧ T.Calls g site.span callee (cs.map (·.expr)) t k := by
  unfold Infer.call
  refine (rule_lookupLocal callee).andThen fun o => ?_
  cases o with
  | some l =>
    refine Plan.weaken (?_ : Plan T _ g ([] ++ _) _ _) (covers_args explicit)
    refine Rule.andThen (Q := T.Names g.scope callee) ?_ fun u => ?_
    · exact rule_readLocal (fun hA => hA.2.1.symm) fun hA => hA.2.2 l rfl
    refine Plan.imp (rule_callLocal _ _ (fun hA => hA.2.good) h) fun t k hA ht => ?_
    obtain ⟨⟨-, hl, -⟩, hnames⟩ := hA
    obtain ⟨rfl, hgood, hcalled⟩ := ht
    refine ⟨hgood, rfl, ?_⟩
    rw [Account.Calls, ← hl]
    exact ⟨rfl, _, fun hfinal => hnames.views hfinal l hl.symm, hcalled⟩
  | none =>
    refine plan_registry ?_
    split
    · next sig hsig =>
      refine (plan_callFunction ho hsig he h).imp fun t k hA ht => ⟨ht.1, ht.2.1, ?_⟩
      simp only [Account.Calls, ← hA.2.1]
      intro sig' hsig'
      cases hsig.symm.trans hsig'
      exact ht.2.2
    · next hnone =>
      refine Plan.weaken (Plan.imp (Q := g.Stays T.good) ?_ fun t k hA ht => ?_) (covers_args explicit)
      · rw [← List.append_nil (cs.map _)]
        exact (rule_inferAll h).andThen fun _ => rule_error _ _
      · obtain ⟨rfl, hgood⟩ := ht
        refine ⟨hgood, rfl, ?_⟩
        simp only [Account.Calls, ← hA.2.1]
        exact fun sig hsig => nomatch hnone.symm.trans hsig

theorem rule_writePath (path : Option Path) (span : Span) {t : Ty} {Q : Ty → Prop} (h : A → Q t) :
    Rule T A g [] (match path with
      | some p => do
        Infer.write p span
        return t
      | none => return t) Q := by
  split
  · exact (rule_write _ span).returns fun _ hA _ => h hA
  · exact Rule.pure h

theorem rule_writeWhen (m : Bool) (path : Option Path) (span : Span) {t : Ty} {Q : Ty → Prop}
    (h : A → Q t) :
    Rule T A g [] (if m then
        match path with
        | some p => do
          Infer.write p span
          return t
        | none => return t
      else return t) Q :=
  Rule.ite (fun _ => rule_writePath path span h) fun _ => Rule.pure h

def Account.CallsMethod (T : Account c) (recv : Expr) (name : String) (es : List Expr) : Prop :=
  T.final → ∀ t m, T.typeOf recv = some t → c.registry.findMethod t name = some m →
    T.failed ∨ T.Passes (fun i => (m.method.sig.paramAt i).map (Ty.substParams m.receiverArgs)) 0 es

theorem rule_methodCall (span : Span) {recv : Child} (name : String) {cs : List Child}
    (hr : T.runs recv) (h : ∀ ch ∈ cs, T.runs ch) :
    Rule T A g (recv.turn g.scope :: cs.map (·.turn g.scope)) (Infer.methodCall span recv name cs)
      fun t => T.good t ∧ T.CallsMethod recv.expr name (cs.map (·.expr)) := by
  unfold Infer.methodCall
  refine (rule_alone hr).andThen fun t => Rule.ite (fun herror => ?_) fun _ => ?_
  · refine (rule_inferAll h).returns fun _ hA _ => ⟨good_error_of hA.2.1 herror, fun hfinal u m hu hm => ?_⟩
    cases (hA.2.2.1 hfinal).symm.trans hu
    rw [Ty.eq_error_of_isError herror] at hm
    cases hm
  · refine plan_registry ?_
    split
    · next hnone =>
      rw [← List.append_nil (cs.map _)]
      refine ((rule_inferAll h).andThen fun _ => (rule_report _ _).imp fun u hA hu => ⟨?_, ?_⟩)
      · exact hu.1 ▸ T.error hu.2
      · intro hfinal v m hv hm
        cases (hA.1.2.2.1 hfinal).symm.trans hv
        exact nomatch hnone.symm.trans hm
    · next m hfound =>
      refine Rule.imp (Q := fun u => u = m.method.sig.ret.substParams m.receiverArgs ∧ (T.failed ∨ T.Passes
        (fun i => (m.method.sig.paramAt i).map (Ty.substParams m.receiverArgs)) 0 (cs.map (·.expr))))
        ?_ fun u hA hu => ?_
      · dsimp only
        refine plan_arity span _ _ h (.refl _) (fun _ => ?_) ?_
        · rw [← List.append_nil (cs.map _)]
          refine (rule_checkArgs (fun hA i u hu => ?_) 0 h).andThen fun _ => ?_
          · obtain ⟨v, hv, rfl⟩ := Option.map_eq_some_iff.mp hu
            exact .inl ((T.laws.findMethod hA.2.1 hfound).paramAt hv)
          · exact rule_writeWhen _ _ _ fun hA => ⟨rfl, .inr hA.2⟩
        · exact rule_writeWhen _ _ _ fun hA => ⟨rfl, .inl (failed_of_reported hA.2)⟩
      · obtain ⟨-, hgood, htold, -⟩ := hA
        obtain ⟨rfl, hpasses⟩ := hu
        refine ⟨(T.laws.findMethod hgood hfound).ret, fun hfinal u n hu hn => ?_⟩
        cases (htold hfinal).symm.trans hu
        cases hfound.symm.trans hn
        exact hpasses

theorem rule_mutArg {operand : Child} (h : T.runs operand) (hx : T.Suggests x) :
    Rule T A g [operand.turn g.scope] (Infer.mutArg operand x) T.fine := by
  unfold Infer.mutArg
  refine (rule_infer h (fun _ => hx) fun _ _ => rfl).andThen fun t => ?_
  exact rule_writePath _ _ fun hA => hA.2.1

theorem Theory.suggests_borrowHint (h : T.Suggests x) : T.Suggests (Infer.borrowHint x) := by
  unfold Infer.borrowHint
  split
  · exact suggests_some (.inl ((h _ rfl).part T.laws.toClosed (by simp [Ty.parts])))
  · exact suggests_none

theorem rule_borrow (span : Span) (m : Bool) {operand : Child} (h : T.runs operand)
    (hg : T.gathers operand.expr) (hx : T.Suggests x) :
    Rule T A g [operand.turn g.scope] (Infer.borrow span m operand x) T.good := by
  unfold Infer.borrow
  have hhint := suggests_borrowHint hx
  refine (rule_infer h (fun _ => hhint) fun _ _ => rfl).andThen fun t => ?_
  refine rule_writeWhen m _ span fun hA => ?_
  split
  · next herror => exact good_error_of hA.2.1 herror
  · exact T.laws.single rfl rfl (good_of_told hg hA.2.2.1 hA.2.1)

namespace Infer

def isUnknown (declared : List (String × Ty)) (f : FieldChild) : Bool :=
  (declared.lookup f.name).isNone

def unknownFields (self : Ty) (declared : List (String × Ty)) : List FieldChild → Infer Unit
  | [] => return
  | f :: fs => do
    if isUnknown declared f then
      discard <| f.value.infer none
      discard <| report f.span (.unknownMember self f.name)
      unknownFields self declared fs
    else unknownFields self declared fs

def declaredFields (declared : List (String × Ty)) (fs : List FieldChild) : List (Child × Ty) :=
  fs.filterMap fun f => (declared.lookup f.name).map fun t => (f.value, t)

theorem knownFields_eq (self : Ty) (declared : List (String × Ty)) (fs : List FieldChild) :
    knownFields self declared fs = (do
      unknownFields self declared fs
      return declaredFields declared fs) := by
  induction fs with
  | nil => rfl
  | cons f fs ih =>
    simp only [knownFields, unknownFields, ih]
    cases hf : declared.lookup f.name <;> simp [declaredFields, isUnknown, hf]

end Infer

variable {declared : List (String × Ty)}

theorem rule_unknownFields (self : Ty) {fs : List FieldChild} (h : ∀ f ∈ fs, T.runs f.value) :
    Rule T A g ((fs.filter (Infer.isUnknown declared)).map (·.value.turn g.scope))
      (Infer.unknownFields self declared fs) fun _ => True := by
  induction fs generalizing A with
  | nil => exact Rule.pure fun _ => True.intro
  | cons f fs ih =>
    have hfs : ∀ d ∈ fs, T.runs d.value := fun d hd => h d (by simp [hd])
    unfold Infer.unknownFields
    refine Rule.ite (fun hf => ?_) fun hf => ?_
    · rw [List.filter_cons_of_pos hf]
      refine (rule_alone (h f (by simp))).ignored.andThen fun _ => ?_
      exact (rule_fault _ _).andThen fun _ => ih hfs
    · rw [List.filter_cons_of_neg hf]
      exact ih hfs

theorem map_turn_declaredFields (σ : Scope) (fs : List FieldChild) :
    (Infer.declaredFields declared fs).map (·.1.turn σ) =
      (fs.filter fun f => !Infer.isUnknown declared f).map (·.value.turn σ) := by
  induction fs with
  | nil => rfl
  | cons f fs ih =>
    unfold Infer.declaredFields at ih ⊢
    cases hf : declared.lookup f.name <;> simp [hf, ih, Infer.isUnknown]

theorem covers_fields {explicit : List GenericChild} (fs : List FieldChild) :
    Turn.Covers
      ((fs.filter (Infer.isUnknown declared)).map (·.value.turn σ) ++
        (explicit.flatMap (·.turns σ) ++ (Infer.declaredFields declared fs).map (·.1.turn σ)))
      (explicit.flatMap (·.turns σ) ++ fs.map (·.value.turn σ)) := by
  have hparts : ((Infer.declaredFields declared fs).map (·.1.turn σ) ++
      (fs.filter (Infer.isUnknown declared)).map (·.value.turn σ)).Perm (fs.map (·.value.turn σ)) := by
    rw [map_turn_declaredFields, ← List.map_append]
    exact List.Perm.map _ (List.perm_append_comm.trans (List.filter_append_perm _ _))
  refine Turn.covers_of_perm (List.forall_mem_append.mpr ⟨plain_explicit explicit, ?_⟩)
    (?_ : (_ ++ []).Perm _)
  · exact List.forall_mem_map.mpr fun _ _ => rfl
  · rw [List.append_nil]
    refine List.perm_append_comm.trans ?_
    rw [List.append_assoc]
    exact hparts.append_left _

def fieldPairs (declared : List (String × Ty)) (es : List (String × Expr)) : List (Expr × Ty) :=
  es.filterMap fun f => (declared.lookup f.1).map fun t => (f.2, t)

theorem exprsOf_declaredFields (fs : List FieldChild) :
    exprsOf (Infer.declaredFields declared fs) =
      fieldPairs declared (fs.map fun f => (f.name, f.value.expr)) := by
  simp [exprsOf, Infer.declaredFields, fieldPairs, List.map_filterMap, List.filterMap_map,
    Function.comp_def]

theorem rule_checkFields {fs : List (Child × Ty)} (h : ∀ f ∈ fs, T.runs f.1 ∧ T.good f.2) :
    Rule T A g (fs.map (·.1.turn g.scope)) (Infer.checkFields fs) fun _ =>
      ∀ f ∈ fs, T.Accepts f.1.expr f.2 := by
  induction fs generalizing A with
  | nil => exact Rule.pure fun _ => nofun
  | cons f fs ih =>
    obtain ⟨h₁, h₂⟩ := h f (by simp)
    refine (rule_checked h₁ fun _ => .inl h₂).andThen fun _ => ?_
    refine (ih fun d hd => h d (by simp [hd])).imp fun _ hA hacc => ?_
    exact List.forall_mem_cons.mpr ⟨hA.2, hacc⟩

def Account.ConstructsStruct (T : Account c) (g : Spot) (span : Span) (d : DeclId) (gs : Generics)
    (declared : List (String × Ty)) (es : List (String × Expr)) (t : Ty) (k : Spot) : Prop :=
  if gs.isEmpty then k.inst = g.inst ∧ (T.failed ∨ ∀ a ∈ fieldPairs declared es, T.Accepts a.1 a.2)
  else T.Settles g span gs (fieldPairs declared es) (fun i => .named d i.typeArgs) t k

section

variable {site : Site} (ho : site.id = g.own) {explicit : List GenericChild} {fs : List FieldChild}
  (he : ∀ a ∈ explicit, T.RunsGeneric a) (h : ∀ f ∈ fs, T.runs f.value)

include ho he h

theorem plan_constructStruct {d : DeclId} {info : DeclInfo} {is : List Ty}
    (hd : c.registry.decl? d = some info) (hkind : info.kind = .struct declared is) :
    Plan T A g (explicit.flatMap (·.turns g.scope) ++ fs.map (·.value.turn g.scope))
      (Infer.constructStruct site d info.generics declared explicit fs) fun t k =>
        T.good t ∧ k.scope = g.scope ∧ T.ConstructsStruct g site.span d info.generics declared
          (fs.map fun f => (f.name, f.value.expr)) t k := by
  have hstruct : c.registry.kind? d = some (.struct declared is) := by simp [Registry.kind?, hd, hkind]
  have hknown : ∀ a ∈ Infer.declaredFields declared fs,
      (T.runs a.1 ∧ a.2.Applies T.good info.generics) ∧ T.pattern a.2 := by
    intro a ha
    obtain ⟨f, hf, hlookup⟩ := List.mem_filterMap.mp ha
    obtain ⟨t, ht, rfl⟩ := Option.map_eq_some_iff.mp hlookup
    have hmem := mem_of_lookup ht
    refine ⟨⟨h f hf, fun args hlength hargs hin => ?_⟩, T.field hstruct hmem⟩
    exact T.laws.field hstruct hmem (T.laws.struct hd hkind hlength hargs hin)
  unfold Infer.constructStruct Account.ConstructsStruct
  dsimp only
  rw [Infer.knownFields_eq, bind_assoc]
  refine Plan.weaken ((rule_unknownFields _ h).andThen fun _ => ?_) (covers_fields fs)
  rw [pure_bind, ← exprsOf_declaredFields]
  split
  · next hempty =>
    have hgs : info.generics = [] := List.isEmpty_iff.mp hempty
    refine Plan.weaken (Plan.imp (Q := g.Stays fun t => T.good t ∧ (T.failed ∨
      ∀ a ∈ exprsOf (Infer.declaredFields declared fs), T.Accepts a.1 a.2)) ?_ fun t k hA ht => ?_)
      (covers_skip (List.forall_mem_map.mpr fun _ _ => rfl) explicit)
    · refine Rule.ite (fun _ => ?_) fun _ => ?_
      · have hfield : ∀ a ∈ Infer.declaredFields declared fs, T.runs a.1 ∧ T.good a.2 := fun a ha =>
          ⟨(hknown a ha).1.1, Ty.Applies.closed (hgs ▸ (hknown a ha).1.2)⟩
        refine (rule_checkFields hfield).returns fun _ _ hacc => ⟨?_, .inr ?_⟩
        · rw [hgs]
          exact T.laws.struct hd hkind (by rw [hgs]; rfl) nofun info.generics.inDomains_nil
        · exact forall_mem_exprsOf hacc
      · rw [← List.append_nil (List.map _ _)]
        refine (rule_inferFirsts fun a ha => (hknown a ha).1.1).andThen fun _ => ?_
        refine (rule_report _ _).imp fun t _ ht => ?_
        exact ⟨ht.1 ▸ T.error ht.2, .inl (failed_of_reported ht.2)⟩
    · obtain ⟨rfl, hgood, hacc⟩ := ht
      exact ⟨hgood, rfl, rfl, hacc⟩
  · exact plan_site ho (T.laws.generic hd) he (fun a ha => (hknown a ha).1)
      (fun a ha => (hknown a ha).2) fun i hi => T.laws.struct hd hkind hi.length hi.arg hi.inDomains

end

def Account.Constructs (T : Account c) (g : Spot) (span : Span) (name : String)
    (es : List (String × Expr)) (t : Ty) (k : Spot) : Prop :=
  ∀ {d info declared is}, c.registry.typeDef name = some (.decl d) →
    c.registry.decl? d = some info → info.kind = .struct declared is →
    T.ConstructsStruct g span d info.generics declared es t k

theorem plan_construct {site : Site} (ho : site.id = g.own) (name : String)
    {explicit : List GenericChild} {fs : List FieldChild} (he : ∀ a ∈ explicit, T.RunsGeneric a)
    (h : ∀ f ∈ fs, T.runs f.value) :
    Plan T A g (explicit.flatMap (·.turns g.scope) ++ fs.map (·.value.turn g.scope))
      (Infer.construct site name explicit fs) fun t k => T.good t ∧ k.scope = g.scope ∧
        T.Constructs g site.span name (fs.map fun f => (f.name, f.value.expr)) t k := by
  have hwrong (cause : Cause) (hnot : ∀ {d info declared is}, c.registry.typeDef name = some (.decl d) →
      c.registry.decl? d = some info → info.kind ≠ .struct declared is) :
      Plan T A g (explicit.flatMap (·.turns g.scope) ++ fs.map (·.value.turn g.scope)) (do
        Infer.inferAll (fs.map (·.value))
        Infer.report site.span cause) fun t k => T.good t ∧ k.scope = g.scope ∧
          T.Constructs g site.span name (fs.map fun f => (f.name, f.value.expr)) t k := by
    refine Plan.weaken (Plan.imp (Q := g.Stays T.good) ?_ fun t k _ ht => ?_)
      (covers_skip (List.forall_mem_map.mpr fun _ _ => rfl) explicit)
    · have hall := rule_inferAll (A := A) (g := g) (List.forall_mem_map.mpr h)
      rw [List.map_map] at hall
      rw [← List.append_nil (fs.map _)]
      exact Rule.andThen hall fun _ => rule_error _ _
    · obtain ⟨rfl, hgood⟩ := ht
      exact ⟨hgood, rfl, fun h₁ h₂ h₃ => absurd h₃ (hnot h₁ h₂)⟩
  unfold Infer.construct
  refine plan_registry ?_
  split
  · next hname => exact hwrong _ fun h => nomatch hname.symm.trans h
  · next hname => exact hwrong _ fun h => nomatch hname.symm.trans h
  · next d hname =>
    split
    · next hdecl =>
      refine (plan_constructStruct ho he h hdecl rfl).imp fun t k _ ht => ⟨ht.1, ht.2.1, ?_⟩
      intro d' info' declared' is' hname' hdecl' hkind'
      cases hname.symm.trans hname'
      cases hdecl.symm.trans hdecl'
      cases hkind'
      exact ht.2.2
    · next hnot =>
      refine hwrong _ fun {d' info declared is} hname' hdecl' hkind' => ?_
      cases hname.symm.trans hname'
      obtain ⟨x, gs, kind, span⟩ := info
      cases hkind'
      exact hnot x gs declared is span hdecl'

end TypeFlow
