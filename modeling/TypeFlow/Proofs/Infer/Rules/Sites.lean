import Mathlib.Data.List.Pairwise
import TypeFlow.Proofs.Infer.Rules.Values
import TypeFlow.Proofs.Infer.Solving

namespace TypeFlow

open Theory

variable {c : BodyContext} {T : Theory c} {A : Prop} {g : Spot} {σ : Scope} {x : Option Ty}

def Account.Passes (T : Account c) (target : Nat → Option Ty) (i : Nat) (es : List Expr) : Prop :=
  ∀ {k e t}, es[k]? = some e → target (i + k) = some t → T.Accepts e t

theorem Theory.passes_cons {target : Nat → Option Ty} {i : Nat} {e : Expr} {es : List Expr}
    (h : ∀ t, target i = some t → T.Accepts e t) (k : T.Passes target (i + 1) es) :
    T.Passes target i (e :: es) := by
  intro j f t hf ht
  cases j with
  | zero =>
    cases hf
    exact h t ht
  | succ j => exact k hf (by rwa [Nat.add_assoc, Nat.add_comm 1 j])

theorem rule_checkArgs {target : Nat → Option Ty} (ht : A → ∀ i, T.Suggests (target i)) (i : Nat)
    {cs : List Child} (h : ∀ ch ∈ cs, T.runs ch) :
    Rule T A g (cs.map (·.turn g.scope)) (Infer.checkArgs target i cs) fun _ =>
      T.Passes target i (cs.map (·.expr)) := by
  induction cs generalizing A i with
  | nil => exact Rule.pure fun _ => nofun
  | cons ch cs ih =>
    have hch := h ch (by simp)
    have hcs : ∀ d ∈ cs, T.runs d := fun d hd => h d (by simp [hd])
    unfold Infer.checkArgs
    split
    · next t heq =>
      refine (rule_checked hch fun hA => ht hA i t heq).andThen fun _ => ?_
      refine (ih (fun hA => ht hA.1) (i + 1) hcs).imp fun _ hA hrest => passes_cons ?_ hrest
      intro u hu
      cases heq.symm.trans hu
      exact hA.2
    · next heq =>
      refine (rule_alone hch).ignored.andThen fun _ => ?_
      refine (ih (fun hA => ht hA.1) (i + 1) hcs).imp fun _ hA hrest => passes_cons ?_ hrest
      exact fun u hu => nomatch heq.symm.trans hu

theorem rule_inferFirsts {args : List (Child × Ty)} (h : ∀ a ∈ args, T.runs a.1) :
    Rule T A g (args.map (·.1.turn g.scope)) (Infer.inferAll (args.map (·.1))) fun _ => True := by
  have hturns : args.map (·.1.turn g.scope) = (args.map (·.1)).map (·.turn g.scope) := by
    rw [List.map_map]
    rfl
  rw [hturns]
  exact rule_inferAll (List.forall_mem_map.mpr h)

def Takes (n : Nat) (variadic : Bool) (count : Nat) : Prop :=
  if variadic then n - 1 ≤ count else count = n

theorem Infer.arity_of_takes (span : Span) {cs : List Child} {n : Nat} {variadic : Bool}
    (h : Takes n variadic cs.length) : arity span cs n variadic = pure true := by
  unfold arity
  exact if_pos (by cases variadic <;> simpa [Takes] using h)

theorem Infer.arity_of_not_takes (span : Span) {cs : List Child} {n : Nat} {variadic : Bool}
    (h : ¬ Takes n variadic cs.length) :
    ∃ cause, arity span cs n variadic = (do
      inferAll cs
      discard <| report span cause
      return false) := by
  refine ⟨.argCountMismatch (if variadic then n - 1 else n) cs.length variadic, ?_⟩
  unfold arity
  exact if_neg (by cases variadic <;> simpa [Takes] using h)

theorem plan_arity {β : Type} (span : Span) {cs : List Child} (n : Nat) (variadic : Bool)
    {us : List Turn} {f : Bool → Infer β} {R : β → Spot → Prop} (h : ∀ ch ∈ cs, T.runs ch)
    (hv : Turn.Covers (cs.map (·.turn g.scope)) us)
    (ht : Takes n variadic cs.length → Plan T A g us (f true) R)
    (hf : Plan T (A ∧ T.reported span) g [] (f false) R) :
    Plan T A g us (Infer.arity span cs n variadic >>= f) R := by
  by_cases hk : Takes n variadic cs.length
  · rw [Infer.arity_of_takes span hk, pure_bind]
    exact ht hk
  · obtain ⟨cause, heq⟩ := Infer.arity_of_not_takes span hk
    rw [heq, bind_assoc]
    refine Plan.weaken ?_ hv
    rw [← List.append_nil (cs.map _)]
    refine (rule_inferAll h).andThen fun _ => ?_
    rw [bind_assoc, pure_bind]
    exact (rule_fault _ _).andThen fun _ => hf.assuming fun hA => ⟨hA.1.1, hA.2⟩

def GenericChild.turns (σ : Scope) : GenericChild → List Turn
  | .type _ => []
  | .value ch => [ch.turn σ]

structure Theory.RunsGeneric (T : Theory c) (g : GenericChild) : Prop where
  value : ∀ ch, g = .value ch → T.runs ch
  type : ∀ w, g = .type w → T.written w

theorem getD_ne_explicit {o : Option ConstValue} {t : Ty} :
    (o.map ExplicitArg.const).getD .notConstant ≠ .type t := by
  cases o <;> simp

theorem rule_genericArg (span : Span) {p : Option GenericParam} {a : GenericChild}
    (hp : ∀ q, p = some q → ∀ t, q.constType = some t → T.good t) (h : T.RunsGeneric a) :
    Rule T A g (a.turns g.scope) (Infer.genericArg span p a) fun b => ∀ t, b = .type t → T.good t := by
  cases a with
  | type w =>
    dsimp only [Infer.genericArg]
    refine plan_registry ?_
    split
    · exact Rule.pure fun _ t ht => absurd ht getD_ne_explicit
    · refine (rule_resolveType (h.type w rfl) span).map fun u _ hu t ht => ?_
      cases ht
      exact hu.1
  | value ch =>
    have hhint : T.Suggests (p.bind (·.constType)) := by
      intro t ht
      obtain ⟨q, hq, ht⟩ := Option.bind_eq_some_iff.mp ht
      exact .inl (hp q hq t ht)
    rw [GenericChild.turns, ← List.append_nil [_]]
    refine (rule_infer (h.value ch rfl) (fun _ => hhint) fun _ _ => rfl).ignored.andThen fun _ => ?_
    refine plan_registry ?_
    refine rule_look (f := fun v =>
      ((ch.expr.constValue c.registry v.scope).map ExplicitArg.const).getD .notConstant) ?_
    exact fun _ v _ _ _ t ht => absurd ht getD_ne_explicit

theorem rule_genericArgs (span : Span) {ps : Generics} {as : List GenericChild}
    (hp : ∀ p ∈ ps, ∀ t, p.constType = some t → T.good t) (h : ∀ a ∈ as, T.RunsGeneric a) :
    Rule T A g (as.flatMap (·.turns g.scope)) (Infer.genericArgs span ps as) fun bs =>
      ∀ b ∈ bs, ∀ t, b = .type t → T.good t := by
  induction as generalizing A ps with
  | nil => exact Rule.pure fun _ => nofun
  | cons a as ih =>
    refine (rule_genericArg span (fun q hq => hp q (List.mem_of_head? hq)) (h a (by simp))).andThen fun b => ?_
    refine (ih (fun p hm => hp p (List.mem_of_mem_tail hm)) fun d hd => h d (by simp [hd])).map fun bs hA hbs => ?_
    exact List.forall_mem_cons.mpr ⟨hA.2, hbs⟩

namespace Infer

def firstType (a : Child × Ty) : Infer Ty :=
  if a.2.flags.hasParam then a.1.infer none else check a.1 a.2

def firstTypes : List (Child × Ty) → Infer (List Ty)
  | [] => return []
  | a :: args => do
    let t ← firstType a
    return t :: (← firstTypes args)

def argStates : List (Child × Ty) → List Ty → List ArgState
  | a :: args, t :: ts => (if a.2.flags.hasParam then .inferred t else .checked) :: argStates args ts
  | _, _ => []

theorem firstPass_eq (args : List (Child × Ty)) :
    firstPass args = do return argStates args (← firstTypes args) := by
  induction args with
  | nil => rfl
  | cons a args ih =>
    obtain ⟨ch, pattern⟩ := a
    simp only [firstPass, firstTypes, firstType, ih]
    split
    · simp [argStates, *]
    · next h =>
      simp only [argStates, h, discard_bind, bind_assoc, pure_bind]
      rfl

theorem instantiate_of_isEmpty (span : Span) (gs : Generics) {explicit : List GenericChild}
    (args : List (Child × Ty)) (h : explicit.isEmpty = true) :
    instantiate span gs explicit args = (do
      let ts ← firstTypes args
      match ← solve gs (equations args (argStates args ts)) with
      | .ok inst =>
        secondPass inst args (argStates args ts)
        return some inst
      | .error e =>
        discard <| report span (.ofSolve e)
        return none) := by
  unfold instantiate
  rw [if_pos h, firstPass_eq, bind_assoc]
  simp only [pure_bind]
  rfl

theorem exists_of_mem_equations {args : List (Child × Ty)} {ts : List Ty} {q : Equation}
    (h : q ∈ equations args (argStates args ts)) :
    (∃ a ∈ args, q.pattern = a.2) ∧ q.actual ∈ ts := by
  induction args generalizing ts with
  | nil => cases ts <;> cases h
  | cons a args ih =>
    cases ts with
    | nil => cases h
    | cons t ts =>
      simp only [argStates] at h
      split at h
      · rcases List.mem_cons.mp h with rfl | h
        · exact ⟨⟨a, by simp, rfl⟩, by simp⟩
        · obtain ⟨⟨b, hb, hq⟩, hmem⟩ := ih h
          exact ⟨⟨b, by simp [hb], hq⟩, by simp [hmem]⟩
      · obtain ⟨⟨b, hb, hq⟩, hmem⟩ := ih h
        exact ⟨⟨b, by simp [hb], hq⟩, by simp [hmem]⟩

end Infer

def isDraft (a : Child × Ty) : Bool := a.2.flags.hasParam && a.1.expr.isUntypedLiteral

def firstTurn (σ : Scope) (a : Child × Ty) : Turn := ⟨σ, a.1.expr, isDraft a⟩

def secondTurns (σ : Scope) (args : List (Child × Ty)) : List Turn :=
  (args.filter isDraft).map (·.1.turn σ)

structure Account.Found (T : Account c) (a : Child × Ty) (t : Ty) : Prop where
  fine : T.fine t
  accepts : a.2.flags.hasParam = false → T.Accepts a.1.expr a.2
  told : a.1.expr.isUntypedLiteral = false → T.told a.1.expr t

def Account.FoundAll (T : Account c) : List (Child × Ty) → List Ty → Prop
  | [], [] => True
  | a :: args, t :: ts => T.Found a t ∧ T.FoundAll args ts
  | _, _ => False

theorem Account.FoundAll.fine {args : List (Child × Ty)} {ts : List Ty} (h : T.FoundAll args ts) :
    ∀ t ∈ ts, T.fine t := by
  induction args generalizing ts with
  | nil =>
    cases ts with
    | nil => exact List.forall_mem_nil _
    | cons t ts => cases h
  | cons a args ih =>
    cases ts with
    | nil => exact List.forall_mem_nil _
    | cons t ts => exact List.forall_mem_cons.mpr ⟨h.1.fine, ih h.2⟩

theorem rule_firstType {a : Child × Ty} (h : T.runs a.1) (hp : a.2.flags.hasParam = false → T.good a.2) :
    Rule T A g [firstTurn g.scope a] (Infer.firstType a) (T.Found a) := by
  unfold firstTurn isDraft Infer.firstType
  refine Rule.ite (fun hparam => ?_) fun hparam => ?_
  · cases hlit : a.1.expr.isUntypedLiteral with
    | true =>
      simp only [hparam, Bool.and_self]
      refine Rule.map (.draft h hlit) fun t _ ht => ⟨ht, ?_, ?_⟩
      · simp [hparam]
      · simp [hlit]
    | false =>
      rw [Bool.and_false]
      refine (rule_alone h).imp fun t _ ht => ⟨ht.1, ?_, fun _ => ht.2.1⟩
      simp [hparam]
  · rw [Bool.not_eq_true] at hparam
    rw [hparam, Bool.false_and]
    refine (rule_check h (fun _ => .inl (hp hparam)) fun _ _ => rfl).imp fun t _ ht =>
      ⟨ht.1, fun _ => ?_, fun _ => ht.2.1⟩
    exact accepts_of_told ht.2.1 ht.2.2

theorem rule_firstTypes {args : List (Child × Ty)}
    (h : ∀ a ∈ args, T.runs a.1 ∧ (a.2.flags.hasParam = false → T.good a.2)) :
    Rule T A g (args.map (firstTurn g.scope)) (Infer.firstTypes args) (T.FoundAll args) := by
  induction args generalizing A with
  | nil => exact Rule.pure fun _ => True.intro
  | cons a args ih =>
    obtain ⟨h₁, h₂⟩ := h a (by simp)
    refine (rule_firstType h₁ h₂).andThen fun t => ?_
    exact (ih fun d hd => h d (by simp [hd])).map fun ts hA hts => ⟨hA.2, hts⟩

theorem rule_secondPass {i : Instantiation} {args : List (Child × Ty)} {ts : List Ty}
    (h : ∀ a ∈ args, T.runs a.1) (hi : A → ∀ a ∈ args, T.good (i.apply a.2)) (ht : A → T.FoundAll args ts) :
    Rule T A g (secondTurns g.scope args) (Infer.secondPass i args (Infer.argStates args ts)) fun _ =>
      ∀ a ∈ args, T.Accepts a.1.expr (i.apply a.2) := by
  induction args generalizing A ts with
  | nil => exact Rule.pure fun _ => nofun
  | cons a args ih =>
    cases ts with
    | nil => exact Plan.weaken (Rule.pure fun hA => False.elim (ht hA)) (Turn.covers_nil _)
    | cons t ts =>
      have hrest : ∀ b ∈ args, T.runs b.1 := fun b hb => h b (by simp [hb])
      have hlater {B : Prop} (hB : B → A) : B → ∀ b ∈ args, T.good (i.apply b.2) :=
        fun hb => (List.forall_mem_cons.mp (hi (hB hb))).2
      unfold secondTurns
      simp only [Infer.argStates]
      split
      · next hparam =>
        unfold Infer.secondPass
        dsimp only
        split
        · next hlit =>
          rw [List.filter_cons_of_pos (by simp [isDraft, hparam, hlit])]
          refine (rule_checked (h a (by simp)) fun hA => .inl (hi hA a (by simp))).andThen fun _ => ?_
          refine (ih hrest (hlater And.left) fun hA => (ht hA.1).2).imp fun _ hA hacc => ?_
          exact List.forall_mem_cons.mpr ⟨hA.2, hacc⟩
        · next hlit =>
          rw [Bool.not_eq_true] at hlit
          rw [List.filter_cons_of_neg (by simp [isDraft, hlit])]
          have hnext {B : Prop} (hB : B → A ∧ T.Allows t (i.apply a.2)) :
              Rule T B g (secondTurns g.scope args)
                (Infer.secondPass i args (Infer.argStates args ts)) fun _ =>
                  ∀ b ∈ a :: args, T.Accepts b.1.expr (i.apply b.2) := by
            refine (ih hrest (hlater fun h => (hB h).1) fun h => (ht (hB h).1).2).imp fun _ h hacc => ?_
            refine List.forall_mem_cons.mpr ⟨accepts_of_told ?_ (hB h).2, hacc⟩
            exact (ht (hB h).1).1.told hlit
          refine plan_assignable (Rule.ite (fun hassign => hnext fun hA => ⟨hA, .inl hassign⟩) fun _ => ?_)
          refine (rule_fault _ _).andThen fun _ => hnext fun hA => ⟨hA.1, allows_of_reported hA.2⟩
      · next hparam =>
        rw [Bool.not_eq_true] at hparam
        rw [List.filter_cons_of_neg (by simp [isDraft, hparam])]
        refine (ih hrest (hlater id) fun hA => (ht hA).2).imp fun _ hA hacc => ?_
        refine List.forall_mem_cons.mpr ⟨?_, hacc⟩
        rw [Instantiation.apply, Ty.substParams_of_not_hasParam hparam]
        exact (ht hA).1.accepts hparam

theorem covers_passes (σ : Scope) (args : List (Child × Ty)) :
    Turn.Covers (args.map (firstTurn σ) ++ secondTurns σ args) (args.map (·.1.turn σ)) := by
  have hapart (hv : Turn.Settled (args.map (·.1.turn σ))) :
      args.Pairwise fun a b => a.1.expr.Apart b.1.expr := by
    have hturns := hv.apart fun u hu => by
      obtain ⟨a, -, rfl⟩ := List.mem_map.mp hu
      rfl
    rwa [List.pairwise_map] at hturns
  have hsymm : Std.Symm fun a b : Child × Ty => a.1.expr.Apart b.1.expr := ⟨fun _ _ h => h.symm⟩
  have hturn {a : Child × Ty} (h : isDraft a = false) : firstTurn σ a = a.1.turn σ := by
    simp [firstTurn, Child.turn, h]
  refine ⟨fun u hu => ?_, fun hv => ?_, fun hv v hmem => ?_⟩
  · rcases List.mem_append.mp hu with hu | hu
    · obtain ⟨a, ha, rfl⟩ := List.mem_map.mp hu
      cases hd : isDraft a with
      | true => exact .inr ⟨hd, _, List.mem_map_of_mem ha, rfl⟩
      | false => exact .inl (hturn hd ▸ List.mem_map_of_mem ha)
    · obtain ⟨a, ha, rfl⟩ := List.mem_map.mp hu
      exact .inl (List.mem_map_of_mem (List.mem_filter.mp ha).1)
  · refine List.pairwise_append.mpr ⟨?_, ?_, fun u hu v hmem => ?_⟩
    · exact List.pairwise_map.mpr ((hapart hv).imp .inl)
    · exact List.pairwise_map.mpr (((hapart hv).filter _).imp .inl)
    · obtain ⟨a, ha, rfl⟩ := List.mem_map.mp hu
      obtain ⟨b, hb, rfl⟩ := List.mem_map.mp hmem
      obtain ⟨hb, hdraft⟩ := List.mem_filter.mp hb
      cases hd : isDraft a with
      | true => exact .inr ⟨hd, (Bool.and_eq_true_iff.mp hdraft).2⟩
      | false =>
        have hne : a ≠ b := by
          rintro rfl
          simp [hd] at hdraft
        exact .inl ((hapart hv).forall ha hb hne)
  · obtain ⟨a, ha, rfl⟩ := List.mem_map.mp hmem
    refine .inl (List.mem_append.mpr ?_)
    cases hd : isDraft a with
    | true => exact .inr (List.mem_map_of_mem (List.mem_filter.mpr ⟨ha, hd⟩))
    | false => exact .inl (hturn hd ▸ List.mem_map_of_mem ha)

structure Account.Instantiates (T : Account c) (gs : Generics) (args : List (Expr × Ty))
    (i : Instantiation) : Prop where
  solves : c.Solves gs i
  holds : i.Holds T.good gs
  accepts : ∀ a ∈ args, T.Accepts a.1 (i.apply a.2)

def exprsOf (args : List (Child × Ty)) : List (Expr × Ty) := args.map fun a => (a.1.expr, a.2)

theorem forall_mem_exprsOf {args : List (Child × Ty)} {P : Expr × Ty → Prop}
    (h : ∀ a ∈ args, P (a.1.expr, a.2)) : ∀ a ∈ exprsOf args, P a := by
  intro a ha
  obtain ⟨b, hb, rfl⟩ := List.mem_map.mp ha
  exact h b hb

theorem rule_checkInstantiated {i : Instantiation} {args : List (Child × Ty)}
    (h : ∀ a ∈ args, T.runs a.1) (hi : A → ∀ a ∈ args, T.good (i.apply a.2)) :
    Rule T A g (args.map (·.1.turn g.scope)) (Infer.checkInstantiated i args) fun _ =>
      ∀ a ∈ args, T.Accepts a.1.expr (i.apply a.2) := by
  induction args generalizing A with
  | nil => exact Rule.pure fun _ => nofun
  | cons a args ih =>
    refine (rule_checked (h a (by simp)) fun hA => .inl (hi hA a (by simp))).andThen fun _ => ?_
    refine (ih (fun b hb => h b (by simp [hb])) fun hA => ?_).imp fun _ hA hacc => ?_
    · exact (List.forall_mem_cons.mp (hi hA.1)).2
    exact List.forall_mem_cons.mpr ⟨hA.2, hacc⟩

def Account.SiteResult (T : Account c) (span : Span) (gs : Generics) (args : List (Child × Ty)) :
    Option Instantiation → Prop
  | some i => T.Instantiates gs (exprsOf args) i
  | none => T.reported span

theorem rule_inferred (span : Span) {gs : Generics} {args : List (Child × Ty)}
    (hg : gs.Holds T.good) (h : ∀ a ∈ args, T.runs a.1 ∧ a.2.Applies T.good gs)
    (hp : ∀ a ∈ args, T.pattern a.2) :
    Rule T A g (args.map (·.1.turn g.scope)) (Infer.instantiate span gs [] args)
      (T.SiteResult span gs args) := by
  rw [Infer.instantiate_of_isEmpty span gs args rfl]
  have hfirst : ∀ a ∈ args, T.runs a.1 ∧ (a.2.flags.hasParam = false → T.good a.2) := fun a ha =>
    ⟨(h a ha).1, (h a ha).2.of_not_hasParam T.laws.toClosed⟩
  refine Plan.weaken ((rule_firstTypes hfirst).andThen fun ts => ?_) (covers_passes g.scope args)
  have hsolve : ∀ q ∈ Infer.equations args (Infer.argStates args ts), T.pattern q.pattern := by
    intro q hq
    obtain ⟨⟨a, ha, heq⟩, -⟩ := Infer.exists_of_mem_equations hq
    exact heq ▸ hp a ha
  refine Rule.andThen (.solve hsolve) fun r => ?_
  have hholds {i : Instantiation} (hA : (A ∧ T.FoundAll args ts) ∧ ∃ base, .ok i =
      c.registry.solveInferred c.bounds gs base (Infer.equations args (Infer.argStates args ts))) :
      i.Holds T.good gs := by
    obtain ⟨⟨-, hfound⟩, base, heq⟩ := hA
    refine T.laws.solveInferred hg (fun q hq => ?_) heq.symm
    exact hfound.fine _ (Infer.exists_of_mem_equations hq).2
  cases r with
  | error e =>
    exact Plan.weaken ((rule_fault _ _).returns fun _ _ hr => hr) (Turn.covers_nil _)
  | ok i =>
    refine (rule_secondPass (fun a ha => (h a ha).1) (fun hA a ha => (hholds hA).apply (h a ha).2)
      fun hA => hA.1.2).returns fun _ hA hacc => ?_
    obtain ⟨base, heq⟩ := hA.2
    exact ⟨BodyContext.solves_of_solveInferred heq.symm, hholds hA, forall_mem_exprsOf hacc⟩

theorem rule_explicit (span : Span) {gs : Generics} {explicit : List GenericChild}
    {args : List (Child × Ty)} (hne : explicit.isEmpty = false) (hg : gs.Holds T.good)
    (he : ∀ a ∈ explicit, T.RunsGeneric a) (h : ∀ a ∈ args, T.runs a.1 ∧ a.2.Applies T.good gs) :
    Rule T A g (explicit.flatMap (·.turns g.scope) ++ args.map (·.1.turn g.scope))
      (Infer.instantiate span gs explicit args) (T.SiteResult span gs args) := by
  unfold Infer.instantiate
  rw [if_neg (by simp [hne])]
  refine (rule_genericArgs span hg.constType he).andThen fun given => .read (.read ?_)
  split
  · next i heq =>
    have hholds {B : Prop} (hA : B ∧ ∀ b ∈ given, ∀ t, b = .type t → T.good t) : i.Holds T.good gs :=
      T.laws.solveExplicit hg hA.2 heq
    refine (rule_checkInstantiated (fun a ha => (h a ha).1)
      fun hA a ha => (hholds hA).apply (h a ha).2).returns fun _ hA hacc => ?_
    exact ⟨BodyContext.solves_of_solveExplicit heq, hholds hA, forall_mem_exprsOf hacc⟩
  · rw [← List.append_nil (args.map _)]
    refine (rule_inferFirsts fun a ha => (h a ha).1).andThen fun _ => ?_
    exact (rule_fault _ _).returns fun _ _ hr => hr

theorem rule_instantiate (span : Span) {gs : Generics} {explicit : List GenericChild}
    {args : List (Child × Ty)} (hg : gs.Holds T.good)
    (he : ∀ a ∈ explicit, T.RunsGeneric a) (h : ∀ a ∈ args, T.runs a.1 ∧ a.2.Applies T.good gs)
    (hp : ∀ a ∈ args, T.pattern a.2) :
    Rule T A g (explicit.flatMap (·.turns g.scope) ++ args.map (·.1.turn g.scope))
      (Infer.instantiate span gs explicit args) (T.SiteResult span gs args) := by
  cases explicit with
  | nil => exact rule_inferred span hg h hp
  | cons a as => exact rule_explicit span rfl hg he h

end TypeFlow
