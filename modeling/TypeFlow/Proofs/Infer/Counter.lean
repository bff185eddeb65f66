import TypeFlow.Proofs.Infer.Frames
import TypeFlow.Proofs.Infer.Sequential
import TypeFlow.Proofs.Solve.Renumbering

namespace TypeFlow

-- States that differ in the counter, and in their errors as far as these look alike.
def BodyState.Resembles (view : CheckError → CheckError) (s t : BodyState) : Prop :=
  s.errors.map view = t.errors.map view ∧ ∃ n es, t = { s with nextVar := n, errors := es }

def BodyContext.renamed (c : BodyContext) (ids : Ty → Nat) : BodyContext := { c with ids }

def BodyContext.JoinsAlike (c : BodyContext) (ids : Ty → Nat) (view : CheckError → CheckError) : Prop :=
  ∀ span arms x, (∃ t, c.joinArms arms x = .ok t ∧ (c.renamed ids).joinArms arms x = .ok t) ∨
    ∃ e e', c.joinArms arms x = .error e ∧ (c.renamed ids).joinArms arms x = .error e' ∧
      view ⟨span, .ofJoin e⟩ = view ⟨span, .ofJoin e'⟩

theorem BodyContext.joinsAlike_self (c : BodyContext) : c.JoinsAlike c.ids id := by
  intro span arms x
  cases h : c.joinArms arms x with
  | ok t => exact .inl ⟨t, rfl, h⟩
  | error e => exact .inr ⟨e, e, rfl, h, rfl⟩

namespace Infer

variable {c : BodyContext} {ids : Ty → Nat} {view : CheckError → CheckError} {α β : Type}

def Blind (c : BodyContext) (ids : Ty → Nat) (view : CheckError → CheckError) (x : Infer α) : Prop :=
  ∀ s t : BodyState, s.Resembles view t → x.value c s = x.value (c.renamed ids) t ∧
    (x.after c s).Resembles view (x.after (c.renamed ids) t)

theorem Blind.bind {x : Infer α} {f : α → Infer β} (hx : Blind c ids view x) (hf : ∀ a, Blind c ids view (f a)) :
    Blind c ids view (x >>= f) := by
  intro s t h
  obtain ⟨hvalue, hafter⟩ := hx s t h
  rw [value_bind, value_bind, after_bind, after_bind, hvalue]
  exact hf _ _ _ hafter

theorem blind_of_eq {x : Infer α} (h : ∀ s n es, x.value (c.renamed ids) { s with nextVar := n, errors := es } =
    x.value c s ∧ (x.after c s).errors = s.errors ∧ x.after (c.renamed ids) { s with nextVar := n, errors := es } =
      { x.after c s with nextVar := n, errors := es }) : Blind c ids view x := by
  rintro s _ ⟨herrors, n, es, rfl⟩
  obtain ⟨hvalue, hsame, hafter⟩ := h s n es
  exact ⟨hvalue.symm, by rw [hafter, hsame]; exact herrors, n, es, hafter⟩

theorem blind_pure (a : α) : Blind c ids view (pure a) := blind_of_eq fun _ _ _ => ⟨rfl, rfl, rfl⟩

theorem resembles_report {s t : BodyState} {span : Span} {cause cause' : Cause} (h : s.Resembles view t)
    (hview : view ⟨span, cause⟩ = view ⟨span, cause'⟩) :
    ((report span cause).after c s).Resembles view ((report span cause').after (c.renamed ids) t) := by
  obtain ⟨herrors, n, es, rfl⟩ := h
  refine ⟨?_, n, es ++ [⟨span, cause'⟩], rfl⟩
  show (s.errors ++ [_]).map view = (es ++ [_]).map view
  rw [List.map_append, List.map_append, List.map_singleton, List.map_singleton, hview]
  exact congrArg (· ++ _) herrors

theorem blind_report (span : Span) (cause : Cause) : Blind c ids view (report span cause) :=
  fun _ _ h => ⟨rfl, resembles_report h rfl⟩

theorem blind_solve {eqs : List Equation} (h : ∀ q ∈ eqs, q.pattern.VarFree) (gs : Generics) :
    Blind c ids view (solve gs eqs) := by
  rintro s _ ⟨herrors, n, es, rfl⟩
  refine ⟨?_, herrors, _, es, rfl⟩
  have hvalue (s : BodyState) : (solve gs eqs).value c s =
      c.registry.solveInferred c.bounds gs s.nextVar eqs := rfl
  have hvalue' (s : BodyState) : (solve gs eqs).value (c.renamed ids) s =
      c.registry.solveInferred c.bounds gs s.nextVar eqs := rfl
  rw [hvalue, hvalue', Registry.solveInferred_base h, Registry.solveInferred_base h _ _ _ n]

theorem blind_joinArms (hjoins : c.JoinsAlike ids view) (span : Span) (arms : List Ty) (x : Option Ty) :
    Blind c ids view (joinArms span arms x) := by
  intro s t h
  have hvalue (d : BodyContext) (s : BodyState) : (joinArms span arms x).value d s =
    (joined span (d.joinArms arms x)).value d s := rfl
  have hafter (d : BodyContext) (s : BodyState) : (joinArms span arms x).after d s =
    (joined span (d.joinArms arms x)).after d s := rfl
  rw [hvalue, hvalue, hafter, hafter]
  rcases hjoins span arms x with ⟨t, ht, ht'⟩ | ⟨e, e', he, he', hview⟩
  · rw [ht, ht']
    exact ⟨rfl, h⟩
  · rw [he, he']
    exact ⟨rfl, resembles_report h hview⟩

theorem sequential_blind (hjoins : c.JoinsAlike ids view) : Sequential c Ty.VarFree fun x => Blind c ids view x where
  pure := blind_pure
  bind := .bind
  read {_ f} hp hf s t hst := by
    have heq : f (c.renamed ids) = f c := hp c.policy ids
    show (f c).value c s = (f (c.renamed ids)).value (c.renamed ids) t ∧
      ((f c).after c s).Resembles view ((f (c.renamed ids)).after (c.renamed ids) t)
    rw [heq]
    exact hf s t hst
  look := blind_of_eq fun _ _ _ => ⟨rfl, rfl, rfl⟩
  isAborted := blind_of_eq fun _ _ _ => ⟨rfl, rfl, rfl⟩
  report := blind_report
  joinArms := blind_joinArms hjoins
  perform _ := blind_of_eq fun _ _ _ => ⟨rfl, rfl, rfl⟩
  store _ _ := blind_of_eq fun _ _ _ => ⟨rfl, rfl, rfl⟩
  recordInst _ _ := blind_of_eq fun _ _ _ => ⟨rfl, rfl, rfl⟩
  solve gs _ h := blind_solve h gs
  setDepth _ := blind_of_eq fun _ _ _ => ⟨rfl, rfl, rfl⟩
  inBranch fs hx := by
    have hpush : Blind c ids view (pushBranch fs) := blind_of_eq fun _ _ _ => ⟨rfl, rfl, rfl⟩
    have hpop : Blind c ids view popBranch := blind_of_eq fun _ _ _ => ⟨rfl, rfl, rfl⟩
    exact hpush.bind fun _ => hx.bind fun _ => hpop.bind fun _ => blind_pure _

end Infer

def Child.Blind (c : BodyContext) (ids : Ty → Nat) (view : CheckError → CheckError) (ch : Child) : Prop :=
  ∀ x used, Infer.Blind c ids view (ch.run x used)

structure BodyContext.Ground (c : BodyContext) : Prop where
  callee : ∀ {f sig p}, c.registry.function f = some sig → p ∈ sig.params → p.ty.VarFree
  field : ∀ {d fs is e}, c.registry.kind? d = some (.struct fs is) → e ∈ fs → e.2.VarFree

def Theory.blind {c : BodyContext} (hc : c.Ground) (ids : Ty → Nat) (view : CheckError → CheckError) : Theory c where
  toAccount := (Theory.confined c).toAccount
  runs := Child.Blind c ids view
  pattern := Ty.VarFree
  laws := .trivial c
  source _ _ _ := True.intro
  settled := False.elim
  error _ := True.intro
  variadic _ _ _ := True.intro
  callee := hc.callee
  field := hc.field
  wildcard := .intro nofun nofun
  unseen _ := True.intro
  test _ _ := True.intro
  root _ := True.intro
  through _ _ _ := True.intro
  declared _ := True.intro
  narrowed _ _ := True.intro
  member _ _ := True.intro
  lookup _ _ := True.intro
  entry _ _ := True.intro
  apply _ _ := True.intro
  merge _ _ := True.intro
  invalidate _ _ := True.intro

theorem Expr.blind {c : BodyContext} (hc : c.Ground) {ids : Ty → Nat} {view : CheckError → CheckError}
    (hjoins : c.JoinsAlike ids view) (e : Expr) : e.asChild.Blind c ids view :=
  (Infer.sequential_blind hjoins).runs (T := .blind hc ids view) (fun _ => Iff.rfl) (fun _ => True.intro)
    (fun _ => True.intro) (fun _ => True.intro) (fun _ _ _ => .inl True.intro) e

def JoinError.settled : JoinError → JoinError
  | .ambiguous ts => .ambiguous (Ty.sorted ts)
  | e => e

def CheckError.settled (e : CheckError) : CheckError :=
  match e.cause with
  | .ambiguousJoin ts => { e with cause := .ambiguousJoin (Ty.sorted ts) }
  | _ => e

namespace Registry

variable {r : Registry} {ids ids' : Ty → Nat}

theorem settled_join (a b : Ty) : (r.join ids a b).mapError (·.settled) = (r.join ids' a b).mapError (·.settled) := by
  have hsorted (is : List Ty) : Ty.sorted (Ty.sortById ids is) = Ty.sorted (Ty.sortById ids' is) :=
    Ty.sorted_congr fun t => by rw [(Ty.perm_sortById ids is).mem_iff, (Ty.perm_sortById ids' is).mem_iff]
  rcases r.join_cases a b with ⟨t, hjoin⟩ | hjoin
  · rw [hjoin, hjoin]
  · rw [hjoin, hjoin]
    unfold joinInterfaces
    split
    · rfl
    · rfl
    · exact congrArg (fun ts => Except.error (JoinError.ambiguous ts)) (hsorted _)

theorem settled_foldlM (ts : List Ty) (t : Ty) :
    (ts.foldlM (r.join ids) t).mapError (·.settled) = (ts.foldlM (r.join ids') t).mapError (·.settled) := by
  induction ts generalizing t with
  | nil => rfl
  | cons u us ih =>
    rw [List.foldlM_cons, List.foldlM_cons]
    exact mapError_bind_congr (settled_join t u) ih

end Registry

theorem BodyContext.joinsAlike (c : BodyContext) (ids : Ty → Nat) : c.JoinsAlike ids CheckError.settled := by
  intro span arms x
  have hall : (c.registry.joinAll c.ids arms).mapError (·.settled) =
    (c.registry.joinAll ids arms).mapError (·.settled) := Registry.settled_foldlM arms .never
  have hview {e e' : JoinError} (h : e.settled = e'.settled) :
      CheckError.settled ⟨span, .ofJoin e⟩ = CheckError.settled ⟨span, .ofJoin e'⟩ := by
    cases e <;> cases e' <;> simp only [JoinError.settled, reduceCtorEq, JoinError.ambiguous.injEq] at h
    · exact congrArg (fun ts => CheckError.mk span (.ambiguousJoin ts)) h
    · rw [h]
  have hjoin (ids : Ty → Nat) : (c.renamed ids).joinArms arms x = c.expectedOr arms x (c.registry.joinAll ids arms) := rfl
  have hself : c.joinArms arms x = (c.renamed c.ids).joinArms arms x := rfl
  rw [hself, hjoin, hjoin]
  cases h : c.registry.joinAll c.ids arms <;> cases h' : c.registry.joinAll ids arms <;> rw [h, h'] at hall
  case error.error e e' =>
    have hsettled := hview (Except.error.inj hall)
    cases x with
    | none => exact .inr ⟨e, e', rfl, rfl, hsettled⟩
    | some t =>
      have hfallback (e : JoinError) : c.expectedOr arms (some t) (.error e) =
          if arms.all (c.registry.assignableIn c.bounds · t) then .ok t else .error e := rfl
      rw [hfallback, hfallback]
      split
      · exact .inl ⟨t, rfl, rfl⟩
      · exact .inr ⟨e, e', rfl, rfl, hsettled⟩
  case ok.ok t u =>
    cases hall
    exact .inl ⟨t, rfl, rfl⟩
  all_goals cases hall

end TypeFlow
