import TypeFlow.Proofs.Infer.Run

namespace TypeFlow

namespace Layer

def declaredFrom (r : Registry) (l : Layer) : Ty → Path → List String → Option Ty
  | t, _, [] => some t
  | t, p, f :: fs => (r.fieldType ((l.narrowed p).getD t) f).bind fun u => l.declaredFrom r u (p.field f) fs

theorem declaredFrom_concat (r : Registry) (l : Layer) (t : Ty) (p : Path) (fs : List String)
    (f : String) :
    l.declaredFrom r t p (fs ++ [f]) = (l.declaredFrom r t p fs).bind fun u =>
      r.fieldType ((l.narrowed ⟨p.root, p.fields ++ fs⟩).getD u) f := by
  induction fs generalizing t p with
  | nil => simp [declaredFrom]
  | cons g fs ih =>
    simp only [List.cons_append, declaredFrom, ih, Option.bind_assoc]
    simp [Path.field]

end Layer

namespace Infer

variable {α β : Type}

def Sees (c : BodyContext) (σ : Scope) (φ : FlowStack) (Q : α → Prop) (x : Infer α) : Prop :=
  ∀ s, s.scope = σ → s.flow = φ →
    (x.after c s).scope = σ ∧ (x.after c s).flow = φ ∧ Q (x.value c s)

def declaredAt (r : Registry) (σ : Scope) (l : Layer) (p : Path) : Option Ty :=
  (σ.lookup p.root).bind fun x => l.declaredFrom r x.ty ⟨p.root, []⟩ p.fields

variable {c : BodyContext} {σ : Scope} {φ : FlowStack}

namespace Sees

variable {Q Q' : α → Prop} {P : β → Prop} {x : Infer α} {f : α → Infer β}

theorem pure {a : α} (h : Q a) : Sees c σ φ Q (Pure.pure a) := fun _ h₁ h₂ => ⟨h₁, h₂, h⟩

theorem bind (hx : Sees c σ φ Q x) (hf : ∀ a, Q a → Sees c σ φ P (f a)) : Sees c σ φ P (x >>= f) := by
  intro s h₁ h₂
  obtain ⟨h₁, h₂, ha⟩ := hx s h₁ h₂
  exact hf _ ha _ h₁ h₂

theorem imp (hx : Sees c σ φ Q x) (h : ∀ a, Q a → Q' a) : Sees c σ φ Q' x := by
  intro s h₁ h₂
  obtain ⟨h₁, h₂, ha⟩ := hx s h₁ h₂
  exact ⟨h₁, h₂, h _ ha⟩

theorem trivial (hx : Sees c σ φ Q x) : Sees c σ φ (fun _ => True) x := hx.imp fun _ _ => True.intro

theorem discard (hx : Sees c σ φ Q x) : Sees c σ φ (fun _ => True) (discard x) := hx.trivial

theorem ite {p : Prop} [Decidable p] {y : Infer α} (hx : p → Sees c σ φ Q x)
    (hy : ¬ p → Sees c σ φ Q y) : Sees c σ φ Q (if p then x else y) := by
  split
  · next h => exact hx h
  · next h => exact hy h

end Sees

theorem sees_read : Sees c σ φ (· = c) (read : Infer BodyContext) := fun _ h₁ h₂ => ⟨h₁, h₂, rfl⟩

theorem sees_registry : Sees c σ φ (· = c.registry) registry := fun _ h₁ h₂ => ⟨h₁, h₂, rfl⟩

theorem sees_isAborted : Sees c σ φ (fun _ => True) isAborted := fun _ h₁ h₂ => ⟨h₁, h₂, True.intro⟩

theorem sees_assignable (t u : Ty) : Sees c σ φ (fun _ => True) (assignable t u) :=
  fun _ h₁ h₂ => ⟨h₁, h₂, True.intro⟩

theorem sees_report (span : Span) (cause : Cause) : Sees c σ φ (· = .error) (report span cause) :=
  fun _ h₁ h₂ => ⟨h₁, h₂, rfl⟩

theorem sees_store (id : Nat) (t : Ty) : Sees c σ φ (fun _ => True) (store id t) :=
  fun _ h₁ h₂ => ⟨h₁, h₂, True.intro⟩

theorem sees_lookupLocal (x : String) : Sees c σ φ (· = σ.lookup x) (lookupLocal x) := by
  rintro s rfl rfl
  exact ⟨rfl, rfl, rfl⟩

theorem sees_narrowing (p : Path) : Sees c σ φ (· = φ.top.get p) (narrowing p) := by
  rintro s rfl rfl
  exact ⟨rfl, rfl, rfl⟩

theorem sees_narrowed (p : Path) : Sees c σ φ (· = φ.top.narrowed p) (narrowed p) := by
  rintro s rfl rfl
  exact ⟨rfl, rfl, rfl⟩

theorem sees_readLocal (x : String) (l : Local) :
    Sees c σ φ (· = (φ.top.narrowed ⟨x, []⟩).getD l.ty) (readLocal x l) := by
  rintro s rfl rfl
  exact ⟨rfl, rfl, rfl⟩

theorem sees_declaredFrom (t : Ty) (p : Path) (fs : List String) :
    Sees c σ φ (· = φ.top.declaredFrom c.registry t p fs) (declaredFrom t p fs) := by
  induction fs generalizing t p with
  | nil => exact .pure rfl
  | cons f fs ih =>
    unfold declaredFrom
    refine (sees_narrowed p).bind fun n hn => sees_registry.bind fun r hr => ?_
    subst hn hr
    rw [Layer.declaredFrom]
    cases c.registry.fieldType ((φ.top.narrowed p).getD t) f with
    | none => exact .pure rfl
    | some u => exact ih u (p.field f)

theorem sees_declaredType (p : Path) :
    Sees c σ φ (· = declaredAt c.registry σ φ.top p) (declaredType p) := by
  unfold declaredType
  refine (sees_lookupLocal p.root).bind fun l hl => ?_
  subst hl
  unfold declaredAt
  cases σ.lookup p.root with
  | none => exact .pure rfl
  | some l => exact sees_declaredFrom l.ty ⟨p.root, []⟩ p.fields

theorem sees_narrowable (path : Option Path) :
    Sees c σ φ (· = path.bind fun p => (declaredAt c.registry σ φ.top p).map fun t => (p, t))
      (narrowable path) := by
  unfold narrowable
  cases path with
  | none => exact .pure rfl
  | some p =>
    refine (sees_declaredType p).bind fun t ht => .pure ?_
    subst ht
    rfl

theorem sees_resolveType (w : Written) (span : Span) :
    Sees c σ φ (fun t => t = .error ∨ c.registry.resolve c.generics w = .ok t)
      (resolveType w span) := by
  unfold resolveType
  refine sees_read.bind fun c₁ h₁ => sees_read.bind fun c₂ h₂ => ?_
  subst h₁ h₂
  split
  · next t ht => exact .pure (.inr ht)
  · exact (sees_report _ _).imp fun _ => .inl

theorem sees_requireAssignable (span : Span) (t u : Ty) :
    Sees c σ φ (fun _ => True) (requireAssignable span t u) := by
  unfold requireAssignable
  refine sees_isAborted.bind fun _ _ => (sees_assignable _ _).bind fun _ _ => ?_
  split
  · exact .pure True.intro
  · exact (sees_report _ _).discard

theorem sees_visit (site : Site) {Q : Typed → Prop} {x : Infer Typed} (hx : Sees c σ φ Q x)
    (herror : Q ⟨.error, {}⟩) (habort : ∀ t, Q t → Q ⟨.error, t.facts⟩) :
    Sees c σ φ Q (visit site x) := by
  unfold visit
  refine sees_isAborted.bind fun _ _ => .ite (fun _ => .pure herror) fun _ => ?_
  refine hx.bind fun t ht => sees_isAborted.bind fun _ _ => .ite (fun _ => .pure (habort t ht)) ?_
  exact fun _ => (sees_store _ _).bind fun _ _ => .pure ht

theorem sees_inBranch {Q : α → Prop} {fs : List FlowFact} {x : Infer α}
    (hx : Sees c σ (φ.push c.registry fs) Q x) : Sees c σ φ (fun r => Q r.1) (inBranch fs x) := by
  rintro s rfl rfl
  obtain ⟨h₁, h₂, ha⟩ := hx ((pushBranch fs).after c s) rfl rfl
  have hpop := after_popBranch c (congrArg FlowStack.below h₂)
  unfold inBranch
  rw [after_bind, value_bind, after_bind, value_bind, after_bind, value_bind, value_popBranch, hpop]
  exact ⟨h₁, rfl, ha⟩

def Reads (r : Registry) (σ : Scope) (l : Layer) (p : Path) (t : Ty) : Prop :=
  t = .error ∨ ∀ d, declaredAt r σ l p = some d → t = (l.narrowed p).getD d

theorem sees_ident (span : Span) (x : String) :
    Sees c σ φ (Reads c.registry σ φ.top ⟨x, []⟩) (ident span x) := by
  unfold ident
  refine (sees_lookupLocal x).bind fun l hl => ?_
  subst hl
  have hread (t : Ty) (hx : σ.lookup x = none) : Reads c.registry σ φ.top ⟨x, []⟩ t := by
    refine .inr fun d hd => ?_
    simp [declaredAt, hx] at hd
  split
  · next l hl =>
    refine (sees_readLocal x l).imp fun t ht => .inr fun d hd => ?_
    subst ht
    simp only [declaredAt, hl, Layer.declaredFrom, Option.bind_some, Option.some.injEq] at hd
    rw [hd]
  · next hx =>
    refine sees_registry.bind fun r _ => ?_
    split
    · exact .pure (hread _ hx)
    · split
      · split
        · exact .pure (hread _ hx)
        · exact (sees_report _ _).imp fun _ => .inl
      · exact (sees_report _ _).imp fun _ => .inl

theorem declaredAt_field (r : Registry) (l : Layer) (p : Path) (f : String) :
    declaredAt r σ l (p.field f) = (declaredAt r σ l p).bind fun u =>
      r.fieldType ((l.narrowed p).getD u) f := by
  unfold declaredAt Path.field
  rw [Option.bind_assoc]
  congr 1
  funext x
  exact Layer.declaredFrom_concat r l x.ty ⟨p.root, []⟩ p.fields f

theorem sees_knownPath (p : Path) :
    Sees c σ φ (fun o => ∀ d, declaredAt c.registry σ φ.top p = some d → o = φ.top.narrowed p)
      (knownPath (some p)) := by
  unfold knownPath localPath
  dsimp only
  refine Sees.bind (Q := fun o => o = (σ.lookup p.root).map fun _ => p) ?_ fun o ho => ?_
  · refine (sees_lookupLocal _).bind fun l hl => .pure ?_
    rw [hl]
  · subst ho
    cases hl : σ.lookup p.root with
    | none =>
      refine .pure fun d hd => ?_
      simp [declaredAt, hl] at hd
    | some l => exact (sees_narrowed p).imp fun _ h _ _ => h

theorem sees_field (span : Span) {recv : Child} {p : Path} (x : String) (hp : recv.path? = some p)
    (h : Sees c σ φ (Reads c.registry σ φ.top p) (recv.infer none)) :
    Sees c σ φ (Reads c.registry σ φ.top (p.field x)) (field span recv x) := by
  unfold field
  refine h.bind fun t ht => .ite (fun _ => .pure (.inl rfl)) fun herror => ?_
  rw [hp]
  refine (sees_knownPath (p.field x)).bind fun o ho => ?_
  have hread : ∀ d, declaredAt c.registry σ φ.top (p.field x) = some d →
      c.registry.fieldType t x = some d := by
    intro d hd
    rw [declaredAt_field] at hd
    obtain ⟨u, hu, hd⟩ := Option.bind_eq_some_iff.mp hd
    rcases ht with rfl | ht
    · exact absurd rfl herror
    · rwa [ht u hu]
  split
  · next n =>
    refine .pure (.inr fun d hd => ?_)
    rw [← ho d hd]
    rfl
  · refine sees_registry.bind fun r hr => ?_
    subst hr
    split
    · next u hu =>
      refine .pure (.inr fun d hd => ?_)
      rw [← ho d hd]
      exact Option.some.inj (hu.symm.trans (hread d hd))
    · exact (sees_report _ _).imp fun _ => .inl

theorem sees_path {e : Expr} {p : Path} (hp : e.path? = some p) (x : Option Ty) (used : Bool) :
    Sees c σ φ (fun t => Reads c.registry σ φ.top p t.ty) (e.infer x used) := by
  induction e using Expr.path?.induct generalizing p x used with
  | case1 s y =>
    cases hp
    refine sees_visit s ?_ (.inl rfl) fun _ _ => .inl rfl
    exact (sees_ident s.span y).bind fun t ht => .pure ht
  | case2 s e y ih =>
    obtain ⟨q, hq, rfl⟩ := Option.map_eq_some_iff.mp hp
    refine sees_visit s ?_ (.inl rfl) fun _ _ => .inl rfl
    have hrecv : Sees c σ φ (Reads c.registry σ φ.top q) (e.asChild.infer none) :=
      (ih hq none true).bind fun t ht => .pure ht
    have hpath : e.asChild.path? = some q := hq
    exact (sees_field s.span y hpath hrecv).bind fun t ht => .pure ht
  | case3 e h₁ h₂ =>
    rw [Expr.path?.eq_3 e h₁ h₂] at hp
    cases hp

end Infer

end TypeFlow
