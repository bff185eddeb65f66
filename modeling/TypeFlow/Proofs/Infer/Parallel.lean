import TypeFlow.Proofs.Infer.Frames
import TypeFlow.Proofs.Infer.Sequential

namespace TypeFlow

def BodyState.SameOutside (hidden : List Nat) (s t : BodyState) : Prop :=
  ∃ ts, t = { s with types := ts } ∧ ∀ i, i ∉ hidden → t.typeOf i = s.typeOf i

namespace BodyState.SameOutside

variable {hidden : List Nat} {s t u : BodyState}

theorem refl (s : BodyState) : s.SameOutside hidden s := ⟨s.types, rfl, fun _ _ => rfl⟩

theorem symm (h : s.SameOutside hidden t) : t.SameOutside hidden s := by
  obtain ⟨ts, rfl, htypes⟩ := h
  exact ⟨s.types, rfl, fun i hi => (htypes i hi).symm⟩

theorem trans (h : s.SameOutside hidden t) (k : t.SameOutside hidden u) : s.SameOutside hidden u := by
  obtain ⟨ts, rfl, htypes⟩ := h
  obtain ⟨us, rfl, hutypes⟩ := k
  exact ⟨us, rfl, fun i hi => (hutypes i hi).trans (htypes i hi)⟩

theorem store (h : s.SameOutside hidden t) (i : Nat) (ty : Ty) :
    BodyState.SameOutside hidden { s with types := (i, ty) :: s.types } { t with types := (i, ty) :: t.types } := by
  obtain ⟨ts, rfl, htypes⟩ := h
  refine ⟨(i, ty) :: ts, rfl, fun j hj => ?_⟩
  have hj := htypes j hj
  simp only [BodyState.typeOf, List.lookup_cons] at hj ⊢
  rw [hj]

theorem hide {i : Nat} (hi : i ∈ hidden) (s : BodyState) (ty : Ty) :
    s.SameOutside hidden { s with types := (i, ty) :: s.types } :=
  ⟨_, rfl, fun _ hj => BodyState.typeOf_store s ty fun heq => hj (heq ▸ hi)⟩

end BodyState.SameOutside

namespace Infer

variable {c : BodyContext} {hidden : List Nat} {α β γ δ : Type}

def Parallel (c : BodyContext) (hidden : List Nat) (R : α → β → Prop) (x : Infer α) (y : Infer β) : Prop :=
  ∀ s t : BodyState, s.SameOutside hidden t →
    R (x.value c s) (y.value c t) ∧ (x.after c s).SameOutside hidden (y.after c t)

theorem parallel_pure {R : α → β → Prop} {a : α} {b : β} (h : R a b) :
    Parallel c hidden R (pure a) (pure b) :=
  fun _ _ hst => ⟨h, hst⟩

theorem Parallel.bind {R : α → β → Prop} {S : γ → δ → Prop} {x : Infer α} {y : Infer β} {f : α → Infer γ}
    {g : β → Infer δ} (h : Parallel c hidden R x y) (k : ∀ a b, R a b → Parallel c hidden S (f a) (g b)) :
    Parallel c hidden S (x >>= f) (y >>= g) := by
  intro s t hst
  obtain ⟨hvalue, hafter⟩ := h s t hst
  rw [value_bind, value_bind, after_bind, after_bind]
  exact k _ _ hvalue _ _ hafter

theorem parallel_of_eq {x : Infer α} (h : ∀ s ts, x.value c { s with types := ts } = x.value c s ∧
    x.after c { s with types := ts } = { x.after c s with types := ts } ∧ (x.after c s).types = s.types) :
    Parallel c hidden Eq x x := by
  rintro s _ ⟨ts, rfl, htypes⟩
  obtain ⟨hvalue, hafter, hsame⟩ := h s ts
  refine ⟨hvalue.symm, ts, hafter, fun i hi => ?_⟩
  rw [hafter, BodyState.typeOf, BodyState.typeOf, hsame]
  exact htypes i hi

theorem Parallel.inBranch {R : α → β → Prop} {x : Infer α} {y : Infer β} (fs : List FlowFact)
    (h : Parallel c hidden R x y) :
    Parallel c hidden (fun a b => R a.1 b.1 ∧ a.2 = b.2) (inBranch fs x) (inBranch fs y) := by
  have hpush : Parallel c hidden Eq (pushBranch fs) (pushBranch fs) := parallel_of_eq fun _ _ => ⟨rfl, rfl, rfl⟩
  have hpop : Parallel c hidden Eq popBranch popBranch := parallel_of_eq fun _ _ => ⟨rfl, rfl, rfl⟩
  exact hpush.bind fun _ _ _ => h.bind fun _ _ hab => hpop.bind fun _ _ hlayer => parallel_pure ⟨hab, hlayer⟩

theorem parallel_joinArms (span : Span) (arms : List Ty) (x : Option Ty) :
    Parallel c hidden Eq (joinArms span arms x) (joinArms span arms x) := by
  rcases run_joinArms c span arms x with ⟨t, -, hrun⟩ | ⟨e, -, hrun⟩
  · exact parallel_of_eq fun s ts => by simp only [hrun, and_self]
  · refine parallel_of_eq fun s ts => ?_
    simp only [hrun]
    exact ⟨trivial, rfl, rfl⟩

theorem sequential_parallel (c : BodyContext) (hidden : List Nat) :
    Sequential c (fun _ => True) fun x => Parallel c hidden Eq x x where
  pure _ := parallel_pure rfl
  bind hx hf := hx.bind fun a _ heq => heq ▸ hf a
  read _ hf := hf
  look := parallel_of_eq fun _ _ => ⟨rfl, rfl, rfl⟩
  isAborted := parallel_of_eq fun _ _ => ⟨rfl, rfl, rfl⟩
  report _ _ := parallel_of_eq fun _ _ => ⟨rfl, rfl, rfl⟩
  joinArms := parallel_joinArms
  perform _ := parallel_of_eq fun _ _ => ⟨rfl, rfl, rfl⟩
  store i t _ _ hst := ⟨rfl, hst.store i t⟩
  recordInst _ _ := parallel_of_eq fun _ _ => ⟨rfl, rfl, rfl⟩
  solve _ _ _ := parallel_of_eq fun _ _ => ⟨rfl, rfl, rfl⟩
  setDepth _ := parallel_of_eq fun _ _ => ⟨rfl, rfl, rfl⟩
  inBranch fs hx s t hst := by
    obtain ⟨⟨hvalue, hlayer⟩, hafter⟩ := hx.inBranch fs s t hst
    exact ⟨Prod.ext hvalue hlayer, hafter⟩

end Infer

def Theory.parallel (c : BodyContext) (hidden : List Nat) : Theory c :=
  { Theory.confined c with runs := fun ch => ∀ x used, Infer.Parallel c hidden Eq (ch.run x used) (ch.run x used) }

theorem Expr.parallel (c : BodyContext) (hidden : List Nat) (e : Expr) (x : Option Ty) (used : Bool) :
    Infer.Parallel c hidden Eq (e.asChild.run x used) (e.asChild.run x used) :=
  (Infer.sequential_parallel c hidden).runs (T := .parallel c hidden) (fun _ => Iff.rfl) (fun _ => True.intro)
    (fun _ => True.intro) (fun _ => True.intro) (fun _ _ _ => .inl True.intro) e x used

end TypeFlow
