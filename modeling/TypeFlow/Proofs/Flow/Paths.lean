import TypeFlow.Decl.Members
import TypeFlow.Proofs.Flow.Clearing
import TypeFlow.Proofs.Flow.Rooted

namespace TypeFlow

def Path.Plain (tested : Path → Prop) (p : Path) : Prop := ∀ q, p.startsWith q = true → ¬ tested q

namespace Path

variable {tested : Path → Prop} {p q : Path} {f g : String}

theorem Plain.not_tested (h : p.Plain tested) : ¬ tested p := h p p.startsWith_self

theorem Plain.of_field (h : (p.field f).Plain tested) : p.Plain tested :=
  fun q hq => h q (startsWith_trans (p.startsWith_field f) hq)

theorem field_inj (h : p.field f = q.field g) : p = q ∧ f = g := by
  obtain ⟨x, fs⟩ := p
  obtain ⟨y, gs⟩ := q
  simpa [field, and_assoc] using h

theorem ne_field (x : String) (p : Path) (f : String) : ⟨x, []⟩ ≠ p.field f := by
  simp [field]

end Path

namespace Registry

variable {r : Registry} {tested : Path → Prop} {σ : Scope} {l : Layer} {p : Path} {t u : Ty} {f : String}

def typeAt (r : Registry) (o : Option Local) (p : Path) : Option Ty :=
  o.bind fun loc => p.fields.foldlM r.fieldType loc.ty

theorem typeAt_field (o : Option Local) (p : Path) (f : String) :
    r.typeAt o (p.field f) = (r.typeAt o p).bind fun t => r.fieldType t f := by
  cases o with
  | none => rfl
  | some loc => simp [typeAt, Path.field, List.foldlM_append]

def DeclaresPath (r : Registry) (tested : Path → Prop) (σ : Scope) (p : Path) (t : Ty) : Prop :=
  (∀ (q : Path) f, p = q.field f → q.Plain tested) → r.typeAt (σ.lookup p.root) p = some t

def ReadsPath (r : Registry) (tested : Path → Prop) (σ : Scope) (p : Path) (t : Ty) : Prop :=
  p.Plain tested → r.typeAt (σ.lookup p.root) p = some t

def KnowsPath (r : Registry) (tested : Path → Prop) (o : Option Local) (p : Path) (_ : Narrowing) : Prop :=
  tested p ∧ ∀ (q : Path) f, p = q.field f → q.Plain tested → (r.typeAt o p).isSome = true

theorem declaresPath_root {x : String} {loc : Local} (h : σ.lookup x = some loc) :
    r.DeclaresPath tested σ ⟨x, []⟩ loc.ty := by
  intro _
  simp [typeAt, h]

theorem DeclaresPath.named (h : r.DeclaresPath tested σ p t) (hp : p.fields = []) :
    ∃ loc, σ.lookup p.root = some loc ∧ loc.ty = t := by
  obtain ⟨x, fs⟩ := p
  cases hp
  have hx := h fun q f hq => absurd hq (Path.ne_field x q f)
  obtain ⟨loc, hloc, ht⟩ := Option.bind_eq_some_iff.mp hx
  exact ⟨loc, hloc, Option.some.inj ht⟩

theorem DeclaresPath.reads (h : r.DeclaresPath tested σ p t) : r.ReadsPath tested σ p t := by
  refine fun hp => h fun q f hq => ?_
  rw [hq] at hp
  exact hp.of_field

theorem ReadsPath.field (h : r.ReadsPath tested σ p t) (hf : r.fieldType t f = some u) :
    r.ReadsPath tested σ (p.field f) u := by
  intro hp
  have ht : r.typeAt (σ.lookup (p.field f).root) p = some t := h hp.of_field
  rw [typeAt_field, ht]
  exact hf

theorem DeclaresPath.field (h : r.DeclaresPath tested σ p t) (hl : l.Rooted (r.KnowsPath tested) σ)
    (hf : r.fieldType ((l.narrowed p).getD t) f = some u) : r.DeclaresPath tested σ (p.field f) u := by
  intro hplain
  have hp : p.Plain tested := hplain p f rfl
  have hnone : l.narrowed p = none := by
    refine Option.map_eq_none_iff.mpr (Option.eq_none_iff_forall_ne_some.mpr fun n hn => ?_)
    exact hp.not_tested (hl.get hn).1
  have ht : r.typeAt (σ.lookup (p.field f).root) p = some t := h.reads hp
  rw [hnone] at hf
  rw [typeAt_field, ht]
  exact hf

theorem ReadsPath.receiver {n : Narrowing} (h : r.ReadsPath tested σ p t) (hl : l.Rooted (r.KnowsPath tested) σ)
    (hn : l.get (p.field f) = some n) :
    (∃ u, r.fieldType t f = some u) ∨ tested (p.field f) ∧ ∃ q, p.startsWith q = true ∧ tested q := by
  obtain ⟨htested, hknown⟩ := hl.get hn
  by_cases hp : p.Plain tested
  · have ht : r.typeAt (σ.lookup (p.field f).root) p = some t := h hp
    have hsome := hknown p f rfl hp
    rw [typeAt_field, ht] at hsome
    exact .inl (Option.isSome_iff_exists.mp hsome)
  · simp only [Path.Plain, Classical.not_forall, Classical.not_not] at hp
    obtain ⟨q, hq, hqt⟩ := hp
    exact .inr ⟨htested, q, hq, hqt⟩

theorem DeclaresPath.knows {n : Narrowing} (h : r.DeclaresPath tested σ p t) (hp : tested p) :
    r.KnowsPath tested (σ.lookup p.root) p n := by
  refine ⟨hp, fun q f hq hplain => ?_⟩
  have ht := h fun q' f' hq' => (Path.field_inj (hq.symm.trans hq')).1 ▸ hplain
  rw [ht]
  rfl

end Registry

end TypeFlow
