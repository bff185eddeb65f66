import TypeFlow.Check.Registration
import TypeFlow.Proofs.Decl.Outline
import TypeFlow.Proofs.Decl.Resolution

namespace TypeFlow

namespace GenericItem

def names (gs : List GenericItem) : List String := gs.map (·.name)

def default? (g : GenericItem) : Option Written :=
  match g.kind with
  | .type _ d => d
  | .const _ => none

def const? (g : GenericItem) : Option Written :=
  match g.kind with
  | .type .. => none
  | .const w => some w

def bounds (g : GenericItem) : List Written :=
  match g.kind with
  | .type bs _ => bs
  | .const _ => []

def DefaultsInOrder (gs : List GenericItem) : Prop :=
  ∀ k < gs.length, ∀ w ∈ gs[k]?.bind (·.default?), ∀ x ∈ w.names, x ∈ names gs → x ∈ names (gs.take k)

instance (gs : List GenericItem) : Decidable (DefaultsInOrder gs) :=
  inferInstanceAs (Decidable (∀ k < gs.length, _))

def ConstsPlain (gs : List GenericItem) : Prop :=
  ∀ g ∈ gs, ∀ w ∈ g.const?, ∀ x ∈ w.names, x ∉ names gs

instance (gs : List GenericItem) : Decidable (ConstsPlain gs) :=
  inferInstanceAs (Decidable (∀ g ∈ gs, _))

structure InOrder (gs : List GenericItem) : Prop where
  defaults : DefaultsInOrder gs
  consts : ConstsPlain gs

end GenericItem

def Module.genericLists (m : Module) : List (List GenericItem) :=
  m.structs.map (·.generics) ++ m.interfaces.map (·.generics) ++ m.functions.map (·.generics)

def Module.InOrder (m : Module) : Prop := ∀ gs ∈ m.genericLists, GenericItem.InOrder gs

theorem Generics.find_eq_none {scope : Generics} {x : String} (h : x ∉ scope.map (·.name)) :
    scope.find x = none := by
  refine List.find?_eq_none.mpr fun g hg heq => h ?_
  exact eq_of_beq heq ▸ List.mem_map_of_mem hg

theorem Generics.find_take {scope : Generics} {x : String} {k : Nat}
    (h : x ∈ scope.map (·.name) → x ∈ (scope.take k).map (·.name)) :
    scope.find x = find (scope.take k) x := by
  by_cases hx : x ∈ scope.map (·.name)
  · obtain ⟨g, hg, heq⟩ := List.mem_map.mp (h hx)
    have hsome : (find (scope.take k) x).isSome = true :=
      List.find?_isSome.mpr ⟨g, hg, beq_iff_eq.mpr heq⟩
    calc scope.find x = find (scope.take k ++ scope.drop k) x := by rw [List.take_append_drop]
      _ = (find (scope.take k) x).or (find (scope.drop k) x) := List.find?_append
      _ = find (scope.take k) x := Option.or_of_isSome hsome
  · have hpart : x ∉ (scope.take k).map (·.name) := fun hk => hx ?_
    · rw [find_eq_none hx, find_eq_none hpart]
    · rw [List.map_take] at hk
      exact List.mem_of_mem_take hk

theorem map_name_placeholders (i : Nat) (gs : List GenericItem) :
    (placeholders i gs).map (·.name) = GenericItem.names gs := by
  induction gs generalizing i with
  | nil => rfl
  | cons g gs ih => exact congrArg (g.name :: ·) (ih (i + 1))

def GenericParam.form (p : GenericParam) : String × Nat × Bool := (p.name, p.index, p.isConst)

def Generics.forms (ps : Generics) : List (String × Nat × Bool) := ps.map (·.form)

theorem Generics.tys_of_forms {ps qs : Generics} (h : ps.forms = qs.forms) : ps.tys = qs.tys := by
  have hty (ps : Generics) : ps.tys = ps.forms.map fun f => .param f.1 f.2.1 := by
    rw [tys, forms, List.map_map]
    rfl
  rw [hty, hty, h]

theorem forms_placeholders_cons (i : Nat) (g : GenericItem) (gs : List GenericItem) :
    (placeholders i (g :: gs)).forms = (g.name, i, g.const?.isSome) :: (placeholders (i + 1) gs).forms := by
  obtain ⟨x, kind, span⟩ := g
  cases kind <;> rfl

structure GenericParam.All (bound default const : Ty → Prop) (p : GenericParam) : Prop where
  bound : ∀ t ∈ p.bounds, bound t
  default : ∀ t, p.default = some t → default t
  constType : ∀ t, p.constType = some t → const t

theorem take_placeholders (i k : Nat) (gs : List GenericItem) :
    (placeholders i gs).take k = placeholders i (gs.take k) := by
  induction gs generalizing i k with
  | nil => cases k <;> rfl
  | cons g gs ih =>
    cases k with
    | zero => rfl
    | succ k => exact congrArg (_ :: ·) (ih (i + 1) k)

theorem default_placeholders (i : Nat) (gs : List GenericItem) : ∀ g ∈ placeholders i gs, g.default = none := by
  induction gs generalizing i with
  | nil => exact nofun
  | cons g gs ih =>
    refine List.forall_mem_cons.mpr ⟨?_, ih (i + 1)⟩
    unfold GenericParam.default
    cases g.kind <;> rfl

theorem bounds_placeholders (i : Nat) (gs : List GenericItem) : ∀ g ∈ placeholders i gs, g.bounds = [] := by
  induction gs generalizing i with
  | nil => exact nofun
  | cons g gs ih =>
    refine List.forall_mem_cons.mpr ⟨?_, ih (i + 1)⟩
    unfold GenericParam.bounds
    cases g.kind <;> rfl

theorem constType_placeholders (i : Nat) (gs : List GenericItem) :
    ∀ g ∈ placeholders i gs, ∀ t, g.constType = some t → t = .error := by
  induction gs generalizing i with
  | nil => exact nofun
  | cons g gs ih =>
    refine List.forall_mem_cons.mpr ⟨fun t ht => ?_, ih (i + 1)⟩
    unfold GenericParam.constType at ht
    cases hk : g.kind <;> rw [hk] at ht <;> cases ht
    rfl

theorem positioned_placeholders (gs : List GenericItem) : Ty.Positioned (placeholders 0 gs).tys := by
  have hfrom (i : Nat) : ∀ k t, (placeholders i gs).tys[k]? = some t → ∃ x, t = Ty.param x (i + k) := by
    induction gs generalizing i with
    | nil => exact fun k t h => nomatch h
    | cons g gs ih =>
      intro k t h
      cases k with
      | zero => exact ⟨g.name, (Option.some.inj h).symm⟩
      | succ k =>
        obtain ⟨x, hx⟩ := ih (i + 1) k t h
        exact ⟨x, hx.trans (congrArg (Ty.param x) (by omega))⟩
  intro k t h
  simpa using hfrom 0 k t h

namespace GenericItem

variable {gs : List GenericItem}

theorem DefaultsInOrder.find (h : DefaultsInOrder gs) {k : Nat} {g : GenericItem} {w : Written}
    (hg : gs[k]? = some g) (hw : w ∈ g.default?) :
    ∀ x ∈ w.names, (placeholders 0 gs).find x = Generics.find ((placeholders 0 gs).take k) x := by
  refine fun x hx => Generics.find_take ?_
  rw [take_placeholders, map_name_placeholders, map_name_placeholders]
  have hdefault : w ∈ gs[k]?.bind (·.default?) := by
    rw [hg]
    exact hw
  exact h k (List.getElem?_eq_some_iff.mp hg).1 w hdefault x hx

theorem ConstsPlain.find (h : ConstsPlain gs) {g : GenericItem} {w : Written} (hg : g ∈ gs) (hw : w ∈ g.const?) :
    ∀ x ∈ w.names, (placeholders 0 gs).find x = Generics.find [] x := by
  refine fun x hx => Generics.find_eq_none ?_
  rw [map_name_placeholders]
  exact h g hg w hw x hx

end GenericItem

end TypeFlow
