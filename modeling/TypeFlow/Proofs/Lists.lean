import Mathlib.Data.List.Forall2
import TypeFlow.Flow.Layer

namespace TypeFlow

theorem mem_of_lookup {α β : Type} [BEq α] [LawfulBEq α] {k : α} {v : β} {es : List (α × β)}
    (h : es.lookup k = some v) : (k, v) ∈ es := by
  obtain ⟨l₁, l₂, rfl, -⟩ := List.lookup_eq_some_iff.mp h
  simp

theorem isSome_lookup_of_mem {α β : Type} [BEq α] [LawfulBEq α] {k : α} {v : β} {es : List (α × β)}
    (h : (k, v) ∈ es) : (es.lookup k).isSome = true := by
  rw [Option.isSome_iff_ne_none]
  intro hnone
  simpa using List.lookup_eq_none_iff.mp hnone _ h

theorem lookup_zip {α β : Type} [BEq α] [LawfulBEq α] {ks : List α} {vs : List β} {i : Nat} {k : α} {v : β}
    (h : ks.Nodup) (hk : ks[i]? = some k) (hv : vs[i]? = some v) : (ks.zip vs).lookup k = some v := by
  induction ks generalizing vs i with
  | nil => cases hk
  | cons k' ks ih =>
    obtain ⟨hfirst, hrest⟩ := List.nodup_cons.mp h
    cases vs with
    | nil => cases hv
    | cons v' vs =>
      cases i with
      | zero =>
        cases hk
        cases hv
        exact List.lookup_cons_self
      | succ i =>
        have hne : (k == k') = false := beq_false_of_ne fun heq => hfirst (heq ▸ List.mem_of_getElem? hk)
        rw [List.zip_cons_cons, List.lookup_cons, hne]
        exact ih hrest hk hv

theorem lookup_of_isPrefix {α β : Type} [BEq α] {k : α} {v : β} {es fs : List (α × β)} (h : es <+: fs)
    (hv : es.lookup k = some v) : fs.lookup k = some v := by
  obtain ⟨gs, rfl⟩ := h
  rw [List.lookup_append, hv]
  rfl

theorem getElem?_of_isPrefix {α : Type} {as bs : List α} {i : Nat} {a : α} (h : as <+: bs)
    (k : as[i]? = some a) : bs[i]? = some a := by
  obtain ⟨hi, rfl⟩ := List.getElem?_eq_some_iff.mp k
  rw [← List.prefix_iff_getElem?.mp h i hi]

theorem of_drop_eq_cons {α : Type} {as bs : List α} {a : α} {n : Nat} (h : as.drop n = a :: bs) :
    as[n]? = some a ∧ as.drop (n + 1) = bs := by
  rw [← List.head?_drop, ← List.tail_drop, h]
  exact ⟨rfl, rfl⟩

theorem map_zip_left {α β γ : Type} (f : α → γ) {as : List α} {bs : List β} (h : as.length ≤ bs.length) :
    (as.zip bs).map (fun a => f a.1) = as.map f := by
  calc (as.zip bs).map (fun a => f a.1)
      = ((as.zip bs).map (·.1)).map f := by simp [Function.comp_def]
    _ = as.map f := by rw [List.map_fst_zip h]

theorem exists_of_bind_ok {ε α β : Type} {x : Except ε α} {f : α → Except ε β} {b : β}
    (h : x >>= f = .ok b) : ∃ a, x = .ok a ∧ f a = .ok b := by
  cases x with
  | error e => cases h
  | ok a => exact ⟨a, rfl, h⟩

theorem exists_of_bind_error {ε α β : Type} {x : Except ε α} {f : α → Except ε β} {e : ε}
    (h : x >>= f = .error e) : x = .error e ∨ ∃ a, x = .ok a ∧ f a = .error e := by
  cases x with
  | error e' =>
    cases h
    exact .inl rfl
  | ok a => exact .inr ⟨a, rfl, h⟩

theorem eq_ok_of_fst {ε α β : Type} {x : Except ε (α × β)} {a : α} (b : β)
    (h : x.toOption.map (·.1) = some a) : x = .ok (a, (x.toOption.map (·.2)).getD b) := by
  rcases x with e | ⟨a', b'⟩ <;> cases h
  rfl

theorem mapError_bind_congr {ε δ α β : Type} {x y : Except ε α} {f g : α → Except ε β} {view : ε → δ}
    (h : x.mapError view = y.mapError view) (k : ∀ a, (f a).mapError view = (g a).mapError view) :
    (x >>= f).mapError view = (y >>= g).mapError view := by
  cases x with
  | error e =>
    cases y with
    | error e' => exact congrArg Except.error (Except.error.inj h)
    | ok b => cases h
  | ok a =>
    cases y with
    | error e' => cases h
    | ok b =>
      cases h
      exact k a

theorem exists_mapM_ok {ε α β : Type} {f : α → Except ε β} {as : List α}
    (h : ∀ a ∈ as, ∃ b, f a = .ok b) : ∃ bs, as.mapM f = .ok bs := by
  induction as with
  | nil => exact ⟨[], rfl⟩
  | cons a as ih =>
    obtain ⟨hb, has⟩ := List.forall_mem_cons.mp h
    obtain ⟨b, hb⟩ := hb
    obtain ⟨bs, hbs⟩ := ih has
    exact ⟨b :: bs, by rw [List.mapM_cons, hb, hbs]; rfl⟩

theorem exists_of_forall₂_left {α β : Type} {R : α → β → Prop} {as : List α} {bs : List β} {a : α}
    (h : List.Forall₂ R as bs) (ha : a ∈ as) : ∃ b, (a, b) ∈ as.zip bs ∧ R a b := by
  obtain ⟨hlength, hR⟩ := List.forall₂_iff_zip.mp h
  rw [← List.map_fst_zip (Nat.le_of_eq hlength)] at ha
  obtain ⟨⟨a, b⟩, hab, rfl⟩ := List.mem_map.mp ha
  exact ⟨b, hab, hR hab⟩

theorem exists_of_forall₂_right {α β : Type} {R : α → β → Prop} {as : List α} {bs : List β} {b : β}
    (h : List.Forall₂ R as bs) (hb : b ∈ bs) : ∃ a, (a, b) ∈ as.zip bs ∧ R a b := by
  obtain ⟨hlength, hR⟩ := List.forall₂_iff_zip.mp h
  rw [← List.map_snd_zip (Nat.le_of_eq hlength.symm)] at hb
  obtain ⟨⟨a, b⟩, hab, rfl⟩ := List.mem_map.mp hb
  exact ⟨a, hab, hR hab⟩

theorem map_eq_of_mapM {α β : Type} {f : α → Option β} {as : List α} {bs : List β}
    (h : as.mapM f = some bs) : as.map f = bs.map some := by
  induction as generalizing bs with
  | nil =>
    cases h
    rfl
  | cons a as ih =>
    rw [List.mapM_cons] at h
    obtain ⟨b, hb, h⟩ := Option.bind_eq_some_iff.mp h
    obtain ⟨cs, hcs, h⟩ := Option.bind_eq_some_iff.mp h
    cases h
    rw [List.map_cons, List.map_cons, hb, ih hcs]

theorem exists_of_mem_mapM {α β : Type} {f : α → Option β} {as : List α} {bs : List β} {b : β}
    (h : as.mapM f = some bs) (hb : b ∈ bs) : ∃ a ∈ as, f a = some b := by
  have hmem : some b ∈ as.map f := by
    rw [map_eq_of_mapM h]
    exact List.mem_map_of_mem hb
  exact List.mem_map.mp hmem

theorem exists_mem_of_mapM {α β : Type} {f : α → Option β} {as : List α} {bs : List β} {a : α}
    (h : as.mapM f = some bs) (ha : a ∈ as) : ∃ b ∈ bs, f a = some b := by
  have hmem : f a ∈ bs.map some := by
    rw [← map_eq_of_mapM h]
    exact List.mem_map_of_mem ha
  obtain ⟨b, hb, hab⟩ := List.mem_map.mp hmem
  exact ⟨b, hb, hab.symm⟩

theorem mapM_eq_ok_iff {ε α β : Type} {f : α → Except ε β} {as : List α} {bs : List β} :
    as.mapM f = .ok bs ↔ List.Forall₂ (fun a b => f a = .ok b) as bs := by
  induction as generalizing bs with
  | nil => simp [pure, Except.pure, eq_comm]
  | cons a as ih =>
    rw [List.mapM_cons, List.forall₂_cons_left_iff]
    constructor
    · intro h
      obtain ⟨b, hb, h⟩ := exists_of_bind_ok h
      obtain ⟨cs, hcs, h⟩ := exists_of_bind_ok h
      cases h
      exact ⟨b, cs, hb, ih.mp hcs, rfl⟩
    · rintro ⟨b, cs, hb, hcs, rfl⟩
      rw [hb, ih.mpr hcs]
      rfl

theorem exists_forall₂ {α β : Type} {R : α → β → Prop} {as : List α} (h : ∀ a ∈ as, ∃ b, R a b) :
    ∃ bs, List.Forall₂ R as bs := by
  induction as with
  | nil => exact ⟨[], .nil⟩
  | cons a as ih =>
    obtain ⟨⟨b, hb⟩, has⟩ := List.forall_mem_cons.mp h
    obtain ⟨bs, hbs⟩ := ih has
    exact ⟨b :: bs, .cons hb hbs⟩

theorem map_of_forall₂ {α β γ : Type} {R : α → β → Prop} {S : α → γ → Prop} {f : β → γ} {as : List α} {bs : List β}
    {cs : List γ} (hR : List.Forall₂ R as bs) (hS : List.Forall₂ S as cs)
    (h : ∀ a b c, R a b → S a c → f b = c) : bs.map f = cs := by
  induction hR generalizing cs with
  | nil => cases hS; rfl
  | cons hab _ ih =>
    cases hS with
    | cons hac hrest => rw [List.map_cons, h _ _ _ hab hac, ih hrest]

theorem eq_of_forall₂ {α β : Type} {R S : α → β → Prop} {as as' : List α} {bs : List β} (hR : List.Forall₂ R as bs)
    (hS : List.Forall₂ S as' bs) (h : ∀ a a' b, R a b → S a' b → a = a') : as = as' := by
  induction hR generalizing as' with
  | nil => cases hS; rfl
  | cons hab _ ih =>
    cases hS with
    | cons hab' hrest => rw [h _ _ _ hab hab', ih hrest]

theorem forall₂_of_common {α β γ : Type} {R : α → β → Prop} {S : α → γ → Prop} {T : β → γ → Prop} {as : List α}
    {bs : List β} {cs : List γ} (hR : List.Forall₂ R as bs) (hS : List.Forall₂ S as cs)
    (h : ∀ a b c, R a b → S a c → T b c) : List.Forall₂ T bs cs := by
  induction hR generalizing cs with
  | nil => cases hS; exact .nil
  | cons hab _ ih =>
    cases hS with
    | cons hac hrest => exact .cons (h _ _ _ hab hac) (ih hrest)

end TypeFlow
