import TypeFlow.Proofs.Intern.Building
import TypeFlow.Proofs.Ty.Composition

namespace TypeFlow

open Ty

namespace TypeNode

def tree (word : Handle → String) : TypeNode → List Ty → Ty
  | prim p, _ => .prim p
  | unit, _ => .unit
  | never, _ => .never
  | untypedNone, _ => .untypedNone
  | untypedNil, _ => .untypedNil
  | pointer m _, [t] => .pointer m t
  | reference m _, [t] => .reference m t
  | fixedArray len _, [t] => .fixedArray len.toNat t
  | dynArray _, [t] => .dynArray t
  | map _ _, [t, u] => .map t u
  | tuple _, ts => .mkTuple ts
  | function _ v _, ts => .function ts.dropLast v (ts.getLast?.getD .error)
  | option _, [t] => .option t
  | result _ _, [t, u] => .result t u
  | channel _, [t] => .channel t
  | named d _, ts => .named d.toNat ts
  | interface d _, ts => .interface d.toNat ts
  | union _, ts => .mkUnion ts
  | param x i, _ => .param (word x) i.toNat
  | var i, _ => .var i.toNat
  | const c, _ => .const c
  | _, _ => .error

end TypeNode

namespace TypePool

inductive Unfolds (hash : TypeNode → Nat) (word : Handle → String) (p : TypePool) : Handle → Ty → Prop
  | intro {a : Handle} {n : TypeNode} {ts : List Ty} (hn : p.lookup hash a = some n)
    (hlength : n.children.length = ts.length) (h : ∀ x ∈ n.children.zip ts, Unfolds hash word p x.1 x.2) :
    Unfolds hash word p a (n.tree word ts)

variable {hash : TypeNode → Nat} {word : Handle → String} {p q : TypePool} {a b : Handle} {n : TypeNode} {t u : Ty}
  {ts us : List Ty}

theorem Unfolds.of_parts (hn : p.lookup hash a = some n) (h : List.Forall₂ (p.Unfolds hash word) n.children ts) :
    p.Unfolds hash word a (n.tree word ts) := by
  obtain ⟨hlength, h⟩ := List.forall₂_iff_zip.mp h
  exact .intro hn hlength fun x hx => h hx

theorem Unfolds.exists_parts (h : p.Unfolds hash word a t) : ∃ n ts, p.lookup hash a = some n ∧
    List.Forall₂ (p.Unfolds hash word) n.children ts ∧ t = n.tree word ts := by
  cases h with
  | intro hn hlength h => exact ⟨_, _, hn, List.forall₂_iff_zip.mpr ⟨hlength, fun hx => h _ hx⟩, rfl⟩

@[elab_as_elim]
theorem Unfolds.parts_induction {motive : Handle → Ty → Prop}
    (step : ∀ a n ts, p.lookup hash a = some n → List.Forall₂ (p.Unfolds hash word) n.children ts →
      List.Forall₂ motive n.children ts → motive a (n.tree word ts))
    (h : p.Unfolds hash word a t) : motive a t := by
  induction h with
  | intro hn hlength h ih =>
    exact step _ _ _ hn (List.forall₂_iff_zip.mpr ⟨hlength, fun hx => h _ hx⟩)
      (List.forall₂_iff_zip.mpr ⟨hlength, fun hx => ih _ hx⟩)

theorem Unfolds.mono (hgrows : p.Grows hash q) (h : p.Unfolds hash word a t) : q.Unfolds hash word a t :=
  parts_induction (fun _ _ _ hn _ ih => .of_parts (hgrows.lookup hn) ih) h

theorem Unfolds.unique (h : p.Unfolds hash word a t) (k : p.Unfolds hash word a u) : t = u := by
  suffices hall : ∀ u, p.Unfolds hash word a u → t = u from hall u k
  refine parts_induction (fun a n ts hn _ ih u k => ?_) h
  obtain ⟨m, us, hm, hus, rfl⟩ := k.exists_parts
  cases hn.symm.trans hm
  have heq := map_of_forall₂ (f := id) ih hus fun _ _ _ hb hu => hb _ hu
  rw [← heq, List.map_id]

theorem Grounded.exists_unfolds {k : Nat} (h : p.Grounded hash k a) (word : Handle → String) : ∃ t, p.Unfolds hash word a t := by
  induction h with
  | intro hn _ ih =>
    obtain ⟨ts, hts⟩ := exists_forall₂ ih
    exact ⟨_, .of_parts hn hts⟩

theorem closed_tree {good : Ty → Prop} (htuple : (∀ t ∈ ts, good t) → good (.mkTuple ts))
    (hunion : (∀ t ∈ ts, good t) → good (.mkUnion ts))
    (hbuild : ∀ t : Ty, t.Proper → (∀ x i, t = .param x i → ∃ y j, n = .param y j ∧ i = j.toNat) →
      (∀ u ∈ t.parts, good u) → good t) (h : ∀ t ∈ ts, good t) : good (n.tree word ts) := by
  have hleaf {t : Ty} (ht : t.Proper) (hparam : ∀ x i, t ≠ .param x i) (hparts : t.parts = []) : good t :=
    hbuild t ht (fun x i hx => absurd hx (hparam x i)) (hparts ▸ List.forall_mem_nil _)
  cases n
  case tuple => exact htuple h
  case union => exact hunion h
  case named | interface => exact hbuild _ True.intro nofun h
  case function ps v r =>
    refine hbuild _ True.intro nofun (List.forall_mem_cons.mpr ⟨?_, fun t ht => h t (List.dropLast_subset _ ht)⟩)
    cases hlast : ts.getLast? with
    | none => exact hleaf True.intro nofun rfl
    | some t => exact h t (List.mem_of_getLast? hlast)
  case pointer | reference | fixedArray | dynArray | option | channel =>
    match ts with
    | [] | _ :: _ :: _ => exact hleaf True.intro nofun rfl
    | [t] => exact hbuild _ True.intro nofun h
  case map | result =>
    match ts with
    | [] | [_] | _ :: _ :: _ :: _ => exact hleaf True.intro nofun rfl
    | [t, u] => exact hbuild _ True.intro nofun h
  case param x i =>
    exact hbuild _ True.intro (fun y j hy => by cases hy; exact ⟨x, i, rfl, rfl⟩) (List.forall_mem_nil _)
  all_goals exact hleaf True.intro nofun rfl

theorem Unfolds.canonical (h : p.Unfolds hash word a t) : t.Canonical := by
  refine parts_induction (fun a n ts _ _ ih =>
    closed_tree .mkTuple .mkUnion (fun t ht _ hparts => .intro ht hparts) fun t ht => ?_) h
  obtain ⟨b, -, hb⟩ := exists_of_forall₂_right ih ht
  exact hb

end TypePool

theorem TypeFlags.ext_meets {f g : TypeFlags} (h : ∀ mask, f.meets mask = g.meets mask) : f = g := by
  obtain ⟨f₁, f₂, f₃, f₄, f₅⟩ := f
  obtain ⟨g₁, g₂, g₃, g₄, g₅⟩ := g
  have h₁ := h { hasVar := true }
  have h₂ := h { hasParam := true }
  have h₃ := h { hasError := true }
  have h₄ := h { hasUntyped := true }
  have h₅ := h { hasConst := true }
  simp only [meets, Bool.and_true, Bool.and_false, Bool.or_false, Bool.false_or] at h₁ h₂ h₃ h₄ h₅
  subst h₁ h₂ h₃ h₄ h₅
  rfl

theorem TypeFlags.meets_propagate_iff {fs : List TypeFlags} {mask : TypeFlags} :
    (propagate fs).meets mask = true ↔ ∃ f ∈ fs, f.meets mask = true := by
  induction fs with
  | nil => simp [propagate_nil, meets, empty]
  | cons f fs ih => simp [propagate_cons, meets_union, ih]

namespace Ty

variable {t : Ty} {ts : List Ty} {mask : TypeFlags}

theorem meets_flags_part_iff : t.flags.meets mask = true ↔
    t.ownFlags.meets mask = true ∨ ∃ u ∈ t.parts, u.flags.meets mask = true := by
  rw [meets_flags_iff, somewhere_iff]
  simp only [meets_flags_iff]

theorem flags_never : never.flags = .empty := by
  rw [flags_eq]
  rfl

theorem meets_flags_ofMembers : (ofMembers ts).flags.meets mask = true ↔ ∃ t ∈ ts, t.flags.meets mask = true := by
  cases ts with
  | nil => simp [ofMembers, flags_never, TypeFlags.meets, TypeFlags.empty]
  | cons t ts =>
    cases ts with
    | nil => simp [ofMembers]
    | cons u us =>
      have hunion : ofMembers (t :: u :: us) = .union (t :: u :: us) := rfl
      rw [hunion, meets_flags_part_iff, parts]
      simp [ownFlags, TypeFlags.meets, TypeFlags.empty]

theorem meets_flags_unionParts : (∃ u ∈ t.unionParts, u.flags.meets mask = true) ↔ t.flags.meets mask = true := by
  cases t with
  | never => simp [unionParts, flags_never, TypeFlags.meets, TypeFlags.empty]
  | union ts =>
    rw [meets_flags_part_iff, parts, unionParts]
    simp [ownFlags, TypeFlags.meets, TypeFlags.empty]
  | _ => simp [unionParts]

theorem flags_mkUnion (ts : List Ty) : (mkUnion ts).flags = .propagate (ts.map flags) := by
  refine TypeFlags.ext_meets fun mask => Bool.eq_iff_iff.mpr ?_
  rw [mkUnion, meets_flags_ofMembers, TypeFlags.meets_propagate_iff]
  simp only [mem_sorted, List.mem_flatMap, List.mem_map, exists_exists_and_eq_and]
  constructor
  · rintro ⟨u, ⟨t, ht, hu⟩, hmeets⟩
    exact ⟨t, ht, meets_flags_unionParts.mp ⟨u, hu, hmeets⟩⟩
  · rintro ⟨t, ht, hmeets⟩
    obtain ⟨u, hu, hmeets⟩ := meets_flags_unionParts.mpr hmeets
    exact ⟨u, ⟨t, ht, hu⟩, hmeets⟩

theorem flags_mkTuple (ts : List Ty) : (mkTuple ts).flags = .propagate (ts.map flags) := by
  match ts with
  | [] => rw [mkTuple, flags_eq]; rfl
  | [t] => rw [mkTuple, List.map_singleton, TypeFlags.propagate_cons, TypeFlags.propagate_nil, TypeFlags.union_empty]
  | t :: u :: us =>
    rw [mkTuple, flags_eq]
    · exact TypeFlags.empty_union _
    · exact nofun
    · exact nofun

end Ty

namespace TypePool

variable {hash : TypeNode → Nat} {word : Handle → String} {p q : TypePool} {a b : Handle} {n : TypeNode} {t u : Ty}
  {ts us : List Ty}

theorem flags_tree (hlength : n.children.length = ts.length) :
    (n.tree word ts).flags = n.ownFlags.union (.propagate (ts.map Ty.flags)) := by
  cases n
  case tuple => exact (flags_mkTuple ts).trans (TypeFlags.empty_union _).symm
  case union => exact (flags_mkUnion ts).trans (TypeFlags.empty_union _).symm
  case named | interface => exact Ty.flags_eq _
  case function ps v r =>
    obtain ⟨us, t, rfl⟩ := (List.eq_nil_or_concat' ts).resolve_left fun h => by simp [TypeNode.children, h] at hlength
    rw [TypeNode.tree, Ty.flags_eq]
    simp [Ty.children, TypeNode.ownFlags, Ty.ownFlags]
  case pointer | reference | fixedArray | dynArray | option | channel =>
    obtain ⟨t, rfl⟩ := List.length_eq_one_iff.mp hlength.symm
    exact Ty.flags_eq _
  case map | result =>
    obtain ⟨t, u, rfl⟩ := List.length_eq_two.mp hlength.symm
    exact Ty.flags_eq _
  all_goals
    cases List.eq_nil_of_length_eq_zero hlength.symm
    exact Ty.flags_eq _

theorem Unfolds.flagsOf (hp : p.Exact hash) (h : p.Unfolds hash word a t) : p.flagsOf hash a = some t.flags := by
  refine parts_induction (fun a n ts hn hts ih => ?_) h
  obtain ⟨f, hf, hcompute⟩ := hp.exists_flagsOf hn
  obtain ⟨fs, hfs, rfl⟩ := computeFlags_iff.mp hcompute
  have heq : ts.map Ty.flags = fs := map_of_forall₂ ih hfs fun _ _ _ hb hg => Option.some.inj (hb.symm.trans hg)
  rw [hf, flags_tree hts.length_eq, heq]

theorem Unfolds.exists_unionParts (h : p.Unfolds hash word a t) {bs : List Handle}
    (hbs : p.unionParts hash a = .ok bs) :
    ∃ us, List.Forall₂ (p.Unfolds hash word) bs us ∧ ∀ v, v ∈ t.unionParts ↔ ∃ u ∈ us, v ∈ u.unionParts := by
  have hself := h
  obtain ⟨n, ts, hn, hts, rfl⟩ := h.exists_parts
  unfold unionParts at hbs
  rw [hn] at hbs
  cases n
  case union as =>
    cases hbs
    refine ⟨ts, hts, fun v => mem_unionParts_mkUnion fun t ht => ?_⟩
    obtain ⟨b, -, hb⟩ := exists_of_forall₂_right hts ht
    exact hb.canonical
  case never =>
    cases hbs
    exact ⟨[], .nil, fun v => by simp [TypeNode.tree, Ty.unionParts]⟩
  all_goals
    cases hbs
    exact ⟨_, .cons hself .nil, fun v => by simp⟩

theorem exists_unionParts_all {as : List Handle} {bss : List (List Handle)}
    (hparts : List.Forall₂ (fun b bs => p.unionParts hash b = .ok bs) as bss)
    (hts : List.Forall₂ (p.Unfolds hash word) as ts) :
    ∃ us, List.Forall₂ (p.Unfolds hash word) bss.flatten us ∧
      ∀ v, (∃ u ∈ us, v ∈ u.unionParts) ↔ ∃ t ∈ ts, v ∈ t.unionParts := by
  induction hparts generalizing ts with
  | nil =>
    cases hts
    exact ⟨[], .nil, fun v => Iff.rfl⟩
  | cons hb _ ih =>
    cases hts with
    | cons ht hts =>
      obtain ⟨us, hus, hmem⟩ := ht.exists_unionParts hb
      obtain ⟨vs, hvs, hrest⟩ := ih hts
      refine ⟨us ++ vs, List.rel_append hus hvs, fun v => ?_⟩
      simp only [List.mem_append, List.mem_cons, or_and_right, exists_or, exists_eq_left, hmem, hrest]

theorem exists_members {as : List Handle} {bss : List (List Handle)}
    (hparts : List.Forall₂ (fun b bs => p.unionParts hash b = .ok bs) as bss)
    (hts : List.Forall₂ (p.Unfolds hash word) as ts) :
    ∃ us, List.Forall₂ (p.Unfolds hash word) (Handle.sorted bss.flatten) us ∧ mkUnion us = mkUnion ts := by
  obtain ⟨vs, hvs, hmem⟩ := exists_unionParts_all hparts hts
  have hunfolds : ∀ b ∈ Handle.sorted bss.flatten, ∃ u, p.Unfolds hash word b u := fun b hb => by
    obtain ⟨u, -, hu⟩ := exists_of_forall₂_left hvs (Handle.mem_sorted.mp hb)
    exact ⟨u, hu⟩
  obtain ⟨us, hus⟩ := exists_forall₂ hunfolds
  have hsame (u : Ty) : u ∈ us ↔ u ∈ vs := by
    constructor
    · intro hu
      obtain ⟨b, hb, hunfolds⟩ := exists_of_forall₂_right hus hu
      obtain ⟨v, hv, hunique⟩ := exists_of_forall₂_left hvs (Handle.mem_sorted.mp (List.of_mem_zip hb).1)
      exact hunfolds.unique hunique ▸ (List.of_mem_zip hv).2
    · intro hu
      obtain ⟨b, hb, hunfolds⟩ := exists_of_forall₂_right hvs hu
      obtain ⟨v, hv, hunique⟩ := exists_of_forall₂_left hus (Handle.mem_sorted.mpr (List.of_mem_zip hb).1)
      exact hunfolds.unique hunique ▸ (List.of_mem_zip hv).2
  refine ⟨us, hus, mkUnion_congr fun v => ?_⟩
  rw [← hmem]
  exact exists_congr fun u => and_congr_left fun _ => hsame u

theorem unfolds_construct (hp : p.Exact hash) (h : p.construct hash n = .ok (a, q))
    (hts : List.Forall₂ (p.Unfolds hash word) n.children ts) : q.Unfolds hash word a (n.tree word ts) := by
  have hfixed {i : Nat} {n : TypeNode} (hn : TypeNode.fixed[i]? = some n) (hchildren : n.children = []) :
      p.Unfolds hash word ⟨i.toUInt32⟩ (n.tree word []) := by
    obtain ⟨hi, -⟩ := List.getElem?_eq_some_iff.mp hn
    refine .of_parts ((hp.lookup_of_fixed hi).trans hn) ?_
    rw [hchildren]
    exact .nil
  cases constructs h with
  | unit =>
    cases hts
    exact hfixed (i := 15) (n := .unit) rfl rfl
  | element =>
    cases hts with
    | cons ht hrest =>
      cases hrest
      exact ht
  | node _ hproper h =>
    obtain ⟨-, hgrows, hlookup⟩ := hp.of_tryIntern hproper h
    exact .of_parts hlookup (hts.imp fun _ _ => .mono hgrows)
  | never hparts hsorted =>
    obtain ⟨us, hus, heq⟩ := exists_members hparts hts
    rw [hsorted] at hus
    cases hus
    rw [TypeNode.tree, ← heq]
    exact hfixed (i := 16) (n := .never) rfl rfl
  | member hparts hsorted =>
    obtain ⟨us, hus, heq⟩ := exists_members hparts hts
    rw [hsorted] at hus
    cases hus with
    | cons hu hrest =>
      cases hrest
      rw [TypeNode.tree, ← heq, mkUnion_singleton hu.canonical]
      exact hu
  | union hparts hlength h =>
    obtain ⟨us, hus, heq⟩ := exists_members hparts hts
    obtain ⟨-, hgrows, hlookup⟩ := hp.of_tryIntern (hp.proper_union hparts hlength) h
    rw [TypeNode.tree, ← heq]
    exact .of_parts hlookup (hus.imp fun _ _ => .mono hgrows)

end TypePool

end TypeFlow
