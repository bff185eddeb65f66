import TypeFlow.Proofs.Flow.Merging
import TypeFlow.Proofs.Flow.Refinement
import TypeFlow.Scope

namespace TypeFlow

namespace Scope

theorem lookup_filter_of_ne {β : Type} {x y : String} (h : y ≠ x) (es : List (String × β)) :
    (es.filter fun e => e.1 != x).lookup y = es.lookup y := by
  induction es with
  | nil => rfl
  | cons e es ih =>
    by_cases hx : e.1 = x
    · have hy : (y == e.1) = false := beq_false_of_ne (hx ▸ h)
      rw [List.filter_cons_of_neg (by simp [hx]), ih, List.lookup_cons, hy]
    · rw [List.filter_cons_of_pos (by simp [hx]), List.lookup_cons, List.lookup_cons, ih]

theorem lookup_bind_of_ne (σ : Scope) (loc : Local) {x y : String} (h : y ≠ x) :
    (σ.bind x loc).lookup y = σ.lookup y := by
  simp only [lookup, bind, lookupIn, List.lookup_cons, beq_false_of_ne h, lookup_filter_of_ne h]

theorem lookup_of_not_mem_ownNames {σ τ : Scope} {x : String} (h : x ∉ τ.ownNames)
    (ho : τ.outer = σ.own :: σ.outer) : τ.lookup x = σ.lookup x := by
  have hown : τ.own.lookup x = none := by
    rw [List.lookup_eq_none_iff]
    intro e he
    exact bne_iff_ne.mpr fun heq => h (List.mem_map.mpr ⟨e, he, heq.symm⟩)
  rw [lookup, lookupIn, hown, ho]
  rfl

end Scope

namespace Layer

def Rooted (P : Option Local → Path → Narrowing → Prop) (σ : Scope) (l : Layer) : Prop :=
  ∀ e ∈ l.entries, P (σ.lookup e.1.root) e.1 e.2

variable {P : Option Local → Path → Narrowing → Prop} {r : Registry} {σ τ : Scope} {l m : Layer}

theorem Rooted.get (h : l.Rooted P σ) {p : Path} {n : Narrowing} (k : l.get p = some n) :
    P (σ.lookup p.root) p n := h _ (mem_of_lookup k)

theorem Rooted.invalidate (h : l.Rooted P σ) (p : Path) : (l.invalidate p).Rooted P σ :=
  fun e he => h e (List.mem_filter.mp he).1

theorem Rooted.apply {f : FlowFact} (h : l.Rooted P σ)
    (hf : P (σ.lookup f.path.root) f.path ((l.view f.path f.declared).refine r f.fact)) :
    (l.apply r f).Rooted P σ := by
  intro e he
  rcases mem_set he with rfl | he
  · exact hf
  · exact h e he

theorem Rooted.merge (hl : l.Rooted P σ) (hm : m.Rooted P σ)
    (hP : ∀ {o p a b n}, P o p a → P o p b → a.merge r b = some n → P o p n) :
    (l.merge r m).Rooted P σ := by
  intro e he
  obtain ⟨a, b, hmeets⟩ := mem_merge_iff.mp he
  have ha : P (σ.lookup e.1.root) e.1 a := hl _ hmeets.left
  exact hP ha (hm.get hmeets.right) hmeets.merge

theorem mem_foldl_invalidate {xs : List String} {f : FlowStack} {e : Path × Narrowing}
    (h : e ∈ (xs.foldl (fun f x => f.invalidate ⟨x, []⟩) f).top.entries) :
    e ∈ f.top.entries ∧ e.1.root ∉ xs := by
  induction xs generalizing f with
  | nil => exact ⟨h, by simp⟩
  | cons x xs ih =>
    obtain ⟨hmem, hxs⟩ := ih h
    obtain ⟨hmem, hout⟩ := List.mem_filter.mp hmem
    exact ⟨hmem, List.not_mem_cons_of_ne_of_not_mem (by simpa [Path.startsWith] using hout) hxs⟩

theorem Rooted.bind (h : l.Rooted P σ) (x : String) (loc : Local) :
    (l.invalidate ⟨x, []⟩).Rooted P (σ.bind x loc) := by
  intro e he
  obtain ⟨hmem, hout⟩ := List.mem_filter.mp he
  have hne : e.1.root ≠ x := by simpa [Path.startsWith] using hout
  rw [Scope.lookup_bind_of_ne _ _ hne]
  exact h e hmem

theorem Rooted.leave {f : FlowStack} (h : f.top.Rooted P τ) (ho : τ.outer = σ.own :: σ.outer) :
    (τ.ownNames.foldl (fun f x => f.invalidate ⟨x, []⟩) f).top.Rooted P σ := by
  intro e he
  obtain ⟨hmem, hout⟩ := mem_foldl_invalidate he
  rw [← Scope.lookup_of_not_mem_ownNames hout ho]
  exact h e hmem

end Layer

theorem Narrowing.declared_merge {r : Registry} {a b n : Narrowing} (h : a.merge r b = some n) :
    n.declared = a.declared := by
  unfold merge at h
  split at h
  · cases h
  · split at h
    · cases h
      rfl
    · split at h
      · cases h
        rfl
      · cases h

end TypeFlow
