import TypeFlow.Proofs.Infer.Tree

namespace TypeFlow

variable {good : Ty → Prop}

def Scope.Holds (good : Ty → Prop) (s : Scope) : Prop :=
  ∀ f ∈ s.own :: s.outer, ∀ e ∈ f, good e.2.ty

structure Narrowing.Holds (good : Ty → Prop) (n : Narrowing) : Prop where
  declared : good n.declared
  ty : good n.ty

def Layer.Holds (good : Ty → Prop) (l : Layer) : Prop := ∀ e ∈ l.entries, e.2.Holds good

structure BodyState.Holds (good : Ty → Prop) (s : BodyState) : Prop where
  scope : s.scope.Holds good
  layer : ∀ l ∈ s.flow.top :: s.flow.below, l.Holds good
  type : ∀ e ∈ s.types, good e.2
  inst : ∀ e ∈ s.insts, ∀ t ∈ e.2.typeArgs, good t

theorem BodyState.Holds.imp {good' : Ty → Prop} {s : BodyState} (h : s.Holds good)
    (k : ∀ t, good t → good' t) : s.Holds good' :=
  ⟨fun f hf e he => k _ (h.scope f hf e he),
    fun l hl e he => ⟨k _ (h.layer l hl e he).declared, k _ (h.layer l hl e he).ty⟩,
    fun e he => k _ (h.type e he), fun e he t ht => k _ (h.inst e he t ht)⟩

namespace Scope

theorem good_of_lookupIn {x : String} {fs : List Frame} {l : Local}
    (h : ∀ f ∈ fs, ∀ e ∈ f, good e.2.ty) (k : lookupIn x fs = some l) : good l.ty := by
  induction fs with
  | nil => cases k
  | cons f fs ih =>
    rcases Option.or_eq_some_iff.mp k with k | ⟨-, k⟩
    · exact h f (by simp) _ (mem_of_lookup k)
    · exact ih (fun g hg => h g (by simp [hg])) k

variable {s : Scope}

theorem Holds.lookup {x : String} {l : Local} (h : s.Holds good) (k : s.lookup x = some l) :
    good l.ty := good_of_lookupIn h k

theorem Holds.bind {x : String} {l : Local} (h : s.Holds good) (hl : good l.ty) :
    (s.bind x l).Holds good := by
  intro f hf e he
  rcases List.mem_cons.mp hf with rfl | hf
  · rcases List.mem_cons.mp he with rfl | he
    · exact hl
    · exact h s.own (by simp) e (List.mem_filter.mp he).1
  · exact h f (List.mem_cons_of_mem _ hf) e he

theorem Holds.child (h : s.Holds good) : s.child.Holds good := by
  intro f hf
  rcases List.mem_cons.mp hf with rfl | hf
  · exact nofun
  · exact h f hf

end Scope

namespace Layer

variable {l m : Layer} {n : Narrowing} {p : Path}

theorem Holds.get (h : l.Holds good) (k : l.get p = some n) : n.Holds good := h _ (mem_of_lookup k)

theorem Holds.erase (h : l.Holds good) (p : Path) : (l.erase p).Holds good :=
  fun e he => h e (List.mem_filter.mp he).1

theorem Holds.set (h : l.Holds good) (hn : n.Holds good) : (l.set p n).Holds good := by
  unfold Layer.set
  split
  · exact h.erase p
  · intro e he
    rcases List.mem_cons.mp he with rfl | he
    · exact hn
    · exact h.erase p e he

theorem Holds.view {t : Ty} (h : l.Holds good) (ht : good t) : (l.view p t).Holds good := by
  unfold Layer.view
  split
  · next k =>
    split
    · exact h.get k
    · exact ⟨ht, ht⟩
  · exact ⟨ht, ht⟩

theorem Holds.invalidate (h : l.Holds good) (p : Path) : (l.invalidate p).Holds good :=
  fun e he => h e (List.mem_filter.mp he).1

end Layer

theorem Narrowing.Holds.merge {r : Registry} {m n k : Narrowing} (hm : m.Holds good)
    (hn : n.Holds good) (h : m.merge r n = some k) : k.Holds good := by
  unfold Narrowing.merge at h
  split at h
  · cases h
  · split at h
    · cases h
      exact ⟨hm.declared, hm.ty⟩
    · split at h <;> cases h
      exact ⟨hm.declared, hn.ty⟩

theorem Layer.Holds.merge {r : Registry} {l m : Layer} (hl : l.Holds good) (hm : m.Holds good) :
    (l.merge r m).Holds good := by
  intro e he
  obtain ⟨d, hd, hmerge⟩ := List.mem_filterMap.mp he
  unfold Layer.mergeEntry at hmerge
  split at hmerge
  · cases hmerge
  · next n hn =>
    split at hmerge
    · next k hk =>
      split at hmerge <;> cases hmerge
      exact (hl d hd).merge (hm.get hn) hk
    · cases hmerge

namespace TypeClosure

variable {c : BodyContext} {written : Written → Prop} (L : TypeClosure c good written)

include L

theorem base {n : Narrowing} (h : n.Holds good) : good n.base := by
  unfold Narrowing.base
  split
  · next u hu =>
    split
    · exact L.optionInner h.declared hu
    · exact h.declared
  · exact h.declared

theorem remaining {n : Narrowing} (h : n.Holds good) : good (n.remaining c.registry) := by
  unfold Narrowing.remaining
  split
  · exact h.ty
  · next ms hms =>
    have hleft : ∀ m ∈ ms.filter fun m => !n.excludes m, good m :=
      fun m hm => L.members (L.base h) hms (List.mem_filter.mp hm).1
    split
    · exact L.leaf rfl rfl
    · next t heq => exact hleft t (by simp [heq])
    · split
      · exact L.mkUnion hleft
      · exact h.ty

theorem refine {n : Narrowing} {f : Fact} (h : n.Holds good)
    (hf : ∀ t, f = .is t ∨ f = .isNot t → good t) : (n.refine c.registry f).Holds good := by
  cases f with
  | is t => exact ⟨h.declared, hf t (.inl rfl)⟩
  | isNot t =>
    have hn : Narrowing.Holds good { n with excluded := Ty.insertSorted t n.excluded } :=
      ⟨h.declared, h.ty⟩
    exact ⟨h.declared, L.remaining hn⟩
  | notNone =>
    refine ⟨h.declared, ?_⟩
    cases ho : n.ty.optionInner with
    | none => simpa [Narrowing.refine, ho] using h.ty
    | some u => simpa [Narrowing.refine, ho] using L.optionInner h.ty ho
  | isNone => exact h

end TypeClosure

def TypeLaws.recorded {c : BodyContext} {written : Written → Prop} (L : TypeLaws c good written)
    (error : good .error) : BodyInvariant c where
  good := good
  good_error := error
  about _ := True
  written := written
  fits := Layer.Holds good
  holds := BodyState.Holds good
  laws := L
  report _ _ h := ⟨h.scope, h.layer, h.type, h.inst⟩
  store _ h ht := ⟨h.scope, h.layer, List.forall_mem_cons.mpr ⟨ht, h.type⟩, h.inst⟩
  recordInst _ h hi := ⟨h.scope, h.layer, h.type, List.forall_mem_cons.mpr ⟨hi, h.inst⟩⟩
  takeVars _ h := ⟨h.scope, h.layer, h.type, h.inst⟩
  loopDepth _ h := ⟨h.scope, h.layer, h.type, h.inst⟩
  entry h k := ((h.layer _ (by simp)).get k).ty
  top h := h.layer _ (by simp)
  setTop h hl := by
    have hbelow := (List.forall_mem_cons.mp h.layer).2
    exact ⟨h.scope, List.forall_mem_cons.mpr ⟨hl, hbelow⟩, h.type, h.inst⟩
  push h hl := ⟨h.scope, List.forall_mem_cons.mpr ⟨hl, h.layer⟩, h.type, h.inst⟩
  pop hs ht := ⟨ht.scope, hs.layer, ht.type, ht.inst⟩
  apply hl _ hd hf := hl.set (L.refine (hl.view hd) hf)
  merge hl hm := hl.merge hm
  invalidate p hl := hl.invalidate p
  lookup h k := h.scope.lookup k
  bind _ _ h ht := ⟨h.scope.bind ht, h.layer, h.type, h.inst⟩
  enter h := ⟨h.scope.child, h.layer, h.type, h.inst⟩
  leave hs ht := ⟨hs.scope, ht.layer, ht.type, ht.inst⟩

theorem BodyState.Holds.initial (n : Nat) : BodyState.Holds good { nextVar := n } :=
  ⟨by simp [Scope.Holds], by simp [Layer.Holds], nofun, nofun⟩

end TypeFlow
