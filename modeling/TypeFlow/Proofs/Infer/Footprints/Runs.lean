import TypeFlow.Proofs.Infer.Footprints.Nodes

namespace TypeFlow

structure Footprint.Lawful (F : Footprint) (r : Registry) : Prop where
  apply : ∀ {l f}, F.layers l → F.tests f.path → F.layers (l.apply r f)
  write : ∀ {l p}, F.layers l → F.writes p → F.layers (l.invalidate p)
  bind : ∀ {l x}, F.layers l → F.binds x → F.layers (l.invalidate ⟨x, []⟩)
  merge : ∀ {l m}, F.layers l → F.layers m → F.layers (l.merge r m)

structure Footprint.Covers (F : Footprint) (depth : Nat) (as : List Step) : Prop where
  write : ∀ p, .write p ∈ as → F.writes p
  leave : ∀ n, .control .leave n ∈ as → depth < n ∨ n = depth ∧ F.leaves

structure BodyState.Moves (F : Footprint) (s t : BodyState) : Prop where
  layer : F.layers t.flow.top
  below : t.flow.below = s.flow.below
  outer : t.scope.outer = s.scope.outer
  names : ∀ x ∈ t.scope.ownNames, x ∈ s.scope.ownNames ∨ F.binds x
  loopDepth : t.loopDepth = s.loopDepth

namespace Footprint.Lawful

variable {F : Footprint} {r : Registry} {l : Layer}

theorem of_forall (h : ∀ l, F.layers l) : F.Lawful r := ⟨fun _ _ => h _, fun _ _ => h _, fun _ _ => h _, fun _ _ => h _⟩

theorem looped (h : F.Lawful r) : F.looped.Lawful r := ⟨h.apply, h.write, h.bind, h.merge⟩

theorem applyAll (h : F.Lawful r) (hl : F.layers l) {fs : List FlowFact} (hf : ∀ f ∈ fs, F.tests f.path) :
    F.layers (l.applyAll r fs) := by
  induction fs generalizing l with
  | nil => exact hl
  | cons f fs ih =>
    obtain ⟨hfirst, hrest⟩ := List.forall_mem_cons.mp hf
    exact ih (h.apply hl hfirst) hrest

theorem joined (h : F.Lawful r) (hl : F.layers l) {os : List Outcome} (ho : ∀ o ∈ os, F.layers o.layer) :
    F.layers ((FlowStack.joined r os).getD l) := by
  have hopen : ∀ m ∈ (os.filter fun o => !o.terminal).map (·.layer), F.layers m :=
    List.forall_mem_map.mpr fun o hmem => ho o (List.mem_filter.mp hmem).1
  unfold FlowStack.joined
  split
  · exact hl
  · next m ms heq =>
    rw [heq] at hopen
    obtain ⟨hm, hms⟩ := List.forall_mem_cons.mp hopen
    show F.layers (ms.foldl (Layer.merge r) m)
    clear heq hopen
    induction ms generalizing m with
    | nil => exact hm
    | cons n ns ih =>
      obtain ⟨hn, hns⟩ := List.forall_mem_cons.mp hms
      exact ih (m.merge r n) (h.merge hm hn) hns

end Footprint.Lawful

namespace BodyState

variable {F : Footprint} {s t u : BodyState}

theorem moves_of_eq (h : F.layers t.flow.top) (hb : t.flow.below = s.flow.below) (hs : t.scope = s.scope)
    (hd : t.loopDepth = s.loopDepth) : Moves F s t :=
  ⟨h, hb, by rw [hs], fun _ hx => .inl (hs ▸ hx), hd⟩

theorem Moves.refl (h : F.layers s.flow.top) : Moves F s s := moves_of_eq h rfl rfl rfl

theorem Moves.trans (h : Moves F s t) (k : Moves F t u) : Moves F s u :=
  ⟨k.layer, k.below.trans h.below, k.outer.trans h.outer, fun x hx => (k.names x hx).elim (h.names x) .inr,
    k.loopDepth.trans h.loopDepth⟩

end BodyState

namespace Footprint.Covers

variable {F : Footprint} {depth : Nat} {as bs : List Step} {a : Step}

theorem nil (F : Footprint) (depth : Nat) : F.Covers depth [] := ⟨nofun, nofun⟩

theorem append (h : F.Covers depth as) (k : F.Covers depth bs) : F.Covers depth (as ++ bs) :=
  ⟨fun p hp => (List.mem_append.mp hp).elim (h.write p) (k.write p),
    fun n hn => (List.mem_append.mp hn).elim (h.leave n) (k.leave n)⟩

theorem other (hw : ∀ p, a ≠ .write p) (hl : ∀ k n, a ≠ .control k n) : F.Covers depth [a] :=
  ⟨fun p hp => absurd (List.mem_singleton.mp hp).symm (hw p),
    fun n hn => absurd (List.mem_singleton.mp hn).symm (hl .leave n)⟩

theorem overwrite {p : Path} (h : F.writes p) : F.Covers depth [.write p] :=
  ⟨fun _ hq => Step.write.inj (List.mem_singleton.mp hq) ▸ h, fun _ hn => (nomatch List.mem_singleton.mp hn)⟩

theorem control {k : LoopControl} (h : k = .leave → F.leaves) : F.Covers depth [.control k depth] := by
  refine ⟨fun _ hp => (nomatch List.mem_singleton.mp hp), fun n hn => ?_⟩
  cases List.mem_singleton.mp hn
  exact .inr ⟨rfl, h rfl⟩

theorem unlooped (h : F.looped.Covers (depth + 1) as) : F.Covers depth as :=
  ⟨h.write, fun n hn => .inl ((h.leave n hn).elim (fun hlt => by omega) fun ⟨heq, _⟩ => by omega)⟩

end Footprint.Covers

namespace Infer

open BodyState (Moves moves_of_eq)
open Footprint (Covers)

variable {c : BodyContext} {F : Footprint} {α : Type} {x : Infer α} {Q : α → Prop}

def Runs (c : BodyContext) (F : Footprint) (x : Infer α) (Q : α → Prop) : Prop :=
  ∀ s : BodyState, F.layers s.flow.top →
    Moves F s (x.after c s) ∧ F.Covers s.loopDepth (x.steps c s) ∧ Q (x.value c s)

theorem runs_report (span : Span) (cause : Cause) : Runs c F (report span cause) (· = .error) :=
  fun _ hs => ⟨moves_of_eq hs rfl rfl rfl, .nil F _, rfl⟩

theorem run_loopControl (c : BodyContext) (span : Span) (k : LoopControl) (s : BodyState) :
    (loopControl span k).after c s =
        (if s.loopDepth == 0 then (report span (.controlOutsideLoop k)).after c s else s) ∧
      (loopControl span k).steps c s = (if s.loopDepth == 0 then [] else [.control k s.loopDepth]) ∧
      (loopControl span k).value c s = .never := by
  have hrun (u : BodyState) : ((loopControl span k).run c).run u =
      ((if u.loopDepth == 0 then discard (report span (.controlOutsideLoop k)) >>= fun _ => pure Ty.never
        else perform (.control k u.loopDepth) >>= fun _ => pure Ty.never : Infer Ty).run c).run u := rfl
  unfold after steps value
  rw [hrun]
  split <;> exact ⟨rfl, rfl, rfl⟩

theorem runs_loopControl (span : Span) {k : LoopControl} (h : k = .leave → F.leaves) :
    Runs c F (loopControl span k) fun _ => True := by
  intro s hs
  obtain ⟨hafter, hsteps, -⟩ := run_loopControl c span k s
  rw [hafter, hsteps]
  split
  · exact ⟨moves_of_eq hs rfl rfl rfl, .nil F _, True.intro⟩
  · exact ⟨.refl hs, .control h, True.intro⟩

theorem Runs.inBranch (hF : F.Lawful c.registry) {fs : List FlowFact} (h : ∀ f ∈ fs, F.tests f.path)
    (hx : Runs c F x Q) : Runs c F (inBranch fs x) fun r => Q r.1 ∧ F.layers r.2 := by
  intro s hs
  obtain ⟨hmoves, hcovers, hvalue⟩ := hx { s with flow := s.flow.push c.registry fs } (hF.applyAll hs h)
  obtain ⟨hafter, hout⟩ := run_inBranch c fs x (s := s) rfl hmoves.below
  have hpush : F.Covers s.loopDepth [.push fs] := .other nofun nofun
  have hpop : F.Covers s.loopDepth [.pop] := .other nofun nofun
  rw [hafter, hout]
  exact ⟨{ hmoves with layer := hs, below := rfl }, hpush.append (hcovers.append hpop), hvalue, hmoves.layer⟩

theorem layers_leftScope (hF : F.Lawful c.registry) {f : FlowStack} (h : F.layers f.top) {xs : List String}
    (hxs : ∀ x ∈ xs, F.binds x) : F.layers (xs.foldl (fun f x => f.invalidate ⟨x, []⟩) f).top := by
  induction xs generalizing f with
  | nil => exact h
  | cons x xs ih =>
    obtain ⟨hx, hxs⟩ := List.forall_mem_cons.mp hxs
    exact ih (hF.bind h hx) hxs

theorem Runs.inScope (hF : F.Lawful c.registry) (hx : Runs c F x Q) : Runs c F (inScope x) Q := by
  intro s hs
  obtain ⟨hmoves, hcovers, hvalue⟩ := hx { s with scope := s.scope.child } hs
  obtain ⟨hafter, hout⟩ := run_inScope c x (s := s) rfl hmoves.outer
  have henter : F.Covers s.loopDepth [.enter] := .other nofun nofun
  have hleave : F.Covers s.loopDepth [.leave] := .other nofun nofun
  rw [hafter, hout]
  refine ⟨{ hmoves with layer := ?_, below := ?_, outer := rfl, names := fun _ => .inl },
    henter.append (hcovers.append hleave), hvalue⟩
  · exact layers_leftScope hF hmoves.layer fun y hy => (hmoves.names y hy).resolve_left List.not_mem_nil
  · rw [below_leftScope, hmoves.below]

theorem Runs.inLoop (hx : Runs c F.looped x Q) : Runs c F (inLoop x) Q := by
  intro s hs
  obtain ⟨hmoves, hcovers, hvalue⟩ := hx { s with loopDepth := s.loopDepth + 1 } hs
  refine ⟨{ hmoves with loopDepth := ?_ }, ?_, hvalue⟩
  · show (x.after c { s with loopDepth := s.loopDepth + 1 }).loopDepth - 1 = s.loopDepth
    rw [hmoves.loopDepth]
    rfl
  · exact (Covers.nil F _).append (hcovers.unlooped.append (.nil F _))

-- By induction on the steps that an action is made of.
theorem Treads.runs (hF : F.Lawful c.registry) (h : Treads c F x Q) : Runs c F x Q := by
  induction h with
  | @pure F _ _ _ h => exact fun s hs => ⟨.refl hs, .nil F _, h⟩
  | bind _ _ ihx ihf =>
    intro s hs
    obtain ⟨hmoves, hcovers, hvalue⟩ := ihx hF s hs
    obtain ⟨hrest, hcovers', hlast⟩ := ihf _ hvalue hF _ hmoves.layer
    exact ⟨hmoves.trans hrest, hcovers.append (hmoves.loopDepth ▸ hcovers'), hlast⟩
  | imp _ h ih => exact fun s hs => ⟨(ih hF s hs).1, (ih hF s hs).2.1, h _ (ih hF s hs).2.2⟩
  | @context F => exact fun s hs => ⟨.refl hs, .nil F _, rfl⟩
  | @look F _ _ _ _ hQ => exact fun s hs => ⟨.refl hs, .nil F _, hQ s hs⟩
  | report span cause => exact runs_report span cause
  | loopControl span h => exact runs_loopControl span h
  | @store F | @recordInst F | @takeVars F =>
    exact fun s hs => ⟨moves_of_eq hs rfl rfl rfl, .nil F _, True.intro⟩
  | readLocal => exact fun s hs => ⟨moves_of_eq hs rfl rfl rfl, .other nofun nofun, True.intro⟩
  | invalidate h => exact fun s hs => ⟨moves_of_eq (hF.write hs h) rfl rfl rfl, .other nofun nofun, True.intro⟩
  | overwrite h => exact fun s hs => ⟨moves_of_eq (hF.write hs h) rfl rfl rfl, .overwrite h, True.intro⟩
  | @bindLocal F x t m h =>
    have hforget (n : Nat) : F.Covers n [.forget ⟨x, []⟩] := .other nofun nofun
    have hbind (n : Nat) : F.Covers n [.bind x ⟨t, m⟩] := .other nofun nofun
    refine fun s hs => ⟨⟨hF.bind hs h, rfl, rfl, fun y hy => ?_, rfl⟩, (hforget _).append (hbind _), True.intro⟩
    rcases List.mem_cons.mp hy with rfl | hy
    · exact .inr h
    · exact .inl ((List.filter_sublist.map _).subset hy)
  | applyFacts h => exact fun s hs => ⟨moves_of_eq (hF.applyAll hs h) rfl rfl rfl, .other nofun nofun, True.intro⟩
  | joinBranches h => exact fun s hs => ⟨moves_of_eq (hF.joined hs h) rfl rfl rfl, .other nofun nofun, True.intro⟩
  | inBranch h _ ih => exact (ih hF).inBranch hF h
  | inScope _ ih => exact (ih hF).inScope hF
  | inLoop _ ih => exact (ih hF.looped).inLoop

end Infer

end TypeFlow
