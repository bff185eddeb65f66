import TypeFlow.Proofs.Check.Declarations
import TypeFlow.Proofs.Decl.Stages

namespace TypeFlow

def GenericItem.slot (g : GenericItem) : String × Bool × Option Ty := (g.name, g.const?.isSome, none)

theorem slots_placeholders (i : Nat) (gs : List GenericItem) :
    (placeholders i gs).slots = gs.map (·.slot) := by
  induction gs generalizing i with
  | nil => rfl
  | cons g gs ih =>
    obtain ⟨x, kind, span⟩ := g
    cases kind <;> exact congrArg (_ :: ·) (ih (i + 1))

def reportOf (span : Span) (outcome : Except ResolveError Ty) : List CheckError :=
  match outcome with
  | .ok _ => []
  | .error e => [⟨span, .ofResolve e⟩]

theorem reportOf_eq_nil {span : Span} {outcome : Except ResolveError Ty} :
    reportOf span outcome = [] ↔ ∃ t, outcome = .ok t := by
  cases outcome <;> simp [reportOf]

namespace Registry

variable (r : Registry) (scope : Generics)

def boundErrors (span : Span) (w : Written) : List CheckError :=
  match r.resolve scope w with
  | .ok t => if t.isError || t.isInterface then [] else [⟨span, .notAnInterface t⟩]
  | .error e => [⟨span, .ofResolve e⟩]

def defaultErrors (g : GenericItem) : List CheckError :=
  g.default?.toList.flatMap fun w => reportOf g.span (r.resolve scope w)

def genericErrors (g : GenericItem) : List CheckError :=
  match g.kind with
  | .type bounds _ => bounds.flatMap (r.boundErrors scope g.span) ++ r.defaultErrors scope g
  | .const w => reportOf g.span (r.resolve scope w)

def listErrors (gs : List GenericItem) : List CheckError :=
  gs.flatMap (r.genericErrors (placeholders 0 gs))

def listsErrors : List (DeclId × List GenericItem) → List CheckError
  | [] => []
  | (d, gs) :: lists => (r.before (d :: lists.map (·.1))).listErrors gs ++ listsErrors lists

end Registry

theorem Registry.defaultErrors_eq_nil {r : Registry} {scope : Generics} {g : GenericItem} :
    r.defaultErrors scope g = [] ↔ ∀ w ∈ g.default?, r.Accepts scope w := by
  simp only [defaultErrors, List.flatMap_eq_nil_iff, Option.mem_toList, reportOf_eq_nil]
  rfl

theorem Registry.SameTypes.listErrors_eq {r r' : Registry} (h : r.SameTypes r') (hconsts : r.consts = r'.consts)
    (gs : List GenericItem) : r.listErrors gs = r'.listErrors gs := by
  have hresolve : r.resolve = r'.resolve := by
    funext scope w
    exact h.resolve_eq hconsts scope w
  have hbound : r.boundErrors = r'.boundErrors := by
    unfold boundErrors
    rw [hresolve]
  unfold listErrors genericErrors defaultErrors
  rw [hresolve, hbound]

def Registration.fail (s : Registration) (es : List CheckError) : Registration :=
  { s with errors := s.errors ++ es }

theorem Registration.fail_nil (s : Registration) : s.fail [] = s := by
  simp [fail]

theorem Registration.fail_append (s : Registration) (es fs : List CheckError) :
    s.fail (es ++ fs) = (s.fail es).fail fs := by
  simp [fail]

namespace Register

variable {α β : Type} {r : Registry} {es fs : List CheckError}

def Reads (r : Registry) (es : List CheckError) (Q : α → Prop) (x : Register α) : Prop :=
  ∀ s : Registration, s.registry = r → ∃ a, x.run s = (a, s.fail es) ∧ Q a

namespace Reads

variable {Q : α → Prop} {Q' : β → Prop} {x : Register α} {f : α → Register β}

theorem pure {a : α} (h : Q a) : Reads r [] Q (Pure.pure a) :=
  fun s _ => ⟨a, congrArg (a, ·) s.fail_nil.symm, h⟩

theorem bind (hx : Reads r es Q x) (hf : ∀ a, Q a → Reads r fs Q' (f a)) :
    Reads r (es ++ fs) Q' (x >>= f) := by
  intro s hs
  obtain ⟨a, ha, hQ⟩ := hx s hs
  obtain ⟨b, hb, hQ'⟩ := hf a hQ (s.fail es) hs
  refine ⟨b, ?_, hQ'⟩
  rw [StateT.run_bind, ha, s.fail_append]
  exact hb

theorem value (hx : Reads r es Q x) (f : α → β) (hf : ∀ a, Q a → Q' (f a)) :
    Reads r es Q' (x >>= fun a => Pure.pure (f a)) := by
  rw [← List.append_nil es]
  exact hx.bind fun a ha => .pure (hf a ha)

end Reads

theorem reads_report (span : Span) (cause : Cause) :
    Reads r [⟨span, cause⟩] (fun _ => True) (report span cause) :=
  fun _ _ => ⟨(), rfl, True.intro⟩

theorem reads_resolve (scope : Generics) (span : Span) (w : Written) :
    Reads r (reportOf span (r.resolve scope w)) (· = (r.resolve scope w).toOption.getD .error)
      (resolve scope span w) := by
  rintro s rfl
  unfold resolve
  simp only [StateT.run_bind, StateT.run_get, pure_bind]
  cases s.registry.resolve scope w with
  | error e => exact ⟨.error, rfl, rfl⟩
  | ok t => exact ⟨t, congrArg (t, ·) s.fail_nil.symm, rfl⟩

theorem reads_resolveBounds (scope : Generics) (span : Span) (ws : List Written) :
    Reads r (ws.flatMap (r.boundErrors scope span)) (fun _ => True) (resolveBounds scope span ws) := by
  induction ws with
  | nil => exact .pure True.intro
  | cons w ws ih =>
    unfold resolveBounds
    rw [List.flatMap_cons, Registry.boundErrors]
    have hresolve := reads_resolve (r := r) scope span w
    cases hw : r.resolve scope w with
    | error e =>
      rw [hw] at hresolve
      refine hresolve.bind fun t ht => ?_
      rw [ht]
      exact ih
    | ok t =>
      rw [hw] at hresolve
      refine hresolve.bind fun u hu => ?_
      obtain rfl : u = t := hu
      dsimp only
      cases u.isError with
      | true => exact ih
      | false =>
        cases u.isInterface with
        | true => exact ih.value _ fun _ _ => True.intro
        | false => exact (reads_report _ _).bind fun _ _ => ih

theorem reads_resolveGenericKind (scope : Generics) (g : GenericItem) (i : Nat) :
    Reads r (r.genericErrors scope g)
      (fun kind => GenericParam.slot (GenericParam.plain ⟨g.name, i, kind⟩) = g.slot)
      (resolveGenericKind scope g.span g.kind) := by
  obtain ⟨x, kind, span⟩ := g
  unfold resolveGenericKind Registry.genericErrors
  cases kind with
  | const w => exact (reads_resolve scope span w).value _ fun _ _ => rfl
  | type bounds default =>
    cases default with
    | none => exact (reads_resolveBounds scope span bounds).bind fun _ _ => .pure rfl
    | some d =>
      refine (reads_resolveBounds scope span bounds).bind fun _ _ => ?_
      rw [Registry.defaultErrors, GenericItem.default?, Option.toList_some, List.flatMap_singleton]
      exact (reads_resolve scope span d).value _ fun _ _ => rfl

theorem reads_resolveGenericsFrom (scope : Generics) (i : Nat) (gs : List GenericItem) :
    Reads r (gs.flatMap (r.genericErrors scope)) (fun ps => Generics.slots (ps.map (·.plain)) = gs.map (·.slot))
      (resolveGenericsFrom scope i gs) := by
  induction gs generalizing i with
  | nil => exact .pure rfl
  | cons g gs ih =>
    refine (reads_resolveGenericKind scope g i).bind fun kind hkind => (ih (i + 1)).value _ fun ps hps => ?_
    exact congrArg₂ List.cons hkind hps

theorem reads_resolveGenerics (gs : List GenericItem) :
    Reads r (r.listErrors gs) (fun ps => Generics.slots (ps.map (·.plain)) = gs.map (·.slot))
      (resolveGenerics gs) := reads_resolveGenericsFrom _ 0 gs

theorem sameTypes_modifyDecl {d : DeclId} {info : DeclInfo} {ps : Generics} (hinfo : r.decl? d = some info)
    (hps : Generics.slots (ps.map (·.plain)) = info.generics.slots) :
    ((r.modifyDecl d fun info => { info with generics := ps }).before [d]).SameTypes r := by
  refine ⟨fun _ => rfl, fun e => ?_⟩
  rw [Registry.head_before, Registry.decl?_modifyDecl]
  by_cases he : d = e
  · subst he
    rw [Generics.slots_plain] at hps
    simp [hinfo, DeclInfo.head, DeclInfo.isInterface, hps]
  · simp [he, Ne.symm he, Function.comp_def]

theorem run_setGenerics {lists : List (DeclId × List GenericItem)} {s : Registration}
    (hnodup : (lists.map (·.1)).Nodup)
    (hlists : ∀ l ∈ lists, ∃ info, s.registry.decl? l.1 = some info ∧ info.generics.slots = l.2.map (·.slot))
    (hconsts : s.registry.consts = []) :
    let t := ((setGenerics (lists.map fun l => some l.1) (lists.map (·.2))).run s).2
    (t.registry.before (lists.map (·.1))).SameTypes s.registry ∧ t.registry.consts = [] ∧
      ∀ R : Registry, R.SameTypes t.registry → t.errors = s.errors ++ R.listsErrors lists := by
  induction lists generalizing s with
  | nil =>
    refine ⟨⟨fun _ => rfl, fun d => ?_⟩, hconsts, fun R _ => (List.append_nil _).symm⟩
    rw [Registry.head_before]
    simp
    rfl
  | cons l lists ih =>
    obtain ⟨d, gs⟩ := l
    obtain ⟨hd, hrest⟩ := List.nodup_cons.mp hnodup
    obtain ⟨⟨info, hinfo, hslots⟩, hlists⟩ := List.forall_mem_cons.mp hlists
    obtain ⟨ps, hrun, hps⟩ := reads_resolveGenerics gs s rfl
    let s' : Registration := { s.fail (s.registry.listErrors gs) with
      registry := s.registry.modifyDecl d fun info => { info with generics := ps } }
    have hstep : (setGenerics (some d :: lists.map fun l => some l.1) (gs :: lists.map (·.2))).run s =
        (setGenerics (lists.map fun l => some l.1) (lists.map (·.2))).run s' := by
      rw [setGenerics, StateT.run_bind, hrun]
      rfl
    have hset : (s'.registry.before [d]).SameTypes s.registry :=
      sameTypes_modifyDecl hinfo (hps.trans hslots.symm)
    have hlists' : ∀ l ∈ lists, ∃ info, s'.registry.decl? l.1 = some info ∧
        info.generics.slots = l.2.map (·.slot) := by
      intro l hl
      have hne : d ≠ l.1 := fun heq => hd (List.mem_map.mpr ⟨l, hl, heq.symm⟩)
      obtain ⟨info, hinfo, hslots⟩ := hlists l hl
      refine ⟨info, ?_, hslots⟩
      rw [Registry.decl?_modifyDecl, hinfo]
      simp [hne]
    rw [List.map_cons, List.map_cons, List.map_cons, hstep]
    obtain ⟨hsame, hconsts', herrors⟩ := ih hrest hlists' hconsts
    intro t
    have hbefore : (t.registry.before (d :: lists.map (·.1))).SameTypes s.registry :=
      (Registry.before_before t.registry _ [d]).symm.trans ((hsame.before [d]).trans hset)
    refine ⟨hbefore, hconsts', fun R hR => ?_⟩
    have hlist : s.registry.listErrors gs = (R.before (d :: lists.map (·.1))).listErrors gs :=
      ((hR.before _).trans hbefore).symm.listErrors_eq hconsts gs
    show t.errors = s.errors ++ (_ ++ R.listsErrors lists)
    rw [herrors R hR, ← hlist, ← List.append_assoc]
    rfl

end Register

end TypeFlow
