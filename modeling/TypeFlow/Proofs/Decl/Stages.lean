import TypeFlow.Proofs.Decl.Resolution

namespace TypeFlow

def GenericParam.plain (p : GenericParam) : GenericParam :=
  { p with kind := match p.kind with
    | .type bounds _ => .type bounds none
    | .const t => .const t }

@[simp] theorem GenericParam.name_plain (p : GenericParam) : p.plain.name = p.name := rfl

@[simp] theorem GenericParam.isConst_plain (p : GenericParam) : p.plain.isConst = p.isConst := by
  unfold plain isConst
  cases p.kind <;> rfl

@[simp] theorem GenericParam.default_plain (p : GenericParam) : p.plain.default = none := by
  unfold plain default
  cases p.kind <;> rfl

theorem Generics.required_of_no_default {ps : Generics} (h : ∀ p ∈ ps, p.default = none) :
    ps.required = ps.length := by
  induction ps with
  | nil => rfl
  | cons p ps ih =>
    obtain ⟨hp, hps⟩ := List.forall_mem_cons.mp h
    rw [required, ih hps, hp, List.length_cons]
    cases ps.length <;> rfl

theorem Generics.acceptsCount_plain (ps : Generics) (n : Nat) :
    acceptsCount (ps.map (·.plain)) n = (n == ps.length) := by
  have hrequired : required (ps.map (·.plain)) = ps.length := by
    rw [required_of_no_default (by simp), List.length_map]
  rw [acceptsCount, hrequired, List.length_map, Bool.eq_iff_iff]
  simp only [Bool.and_eq_true, decide_eq_true_eq, beq_iff_eq]
  omega

theorem Generics.acceptsCount_length (ps : Generics) : ps.acceptsCount ps.length = true := by
  simp [acceptsCount, required_le_length]

theorem Generics.slots_plain (ps : Generics) :
    slots (ps.map (·.plain)) = ps.slots.map fun p => (p.1, p.2.1, none) := by
  simp [slots, GenericParam.slot, Function.comp_def]

namespace Registry

def before (r : Registry) (ds : List DeclId) : Registry :=
  { r with
    decls := r.decls.mapIdx fun d info =>
      if d ∈ ds then { info with generics := info.generics.map (·.plain) } else info
    consts := [] }

@[simp] theorem typeDef_before (r : Registry) (ds : List DeclId) (x : String) :
    (r.before ds).typeDef x = r.typeDef x := rfl

theorem decl?_before (r : Registry) (ds : List DeclId) (d : DeclId) :
    (r.before ds).decl? d = (r.decl? d).map fun info =>
      if d ∈ ds then { info with generics := info.generics.map (·.plain) } else info :=
  List.getElem?_mapIdx

structure SameTypes (r r' : Registry) : Prop where
  typeDef : ∀ x, r.typeDef x = r'.typeDef x
  head : ∀ d, (r.decl? d).map (·.head) = (r'.decl? d).map (·.head)

namespace SameTypes

variable {r r' r'' : Registry}

theorem refl (r : Registry) : r.SameTypes r := ⟨fun _ => rfl, fun _ => rfl⟩

theorem symm (h : r.SameTypes r') : r'.SameTypes r := ⟨fun x => (h.typeDef x).symm, fun d => (h.head d).symm⟩

theorem trans (h : r.SameTypes r') (k : r'.SameTypes r'') : r.SameTypes r'' :=
  ⟨fun x => (h.typeDef x).trans (k.typeDef x), fun d => (h.head d).trans (k.head d)⟩

theorem resolve_eq (h : r.SameTypes r') (hconsts : r.consts = r'.consts) (scope : Generics) (w : Written) :
    r.resolve scope w = r'.resolve scope w := by
  have hembeds : r.EmbedsIn r' := ⟨fun x d hx => (h.typeDef x).symm.trans hx, h.head, hconsts⟩
  exact (agrees_resolve hembeds w fun _ _ => rfl).eq fun x _ hx => (h.typeDef x).symm.trans hx

end SameTypes

theorem head_before (r : Registry) (ds : List DeclId) (d : DeclId) :
    ((r.before ds).decl? d).map (·.head) = ((r.decl? d).map (·.head)).map fun h =>
      if d ∈ ds then (h.1, h.2.map fun p => (p.1, p.2.1, none)) else h := by
  rw [decl?_before, Option.map_map, Option.map_map]
  congr 1
  funext info
  by_cases hd : d ∈ ds
  · simp [hd, DeclInfo.head, DeclInfo.isInterface, Generics.slots_plain]
  · simp [hd]

theorem SameTypes.before {r r' : Registry} (h : r.SameTypes r') (ds : List DeclId) :
    (r.before ds).SameTypes (r'.before ds) :=
  ⟨h.typeDef, fun d => by rw [head_before, head_before, h.head d]⟩

theorem before_before (r : Registry) (ds es : List DeclId) :
    ((r.before ds).before es).SameTypes (r.before (es ++ ds)) := by
  refine ⟨fun _ => rfl, fun d => ?_⟩
  rw [head_before, head_before, head_before, Option.map_map]
  congr 1
  funext h
  by_cases hes : d ∈ es <;> by_cases hds : d ∈ ds <;> simp [hes, hds]

mutual

def spells (r : Registry) (ds : List DeclId) (scope : Generics) : Written → Bool
  | .named x ws =>
    match scope.find x, builtinType x, (r.declNamed x).bind fun d => (r.decl? d).map (d, ·) with
    | none, none, some (d, info) =>
      (!ds.contains d || ws.length == info.generics.length) && spellsArgs r ds scope ws info.generics
    | _, _, _ => true
  | .pointer _ w | .reference _ w | .fixedArray _ w | .dynArray w | .option w | .channel w =>
    spells r ds scope w
  | .map w v | .result w v => spells r ds scope w && spells r ds scope v
  | .tuple ws | .union ws => spellsAll r ds scope ws
  | .function ws _ w => spellsAll r ds scope ws && spells r ds scope w
  | .never => true

def spellsAll (r : Registry) (ds : List DeclId) (scope : Generics) : List Written → Bool
  | [] => true
  | w :: ws => spells r ds scope w && spellsAll r ds scope ws

def spellsArgs (r : Registry) (ds : List DeclId) (scope : Generics) : List Written → Generics → Bool
  | [], _ => true
  | _ :: _, [] => true
  | w :: ws, p :: ps =>
    (if p.isConst then (constArg {} scope w).isSome else spells r ds scope w) &&
      spellsArgs r ds scope ws ps

end

def Requires {α : Type} (c : Bool) (a b : Except ResolveError α) : Prop :=
  ∀ v, a = .ok v ↔ b = .ok v ∧ c = true

namespace Requires

variable {α β : Type} {c c' : Bool} {a b : Except ResolveError α} {f g : α → Except ResolveError β}

theorem of_eq (h : a = b) : Requires true a b := fun v => by simp [h]

theorem of_false (h : ∀ v, a ≠ .ok v) : Requires false a b := fun v => by simp [h]

theorem bind (h : Requires c a b) (hf : ∀ v, Requires c' (f v) (g v)) :
    Requires (c && c') (a >>= f) (b >>= g) := by
  intro u
  cases c with
  | false =>
    cases a with
    | error e => simp [Bind.bind, Except.bind]
    | ok v => simpa using (h v).mp rfl
  | true =>
    cases a with
    | error e =>
      cases b with
      | error e' => simp [Bind.bind, Except.bind]
      | ok v => simpa using (h v).mpr ⟨rfl, rfl⟩
    | ok v =>
      have hb : b = .ok v := ((h v).mp rfl).1
      rw [hb, Bool.true_and]
      exact hf v u

theorem bind_eq (h : Requires c a b) (f : α → Except ResolveError β) :
    Requires c (a >>= f) (b >>= f) := by
  simpa using h.bind fun v => of_eq (Eq.refl (f v))

end Requires

variable {r : Registry} {ds : List DeclId} {scope : Generics}

theorem requires_constArg {w : Written} {f g : Ty → Except ResolveError (List Ty)} {c : Bool}
    {e e' : ResolveError} (hf : ∀ t, Requires c (f t) (g t)) :
    Requires ((constArg {} scope w).isSome && c)
      (match constArg (r.before ds) scope w with | some t => f t | none => .error e)
      (match constArg r scope w with | some t => g t | none => .error e') := by
  have hbefore : constArg (r.before ds) scope w = constArg {} scope w := constArg_eq rfl fun _ _ => rfl
  rw [hbefore]
  cases h : constArg {} scope w with
  | none => exact .of_false nofun
  | some t =>
    have hr : constArg r scope w = some t := by
      unfold constArg at h ⊢
      split at h
      · cases h
      · split at h
        · exact h
        · cases h
    rw [hr]
    exact hf t

theorem requires_apply (x : String) (d : DeclId) (info : DeclInfo) {ws : List Written} {c : Bool}
    (hargs : ∀ qs, qs = info.generics ∨ qs = info.generics.map (·.plain) ∧ ws.length = info.generics.length →
      Requires c ((r.before ds).resolveArgs scope x ws qs []) (r.resolveArgs scope x ws info.generics [])) :
    let given (r : Registry) (info : DeclInfo) : Except ResolveError Ty :=
      if info.generics.acceptsCount ws.length then do
        let args ← r.resolveArgs scope x ws info.generics []
        return info.instantiate d args
      else .error (.genericArgCount x info.generics.required info.generics.length ws.length)
    Requires ((!ds.contains d || ws.length == info.generics.length) && c)
      (given (r.before ds)
        (if d ∈ ds then { info with generics := info.generics.map (·.plain) } else info))
      (given r info) := by
  dsimp only
  by_cases hmem : d ∈ ds
  · rw [if_pos hmem, Generics.acceptsCount_plain, List.contains_iff_mem.mpr hmem, Bool.not_true,
      Bool.false_or]
    cases hlen : ws.length == info.generics.length with
    | false => exact .of_false nofun
    | true =>
      rw [if_pos rfl, eq_of_beq hlen, if_pos (Generics.acceptsCount_length _)]
      exact (hargs _ (.inr ⟨rfl, eq_of_beq hlen⟩)).bind_eq _
  · have hcontains : ds.contains d = false := by simpa using hmem
    rw [if_neg hmem, hcontains, Bool.not_false, Bool.true_or, Bool.true_and]
    split
    · exact (hargs _ (.inl rfl)).bind_eq _
    · intro v
      simp

mutual

theorem requires_resolve : (w : Written) →
    Requires (r.spells ds scope w) ((r.before ds).resolve scope w) (r.resolve scope w)
  | .named x ws => by
    rw [resolve, resolve, spells]
    cases scope.find x with
    | some p => exact .of_eq rfl
    | none =>
      cases builtinType x with
      | some t => exact .of_eq rfl
      | none =>
        dsimp only
        rw [typeDef_before]
        unfold declNamed
        match r.typeDef x with
        | none | some (.alias _) => exact .of_eq rfl
        | some (.decl d) =>
          dsimp only [Option.bind_some]
          rw [decl?_before]
          cases r.decl? d with
          | none => exact .of_eq rfl
          | some info => exact requires_apply x d info fun qs hqs => requires_resolveArgs x ws _ qs hqs []
  | .pointer m w | .reference m w | .fixedArray m w => by
    rw [resolve, resolve, spells]
    exact (requires_resolve w).bind_eq _
  | .dynArray w | .option w | .channel w => by
    rw [resolve, resolve, spells]
    exact (requires_resolve w).bind_eq _
  | .map w v | .result w v => by
    rw [resolve, resolve, spells]
    exact (requires_resolve w).bind fun _ => (requires_resolve v).bind_eq _
  | .tuple ws | .union ws => by
    rw [resolve, resolve, spells]
    exact (requires_resolveAll ws).bind_eq _
  | .function ws v w => by
    rw [resolve, resolve, spells]
    exact (requires_resolveAll ws).bind fun _ => (requires_resolve w).bind_eq _
  | .never => by
    rw [resolve, resolve, spells]
    exact .of_eq rfl

theorem requires_resolveAll : (ws : List Written) →
    Requires (r.spellsAll ds scope ws) ((r.before ds).resolveAll scope ws) (r.resolveAll scope ws)
  | [] => by
    rw [resolveAll, resolveAll, spellsAll]
    exact .of_eq rfl
  | w :: ws => by
    rw [resolveAll, resolveAll, spellsAll]
    exact (requires_resolve w).bind fun _ => (requires_resolveAll ws).bind_eq _

theorem requires_resolveArgs (x : String) : (ws : List Written) → ∀ ps qs : Generics,
    qs = ps ∨ qs = ps.map (·.plain) ∧ ws.length = ps.length → ∀ done,
    Requires (r.spellsArgs ds scope ws ps) ((r.before ds).resolveArgs scope x ws qs done)
      (r.resolveArgs scope x ws ps done)
  | [], ps, qs, h, done => by
    rw [resolveArgs, resolveArgs, spellsArgs]
    rcases h with rfl | ⟨rfl, hlen⟩
    · exact .of_eq rfl
    · rw [List.eq_nil_of_length_eq_zero hlen.symm]
      exact .of_eq rfl
  | w :: ws, [], qs, h, done => by
    have hqs : qs = [] := by simpa using h
    rw [hqs, resolveArgs, resolveArgs, spellsArgs]
    exact .of_eq rfl
  | w :: ws, p :: ps, [], h, done => by simp at h
  | w :: ws, p :: ps, q :: qs, h, done => by
    have hconst : q.isConst = p.isConst := by
      rcases h with h | ⟨h, -⟩
      · rw [(List.cons.inj h).1]
      · rw [(List.cons.inj h).1, GenericParam.isConst_plain]
    have hrest (t : Ty) := requires_resolveArgs x ws ps qs
      (h.imp (fun h => (List.cons.inj h).2) fun h => ⟨(List.cons.inj h.1).2, Nat.succ.inj h.2⟩) (done ++ [t])
    rw [resolveArgs, resolveArgs, spellsArgs, hconst]
    split
    · exact requires_constArg hrest
    · exact (requires_resolve w).bind hrest

end

def Accepts (r : Registry) (scope : Generics) (w : Written) : Prop := ∃ t, r.resolve scope w = .ok t

theorem accepts_before (R : Registry) (ds : List DeclId) (scope : Generics) (w : Written) :
    (R.before ds).Accepts scope w ↔ R.Accepts scope w ∧ R.spells ds scope w = true := by
  have hrequires : Requires (R.spells ds scope w) _ _ := requires_resolve w
  rw [Accepts, exists_congr hrequires, exists_and_right]
  rfl

end Registry

end TypeFlow
