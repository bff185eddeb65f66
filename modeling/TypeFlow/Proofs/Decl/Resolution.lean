import TypeFlow.Typing.Resolve

namespace TypeFlow

namespace Written

mutual

def names : Written → List String
  | named x ws => x :: namesAll ws
  | pointer _ w | reference _ w | fixedArray _ w | dynArray w | option w | channel w => names w
  | map w v | result w v => names w ++ names v
  | tuple ws | union ws => namesAll ws
  | function ws _ w => namesAll ws ++ names w
  | never => []

def namesAll : List Written → List String
  | [] => []
  | w :: ws => names w ++ namesAll ws

end

theorem mem_names_of_bareName {w : Written} {x : String} (h : w.bareName = some x) : x ∈ w.names := by
  unfold bareName at h
  split at h <;> cases h
  exact List.mem_cons_self

end Written

def GenericParam.slot (p : GenericParam) : String × Bool × Option Ty := (p.name, p.isConst, p.default)

def Generics.slots (ps : Generics) : List (String × Bool × Option Ty) := ps.map (·.slot)

def DeclInfo.head (d : DeclInfo) : Bool × List (String × Bool × Option Ty) :=
  (d.isInterface, d.generics.slots)

namespace Generics

variable {ps qs : Generics}

theorem length_of_slots (h : ps.slots = qs.slots) : ps.length = qs.length := by
  simpa [slots] using congrArg List.length h

theorem of_slots_cons {p q : GenericParam} (h : slots (p :: ps) = slots (q :: qs)) :
    p.name = q.name ∧ p.isConst = q.isConst ∧ p.default = q.default ∧ ps.slots = qs.slots := by
  simpa [slots, GenericParam.slot, and_assoc] using h

theorem required_of_slots (h : ps.slots = qs.slots) : ps.required = qs.required := by
  induction ps generalizing qs with
  | nil =>
    cases qs with
    | nil => rfl
    | cons q qs => cases h
  | cons p ps ih =>
    cases qs with
    | nil => cases h
    | cons q qs =>
      obtain ⟨-, -, hdefault, hslots⟩ := of_slots_cons h
      rw [required, required, ih hslots, hdefault]

theorem acceptsCount_of_slots (h : ps.slots = qs.slots) (n : Nat) :
    ps.acceptsCount n = qs.acceptsCount n := by
  rw [acceptsCount, acceptsCount, required_of_slots h, length_of_slots h]

theorem fillDefaults_of_slots (h : ps.slots = qs.slots) (done : List Ty) :
    Registry.fillDefaults ps done = Registry.fillDefaults qs done := by
  induction ps generalizing qs done with
  | nil =>
    cases qs with
    | nil => rfl
    | cons q qs => cases h
  | cons p ps ih =>
    cases qs with
    | nil => cases h
    | cons q qs =>
      obtain ⟨-, -, hdefault, hslots⟩ := of_slots_cons h
      rw [Registry.fillDefaults, Registry.fillDefaults, ih hslots, hdefault]

end Generics

namespace Registry

structure EmbedsIn (r r' : Registry) : Prop where
  typeDef : ∀ x d, r.typeDef x = some d → r'.typeDef x = some d
  head : ∀ d, (r.decl? d).map (·.head) = (r'.decl? d).map (·.head)
  consts : r.consts = r'.consts

theorem EmbedsIn.refl (r : Registry) : r.EmbedsIn r := ⟨fun _ _ => id, fun _ => rfl, rfl⟩

variable {r r' : Registry} {scope scope' : Generics} {α β : Type}

def Agrees (r r' : Registry) (xs : List String) (a b : Except ResolveError α) : Prop :=
  a = b ∨ ∃ x ∈ xs, r.typeDef x = none ∧ (r'.typeDef x).isSome ∧ a = .error (.unknownType x)

namespace Agrees

variable {xs ys : List String} {a b : Except ResolveError α} {f g : α → Except ResolveError β}

theorem mono (h : Agrees r r' xs a b) (hsub : xs ⊆ ys) : Agrees r r' ys a b :=
  h.imp_right fun ⟨x, hx, hreport⟩ => ⟨x, hsub hx, hreport⟩

theorem bind (h : Agrees r r' xs a b) (hf : ∀ v, Agrees r r' ys (f v) (g v)) :
    Agrees r r' (xs ++ ys) (a >>= f) (b >>= g) := by
  rcases h with rfl | ⟨x, hx, hnone, hsome, rfl⟩
  · cases a with
    | error e => exact .inl rfl
    | ok v => exact (hf v).mono (List.subset_append_right _ _)
  · exact .inr ⟨x, List.mem_append_left _ hx, hnone, hsome, rfl⟩

theorem bind_eq (h : Agrees r r' xs a b) (f : α → Except ResolveError β) :
    Agrees r r' xs (a >>= f) (b >>= f) := by
  have hbind : Agrees r r' (xs ++ []) (a >>= f) (b >>= f) := h.bind fun v => .inl rfl
  rwa [List.append_nil] at hbind

theorem eq (h : Agrees r r' xs a b) (hknown : ∀ x ∈ xs, r.typeDef x = none → r'.typeDef x = none) :
    a = b := by
  rcases h with h | ⟨x, hx, hnone, hsome, -⟩
  · exact h
  · rw [hknown x hx hnone] at hsome
    cases hsome

end Agrees

theorem constArg_eq (hconsts : r.consts = r'.consts) {w : Written}
    (hscope : ∀ x ∈ w.names, scope.find x = scope'.find x) :
    r.constArg scope w = r'.constArg scope' w := by
  unfold constArg constant
  split
  · rfl
  · next x hx => rw [hscope x (Written.mem_names_of_bareName hx), hconsts]

mutual

theorem agrees_resolve (h : r.EmbedsIn r') : (w : Written) →
    (∀ x ∈ w.names, scope.find x = scope'.find x) →
    Agrees r r' w.names (r.resolve scope w) (r'.resolve scope' w)
  | .named x ws, hscope => by
    obtain ⟨hx, hws⟩ := List.forall_mem_cons.mp hscope
    rw [resolve, resolve, hx]
    split
    · exact .inl rfl
    split
    · exact .inl rfl
    cases hdef : r.typeDef x with
    | none =>
      cases hdef' : r'.typeDef x with
      | none => exact .inl rfl
      | some d => exact .inr ⟨x, List.mem_cons_self, hdef, by simp [hdef'], rfl⟩
    | some d =>
      rw [h.typeDef x d hdef]
      match d with
      | .alias t => exact .inl rfl
      | .decl d =>
        have hhead := h.head d
        dsimp only
        cases hd : r.decl? d with
        | none =>
          rw [hd, Option.map_none, eq_comm, Option.map_eq_none_iff] at hhead
          rw [hhead]
          exact .inl rfl
        | some info =>
          rw [hd, Option.map_some, eq_comm, Option.map_eq_some_iff] at hhead
          obtain ⟨info', hd', hhead⟩ := hhead
          obtain ⟨hinterface, hslots⟩ := Prod.mk.inj hhead
          rw [hd']
          dsimp only
          rw [Generics.acceptsCount_of_slots hslots, Generics.required_of_slots hslots,
            Generics.length_of_slots hslots]
          split
          · have hargs := agrees_resolveArgs h x ws hws info.generics info'.generics hslots.symm []
            have hinst : info.instantiate d = info'.instantiate d := by
              funext args
              rw [DeclInfo.instantiate, DeclInfo.instantiate, hinterface]
            rw [hinst]
            exact (hargs.mono (List.subset_cons_self _ _)).bind_eq _
          · exact .inl rfl
  | .pointer m w, hscope | .reference m w, hscope | .fixedArray m w, hscope => by
    rw [resolve, resolve]
    exact (agrees_resolve h w hscope).bind_eq _
  | .dynArray w, hscope | .option w, hscope | .channel w, hscope => by
    rw [resolve, resolve]
    exact (agrees_resolve h w hscope).bind_eq _
  | .map w v, hscope | .result w v, hscope => by
    obtain ⟨hw, hv⟩ := List.forall_mem_append.mp hscope
    rw [resolve, resolve]
    exact (agrees_resolve h w hw).bind fun _ => (agrees_resolve h v hv).bind_eq _
  | .tuple ws, hscope | .union ws, hscope => by
    rw [resolve, resolve]
    exact (agrees_resolveAll h ws hscope).bind_eq _
  | .function ws v w, hscope => by
    obtain ⟨hws, hw⟩ := List.forall_mem_append.mp hscope
    rw [resolve, resolve]
    exact (agrees_resolveAll h ws hws).bind fun _ => (agrees_resolve h w hw).bind_eq _
  | .never, _ => by
    rw [resolve, resolve]
    exact .inl rfl

theorem agrees_resolveAll (h : r.EmbedsIn r') : (ws : List Written) →
    (∀ x ∈ Written.namesAll ws, scope.find x = scope'.find x) →
    Agrees r r' (Written.namesAll ws) (r.resolveAll scope ws) (r'.resolveAll scope' ws)
  | [], _ => by
    rw [resolveAll, resolveAll]
    exact .inl rfl
  | w :: ws, hscope => by
    obtain ⟨hw, hws⟩ := List.forall_mem_append.mp hscope
    rw [resolveAll, resolveAll]
    exact (agrees_resolve h w hw).bind fun _ => (agrees_resolveAll h ws hws).bind_eq _

theorem agrees_resolveArgs (h : r.EmbedsIn r') (x : String) : (ws : List Written) →
    (∀ x ∈ Written.namesAll ws, scope.find x = scope'.find x) → ∀ ps qs : Generics, ps.slots = qs.slots →
    ∀ done, Agrees r r' (Written.namesAll ws) (r.resolveArgs scope x ws ps done)
      (r'.resolveArgs scope' x ws qs done)
  | [], _, ps, qs, hslots, done => by
    rw [resolveArgs, resolveArgs, Generics.fillDefaults_of_slots hslots]
    exact .inl rfl
  | _ :: _, _, [], [], _, done => by
    rw [resolveArgs, resolveArgs]
    exact .inl rfl
  | w :: ws, hscope, p :: ps, q :: qs, hslots, done => by
    obtain ⟨hw, hws⟩ := List.forall_mem_append.mp hscope
    obtain ⟨hname, hconst, -, hslots⟩ := Generics.of_slots_cons hslots
    have hrest (t : Ty) := agrees_resolveArgs h x ws hws ps qs hslots (done ++ [t])
    rw [resolveArgs, resolveArgs, constArg_eq h.consts hw, hname, hconst]
    split
    · split
      · exact (hrest _).mono (List.subset_append_right _ _)
      · exact .inl rfl
    · exact (agrees_resolve h w hw).bind hrest

end

theorem resolve_congr (r : Registry) {scope scope' : Generics} (w : Written)
    (h : ∀ x ∈ w.names, scope.find x = scope'.find x) : r.resolve scope w = r.resolve scope' w :=
  (agrees_resolve (.refl r) w h).eq fun _ _ => id

end Registry

end TypeFlow
