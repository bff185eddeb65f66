import TypeFlow.Proofs.Check.Headings
import TypeFlow.Proofs.Check.Untouched
import TypeFlow.Proofs.Check.WellFormed
import TypeFlow.Proofs.Infer.Narrowing

namespace TypeFlow

namespace Registry

def implementorsOf (r : Registry) (i : DeclId) : List DeclId := (r.implementors i).getD []

def implementsOf (r : Registry) (d : DeclId) : List Ty := ((r.decl? d).map (·.implements)).getD []

def kinds (r : Registry) : List DeclKind := r.decls.map (·.kind)

variable {r r' : Registry}

theorem kind?_eq (r : Registry) (d : DeclId) : r.kind? d = r.kinds[d]? := by
  rw [kinds, List.getElem?_map]
  rfl

theorem implementorsOf_congr (h : r'.kinds = r.kinds) (i : DeclId) : r'.implementorsOf i = r.implementorsOf i := by
  rw [implementorsOf, implementorsOf, implementors, implementors, kind?_eq, kind?_eq, h]

theorem implementsOf_congr (h : r'.kinds = r.kinds) (d : DeclId) : r'.implementsOf d = r.implementsOf d := by
  have hkind : (r'.decl? d).map (·.kind) = (r.decl? d).map (·.kind) := by
    rw [← kind?, ← kind?, kind?_eq, kind?_eq, h]
  unfold implementsOf DeclInfo.implements
  cases hd : r.decl? d with
  | none =>
    rw [hd, Option.map_none, Option.map_eq_none_iff] at hkind
    rw [hkind]
  | some info =>
    rw [hd, Option.map_some] at hkind
    obtain ⟨info', hinfo', hkind⟩ := Option.map_eq_some_iff.mp hkind
    rw [hinfo', Option.map_some, Option.map_some, hkind]

theorem implementsOf_noteImplementor (r : Registry) (i d e : DeclId) :
    (r.noteImplementor i d).implementsOf e = r.implementsOf e := by
  unfold noteImplementor
  split
  · rfl
  · unfold implementsOf addImplementor
    rw [decl?_modifyDecl, Option.map_map]
    congr 2
    funext info
    simp only [Function.comp_apply]
    split
    · split
      · next hk => simp [DeclInfo.implements, hk]
      · rfl
    · rfl

theorem implementorsOf_noteImplementor (r : Registry) (i d j : DeclId) :
    (r.noteImplementor i d).implementorsOf j = r.implementorsOf j ∨
      j = i ∧ d ∉ r.implementorsOf i ∧ (r.noteImplementor i d).implementorsOf j = r.implementorsOf i ++ [d] := by
  unfold noteImplementor
  split
  · exact .inl rfl
  · next hnot =>
    by_cases hij : i = j
    · subst hij
      cases hi : r.decl? i with
      | none => exact .inl (by simp [implementorsOf, implementors, addImplementor, kind?, decl?_modifyDecl, hi])
      | some info =>
        cases hk : info.kind with
        | interface b ds =>
          refine .inr ⟨rfl, by simpa [implementorsOf] using hnot, ?_⟩
          simp [implementorsOf, implementors, addImplementor, kind?, decl?_modifyDecl, hi, hk]
        | struct | enum =>
          exact .inl (by simp [implementorsOf, implementors, addImplementor, kind?, decl?_modifyDecl, hi, hk])
    · exact .inl (by simp [implementorsOf, implementors, addImplementor, kind?, decl?_modifyDecl, hij])

-- The declarations below `n` are gone through; one that is noted is below `n` and lists the interface, or it
-- is `n` itself and the interface is among `ts`.
structure Mutual (n : DeclId) (ts : List Ty) (r : Registry) : Prop where
  ascending : ∀ i, (r.implementorsOf i).Pairwise (· < ·)
  noted : ∀ i, ∀ d ∈ r.implementorsOf i, (d < n ∧ ∃ args, .interface i args ∈ r.implementsOf d) ∨
    (d = n ∧ ∃ args, .interface i args ∈ ts)

namespace Mutual

variable {n : Nat} {ts : List Ty}

theorem congr (h : r.Mutual n ts) (hkinds : r'.kinds = r.kinds) : r'.Mutual n ts where
  ascending i := by
    rw [implementorsOf_congr hkinds]
    exact h.ascending i
  noted i d hd := by
    rw [implementorsOf_congr hkinds] at hd
    rw [implementsOf_congr hkinds]
    exact h.noted i d hd

theorem mono (h : r.Mutual n []) {k : DeclId} (hk : n ≤ k) : r.Mutual k [] :=
  ⟨h.ascending, fun i d hd => (h.noted i d hd).imp (.imp_left (Nat.lt_of_lt_of_le · hk)) nofun⟩

theorem append (h : r.Mutual n ts) (us : List Ty) : r.Mutual n (ts ++ us) :=
  ⟨h.ascending, fun i d hd => (h.noted i d hd).imp_right (.imp_right (.imp fun _ => List.mem_append_left _))⟩

theorem lt (h : r.Mutual n ts) {i d : DeclId} (hd : d ∈ r.implementorsOf i) (hne : d ≠ n) : d < n :=
  (h.noted i d hd).elim And.left fun hn => absurd hn.1 hne

theorem note (h : r.Mutual n ts) {i : DeclId} (hi : ∃ args, .interface i args ∈ ts) :
    (r.noteImplementor i n).Mutual n ts where
  ascending j := by
    rcases implementorsOf_noteImplementor r i n j with heq | ⟨rfl, hnew, heq⟩
    · rw [heq]
      exact h.ascending j
    · rw [heq]
      refine List.pairwise_append.mpr ⟨h.ascending j, List.pairwise_singleton _ _, fun d hd e he => ?_⟩
      rw [List.mem_singleton.mp he]
      exact h.lt hd fun hdn => hnew (hdn ▸ hd)
  noted j d hd := by
    rw [implementsOf_noteImplementor]
    rcases implementorsOf_noteImplementor r i n j with heq | ⟨rfl, -, heq⟩
    · rw [heq] at hd
      exact h.noted j d hd
    · rw [heq] at hd
      rcases List.mem_append.mp hd with hd | hd
      · exact h.noted j d hd
      · exact .inr ⟨List.mem_singleton.mp hd, hi⟩

theorem setKind (h : r.Mutual n ts) (hn : n < r.decls.length) {kind : DeclKind}
    (hnot : kind.form ≠ .interface) (himpl : ∀ info : DeclInfo, DeclInfo.implements { info with kind } = ts) :
    (r.modifyDecl n fun info => { info with kind }).Mutual (n + 1) [] := by
  obtain ⟨info, hinfo⟩ : ∃ info, r.decl? n = some info := ⟨_, List.getElem?_eq_getElem hn⟩
  have hself : (r.modifyDecl n fun info => { info with kind }).implementorsOf n = [] := by
    cases kind with
    | interface => exact absurd rfl hnot
    | struct | enum => simp [implementorsOf, implementors, kind?_modifyDecl, hinfo]
  have hother {i : DeclId} (hi : n ≠ i) :
      (r.modifyDecl n fun info => { info with kind }).implementorsOf i = r.implementorsOf i := by
    simp [implementorsOf, implementors, kind?, decl?_modifyDecl, hi]
  refine ⟨fun i => ?_, fun i d hd => .inl ?_⟩
  · by_cases hi : n = i
    · rw [← hi, hself]
      exact .nil
    · rw [hother hi]
      exact h.ascending i
  · have hi : n ≠ i := by
      rintro rfl
      rw [hself] at hd
      cases hd
    rw [hother hi] at hd
    rcases h.noted i d hd with ⟨hlt, hargs⟩ | ⟨rfl, hargs⟩
    · refine ⟨Nat.lt_succ_of_lt hlt, ?_⟩
      simpa [implementsOf, decl?_modifyDecl, Nat.ne_of_gt hlt] using hargs
    · refine ⟨Nat.lt_succ_self _, ?_⟩
      simpa [implementsOf, decl?_modifyDecl, hinfo, himpl] using hargs

end Mutual

structure Awaits (n bound : Nat) (r : Registry) : Prop where
  agrees : r.Mutual n []
  bound : bound ≤ r.decls.length

theorem length_noteImplementor (r : Registry) (i d : DeclId) :
    (r.noteImplementor i d).decls.length = r.decls.length := by
  simpa using congrArg List.length (map_decls_noteImplementor (fun _ => ()) (fun _ _ => rfl) r i d)

end Registry

namespace Register

open Registry

variable {n : Nat} {ts : List Ty}

theorem mutual_implementsList (scope : Generics) (span : Span) (ws : List Written) (ts : List Ty) :
    Ensures (fun s => s.registry.Mutual n ts) (implementsList n scope span ws)
      fun us s => s.registry.Mutual n (ts ++ us) := by
  induction ws generalizing ts with
  | nil => exact .pure fun s hs => by rwa [List.append_nil]
  | cons w ws ih =>
    have hresolve : Ensures (fun s => s.registry.Mutual n ts) (resolve scope span w)
        fun _ s => s.registry.Mutual n ts := (leaves_resolve scope span w).ensures
    unfold implementsList
    refine hresolve.bind fun t => ?_
    split
    · exact ih ts
    · next i args =>
      have hnote : Ensures (fun s => s.registry.Mutual n ts) (modifyRegistry fun r => r.noteImplementor i n)
          fun _ s => s.registry.Mutual n (ts ++ [.interface i args]) :=
        fun s hs => (hs.append [.interface i args]).note ⟨args, by simp⟩
      have hcons (us : List Ty) : Ensures (fun s => s.registry.Mutual n (ts ++ [.interface i args] ++ us))
          (Pure.pure (.interface i args :: us)) fun us s => s.registry.Mutual n (ts ++ us) :=
        .pure fun s hs => by rwa [List.append_assoc] at hs
      exact hnote.bind fun _ => (ih _).bind hcons
    · exact fun s hs => ih ts _ hs

theorem awaits_store (kind : List Ty → DeclKind) (hnot : ∀ ts, (kind ts).form ≠ .interface)
    (himpl : ∀ (info : DeclInfo) ts, DeclInfo.implements { info with kind := kind ts } = ts) {bound : Nat}
    (hn : n < bound) (scope : Generics) (span : Span) (ws : List Written) :
    Ensures (fun s => s.registry.Awaits n bound)
      (do
        let is ← implementsList n scope span ws
        modifyRegistry fun r => r.modifyDecl n fun d => { d with kind := kind is })
      fun _ s => s.registry.Awaits (n + 1) bound := by
  intro s hs
  let listed := (implementsList n scope span ws).run s
  have hlist : listed.2.registry.Mutual n listed.1 := mutual_implementsList scope span ws [] s hs.agrees
  have hlength : listed.2.registry.decls.length = s.registry.decls.length :=
    leaves_implementsList (f := fun r => r.decls.length) length_noteImplementor n scope span ws s
  have hbound : bound ≤ listed.2.registry.decls.length := hlength ▸ hs.bound
  refine ⟨hlist.setKind (Nat.lt_of_lt_of_le hn hbound) (hnot _) fun info => himpl info _, ?_⟩
  exact Nat.le_trans hbound (Nat.le_of_eq (List.length_modify ..).symm)

theorem awaits_struct {bound : Nat} (hn : n < bound) (item : StructItem) :
    Ensures (fun s => s.registry.Awaits n bound) (struct n item)
      fun _ s => s.registry.Awaits (n + 1) bound := by
  refine leaves_get.ensures.bind fun s => (leaves_fields _ _ _).ensures.bind fun fs => ?_
  exact awaits_store (fun is => .struct fs is) nofun (fun _ _ => rfl) hn _ _ _

theorem awaits_enum {bound : Nat} (hn : n < bound) (item : EnumItem) :
    Ensures (fun s => s.registry.Awaits n bound) (enum n item)
      fun _ s => s.registry.Awaits (n + 1) bound := by
  refine (leaves_backing _ _).ensures.bind fun b => (leaves_variants _ _ _).ensures.bind fun vs => ?_
  exact awaits_store (fun is => .enum b vs is) nofun (fun _ _ => rfl) hn _ _ _

theorem awaits_walk {γ : Type} {one : DeclId → γ → Register Unit}
    {all : List (Option DeclId) → List γ → Register Unit} (hall : Walks one all) {bound : Nat}
    (hone : ∀ {n : Nat}, n < bound → ∀ item, Ensures (fun s => s.registry.Awaits n bound) (one n item)
      fun _ s => s.registry.Awaits (n + 1) bound)
    {ids : List (Option DeclId)} {k : Nat} (hids : ids.filterMap id = List.range' n k) (hk : n + k ≤ bound)
    (items : List γ) :
    Ensures (fun s => s.registry.Awaits n bound) (all ids items)
      fun _ s => s.registry.Awaits (n + k) bound := by
  have hstop {n k : Nat} : Ensures (fun s => s.registry.Awaits n bound) (pure () : Register Unit)
      fun _ s => s.registry.Awaits (n + k) bound :=
    fun s hs => ⟨hs.agrees.mono (Nat.le_add_right n k), hs.bound⟩
  induction ids generalizing n k items with
  | nil =>
    rw [hall.done]
    exact hstop
  | cons id ids ih =>
    cases items with
    | nil =>
      rw [hall.short]
      exact hstop
    | cons item items =>
      cases id with
      | none =>
        rw [hall.skip]
        exact ih hids hk items
      | some d =>
        rw [hall.step]
        cases k with
        | zero => cases hids
        | succ k =>
          rw [List.range'_succ] at hids
          obtain ⟨rfl, hids⟩ : d = n ∧ ids.filterMap id = List.range' (n + 1) k := List.cons.inj hids
          have hrest := @ih (d + 1) k hids (by omega) items
          rw [Nat.add_right_comm] at hrest
          exact (hone (by omega) item).bind fun _ => hrest

end Register

namespace Module

def opened (m : Module) : Registration :=
  let structs := (Register.declareStructs m.structs).run {}
  let enums := (Register.declareEnums m.enums).run structs.2
  let interfaces := (Register.declareInterfaces m.interfaces).run enums.2
  ((Register.consts m.consts).run ((Register.setGenerics interfaces.1 (m.interfaces.map (·.generics))).run
    ((Register.setGenerics structs.1 (m.structs.map (·.generics))).run
      ((Register.aliases m.aliases).run m.begun).2).2).2).2

theorem registered_opened (m : Module) :
    let structs := (Register.declareStructs m.structs).run {}
    let enums := (Register.declareEnums m.enums).run structs.2
    m.registered = ((Register.methods m.methods).run ((Register.functions m.functions).run
      ((Register.enums enums.1 m.enums).run ((Register.structs structs.1 m.structs).run m.opened).2).2).2).2 := rfl

theorem map_decls_opened {γ : Type} (view : DeclInfo → γ)
    (h : ∀ (info : DeclInfo) generics, view { info with generics } = view info) (m : Module) :
    m.opened.registry.decls.map view = m.begun.registry.decls.map view := by
  have hlists := Register.leaves_setGenerics (f := fun r => r.decls.map view)
    fun r d generics => Registry.map_decls_modifyDecl view (fun info => h info generics) r d
  have haliases := Register.leaves_aliases (f := fun r => r.decls.map view)
    fun r r' x t hadd => congrArg (List.map view) (Registry.decls_addAlias hadd)
  have hconsts := Register.leaves_consts (f := fun r => r.decls.map view)
    fun r r' x info hadd => congrArg (List.map view) (Registry.decls_addConst hadd)
  exact (hconsts _ _).trans ((hlists _ _ _).trans ((hlists _ _ _).trans (haliases _ _)))

theorem decls_signatures (m : Module) (s : Registration) :
    ((Register.methods m.methods).run ((Register.functions m.functions).run s).2).2.registry.decls =
      s.registry.decls := by
  have hfunctions := Register.leaves_functions (f := fun r => r.decls) fun _ _ _ => Registry.decls_addFunction
  have hmethods := Register.leaves_methods (f := fun r => r.decls) fun _ _ _ => Registry.decls_addMethod
  exact (hmethods _ _).trans (hfunctions _ _)

theorem isBlank_headings (m : Module) : ∀ info ∈ m.headings, info.kind.IsBlank := by
  refine List.forall_mem_append.mpr ⟨List.forall_mem_append.mpr ⟨?_, ?_⟩, ?_⟩
  · exact List.forall_mem_map.mpr fun _ _ => ⟨rfl, rfl⟩
  · exact List.forall_mem_map.mpr fun _ _ => rfl
  · exact List.forall_mem_map.mpr fun _ _ => rfl

theorem mutual_begun (m : Module) : m.begun.registry.Mutual 0 [] := by
  obtain ⟨ss, es, is, hkept, hregistry, -⟩ := m.begun_eq
  have hnone (i : DeclId) : m.begun.registry.implementorsOf i = [] := by
    unfold Registry.implementorsOf Registry.implementors
    split
    · next b ds hkind =>
      obtain ⟨info, hinfo, hk⟩ := Registry.decl?_of_kind? hkind
      have hmem : info ∈ ss ++ es ++ is := by
        have hmem := List.mem_of_getElem? hinfo
        rwa [hregistry] at hmem
      have hblank := m.isBlank_headings info (hkept.subset hmem)
      rw [hk] at hblank
      exact hblank
    · rfl
  refine ⟨fun i => ?_, fun i d hd => ?_⟩
  · rw [hnone]
    exact .nil
  · rw [hnone] at hd
    cases hd

theorem mutual_registered (m : Module) : ∃ n, m.registered.registry.Mutual n [] := by
  obtain ⟨ss, es, is, -, hregistry, -, hsids, heids⟩ := m.begun_eq
  have hkinds : m.opened.registry.kinds = m.begun.registry.kinds := map_decls_opened _ (fun _ _ => rfl) m
  have hlength : ss.length + es.length ≤ m.opened.registry.decls.length := by
    have hsame := congrArg List.length hkinds
    rw [Registry.kinds, Registry.kinds, List.length_map, List.length_map, hregistry] at hsame
    simp [hsame, Registry.declare]
  have hopened : m.opened.registry.Awaits 0 (ss.length + es.length) := ⟨m.mutual_begun.congr hkinds, hlength⟩
  have hstructs := Register.awaits_walk Register.walks_structs Register.awaits_struct hsids (by omega)
    m.structs _ hopened
  rw [Nat.zero_add] at hstructs
  have henums := Register.awaits_walk Register.walks_enums Register.awaits_enum heids (Nat.le_refl _)
    m.enums _ hstructs
  refine ⟨_, henums.agrees.congr ?_⟩
  rw [registered_opened]
  exact congrArg (List.map (·.kind)) (m.decls_signatures _)

theorem sublist_headings (m : Module) :
    (m.registered.registry.decls.map fun d => (d.kind.form, d.name)).Sublist
      (m.headings.map fun d => (d.kind.form, d.name)) := by
  obtain ⟨ss, es, is, hkept, hregistry, -⟩ := m.begun_eq
  have hdecls : m.begun.registry.decls = ss ++ es ++ is := congrArg (·.decls) hregistry
  have hnames : m.registered.registry.decls.map (·.name) = m.begun.registry.decls.map (·.name) := by
    have hkind (r : Registry) (d : DeclId) (kind : DeclKind) :=
      Registry.map_decls_modifyDecl (·.name) (f := fun info => { info with kind }) (fun _ => rfl) r d
    have hnote := Registry.map_decls_noteImplementor (·.name) fun _ _ => rfl
    have hstructs := Register.leaves_structs (f := fun r => r.decls.map (·.name)) hkind hnote
    have henums := Register.leaves_enums (f := fun r => r.decls.map (·.name)) hkind hnote
    rw [registered_opened, m.decls_signatures]
    exact (henums _ _ _).trans ((hstructs _ _ _).trans (map_decls_opened _ (fun _ _ => rfl) m))
  have hforms : m.registered.registry.decls.map (·.kind.form) = m.begun.registry.decls.map (·.kind.form) := by
    have houtline := congrArg (List.map DeclShape.form) (Register.sound_begun m).registry.outline
    simpa [Registry.outline, Function.comp_def, DeclInfo.shape, registered] using houtline
  rw [← List.zip_map', hforms, hnames, List.zip_map', hdecls]
  exact hkept.map _

end Module

namespace Registry

variable {r : Registry} {n : DeclId} {p : Prop} {o : Outline}

theorem plainDecl_eq_some {d : DeclId} {t : Ty} (h : r.plainDecl d = some t) :
    t = .named d [] ∧ ∃ info, r.decl? d = some info ∧ info.generics = [] := by
  unfold plainDecl at h
  split at h
  · next info hinfo =>
    split at h
    · next hempty =>
      cases h
      exact ⟨rfl, info, hinfo, List.isEmpty_iff.mp hempty⟩
    · cases h
  · cases h

theorem exists_of_mem_implementsOf {d : DeclId} {t : Ty} (h : t ∈ r.implementsOf d) :
    ∃ info, r.decl? d = some info ∧ t ∈ info.implements := by
  unfold implementsOf at h
  cases hd : r.decl? d with
  | none =>
    rw [hd] at h
    cases h
  | some info =>
    rw [hd] at h
    exact ⟨info, rfl, h⟩

theorem mem_implementorsOf_iff (hm : r.Mutual n []) (hs : r.Sound p o) {i d : DeclId} :
    d ∈ r.implementorsOf i ↔ ∃ args, .interface i args ∈ r.implementsOf d := by
  constructor
  · intro hd
    rcases hm.noted i d hd with ⟨-, hargs⟩ | ⟨-, args, hnil⟩
    · exact hargs
    · cases hnil
  · rintro ⟨args, hmem⟩
    obtain ⟨info, hinfo, hmem⟩ := exists_of_mem_implementsOf hmem
    obtain ⟨j, us, ds, heq, hds, hmem⟩ := hs.listed hinfo hmem
    cases heq
    rwa [implementorsOf, hds]

theorem args_eq_nil (hs : r.Sound p o) {i d : DeclId} {args : List Ty} (hi : r.Declares (.interface i []))
    (h : .interface i args ∈ r.implementsOf d) : args = [] := by
  obtain ⟨info, hinfo, hmem⟩ := exists_of_mem_implementsOf h
  obtain ⟨⟨s, hs', -, harity⟩, -⟩ := ((sound_of_decl? hs hinfo).listed _ hmem).node
  obtain ⟨iface, hiface, -, hlength⟩ := hi
  have hshape : s = iface.shape := Option.some.inj (hs'.symm.trans (shape_of_decl? hs hiface))
  rw [hshape, iface.arity_shape, ← hlength] at harity
  exact List.length_eq_zero_iff.mp harity

theorem eq_map_of_mapM {α β : Type} {f : α → Option β} {g : α → β} {as : List α} {bs : List β}
    (h : as.mapM f = some bs) (hg : ∀ a b, f a = some b → b = g a) : bs = as.map g := by
  have hmap : as.map f = as.map (some ∘ g) := List.map_congr_left fun a ha => by
    obtain ⟨b, -, hb⟩ := exists_mem_of_mapM h ha
    rw [hb, hg a b hb]
    rfl
  rw [map_eq_of_mapM h, ← List.map_map] at hmap
  exact (List.map_inj_right fun _ _ => Option.some.inj).mp hmap

theorem exhaustiveMembers_spec (hm : r.Mutual n []) (hs : r.Sound p o) {i : DeclId} {ms : List Ty}
    (hi : r.Declares (.interface i [])) (hms : r.exhaustiveMembers (.interface i []) = some ms) :
    ms.Nodup ∧ ∀ d args, r.Declares (.named d args) →
      (.named d args ∈ ms ↔ r.implements (.named d args) (.interface i []) = true) := by
  obtain ⟨ds, hkind, hmapM⟩ : ∃ ds, r.kind? i = some (.interface true ds) ∧ ds.mapM r.plainDecl = some ms := by
    simp only [exhaustiveMembers] at hms
    split at hms
    · next ds hkind => exact ⟨ds, hkind, hms⟩
    · cases hms
  have hds : r.implementorsOf i = ds := by simp [implementorsOf, implementors, hkind]
  have hmap : ms = ds.map (Ty.named · []) := eq_map_of_mapM hmapM fun d t h => (plainDecl_eq_some h).1
  refine ⟨?_, fun d args hd => ?_⟩
  · have hascending := hm.ascending i
    rw [hds] at hascending
    rw [hmap]
    refine List.pairwise_map.mpr (hascending.imp fun hlt heq => ?_)
    cases heq
    exact Nat.lt_irrefl _ hlt
  · show _ ↔ ((r.implementsOf d).map (Ty.substParams args)).contains (.interface i []) = true
    rw [List.contains_iff_mem, List.mem_map]
    constructor
    · intro hmem
      rw [hmap] at hmem
      obtain ⟨e, he, heq⟩ := List.mem_map.mp hmem
      cases heq
      rw [← hds, mem_implementorsOf_iff hm hs] at he
      obtain ⟨us, hus⟩ := he
      rw [args_eq_nil hs hi hus] at hus
      exact ⟨_, hus, rfl⟩
    · rintro ⟨u, hu, hsubst⟩
      obtain ⟨info, hinfo, hlists⟩ := exists_of_mem_implementsOf hu
      obtain ⟨j, us, -, rfl, -, -⟩ := hs.listed hinfo hlists
      obtain ⟨vs, hvs⟩ := Ty.substParams_interface args j us
      cases hvs.symm.trans hsubst
      have hnoted : d ∈ ds := hds ▸ (mem_implementorsOf_iff hm hs).mpr ⟨us, hu⟩
      obtain ⟨t, ht, hplain⟩ := exists_mem_of_mapM hmapM hnoted
      obtain ⟨rfl, info', hinfo', hnil⟩ := plainDecl_eq_some hplain
      obtain ⟨info'', hinfo'', -, hlength⟩ := hd
      cases hinfo'.symm.trans hinfo''
      rw [hnil] at hlength
      rwa [List.length_eq_zero_iff.mp hlength]

end Registry

namespace Module

-- Structs and enums are numbered in the order in which they are written, structs first.
theorem implementors_check (m : Module) (config : CheckConfig) :
    let R := (m.check config).registry
    (R.decls.map fun d => (d.kind.form, d.name)).Sublist (m.headings.map fun d => (d.kind.form, d.name)) ∧
      (∀ i, (R.implementorsOf i).Pairwise (· < ·)) ∧
      (∀ i d, d ∈ R.implementorsOf i ↔ ∃ args, .interface i args ∈ R.implementsOf d) ∧
      ∀ i ms, R.Declares (.interface i []) → R.exhaustiveMembers (.interface i []) = some ms →
        ms.Nodup ∧ ∀ d args, R.Declares (.named d args) →
          (.named d args ∈ ms ↔ R.implements (.named d args) (.interface i []) = true) := by
  intro R
  obtain ⟨n, hmutual⟩ := m.number.1.mutual_registered
  obtain ⟨o, hsound⟩ := m.number.1.sound_registered
  refine ⟨m.number.1.sublist_headings, hmutual.ascending, fun i d => ?_, fun i ms hi hms => ?_⟩
  · exact Registry.mem_implementorsOf_iff hmutual hsound.registry
  · exact Registry.exhaustiveMembers_spec hmutual hsound.registry hi hms

def shapes : Module where
  structs := [⟨"Circle", [], [], [.named "Shape" [], .named "Shape" []], {}⟩,
    ⟨"Point", [], [], [], {}⟩, ⟨"Circle", [], [], [.named "Shape" []], {}⟩]
  enums := [⟨"Grid", none, ["Wide"], [.named "Shape" []], {}⟩]
  interfaces := [⟨"Shape", [], true, {}⟩]

theorem implementors_shapes :
    let R := (shapes.check {}).registry
    R.Declares (.interface 3 []) ∧ R.exhaustiveMembers (.interface 3 []) = some [.named 0 [], .named 2 []] ∧
      (R.implementorsOf 3).Pairwise (· < ·) ∧ [Ty.named 0 [], .named 2 []].Nodup ∧
      R.Declares (.named 2 []) ∧ R.implements (.named 2 []) (.interface 3 []) = true := by
  intro R
  have hdecl : R.Declares (.interface 3 []) := ⟨_, by rfl, by decide +kernel, by decide +kernel⟩
  have hmembers : R.exhaustiveMembers (.interface 3 []) = some [.named 0 [], .named 2 []] := by decide +kernel
  have hgrid : R.Declares (.named 2 []) := ⟨_, by rfl, by decide +kernel, by decide +kernel⟩
  obtain ⟨-, hascending, -, hall⟩ := implementors_check shapes {}
  obtain ⟨hnodup, hiff⟩ := hall 3 _ hdecl hmembers
  exact ⟨hdecl, hmembers, hascending 3, hnodup, hgrid, (hiff 2 [] hgrid).mp (by decide)⟩

end Module

end TypeFlow
