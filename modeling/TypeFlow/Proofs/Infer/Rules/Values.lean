import TypeFlow.Proofs.Infer.Steps

namespace TypeFlow

def Child.turn (σ : Scope) (ch : Child) : Turn := ⟨σ, ch.expr, false⟩

namespace Account

variable {c : BodyContext} (T : Account c)

def Allows (u t : Ty) : Prop := c.registry.assignableIn c.bounds u t = true ∨ T.failed

def Accepts (e : Expr) (t : Ty) : Prop := T.final → ∃ u, T.typeOf e = some u ∧ T.Allows u t

end Account

namespace Theory

variable {c : BodyContext} {T : Theory c}

theorem accepts_of_told {e : Expr} {t u : Ty} (h : T.told e u) (k : T.Allows u t) : T.Accepts e t :=
  fun hfinal => ⟨u, h hfinal, k⟩

theorem allows_of_reported {span : Span} {t u : Ty} (h : T.reported span) : T.Allows u t :=
  .inr (.inr ⟨span, h⟩)

theorem suggests_none : T.Suggests none := nofun

theorem suggests_some {t : Ty} (h : T.fine t) : T.Suggests (some t) :=
  fun _ hu => Option.some.inj hu ▸ h

theorem facts_empty (σ : Scope) : T.Facts σ {} := ⟨nofun, nofun⟩

theorem good_prim (p : Primitive) : T.good (.prim p) := T.laws.leaf rfl rfl

theorem good_unit : T.good .unit := T.laws.leaf rfl rfl

theorem good_never : T.good .never := T.laws.leaf rfl rfl

theorem good_neverIf (b : Bool) : T.good (if b then .never else .unit) := by
  split
  · exact good_never
  · exact good_unit

theorem good_error_of {t : Ty} (ht : T.fine t) (h : t.isError = true) : T.good .error := by
  obtain rfl := Ty.eq_error_of_isError h
  exact ht.typed rfl

theorem good_of_told {e : Expr} {t : Ty} (he : T.gathers e) (h : T.told e t) (ht : T.fine t) : T.good t :=
  ht.good_of (T.source he h)

end Theory

open Theory

variable {c : BodyContext} {T : Theory c} {A : Prop} {g : Spot} {σ : Scope} {x : Option Ty}

section Children

variable {ch : Child}

theorem rule_inferIn (used : Bool) (hc : T.runs ch) (hx : A → T.Suggests x)
    (hσ : A → T.final → g.scope = σ) :
    Rule T A g [ch.turn σ] (ch.inferIn x used) fun t =>
      T.fine t ∧ T.told ch.expr t ∧ T.Sees g.scope ch.expr t := by
  refine Rule.andThen (.child used hc hx hσ) fun t => Rule.pure ?_
  rintro ⟨-, hresult, htold⟩
  exact ⟨hresult.ty, htold, hresult.sees⟩

theorem rule_infer (hc : T.runs ch) (hx : A → T.Suggests x) (hσ : A → T.final → g.scope = σ) :
    Rule T A g [ch.turn σ] (ch.infer x) fun t =>
      T.fine t ∧ T.told ch.expr t ∧ T.Sees g.scope ch.expr t := rule_inferIn true hc hx hσ

theorem rule_alone (hc : T.runs ch) :
    Rule T A g [ch.turn g.scope] (ch.infer none) fun t =>
      T.fine t ∧ T.told ch.expr t ∧ T.Sees g.scope ch.expr t :=
  rule_infer hc (fun _ => suggests_none) fun _ _ => rfl

theorem rule_discarded (hc : T.runs ch) (hσ : A → T.final → g.scope = σ) :
    Rule T A g [ch.turn σ] ch.discarded fun t => T.fine t :=
  (rule_inferIn false hc (fun _ => suggests_none) hσ).imp fun _ _ h => h.1

theorem rule_requireAssignable (span : Span) (t u : Ty) :
    Rule T A g [] (Infer.requireAssignable span t u) fun _ => T.Allows u t := by
  unfold Infer.requireAssignable
  refine rule_isAborted.andThen fun b => plan_assignable ?_
  refine Rule.ite (fun h => Rule.pure fun hA => ?_) fun _ => ?_
  · rcases Bool.or_eq_true_iff.mp h with h | h
    · exact .inr (.inl (hA.2 h))
    · exact .inl h
  · exact (rule_fault _ _).imp fun _ _ h => allows_of_reported h

theorem rule_check {t : Ty} (hc : T.runs ch) (ht : A → T.fine t) (hσ : A → T.final → g.scope = σ) :
    Rule T A g [ch.turn σ] (Infer.check ch t) fun u =>
      T.fine u ∧ T.told ch.expr u ∧ T.Allows u t := by
  refine (rule_infer hc (fun hA => suggests_some (ht hA)) hσ).andThen fun u => ?_
  refine (rule_requireAssignable _ _ _).andThen fun _ => Rule.pure ?_
  rintro ⟨⟨-, hgood, htold, -⟩, hallows⟩
  exact ⟨hgood, htold, hallows⟩

theorem rule_checked {t : Ty} (hc : T.runs ch) (ht : A → T.fine t) :
    Rule T A g [ch.turn g.scope] (discard (Infer.check ch t)) fun _ => T.Accepts ch.expr t :=
  (rule_check hc ht fun _ _ => rfl).discard fun _ _ h => accepts_of_told h.2.1 h.2.2

theorem rule_condition (hc : T.runs ch) :
    Rule T A g [ch.turn g.scope] (Infer.condition ch) (T.Facts g.scope) := by
  have hbool : A → T.Suggests (some (.prim .bool)) := fun _ => suggests_some (.inl (good_prim .bool))
  refine Rule.andThen (.child true hc hbool fun _ _ => rfl) fun t => ?_
  refine (rule_requireAssignable _ _ _).andThen fun _ => Rule.pure ?_
  rintro ⟨⟨-, hresult, -⟩, -⟩
  exact hresult.facts

theorem rule_inferAll {cs : List Child} (h : ∀ ch ∈ cs, T.runs ch) :
    Rule T A g (cs.map (·.turn g.scope)) (Infer.inferAll cs) fun _ => True := by
  induction cs generalizing A with
  | nil => exact Rule.pure fun _ => True.intro
  | cons ch cs ih =>
    refine (rule_alone (h ch (by simp))).ignored.andThen fun _ => ?_
    exact ih fun d hd => h d (by simp [hd])

end Children

namespace Theory

theorem good_ofInt (n : Int) (x : Option Ty) : T.good (.ofInt n x) := by
  unfold Ty.ofInt
  split
  · exact good_prim _
  · split <;> exact good_prim _

theorem good_ofFloat (x : Option Ty) : T.good (.ofFloat x) := by
  unfold Ty.ofFloat
  split <;> exact good_prim _

theorem fine_ofNone (h : T.Suggests x) : T.fine (.ofNone x) := by
  unfold Ty.ofNone
  split
  · exact h _ rfl
  · exact .inr rfl

theorem fine_ofNil (h : T.Suggests x) : T.fine (.ofNil x) := by
  unfold Ty.ofNil
  split
  · exact h _ rfl
  · exact .inr rfl

theorem good_fnType {sig : Signature} (h : sig.Holds T.good) (hg : sig.generics = []) :
    T.good sig.fnType := by
  refine T.laws.build rfl fun t ht => ?_
  rcases List.mem_cons.mp ht with rfl | ht
  · exact Ty.Applies.closed (hg ▸ h.ret)
  · obtain ⟨p, hp, rfl⟩ := List.mem_map.mp ht
    exact Ty.Applies.closed (hg ▸ h.param p hp)

end Theory

structure Account.Names (T : Account c) (σ : Scope) (name : String) (t : Ty) : Prop where
  good : T.good t
  views : T.final → ∀ l, σ.lookup name = some l → T.views l.ty t
  reads : σ.lookup name = none ∨ T.reads σ ⟨name, []⟩ t

theorem rule_readLocal {name : String} {l : Local} (hl : A → g.scope.lookup name = some l)
    (hgood : A → T.good l.ty) : Rule T A g [] (Infer.readLocal name l) (T.Names g.scope name) := by
  refine Rule.imp (.readLocal hl) fun t hA ht => ?_
  obtain ⟨m, hfits, rfl⟩ := ht
  unfold Layer.narrowed
  cases hn : m.get ⟨name, []⟩ with
  | some n =>
    refine ⟨T.entry hfits hn, fun hfinal k hk => ?_, .inr (T.narrowed hfits hn)⟩
    exact (T.settled hfinal).known hfits hn hk
  | none =>
    refine ⟨hgood hA, fun _ k hk => ?_, .inr (T.declared (T.root (hl hA)))⟩
    cases (hl hA).symm.trans hk
    exact T.unseen _

theorem rule_ident (span : Span) (name : String) :
    Rule T A g [] (Infer.ident span name) (T.Names g.scope name) := by
  unfold Infer.ident
  refine (rule_lookupLocal name).andThen fun o => ?_
  cases o with
  | some l =>
    exact rule_readLocal (fun hA => hA.2.1.symm) fun hA => hA.2.2 l rfl
  | none =>
    have hfree {us : List Turn} {act : Infer Ty} (h : Rule T A g us act T.good) :
        Rule T (A ∧ none = g.scope.lookup name ∧ ∀ l : Local, none = some l → T.good l.ty) g us act
          (T.Names g.scope name) :=
      (h.assuming And.left).imp fun t k hA ht =>
        ⟨ht.1, ⟨ht.2, fun _ l hl => (nomatch hA.2.1.trans hl), .inl hA.2.1.symm⟩⟩
    refine plan_registry (hfree ?_)
    split
    · next info hi => exact Rule.pure fun _ => T.laws.constant hi
    · split
      · next sig hsig =>
        split
        · next hnone => exact Rule.pure fun _ => good_fnType (T.laws.function hsig) hnone
        · exact rule_error _ _
      · exact rule_error _ _

theorem rule_enumVariant (span : Span) (enum name : String) :
    Rule T A g [] (Infer.enumVariant span enum name) T.good := by
  unfold Infer.enumVariant
  refine plan_registry ?_
  split
  · exact rule_error _ _
  · split
    · next hk => exact Rule.ite (fun _ => Rule.pure fun _ => T.laws.enum hk) fun _ => rule_error _ _
    · exact rule_error _ _

theorem rule_knownPath (path : Option Path) :
    Rule T A g [] (Infer.knownPath path) fun o => ∀ t, o = some t →
      ∃ p l n, path = some p ∧ (g.scope.lookup p.root).isSome = true ∧ T.fits g.scope l ∧
        l.get p = some n ∧ n.ty = t := by
  unfold Infer.knownPath
  refine (rule_localPath path).andThen fun o => ?_
  cases o with
  | none => exact Rule.pure fun _ => nofun
  | some p =>
    refine (rule_narrowed p).imp fun o hA ho t ht => ?_
    obtain ⟨-, l, hfits, rfl⟩ := ho
    obtain ⟨n, hn, rfl⟩ := Option.map_eq_some_iff.mp ht
    exact ⟨p, l, n, (hA.2 p rfl).1, (hA.2 p rfl).2, hfits, hn, rfl⟩

def Account.HasField (T : Account c) (e : Expr) (name : String) (u : Ty) : Prop :=
  u = .error ∨ T.failed ∨ (∃ t, c.registry.fieldType u name = some t) ∨
    ∃ p q, e.path? = some p ∧ p.startsWith q = true ∧ T.about q ∧ T.about (p.field name)

structure Account.Selects (T : Account c) (σ : Scope) (e : Expr) (name : String) (t : Ty) : Prop where
  good : T.good t
  reads : ∀ p, e.path? = some p → t = .error ∨ σ.lookup p.root = none ∨ T.reads σ (p.field name) t
  receiver : T.final → ∃ u, T.typeOf e = some u ∧ T.fine u ∧ T.HasField e name u

theorem rule_field (span : Span) {recv : Child} (name : String) (h : T.runs recv) :
    Rule T A g [recv.turn g.scope] (Infer.field span recv name) (T.Selects g.scope recv.expr name) := by
  unfold Infer.field
  refine (rule_alone h).andThen fun t => ?_
  refine Rule.ite (fun ht => Rule.pure fun hA => ?_) fun ht => ?_
  · have ht := Ty.eq_error_of_isError ht
    exact ⟨(ht ▸ hA.2.1).typed rfl, fun _ _ => .inl rfl,
      fun hfinal => ⟨t, hA.2.2.1 hfinal, hA.2.1, .inl ht⟩⟩
  have hne : t ≠ .error := fun heq => ht (heq ▸ rfl)
  refine (rule_knownPath _).andThen fun o => ?_
  cases o with
  | some v =>
    refine Rule.pure fun hA => ?_
    obtain ⟨⟨-, hgood, htold, hsees⟩, hknown⟩ := hA
    obtain ⟨_, l, n, hpath, hlocal, hfits, hn, rfl⟩ := hknown v rfl
    obtain ⟨p, hp, rfl⟩ := Option.map_eq_some_iff.mp hpath
    refine ⟨T.entry hfits hn, fun q hq => ?_, fun hfinal => ⟨t, htold hfinal, hgood, ?_⟩⟩
    · cases hp.symm.trans hq
      exact .inr (.inr (T.narrowed hfits hn))
    · rcases hsees.reads p hp with heq | hnone | hreads
      · exact absurd heq hne
      · exact absurd hlocal (by simp [Path.field, hnone])
      · refine .inr (.inr (((T.settled hfinal).receiver hfits hn hreads).imp_right ?_))
        rintro ⟨hown, q, hq, habout⟩
        exact ⟨p, q, hp, hq, habout, hown⟩
  | none =>
    refine plan_registry ?_
    split
    · next u hu =>
      refine Rule.pure fun hA => ?_
      obtain ⟨⟨-, hgood, htold, hsees⟩, -⟩ := hA
      refine ⟨T.laws.fieldType hgood hu, fun p hp => ?_,
        fun hfinal => ⟨t, htold hfinal, hgood, .inr (.inr (.inl ⟨u, hu⟩))⟩⟩
      rcases hsees.reads p hp with heq | hnone | hreads
      · exact absurd heq hne
      · exact .inr (.inl hnone)
      · exact .inr (.inr (T.member hreads hu))
    · refine (rule_report _ _).imp fun v hA hv => ?_
      obtain ⟨⟨-, hgood, htold, -⟩, -⟩ := hA
      obtain ⟨rfl, hreported⟩ := hv
      exact ⟨T.error hreported, fun _ _ => .inl rfl,
        fun hfinal => ⟨t, htold hfinal, hgood, .inr (.inl (.inr ⟨span, hreported⟩))⟩⟩

theorem rule_integerIndex {index : Child} (h : T.runs index) :
    Rule T A g [index.turn g.scope] (Infer.integerIndex index) fun _ => True := by
  unfold Infer.integerIndex
  refine (rule_infer h (fun _ => suggests_some (.inl (good_prim .usize))) fun _ _ => rfl).andThen fun t => ?_
  exact Rule.ite (fun _ => Rule.pure fun _ => True.intro) fun _ => (rule_fault _ _).trivial

theorem rule_indexed (span : Span) {recv index : Child} (h : T.runs recv) (k : T.runs index) :
    Rule T A g [recv.turn g.scope, index.turn g.scope] (Infer.indexed span recv index) T.good := by
  unfold Infer.indexed
  refine (rule_alone h).andThen fun t => ?_
  have hpart {u v : Ty} (heq : t.deref = u) (hv : v ∈ u.parts) :
      (A ∧ T.fine t ∧ T.told recv.expr t ∧ T.Sees g.scope recv.expr t) → T.good v :=
    fun hA => T.laws.deref_part hA.2.1 heq hv
  refine Rule.ite (fun ht => ?_) fun _ => ?_
  · exact (rule_alone k).ignored.andThen fun _ => Rule.pure fun hA => good_error_of hA.1.2.1 ht
  · split
    · next heq =>
      exact (rule_integerIndex k).andThen fun _ => Rule.pure fun hA => hpart heq (by simp [Ty.parts]) hA.1
    · next heq =>
      exact (rule_integerIndex k).andThen fun _ => Rule.pure fun hA => hpart heq (by simp [Ty.parts]) hA.1
    · exact (rule_integerIndex k).andThen fun _ => Rule.pure fun _ => good_prim .u8
    · next heq =>
      exact (rule_checked k fun hA => .inl (hpart heq (by simp [Ty.parts]) hA)).andThen fun _ =>
        Rule.pure fun hA => hpart heq (by simp [Ty.parts]) hA.1
    · exact (rule_alone k).ignored.andThen fun _ => rule_error _ _

theorem rule_negated {operand : Child} (h : T.runs operand) (hx : T.Suggests x) :
    Rule T A g [operand.turn g.scope] (Infer.negated operand x) T.fine := by
  unfold Infer.negated
  refine (rule_infer h (fun _ => hx) fun _ _ => rfl).andThen fun t => ?_
  refine Rule.ite (fun ht => Rule.pure fun hA => .inl (good_error_of hA.2.1 ht)) fun _ => ?_
  split
  · exact Rule.pure fun hA => hA.2.1
  · exact Rule.pure fun hA => hA.2.1
  · exact (rule_error _ _).fine

theorem rule_negatedInt (site : Site) (n : Int64) (x : Option Ty) :
    Rule T A g [⟨g.scope, .int site n, false⟩] (Infer.negatedInt site n x) T.good :=
  Rule.andThen (.note fun _ => good_ofInt _ _) fun _ => Rule.pure fun _ => good_ofInt _ _

theorem covers_swap (u v : Turn) (hu : u.draft = false) (hv : v.draft = false) :
    Turn.Covers [v, u] [u, v] := by
  refine Turn.covers_of_perm ?_ (List.Perm.swap u v [] : ([v, u] ++ []).Perm [u, v])
  intro w hw
  simp only [List.mem_cons, List.not_mem_nil, or_false] at hw
  rcases hw with rfl | rfl
  · exact hu
  · exact hv

theorem rule_operandTypes {left right : Child} (hl : T.runs left) (hr : T.runs right)
    (hx : T.Suggests x) :
    Rule T A g [left.turn g.scope, right.turn g.scope] (Infer.operandTypes left right x)
      fun ts => T.fine ts.1 ∧ T.fine ts.2 := by
  unfold Infer.operandTypes
  refine Rule.ite (fun _ => ?_) fun _ => ?_
  · refine Plan.weaken ?_ (covers_swap _ _ rfl rfl)
    refine (rule_infer hr (fun _ => hx) fun _ _ => rfl).andThen fun r => ?_
    refine (rule_infer hl (fun hA => suggests_some hA.2.1) fun _ _ => rfl).andThen fun l => ?_
    exact Rule.pure fun hA => ⟨hA.2.1, hA.1.2.1⟩
  · refine (rule_infer hl (fun _ => hx) fun _ _ => rfl).andThen fun l => ?_
    refine (rule_infer hr (fun hA => suggests_some hA.2.1) fun _ _ => rfl).andThen fun r => ?_
    exact Rule.pure fun hA => ⟨hA.1.2.1, hA.2.1⟩

theorem rule_binary (span : Span) (op : BinaryOp) {left right : Child} (hl : T.runs left)
    (hr : T.runs right) (hx : T.Suggests x) :
    Rule T A g [left.turn g.scope, right.turn g.scope] (Infer.binary span op left right x) T.fine := by
  unfold Infer.binary
  have hhint : T.Suggests (if op.isComparison then none else x) := by
    split
    · exact suggests_none
    · exact hx
  refine (rule_operandTypes hl hr hhint).andThen fun ts => ?_
  obtain ⟨l, r⟩ := ts
  have hbool {B : Prop} (ok : Bool) (cause : Cause) :
      Rule T B g [] (do
        unless ok do discard <| Infer.report span cause
        return Ty.prim .bool) T.fine :=
    Rule.ite (fun _ => Rule.pure fun _ => .inl (good_prim .bool)) fun _ =>
      (rule_fault _ _).returns fun _ _ _ => .inl (good_prim .bool)
  dsimp only
  refine Rule.ite (fun herror => Rule.pure fun hA => ?_) fun _ => ?_
  · split
    · exact .inl (good_prim .bool)
    · rcases Bool.or_eq_true_iff.mp herror with h | h
      · exact .inl (good_error_of hA.2.1 h)
      · exact .inl (good_error_of hA.2.2 h)
  · split
    case h_1 | h_2 => exact plan_assignable (plan_assignable (hbool _ _))
    case h_3 | h_4 | h_5 | h_6 => exact hbool _ _
    case h_7 =>
      refine Rule.ite (fun _ => Rule.pure fun _ => .inl (good_prim .string)) fun _ => ?_
      exact Rule.ite (fun _ => Rule.pure fun hA => hA.2.1) fun _ => (rule_error _ _).fine
    case h_12 | h_13 => exact Rule.pure fun _ => .inl (good_prim .bool)
    all_goals exact Rule.ite (fun _ => Rule.pure fun hA => hA.2.1) fun _ => (rule_error _ _).fine

theorem Theory.suggests_hint (h : T.Suggests x) : T.Suggests (x.map Ty.collectionHint) := by
  intro t ht
  obtain ⟨u, hu, rfl⟩ := Option.map_eq_some_iff.mp ht
  have hfine := h u hu
  clear hu ht
  induction u using Ty.parts_induction with
  | h u ih =>
    cases u
    case option v => exact ih v (by simp [Ty.parts]) (.inl (hfine.part T.laws.toClosed (by simp [Ty.parts])))
    all_goals exact hfine

theorem rule_checkAll {t : Ty} {cs : List Child} (ht : A → T.fine t) (h : ∀ ch ∈ cs, T.runs ch) :
    Rule T A g (cs.map (·.turn g.scope)) (Infer.checkAll t cs) fun _ => True := by
  induction cs generalizing A with
  | nil => exact Rule.pure fun _ => True.intro
  | cons ch cs ih =>
    refine (rule_checked (h ch (by simp)) ht).andThen fun _ => ?_
    exact ih (fun hA => ht hA.1) fun d hd => h d (by simp [hd])

theorem rule_array (span : Span) {cs : List Child} (h : ∀ ch ∈ cs, T.runs ch)
    (hg : ∀ ch ∈ cs.head?, T.gathers ch.expr) (hx : T.Suggests x) :
    Rule T A g (cs.map (·.turn g.scope)) (Infer.array span cs x) T.good := by
  unfold Infer.array
  have hhint := suggests_hint hx
  split
  · next elem heq =>
    have helem : T.good elem := (hhint _ heq).part T.laws.toClosed (by simp [Ty.parts])
    exact (rule_checkAll (fun _ => .inl helem) h).returns fun _ _ _ => T.laws.single rfl rfl helem
  · next len elem heq =>
    have helem : T.good elem := (hhint _ heq).part T.laws.toClosed (by simp [Ty.parts])
    refine (rule_checkAll (fun _ => .inl helem) h).returns fun _ _ _ => ?_
    split <;> exact T.laws.single rfl rfl helem
  · split
    · exact rule_error _ _
    · next first rest =>
      refine (rule_alone (h first (by simp))).andThen fun t => ?_
      have hrest : ∀ ch ∈ rest, T.runs ch := fun d hd => h d (by simp [hd])
      refine (rule_checkAll (fun hA => hA.2.1) hrest).returns fun _ hA _ => ?_
      split
      · next herror => exact good_error_of hA.2.1 herror
      · exact T.laws.single rfl rfl (good_of_told (hg first rfl) hA.2.2.1 hA.2.1)

def EntryChild.turns (σ : Scope) (e : EntryChild) : List Turn := [e.key.turn σ, e.value.turn σ]

theorem rule_checkEntries {k v : Ty} {es : List EntryChild} (hk : A → T.fine k) (hv : A → T.fine v)
    (h : ∀ e ∈ es, T.runs e.key ∧ T.runs e.value) :
    Rule T A g (es.flatMap (·.turns g.scope)) (Infer.checkEntries k v es) fun _ => True := by
  induction es generalizing A with
  | nil => exact Rule.pure fun _ => True.intro
  | cons e es ih =>
    obtain ⟨h₁, h₂⟩ := h e (by simp)
    refine (rule_checked h₁ hk).andThen fun _ => (rule_checked h₂ fun hA => hv hA.1).andThen fun _ => ?_
    exact ih (fun hA => hk hA.1.1) (fun hA => hv hA.1.1) fun d hd => h d (by simp [hd])

theorem rule_mapLit (span : Span) {es : List EntryChild} (h : ∀ e ∈ es, T.runs e.key ∧ T.runs e.value)
    (hg : ∀ e ∈ es.head?, T.gathers e.key.expr ∧ T.gathers e.value.expr) (hx : T.Suggests x) :
    Rule T A g (es.flatMap (·.turns g.scope)) (Infer.mapLit span es x) T.good := by
  unfold Infer.mapLit
  have hhint := suggests_hint hx
  split
  · next k v heq =>
    have hk : T.good k := (hhint _ heq).part T.laws.toClosed (by simp [Ty.parts])
    have hv : T.good v := (hhint _ heq).part T.laws.toClosed (by simp [Ty.parts])
    refine (rule_checkEntries (fun _ => .inl hk) (fun _ => .inl hv) h).returns fun _ _ _ => ?_
    exact T.laws.pair rfl rfl hk hv
  · split
    · exact rule_error _ _
    · next first rest =>
      obtain ⟨h₁, h₂⟩ := h first (by simp)
      refine (rule_alone h₁).andThen fun k => (rule_alone h₂).andThen fun v => ?_
      have hrest : ∀ e ∈ rest, T.runs e.key ∧ T.runs e.value := fun d hd => h d (by simp [hd])
      refine (rule_checkEntries (fun hA => hA.1.2.1) (fun hA => hA.2.1) hrest).returns fun _ hA _ => ?_
      obtain ⟨⟨-, hk, hkey, -⟩, hv, hvalue, -⟩ := hA
      obtain ⟨hg₁, hg₂⟩ := hg first rfl
      split
      · next herror =>
        rcases Bool.or_eq_true_iff.mp herror with h | h
        · exact good_error_of hk h
        · exact good_error_of hv h
      · exact T.laws.pair rfl rfl (good_of_told hg₁ hkey hk) (good_of_told hg₂ hvalue hv)

theorem rule_inferEach {cs : List Child} {hints : List (Option Ty)} (h : ∀ ch ∈ cs, T.runs ch)
    (hg : ∀ ch ∈ cs, T.gathers ch.expr) (hx : ∀ x ∈ hints, T.Suggests x) :
    Rule T A g (cs.map (·.turn g.scope)) (Infer.inferEach cs hints) fun ts => ∀ t ∈ ts, T.good t := by
  induction cs generalizing A hints with
  | nil => exact Rule.pure fun _ => List.forall_mem_nil _
  | cons ch cs ih =>
    have hhead : T.Suggests (hints.headD none) := by
      cases hints with
      | nil => exact suggests_none
      | cons x xs => exact hx x (by simp)
    have htail : ∀ x ∈ hints.tail, T.Suggests x := fun x hm => hx x (List.mem_of_mem_tail hm)
    refine (rule_infer (h ch (by simp)) (fun _ => hhead) fun _ _ => rfl).andThen fun t => ?_
    have hrest : ∀ d ∈ cs, T.runs d := fun d hd => h d (by simp [hd])
    have hgrest : ∀ d ∈ cs, T.gathers d.expr := fun d hd => hg d (by simp [hd])
    refine (ih hrest hgrest htail).map fun ts hA hts => ?_
    exact List.forall_mem_cons.mpr ⟨good_of_told (hg ch (by simp)) hA.2.2.1 hA.2.1, hts⟩

theorem rule_tuple {cs : List Child} (h : ∀ ch ∈ cs, T.runs ch) (hg : ∀ ch ∈ cs, T.gathers ch.expr)
    (hx : T.Suggests x) :
    Rule T A g (cs.map (·.turn g.scope)) (Infer.tuple cs x) T.good := by
  unfold Infer.tuple
  have hhint := suggests_hint hx
  refine (rule_inferEach h hg ?_).map fun ts _ hts => T.laws.mkTuple hts
  intro y hy
  split at hy
  · next ts heq =>
    split at hy
    · obtain ⟨t, ht, rfl⟩ := List.mem_map.mp hy
      exact suggests_some (.inl ((hhint _ heq).part T.laws.toClosed ht))
    · cases hy
  · cases hy

end TypeFlow
