import TypeFlow.Proofs.Flow.Refinement
import TypeFlow.Proofs.Ty.Canonical

namespace TypeFlow

structure Ty.Complement (d : Ty) (ms ts : List Ty) (u : Ty) : Prop where
  never : (∀ m ∈ ms, m ∈ ts) → u = .never
  only : ∀ m ∈ ms, m ∉ ts → (∀ k ∈ ms, k ∉ ts → k = m) → u = m
  several : ∀ m ∈ ms, ∀ k ∈ ms, m ∉ ts → k ∉ ts → m ≠ k →
    u = if d.isUnion then .mkUnion (ms.filter fun m => m ∉ ts) else d

structure Narrowing.Complements (declared d : Ty) (ms ts : List Ty) (n : Narrowing) : Prop where
  declared : n.declared = declared
  ordered : n.excluded.Pairwise Ty.Lt
  excluded : ∀ t, t ∈ n.excluded ↔ t ∈ ts
  ty : d.Complement ms ts n.ty

inductive Path.TestedAs (p : Path) (d : Ty) (ms : List Ty) : Ty → List FlowFact → Prop
  | declared : TestedAs p d ms d []
  | present (h : ∀ m ∈ ms, ∀ u ∈ m.unionParts, u.optionInner = none) :
    TestedAs p d ms (.option d) [⟨p, .option d, .notNone⟩]

def FlowFact.ruleOut (p : Path) (declared : Ty) (ts : List Ty) : List FlowFact :=
  ts.map fun t => ⟨p, declared, .isNot t⟩

namespace Ty

variable {r : Registry} {d u v : Ty} {ms ts us : List Ty}

theorem complement_never (h : ∀ m ∈ ms, m ∈ ts) : d.Complement ms ts .never where
  never _ := rfl
  only m hm hout _ := absurd (h m hm) hout
  several m hm _ _ hout := absurd (h m hm) hout

theorem complement_only {m : Ty} (hm : m ∈ ms) (hout : m ∉ ts) (h : ∀ k ∈ ms, k ∉ ts → k = m) :
    d.Complement ms ts m where
  never hnone := absurd (hnone m hm) hout
  only k hk hkout _ := (h k hk hkout).symm
  several a ha b hb haout hbout hne := absurd ((h a ha haout).trans (h b hb hbout).symm) hne

theorem complement_several {m k : Ty} (hm : m ∈ ms) (hk : k ∈ ms) (hout : m ∉ ts) (hkout : k ∉ ts) (hne : m ≠ k)
    (h : u = if d.isUnion then .mkUnion (ms.filter fun m => m ∉ ts) else d) : d.Complement ms ts u where
  never hnone := absurd (hnone m hm) hout
  only _ _ _ hone := absurd ((hone m hm hout).trans (hone k hk hkout).symm) hne
  several _ _ _ _ _ _ _ := h

theorem left_cases (ms ts : List Ty) :
    (∀ m ∈ ms, m ∈ ts) ∨ (∃ m ∈ ms, m ∉ ts ∧ ∀ k ∈ ms, k ∉ ts → k = m) ∨
      ∃ m ∈ ms, ∃ k ∈ ms, m ∉ ts ∧ k ∉ ts ∧ m ≠ k := by
  by_cases hnone : ∀ m ∈ ms, m ∈ ts
  · exact .inl hnone
  · simp only [Classical.not_forall] at hnone
    obtain ⟨m, hm, hout⟩ := hnone
    by_cases hone : ∀ k ∈ ms, k ∉ ts → k = m
    · exact .inr (.inl ⟨m, hm, hout, hone⟩)
    · simp only [Classical.not_forall] at hone
      obtain ⟨k, hk, hkout, hne⟩ := hone
      exact .inr (.inr ⟨k, hk, m, hm, hkout, hout, hne⟩)

theorem Complement.unique (hu : d.Complement ms ts u) (hv : d.Complement ms ts v) : u = v := by
  rcases left_cases ms ts with h | ⟨m, hm, hout, hone⟩ | ⟨m, hm, k, hk, hout, hkout, hne⟩
  · rw [hu.never h, hv.never h]
  · rw [hu.only m hm hout hone, hv.only m hm hout hone]
  · rw [hu.several m hm k hk hout hkout hne, hv.several m hm k hk hout hkout hne]

theorem Complement.congr (h : d.Complement ms ts u) (hts : ∀ t, t ∈ us ↔ t ∈ ts) : d.Complement ms us u := by
  have hfilter : (ms.filter fun m => m ∉ us) = ms.filter fun m => m ∉ ts :=
    List.filter_congr fun m _ => by simp only [hts]
  constructor
  · simpa only [hts] using h.never
  · simpa only [hts] using h.only
  · rw [hfilter]
    simpa only [hts] using h.several

theorem optionInner_of_closed (h : r.exhaustiveMembers d = some ms) : d.optionInner = none := by
  unfold Registry.exhaustiveMembers at h
  split at h
  · rfl
  · rfl
  · cases h

theorem optionInner_of_unionParts {m : Ty} (h : ∀ u ∈ m.unionParts, u.optionInner = none) :
    m.optionInner = none := by
  cases m with
  | option t => exact h _ (List.mem_singleton_self _)
  | _ => rfl

theorem optionInner_mkUnion (h : ∀ m ∈ ms, ∀ u ∈ m.unionParts, u.optionInner = none) :
    (mkUnion ms).optionInner = none := by
  have hparts : ∀ u ∈ sorted (ms.flatMap unionParts), u.optionInner = none := by
    intro u hu
    obtain ⟨m, hm, hum⟩ := List.mem_flatMap.mp (mem_sorted.mp hu)
    exact h m hm u hum
  unfold mkUnion
  generalize sorted (ms.flatMap unionParts) = us at hparts
  match us with
  | [] => rfl
  | [u] => exact hparts u (List.mem_singleton_self u)
  | _ :: _ :: _ => rfl

theorem Complement.optionInner (h : d.Complement ms ts u) (hms : r.exhaustiveMembers d = some ms)
    (hoption : ∀ m ∈ ms, ∀ u ∈ m.unionParts, u.optionInner = none) : u.optionInner = none := by
  rcases left_cases ms ts with hnone | ⟨m, hm, hout, hone⟩ | ⟨m, hm, k, hk, hout, hkout, hne⟩
  · rw [h.never hnone]
    rfl
  · rw [h.only m hm hout hone]
    exact optionInner_of_unionParts (hoption m hm)
  · rw [h.several m hm k hk hout hkout hne]
    split
    · exact optionInner_mkUnion fun m hm => hoption m (List.mem_filter.mp hm).1
    · exact optionInner_of_closed hms

theorem unionParts_of_member {m : Ty} (hd : d.Canonical) (hms : r.exhaustiveMembers d = some ms) (hm : m ∈ ms) :
    ∀ u ∈ m.unionParts, u = m := by
  unfold Registry.exhaustiveMembers at hms
  split at hms
  · cases hms
    rw [unionParts_of_single (hd.node.2.2 m hm)]
    exact fun u => List.mem_singleton.mp
  · split at hms
    · obtain ⟨i, -, hi⟩ := exists_of_mem_mapM hms hm
      unfold Registry.plainDecl at hi
      split at hi
      · split at hi <;> cases hi
        exact fun u => List.mem_singleton.mp
      · cases hi
    · cases hms
  · cases hms

end Ty

theorem Path.TestedAs.of_canonical {r : Registry} {p : Path} {d : Ty} {ms : List Ty} (hd : d.Canonical)
    (hms : r.exhaustiveMembers d = some ms) (h : ∀ m ∈ ms, m.optionInner = none) :
    p.TestedAs d ms (.option d) [⟨p, .option d, .notNone⟩] :=
  .present fun m hm u hu => Ty.unionParts_of_member hd hms hm u hu ▸ h m hm

namespace Narrowing

variable {r : Registry} {declared d : Ty} {p : Path} {ms : List Ty} {fs : List FlowFact} {n : Narrowing}

theorem complement_remaining (hms : r.exhaustiveMembers n.base = some ms) (hnodup : ms.Nodup)
    (hopen : n.base.isUnion = false → ∀ m ∈ ms, ∀ k ∈ ms, m ∉ n.excluded → k ∉ n.excluded → m ≠ k →
      n.ty = n.base) : n.base.Complement ms n.excluded (n.remaining r) := by
  have hfilter : (ms.filter fun m => !n.excludes m) = ms.filter fun m => m ∉ n.excluded :=
    List.filter_congr fun m _ => by simp [excludes]
  have hleft (m : Ty) : m ∈ ms.filter (fun m => m ∉ n.excluded) ↔ m ∈ ms ∧ m ∉ n.excluded := by simp
  have hdistinct : (ms.filter fun m => m ∉ n.excluded).Nodup := hnodup.filter _
  unfold remaining
  rw [hms]
  dsimp only
  rw [hfilter]
  split
  · next heq =>
    refine Ty.complement_never fun m hm => Classical.byContradiction fun hout => ?_
    have hmem := (hleft m).mpr ⟨hm, hout⟩
    rw [heq] at hmem
    cases hmem
  · next a heq =>
    rw [heq] at hleft
    obtain ⟨ha, hout⟩ := (hleft a).mp (List.mem_singleton_self a)
    exact Ty.complement_only ha hout fun k hk hkout => List.mem_singleton.mp ((hleft k).mpr ⟨hk, hkout⟩)
  · next hnil hsingle =>
    match heq : ms.filter fun m => m ∉ n.excluded with
    | [] => exact absurd heq hnil
    | [a] => exact absurd heq (hsingle a)
    | a :: b :: rest =>
      rw [heq] at hleft hdistinct
      obtain ⟨ha, haout⟩ := (hleft a).mp List.mem_cons_self
      obtain ⟨hb, hbout⟩ := (hleft b).mp (List.mem_cons_of_mem _ List.mem_cons_self)
      have hne : a ≠ b := fun hab => (List.nodup_cons.mp hdistinct).1 (hab ▸ List.mem_cons_self)
      refine Ty.complement_several ha hb haout hbout hne ?_
      rw [heq]
      cases hunion : n.base.isUnion with
      | true => rfl
      | false => exact hopen hunion a ha b hb haout hbout hne

theorem Complements.congr {ts us : List Ty} (h : n.Complements declared d ms ts) (hts : ∀ t, t ∈ us ↔ t ∈ ts) :
    n.Complements declared d ms us :=
  ⟨h.declared, h.ordered, fun t => (h.excluded t).trans (hts t).symm, h.ty.congr hts⟩

theorem Complements.unique {ts : List Ty} {k : Narrowing} (hn : n.Complements declared d ms ts)
    (hk : k.Complements declared d ms ts) : n = k := by
  obtain ⟨declared₁, ty₁, excluded₁⟩ := n
  obtain ⟨declared₂, ty₂, excluded₂⟩ := k
  obtain rfl : declared₁ = declared₂ := hn.declared.trans hk.declared.symm
  obtain rfl : ty₁ = ty₂ := hn.ty.unique hk.ty
  obtain rfl : excluded₁ = excluded₂ :=
    Ty.eq_of_pairwise_lt hn.ordered hk.ordered fun t => (hn.excluded t).trans (hk.excluded t).symm
  rfl

structure Sifts (declared d : Ty) (ms : List Ty) (n : Narrowing) : Prop where
  declared : n.declared = declared
  ordered : n.excluded.Pairwise Ty.Lt
  ty : n.excluded = [] ∧ n.ty = d ∨ d.Complement ms n.excluded n.ty

theorem base_of_tested (hms : r.exhaustiveMembers d = some ms) (hp : p.TestedAs d ms declared fs)
    (hdeclared : n.declared = declared) (hty : n.ty = d ∨ ∃ ts, d.Complement ms ts n.ty) : n.base = d := by
  have hd := Ty.optionInner_of_closed hms
  unfold base
  rw [hdeclared]
  cases hp with
  | declared => rw [hd]
  | present hoption =>
    have hpresent : n.ty.optionInner = none := by
      rcases hty with hty | ⟨ts, hty⟩
      · rw [hty, hd]
      · exact hty.optionInner hms hoption
    rw [hpresent]
    rfl

theorem Sifts.refine (hms : r.exhaustiveMembers d = some ms) (hnodup : ms.Nodup)
    (hp : p.TestedAs d ms declared fs) (h : n.Sifts declared d ms) (t : Ty) :
    (n.refine r (.isNot t)).Sifts declared d ms := by
  refine ⟨h.declared, Ty.pairwise_insertSorted t h.ordered, .inr ?_⟩
  have hbase : base { n with excluded := Ty.insertSorted t n.excluded } = d :=
    base_of_tested hms hp h.declared (h.ty.imp (·.2) fun hty => ⟨_, hty⟩)
  have hmembers : r.exhaustiveMembers
      (base { n with excluded := Ty.insertSorted t n.excluded }) = some ms := hbase.symm ▸ hms
  have hremaining := complement_remaining hmembers hnodup
  rw [hbase] at hremaining
  refine hremaining fun hunion m hm k hk hout hkout hne => ?_
  -- Members that are left now were left before, so an interface was still read as itself.
  rcases h.ty with ⟨-, hty⟩ | hty
  · exact hty
  · have hbefore {m : Ty} (hout : m ∉ Ty.insertSorted t n.excluded) : m ∉ n.excluded :=
      fun hmem => hout (Ty.mem_insertSorted.mpr (.inr hmem))
    simpa [hunion] using hty.several m hm k hk (hbefore hout) (hbefore hkout) hne

end Narrowing

namespace Layer

variable {r : Registry} {l : Layer} {p : Path} {declared d : Ty} {ms ts : List Ty} {fs : List FlowFact}

theorem get_erase_self (l : Layer) (p : Path) : (l.erase p).get p = none := by
  rw [get, List.lookup_eq_none_iff]
  intro e he
  have hne : e.1 ≠ p := bne_iff_ne.mp (List.mem_filter.mp he).2
  exact bne_iff_ne.mpr hne.symm

theorem view_set (l : Layer) (p : Path) (n : Narrowing) : (l.set p n).view p n.declared = n := by
  unfold set
  split
  · next htrivial =>
    obtain ⟨declared, ty, excluded⟩ := n
    obtain ⟨hty, hexcluded⟩ := Bool.and_eq_true_iff.mp htrivial
    cases eq_of_beq hty
    cases List.isEmpty_iff.mp hexcluded
    simp [view, get_erase_self, Narrowing.unrefined]
  · simp [view, get]

theorem view_apply (l : Layer) (f : FlowFact) :
    (l.apply r f).view f.path f.declared = (l.view f.path f.declared).refine r f.fact := by
  have hdeclared : ((l.view f.path f.declared).refine r f.fact).declared = f.declared := by
    rw [Narrowing.declared_refine, declared_view]
  have hset := l.view_set f.path ((l.view f.path f.declared).refine r f.fact)
  rwa [hdeclared] at hset

theorem get_of_view {d : Ty} (h : (l.view p d).excluded ≠ []) : l.get p = some (l.view p d) := by
  unfold view at h ⊢
  split
  · next n hn =>
    split
    · exact hn
    · next hne => simp [hn, hne, Narrowing.unrefined] at h
  · next hnone => simp [hnone, Narrowing.unrefined] at h

theorem sifts_start (hp : p.TestedAs d ms declared fs) (hnone : l.get p = none) :
    ((l.applyAll r fs).view p declared).Sifts declared d ms ∧
      ((l.applyAll r fs).view p declared).excluded = [] := by
  have hview (t : Ty) : l.view p t = .unrefined t := by simp [view, hnone]
  have hstart : (l.applyAll r fs).view p declared = ⟨declared, d, []⟩ := by
    cases hp with
    | declared => exact hview _
    | present =>
      have happly := l.view_apply (r := r) ⟨p, .option d, .notNone⟩
      rwa [hview] at happly
  rw [hstart]
  exact ⟨⟨rfl, .nil, .inl ⟨rfl, rfl⟩⟩, rfl⟩

theorem sifts_ruleOut (hms : r.exhaustiveMembers d = some ms) (hnodup : ms.Nodup)
    (hp : p.TestedAs d ms declared fs) (h : (l.view p declared).Sifts declared d ms) (ts : List Ty) :
    ((l.applyAll r (FlowFact.ruleOut p declared ts)).view p declared).Sifts declared d ms ∧
      ∀ t, t ∈ ((l.applyAll r (FlowFact.ruleOut p declared ts)).view p declared).excluded ↔
        t ∈ ts ∨ t ∈ (l.view p declared).excluded := by
  induction ts generalizing l with
  | nil => exact ⟨h, fun t => by simp [FlowFact.ruleOut, applyAll]⟩
  | cons t ts ih =>
    have hview := l.view_apply (r := r) ⟨p, declared, .isNot t⟩
    obtain ⟨hsifts, hmem⟩ := ih (l := l.apply r ⟨p, declared, .isNot t⟩) (hview ▸ h.refine hms hnodup hp t)
    refine ⟨hsifts, fun u => (hmem u).trans ?_⟩
    rw [hview, List.mem_cons, or_assoc, or_left_comm]
    exact or_congr_right Ty.mem_insertSorted

theorem complements_ruleOut (hms : r.exhaustiveMembers d = some ms) (hnodup : ms.Nodup)
    (hp : p.TestedAs d ms declared fs) (hnone : l.get p = none) (hts : ts ≠ []) :
    ∃ n, (l.applyAll r (fs ++ FlowFact.ruleOut p declared ts)).get p = some n ∧
      n.Complements declared d ms ts := by
  obtain ⟨hstart, hempty⟩ := sifts_start (r := r) hp hnone
  obtain ⟨hsifts, hmem⟩ := sifts_ruleOut hms hnodup hp hstart ts
  simp only [hempty, List.not_mem_nil, or_false] at hmem
  rw [applyAll, List.foldl_append]
  change ∃ n, ((l.applyAll r fs).applyAll r (FlowFact.ruleOut p declared ts)).get p = some n ∧ _
  generalize (l.applyAll r fs).applyAll r (FlowFact.ruleOut p declared ts) = m at hsifts hmem ⊢
  obtain ⟨t, ht⟩ := List.exists_mem_of_ne_nil ts hts
  have hexcluded : (m.view p declared).excluded ≠ [] := List.ne_nil_of_mem ((hmem t).mpr ht)
  have hty : d.Complement ms (m.view p declared).excluded (m.view p declared).ty :=
    hsifts.ty.resolve_left fun h => hexcluded h.1
  exact ⟨_, get_of_view hexcluded, hsifts.declared, hsifts.ordered, hmem, hty.congr fun t => (hmem t).symm⟩

theorem negative_facts (hms : r.exhaustiveMembers d = some ms) (hnodup : ms.Nodup)
    (hp : p.TestedAs d ms declared fs) (hnone : l.get p = none) (hts : ts ≠ []) :
    (∃ n, (l.applyAll r (fs ++ FlowFact.ruleOut p declared ts)).get p = some n ∧
        n.Complements declared d ms ts) ∧
      ∀ us, (∀ t, t ∈ us ↔ t ∈ ts) →
        (l.applyAll r (fs ++ FlowFact.ruleOut p declared us)).get p =
          (l.applyAll r (fs ++ FlowFact.ruleOut p declared ts)).get p := by
  obtain ⟨n, hn, hcomplements⟩ := complements_ruleOut hms hnodup hp hnone hts
  refine ⟨⟨n, hn, hcomplements⟩, fun us hus => ?_⟩
  obtain ⟨t, ht⟩ := List.exists_mem_of_ne_nil ts hts
  obtain ⟨k, hk, hother⟩ := complements_ruleOut hms hnodup hp hnone (List.ne_nil_of_mem ((hus t).mpr ht))
  rw [hn, hk]
  exact congrArg some ((hother.congr fun t => (hus t).symm).unique hcomplements)

def choices : List Ty := [.prim .i32, .prim .bool, .prim .string]

theorem negative_facts_present :
    Path.TestedAs ⟨"x", []⟩ (.union choices) choices (.option (.union choices))
        [⟨⟨"x", []⟩, .option (.union choices), .notNone⟩] ∧
      ∃ n, (({} : Layer).applyAll {} ([⟨⟨"x", []⟩, .option (.union choices), .notNone⟩] ++
          FlowFact.ruleOut ⟨"x", []⟩ (.option (.union choices)) [.prim .string, .prim .i32, .prim .string])).get
            ⟨"x", []⟩ = some n ∧
        n.Complements (.option (.union choices)) (.union choices) choices
          [.prim .string, .prim .i32, .prim .string] := by
  have hleaf : ∀ t ∈ choices, t.Canonical := by
    simp only [choices, List.forall_mem_cons]
    exact ⟨.leaf True.intro rfl, .leaf True.intro rfl, .leaf True.intro rfl, nofun⟩
  have hcanonical : (Ty.union choices).Canonical := Ty.Canonical.mkUnion hleaf
  have hp : Path.TestedAs ⟨"x", []⟩ (.union choices) choices (.option (.union choices)) _ :=
    .of_canonical (r := {}) hcanonical rfl (by decide)
  exact ⟨hp, (negative_facts rfl (by decide) hp rfl (by decide)).1⟩

end Layer

end TypeFlow
