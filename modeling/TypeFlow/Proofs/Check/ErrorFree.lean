import TypeFlow.Proofs.Check.Units

namespace TypeFlow

open Registration (Silent Clean)

theorem Registry.Clean.supplies {ok : Ty → Prop} [Ty.Common ok] {r : Registry} (h : r.Clean ok fun _ => False) :
    r.Supplies fun _ => Ty.Everywhere ok where
  closed _ := (Ty.Common.byHead ok).closed
  function sig hs := Signature.all_of_types (h.function sig hs).1
  method hm _ := Signature.all_of_types (h.method _ hm)
  receiver {d info} _ := by
    have hargs : ∀ a ∈ info.generics.map (·.ty), a.Everywhere ok :=
      List.forall_mem_map.mpr fun g _ => Ty.everywhere_param g.name g.index
    unfold DeclInfo.instantiate
    split
    · exact .intro (Ty.Common.of_typed rfl rfl) hargs
    · exact .intro (Ty.Common.of_typed rfl rfl) hargs

namespace Module

variable {m : Module} {config : CheckConfig}

theorem silent_registered {count : Nat} {quiet : BodyState → Prop}
    (h : (m.checkNumbered count config).errors = []) (hq : ∀ b ∈ m.registered.consts, quiet b) :
    m.registered.Silent quiet :=
  ⟨(List.append_eq_nil_iff.mp h).1, fun b hb => ⟨errors_of_mem (List.mem_append_left _ hb) h, hq b hb⟩⟩

theorem nodup_const {c : ConstItem} (h : c ∈ m.number.1.consts) : c.value.ids.Nodup := by
  have hids := m.counts_number.nodup
  rw [ids, List.append_assoc] at hids
  exact (List.nodup_flatMap.mp (List.nodup_append.mp hids).1).1 c h

theorem clean_registered (hm : m.Complete) (hv : ∀ f ∈ m.functions, f.variadic = true → f.params ≠ [])
    (h : (m.check config).errors = []) :
    m.number.1.registered.Clean (· ≠ .error) (fun _ => False) Ty.ErrorFree := by
  have hclean := (Register.clean_declarations (· ≠ .error) (fun _ => True) m.number.1 {}).2
    (silent_registered h fun _ _ => True.intro) ⟨?_, fun c hc => ?_, fun f hf hvariadic hnil => ?_⟩
  · refine ⟨hclean.registry, fun b hb => (hclean.const b hb).imp fun t ht => ht.good_of fun huntyped => ?_⟩
    exact Ty.errorFree_of_isUntyped huntyped
  · exact ⟨⟨nofun, nofun, nofun, nofun, nofun⟩, nofun⟩
  · exact ⟨.inl (hm.number.const c hc), nodup_const hc, fun _ _ _ _ _ _ => Ty.errorFree_of_isUntyped⟩
  · obtain ⟨g, hg, k, rfl⟩ := mem_numberFunctions hf
    exact absurd hnil (hv g hg hvariadic)

theorem errorFree_check (m : Module) (config : CheckConfig) (hm : m.Complete)
    (hv : ∀ f ∈ m.functions, f.variadic = true → f.params ≠ []) (h : (m.check config).errors = []) :
    (∀ t, (m.check config).Records t → t.ErrorFree) ∧
      ∀ t ∈ (m.check config).registry.storedTypes, t.ErrorFree := by
  have hclean := clean_registered hm hv h
  refine ⟨fun t ht => ?_, hclean.registry.storedTypes⟩
  have hrecords : ∀ b ∈ m.number.1.registered.consts ++ m.number.1.states config, b.Records Ty.ErrorFree := by
    refine List.forall_mem_append.mpr ⟨hclean.const, fun b hb => ?_⟩
    obtain ⟨j, hj⟩ := BodyJob.exists_job hb
    have hmem : j ∈ m.number.1.jobs := (List.of_mem_zip hj).1
    have hholds := BodyJob.holds_ofModule hclean.registry.supplies m.number.1 j hmem
    have L := hclean.registry.laws (c := j.context (m.check config).registry config.policy) hholds.ret
    refine (checked_check (fun _ => True) hj (.inr h) L (fun hne => absurd h hne) hholds.param
      (fun _ _ => True.intro) (.inl ?_)).records
    exact BodyJob.complete_of_mem_ofModule hm.number hmem
  obtain ⟨b, hb, ⟨i, hi⟩ | ⟨e, he, ht⟩⟩ := recorded_of_records_checkNumbered ht
  · exact (hrecords b hb).type _ hi
  · exact (hrecords b hb).inst _ he t ht

def firstOfMany : Module where
  structs := [⟨"Box", [⟨"T", .type [] none, {}⟩], [⟨"value", .named "T" [], {}⟩], [], {}⟩]
  consts := [⟨"LIMIT", none, .int {} 3, {}⟩]
  functions := [
    ⟨"main", [], [], false, some (.named "i32" []), .call {} "first" [] [.int {} 1, .int {} 2], {}⟩,
    ⟨"first", [⟨"T", .type [] none, {}⟩],
      [⟨"x", .named "T" [], false, {}⟩, ⟨"rest", .named "T" [], false, {}⟩], true, some (.named "T" []),
      .ident {} "x", {}⟩]

theorem complete_firstOfMany : firstOfMany.Complete where
  const := List.forall_mem_singleton.mpr ⟨⟨nofun, nofun⟩, rfl⟩
  function := by
    have hliteral (n : Int64) : (Expr.int {} n).Complete := ⟨nofun, nofun⟩
    refine List.forall_mem_cons.mpr ⟨⟨?_, ?_⟩, List.forall_mem_singleton.mpr ⟨nofun, nofun⟩⟩
    · exact List.forall_mem_cons.mpr ⟨rfl, List.forall_mem_singleton.mpr rfl⟩
    · exact List.forall_mem_cons.mpr ⟨hliteral 1, List.forall_mem_singleton.mpr (hliteral 2)⟩
  method := nofun

theorem errorFree_firstOfMany : (firstOfMany.check {}).errors = [] ∧
    (∃ e ∈ (firstOfMany.check {}).insts, e.2.typeArgs = [.prim .i32]) ∧
    Ty.param "T" 0 ∈ (firstOfMany.check {}).registry.storedTypes ∧
    (∀ t, (firstOfMany.check {}).Records t → t.ErrorFree) ∧
    ∀ t ∈ (firstOfMany.check {}).registry.storedTypes, t.ErrorFree := by
  have h : (firstOfMany.check {}).errors = [] := by decide +kernel
  have hv : ∀ f ∈ firstOfMany.functions, f.variadic = true → f.params ≠ [] :=
    List.forall_mem_cons.mpr ⟨nofun, List.forall_mem_singleton.mpr fun _ => List.cons_ne_nil _ _⟩
  exact ⟨h, by decide +kernel, by decide +kernel, errorFree_check firstOfMany {} complete_firstOfMany hv h⟩

end Module

end TypeFlow
