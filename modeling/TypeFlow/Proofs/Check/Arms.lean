import TypeFlow.Proofs.Check.WellFormed
import TypeFlow.Proofs.Infer.Run

namespace TypeFlow

theorem Registry.Sound.listsInterfaces {r : Registry} {p : Prop} {o : Outline} (h : r.Sound p o) :
    r.ListsInterfaces := by
  intro info hinfo t ht
  obtain ⟨d, hd⟩ := List.mem_iff_getElem?.mp hinfo
  obtain ⟨i, args, ds, rfl, -⟩ := h.listed hd ht
  rfl

namespace Infer

theorem assignableIn_branchType {c : BodyContext} (hc : c.registry.ListsInterfaces) (span : Span) (ts : List Ty)
    (x : Option Ty) (s : BodyState) :
    let t := (branchType span ts x true).value c s
    (∀ u ∈ ts, c.registry.assignableIn c.bounds u t = true) ∧
      (((branchType span ts x true).after c s).errors = s.errors →
        c.registry.joinAll c.ids ts = .ok t ∨ x = some t) := by
  have hjoin : branchType span ts x true = joinArms span ts x := rfl
  rw [hjoin]
  dsimp only
  rcases run_joinArms c span ts x with ⟨t, ht, hrun⟩ | ⟨e, -, hrun⟩
  · obtain ⟨hvalue, hafter, -⟩ := hrun s
    rw [hvalue, hafter]
    rcases BodyContext.cases_of_joinArms ht with hjoined | ⟨hx, hfits⟩
    · exact ⟨fun u hu => Registry.assignableIn_joinAll hc hjoined hu, fun _ => .inl hjoined⟩
    · exact ⟨hfits, fun _ => .inr hx⟩
  · obtain ⟨hvalue, hafter, -⟩ := hrun s
    rw [hvalue, hafter]
    refine ⟨fun u _ => c.registry.assignableIn_error c.bounds u, fun hsilent => ?_⟩
    have hlonger : s.errors ++ [⟨span, .ofJoin e⟩] = s.errors := hsilent
    simp at hlonger

end Infer

namespace Module

theorem listsInterfaces_check (m : Module) (config : CheckConfig) : (m.check config).registry.ListsInterfaces := by
  obtain ⟨o, hsound⟩ := m.number.1.sound_registered
  exact hsound.registry.listsInterfaces

end Module

open Infer

theorem arms_assignable :
    (∀ r : Registry, r.ListsInterfaces → ∀ ids ts t, r.joinAll ids ts = .ok t →
        ∀ u ∈ ts, r.assignable u t = true) ∧
      (∀ c : BodyContext, c.registry.ListsInterfaces → ∀ span ts x s,
        let t := (branchType span ts x true).value c s
        (∀ u ∈ ts, c.registry.assignableIn c.bounds u t = true) ∧
          (((branchType span ts x true).after c s).errors = s.errors →
            c.registry.joinAll c.ids ts = .ok t ∨ x = some t)) ∧
      ∀ (m : Module) (config : CheckConfig), (m.check config).registry.ListsInterfaces :=
  ⟨fun _ hr _ _ _ h _ hu => Registry.assignableIn_joinAll hr h hu,
    fun _ hc => assignableIn_branchType hc, Module.listsInterfaces_check⟩

def showing : BodyContext where
  registry := Registry.streams
  generics := [⟨"T", 0, .type [.interface 0 []] none⟩]

theorem arms_assignable_showing :
    let shown := Ty.interface 0 []
    let arms := [Ty.param "T" 0, .named 3 []]
    Registry.streams.ListsInterfaces ∧
      Registry.streams.joinAll Registry.streamIds [.named 4 [], .named 3 [], .untypedNone] = .ok (.option shown) ∧
      Registry.streams.assignable (.named 4 []) (.option shown) = true ∧
      (branchType {} arms (some shown) true).value showing {} = shown ∧
      ((branchType {} arms (some shown) true).after showing {}).errors = [] ∧
      showing.registry.assignableIn showing.bounds (.param "T" 0) shown = true := by
  intro shown arms
  have hlists : Registry.streams.ListsInterfaces := by decide
  have hjoin : Registry.streams.joinAll Registry.streamIds [.named 4 [], .named 3 [], .untypedNone] = .ok (.option shown) := by rfl
  have hvalue : (branchType {} arms (some shown) true).value showing {} = shown := by rfl
  obtain ⟨hjoined, hbranch, -⟩ := arms_assignable
  have hfits := (hbranch showing hlists {} arms (some shown) {}).1
  rw [hvalue] at hfits
  exact ⟨hlists, hjoin, hjoined _ hlists _ _ _ hjoin _ (by simp), hvalue, by rfl, hfits _ (by simp [arms])⟩

end TypeFlow
