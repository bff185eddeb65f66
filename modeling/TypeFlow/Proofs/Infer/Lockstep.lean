import TypeFlow.Proofs.Infer.Frames
import TypeFlow.Proofs.Infer.Sequential

namespace TypeFlow

def BodyContext.under (c : BodyContext) (p : ErrorPolicy) : BodyContext := { c with policy := p }

structure BodyState.Fresh (s : BodyState) : Prop where
  errors : s.errors = []
  aborted : s.aborted = false

namespace Infer

variable {c : BodyContext} {α β : Type} {x : Infer α}

def Agree (x : Infer α) (c d : BodyContext) (s : BodyState) : Prop :=
  (x.value c s = x.value d s ∧ x.after c s = x.after d s ∧ (x.after c s).Fresh) ∨
    ∃ e, (x.after c s).errors.head? = some e ∧ (x.after d s).errors.head? = some e

theorem Agree.head_eq {d : BodyContext} {s : BodyState} (h : Agree x c d s) :
    (x.after c s).errors.head? = (x.after d s).errors.head? := by
  rcases h with ⟨-, hafter, -⟩ | ⟨e, hc, hd⟩
  · rw [hafter]
  · rw [hc, hd]

structure Lockstep (c : BodyContext) (x : Infer α) : Prop where
  grows : ∀ p s, s.errors <+: (x.after (c.under p) s).errors
  agree : ∀ p q s, s.Fresh → Agree x (c.under p) (c.under q) s

theorem head?_of_prefix {es fs : List CheckError} {e : CheckError} (h : es <+: fs)
    (he : es.head? = some e) : fs.head? = some e := by
  obtain ⟨gs, rfl⟩ := h
  simp [he]

-- Once the runs have parted, each keeps its first error.
theorem Lockstep.bind {f : α → Infer β} (hx : Lockstep c x) (hf : ∀ a, Lockstep c (f a)) :
    Lockstep c (x >>= f) where
  grows p s := (hx.grows p s).trans ((hf _).grows p _)
  agree p q s hs := by
    rcases hx.agree p q s hs with ⟨hvalue, hafter, hfresh⟩ | ⟨e, hp, hq⟩
    · unfold Agree
      rw [value_bind, value_bind, after_bind, after_bind, ← hvalue, ← hafter]
      exact (hf _).agree p q _ hfresh
    · exact .inr ⟨e, head?_of_prefix ((hf _).grows p _) hp, head?_of_prefix ((hf _).grows q _) hq⟩

theorem lockstep_of_silent (h : ∀ p s, x.value (c.under p) s = x.value c s ∧
    x.after (c.under p) s = x.after c s ∧ (x.after c s).errors = s.errors ∧
      (x.after c s).aborted = s.aborted) : Lockstep c x where
  grows p s := by
    obtain ⟨-, hafter, herrors, -⟩ := h p s
    simp [hafter, herrors]
  agree p q s hs := by
    obtain ⟨hp, hafterp, herrors, haborted⟩ := h p s
    obtain ⟨hq, hafterq, -, -⟩ := h q s
    refine .inl ⟨hp.trans hq.symm, hafterp.trans hafterq.symm, ?_⟩
    rw [hafterp]
    exact ⟨herrors.trans hs.errors, haborted.trans hs.aborted⟩

theorem lockstep_pure (a : α) : Lockstep c (pure a) :=
  lockstep_of_silent fun _ _ => ⟨rfl, rfl, rfl, rfl⟩

theorem lockstep_report (span : Span) (cause : Cause) : Lockstep c (report span cause) where
  grows p s := (BodyState.writes_report (c := c.under p) s span cause).errors
  agree p q s hs := by
    have herrors (p : ErrorPolicy) : ((report span cause).after (c.under p) s).errors =
        s.errors ++ [⟨span, cause⟩] := rfl
    exact .inr ⟨⟨span, cause⟩, by simp [herrors, hs.errors], by simp [herrors, hs.errors]⟩

theorem Lockstep.read {f : BodyContext → Infer α} (hf : Lockstep c (f c))
    (hp : ∀ p, f { c with policy := p } = f c) : Lockstep c (read >>= f) := by
  have hvalue (p : ErrorPolicy) (s : BodyState) :
      (MonadReader.read >>= f).value (c.under p) s = (f c).value (c.under p) s := by
    rw [← hp p]
    rfl
  have hafter (p : ErrorPolicy) (s : BodyState) :
      (MonadReader.read >>= f).after (c.under p) s = (f c).after (c.under p) s := by
    rw [← hp p]
    rfl
  refine ⟨fun p s => hafter p s ▸ hf.grows p s, fun p q s hs => ?_⟩
  have hagree := hf.agree p q s hs
  unfold Agree at hagree ⊢
  rwa [hvalue, hvalue, hafter, hafter]

theorem lockstep_joinArms (span : Span) (arms : List Ty) (x : Option Ty) : Lockstep c (joinArms span arms x) := by
  refine Lockstep.read (f := fun d => joined span (d.joinArms arms x)) ?_ fun _ => rfl
  cases c.joinArms arms x with
  | ok t => exact lockstep_pure t
  | error e => exact lockstep_report span _

theorem sequential_lockstep (c : BodyContext) : Sequential c (fun _ => True) fun x => Lockstep c x where
  pure := lockstep_pure
  bind := .bind
  read hp hf := hf.read fun p => hp p c.ids
  look := lockstep_of_silent fun _ _ => ⟨rfl, rfl, rfl, rfl⟩
  isAborted := lockstep_of_silent fun _ _ => ⟨rfl, rfl, rfl, rfl⟩
  report := lockstep_report
  joinArms := lockstep_joinArms
  perform _ := lockstep_of_silent fun _ _ => ⟨rfl, rfl, rfl, rfl⟩
  store _ _ := lockstep_of_silent fun _ _ => ⟨rfl, rfl, rfl, rfl⟩
  recordInst _ _ := lockstep_of_silent fun _ _ => ⟨rfl, rfl, rfl, rfl⟩
  solve _ _ _ := lockstep_of_silent fun _ _ => ⟨rfl, rfl, rfl, rfl⟩
  setDepth _ := lockstep_of_silent fun _ _ => ⟨rfl, rfl, rfl, rfl⟩
  inBranch fs hx := by
    have hpush : Lockstep c (pushBranch fs) := lockstep_of_silent fun _ _ => ⟨rfl, rfl, rfl, rfl⟩
    have hpop : Lockstep c popBranch := lockstep_of_silent fun _ _ => ⟨rfl, rfl, rfl, rfl⟩
    exact hpush.bind fun _ => hx.bind fun _ => hpop.bind fun _ => lockstep_pure _

end Infer

def Child.Lockstep (c : BodyContext) (ch : Child) : Prop := ∀ x used, Infer.Lockstep c (ch.run x used)

def Theory.lockstep (c : BodyContext) : Theory c := { Theory.confined c with runs := Child.Lockstep c }

theorem Expr.lockstep (c : BodyContext) (e : Expr) : e.asChild.Lockstep c :=
  (Infer.sequential_lockstep c).runs (T := .lockstep c) (fun _ => Iff.rfl) (fun _ => True.intro)
    (fun _ => True.intro) (fun _ => True.intro) (fun _ _ _ => .inl True.intro) e

end TypeFlow
