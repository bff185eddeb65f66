import TypeFlow.Proofs.Ty.Closed
import TypeFlow.Typing.Assign

namespace TypeFlow

def Ty.isBare : Ty → Bool
  | never | untypedNone | untypedNil | named .. => true
  | _ => false

namespace Registry

variable {r : Registry} {b : Bounds} {t u i : Ty}

theorem assignableIn_error (r : Registry) (b : Bounds) (t : Ty) :
    r.assignableIn b t .error = true := by
  simp [assignableIn, assignableFlat, Ty.isError]

theorem assignableIn_of_flat (h : r.assignableFlat b t u = true) : r.assignableIn b t u = true := by
  unfold assignableIn
  split
  · rw [h, Bool.true_or]
  · rw [h, Bool.true_or]
  · exact h

theorem assignableIn_self (r : Registry) (b : Bounds) (t : Ty) : r.assignableIn b t t = true :=
  assignableIn_of_flat (by simp [assignableFlat])

theorem assignableIn_of_direct (h : r.assignableDirect b t u = true) : r.assignableIn b t u = true :=
  assignableIn_of_flat (by simp [assignableFlat, h])

theorem never_assignableIn (r : Registry) (b : Bounds) (u : Ty) : r.assignableIn b .never u = true :=
  assignableIn_of_flat (by simp [assignableFlat, Ty.isNever])

theorem error_assignableIn (r : Registry) (b : Bounds) (u : Ty) : r.assignableIn b .error u = true :=
  assignableIn_of_flat (by simp [assignableFlat, Ty.isError])

theorem assignableIn_option (h : r.assignableIn b t u = true) : r.assignableIn b t (.option u) = true := by
  rw [assignableIn, h, Bool.or_true]

theorem assignableIn_of_mem_interfacesOf (h : i ∈ r.interfacesOf t) (hi : i.isInterface = true) :
    r.assignableIn b t i = true := by
  cases i <;> cases hi
  cases t <;> simp only [interfacesOf, List.not_mem_nil, List.mem_singleton] at h
  case named d args => exact assignableIn_of_direct (List.contains_iff_mem.mpr h)
  case interface d args => exact h ▸ assignableIn_self r b _

theorem assignableIn_bare (hu : u.isBare = true) (h : r.assignableIn b t u = true) :
    t = u ∨ t = .never ∨ t = .error := by
  have hflat : r.assignableFlat b t u = true := by
    cases u <;> first | exact h | cases hu
  have hdirect : r.assignableDirect b t u = false := by
    cases u <;> first | rfl | cases hu
  have herror : u.isError = false := by
    cases u <;> first | rfl | cases hu
  simp only [assignableFlat, hdirect, herror, Bool.or_false, Bool.or_eq_true, beq_iff_eq] at hflat
  rcases hflat with (rfl | hnever) | herror
  · exact .inl rfl
  · exact .inr (.inl (Ty.eq_never_of_isNever hnever))
  · exact .inr (.inr (Ty.eq_error_of_isError herror))

end Registry

end TypeFlow
