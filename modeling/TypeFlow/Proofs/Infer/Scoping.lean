import TypeFlow.Infer.Expr
import TypeFlow.Proofs.Syntax.Nodes

namespace TypeFlow

namespace BodyContext

variable (c : BodyContext) (types : Expr → Option Ty)

def writtenType (w : Written) : Ty :=
  match c.registry.resolve c.generics w with
  | .ok t => t
  | .error _ => .error

def letType (ty : Option Written) (init : Expr) : Ty :=
  match ty with
  | some w => c.writtenType w
  | none =>
    match types init with
    | some t => if t.isUntyped then .error else t
    | none => .error

def payloadOf : Ty → Ty
  | .option t => t
  | _ => .error

def guardType (value : Expr) : Ty := ((types value).map payloadOf).getD .error

def afterStmt (σ : Scope) : Stmt → Scope
  | .bind _ x m w init => σ.bind x ⟨c.letType types w init, m⟩
  | _ => σ

def stmtParts : Scope → List Stmt → List (Scope × Expr)
  | _, [] => []
  | σ, s :: ss => s.exprs.map (σ, ·) ++ stmtParts (c.afterStmt types σ s) ss

def guardScope (σ : Scope) (x : String) (value : Expr) : Scope :=
  σ.child.bind x ⟨guardType types value, false⟩

def partsIn (σ : Scope) : Expr → List (Scope × Expr)
  | .guardBind _ x v t e => [(σ, v), (guardScope types σ x v, t), (σ, e)]
  | .block _ ss e => c.stmtParts types σ.child ss ++ [(ss.foldl (c.afterStmt types) σ.child, e)]
  | e => e.parts.map (σ, ·)

inductive Within : Scope → Expr → Scope → Expr → Prop
  | here (σ : Scope) (e : Expr) : Within σ e σ e
  | inside {σ τ υ : Scope} {e p n : Expr} : (τ, p) ∈ c.partsIn types σ e → Within τ p υ n → Within σ e υ n

theorem map_snd_stmtParts (σ : Scope) (ss : List Stmt) :
    (c.stmtParts types σ ss).map (·.2) = ss.flatMap (·.exprs) := by
  induction ss generalizing σ with
  | nil => rfl
  | cons s ss ih => simp [stmtParts, ih, Function.comp_def]

theorem map_snd_partsIn (σ : Scope) (e : Expr) : (c.partsIn types σ e).map (·.2) = e.parts := by
  cases e <;> simp [partsIn, Expr.parts, map_snd_stmtParts, Function.comp_def]

end BodyContext

end TypeFlow
