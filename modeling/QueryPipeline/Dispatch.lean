import QueryPipeline.Clause.Basic

/-!
# Dispatch

Choosing a handler by the kind of a node or clause. A kind without a handler of its own falls back
to the common one; with neither present the choice fails. Nodes that are parts of clauses never
have a handler of their own, and an unknown kind is a defect whatever the handlers are.
-/

namespace QueryPipeline

/-- Handlers by kind, and perhaps one for all other kinds. -/
structure Handlers (κ ν α : Type) where
  on : κ → Option (ν → α)
  otherwise : Option (ν → α)

namespace Handlers

variable {κ ν α : Type}

/-- Hands a node to the handler of its kind, else to the common one. -/
def handle (h : Handlers κ ν α) (own : Option (ν → α)) (unsupported : ν → Failure) (node : ν) :
    Outcome α :=
  match own, h.otherwise with
  | some f, _ => .ok (f node)
  | none, some f => .ok (f node)
  | none, none => .error (unsupported node)

end Handlers

/-- The defect of a node that no handler takes. -/
def Expr.unsupported (e : Expr) : Failure :=
  .defect ("Unsupported expression type \"" ++ e.kindName ++ "\"")

/-- Hands an expression to the handler of its kind. -/
def Expr.dispatch {α : Type} (h : Handlers NodeKind Expr α) (unsupported : Expr → Failure) :
    Expr → Outcome α
  | .foreign _ source => .error (unexpected source)
  | e => h.handle (e.kind?.bind fun k => if k.isPartOfClause then none else h.on k) unsupported e

/-- The defect of a clause that no handler takes. -/
def Clause.unsupported (c : Clause) : Failure :=
  .defect ("Unsupported clause type \"" ++ c.kindName ++ "\"")

/-- Hands a clause to the handler of its kind. -/
def Clause.dispatch {α : Type} (h : Handlers ClauseKind Clause α) (unsupported : Clause → Failure) :
    Clause → Outcome α
  | .foreign _ source => .error (unexpected source)
  | c => h.handle (c.kind?.bind h.on) unsupported c

end QueryPipeline
