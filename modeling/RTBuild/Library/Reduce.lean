import Mathlib

namespace RTBuild.Library.Reduce

variable {α V : Type}

/-- How a parallel reduction cuts its items into chunks and joins what they give. -/
inductive Tree (α : Type)
  | identity
  | chunk (items : List α)
  | join (left right : Tree α)

namespace Tree

def items : Tree α → List α
  | identity => []
  | chunk items => items
  | join left right => left.items ++ right.items

def eval (identity : V) (func : List α → V) (reduction : V → V → V) : Tree α → V
  | .identity => identity
  | chunk items => func items
  | join left right => reduction (left.eval identity func reduction) (right.eval identity func reduction)

/-- What a chunk gives and a join keeps holds of the whole. -/
theorem eval_induct {identity : V} {func : List α → V} {reduction : V → V → V} {P : List α → V → Prop}
    (hidentity : P [] identity) (hfunc : ∀ items, P items (func items))
    (hreduction : ∀ l l' v v', P l v → P l' v' → P (l ++ l') (reduction v v')) (t : Tree α) :
    P t.items (t.eval identity func reduction) := by
  induction t with
  | identity => exact hidentity
  | chunk items => exact hfunc items
  | join left right ihl ihr => exact hreduction _ _ _ _ ihl ihr

end Tree

end RTBuild.Library.Reduce
