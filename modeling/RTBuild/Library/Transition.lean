import Mathlib

namespace RTBuild.Library.Transition

open Relation

variable {σ : Type} {step : σ → σ → Prop} {P : σ → Prop}

theorem preserved (hstep : ∀ s t, P s → step s t → P t) {s t : σ} (h : ReflTransGen step s t)
    (hs : P s) : P t := by
  induction h with
  | refl => exact hs
  | tail _ hlast ih => exact hstep _ _ ih hlast

end RTBuild.Library.Transition
