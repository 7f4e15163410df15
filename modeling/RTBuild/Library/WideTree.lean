import Mathlib

namespace RTBuild.Library

/-- A tree whose nodes have a fixed number of places for children, each with a
mask of its own and a box for every place. -/
inductive WideTree (w : Nat) (M B P : Type)
  | absent
  | leaf (prims : List P)
  | node (mask : M) (box : Fin w → B) (child : Fin w → WideTree w M B P)

namespace WideTree

variable {w : Nat} {M B P Q : Type}

def prims : WideTree w M B P → List P
  | absent => []
  | leaf list => list
  | node _ _ child => (List.finRange w).flatMap (fun i => (child i).prims)

def map (f : P → Q) : WideTree w M B P → WideTree w M B Q
  | absent => absent
  | leaf list => leaf (list.map f)
  | node mask box child => node mask box (fun i => (child i).map f)

@[simp] theorem map_absent (f : P → Q) : (absent : WideTree w M B P).map f = absent := rfl

theorem prims_map (f : P → Q) (t : WideTree w M B P) : (t.map f).prims = t.prims.map f := by
  induction t with
  | absent => rfl
  | leaf list => rfl
  | node mask box child ih => simp [map, prims, List.map_flatMap, ih]

theorem eq_absent_of_map {f : P → Q} {t : WideTree w M B P} (h : absent = t.map f) : t = absent := by
  cases t with
  | absent => rfl
  | leaf list => cases h
  | node mask box child => cases h

theorem eq_leaf_of_map {f : P → Q} {t : WideTree w M B P} {list : List Q} (h : leaf list = t.map f) :
    ∃ list', t = leaf list' ∧ list = list'.map f := by
  cases t with
  | absent => cases h
  | leaf list' => exact ⟨list', rfl, leaf.inj h⟩
  | node mask box child => cases h

theorem eq_node_of_map {f : P → Q} {t : WideTree w M B P} {mask : M} {box : Fin w → B}
    {child : Fin w → WideTree w M B Q} (h : node mask box child = t.map f) :
    ∃ child', t = node mask box child' ∧ child = fun i => (child' i).map f := by
  cases t with
  | absent => cases h
  | leaf list => cases h
  | node mask' box' child' =>
      injection h with hmask hbox hchild
      subst hmask hbox
      exact ⟨child', rfl, hchild⟩

def Forall (R : M → (Fin w → B) → (Fin w → WideTree w M B P) → Prop) : WideTree w M B P → Prop
  | absent => True
  | leaf _ => True
  | node mask box child => R mask box child ∧ ∀ i, (child i).Forall R

/-- The mask of every node summarizes all primitives below it. -/
def Masked (summary : List P → M) : WideTree w M B P → Prop :=
  Forall (fun mask box child => mask = summary (node mask box child).prims)

def Bounded (bound : List P → B) : WideTree w M B P → Prop :=
  Forall (fun _ box child => ∀ i, child i ≠ absent → box i = bound (child i).prims)

def ofList (mask : M) (box : Fin w → B) (children : List (WideTree w M B P)) : WideTree w M B P :=
  node mask box (fun i => children.getD i absent)

section ofList

variable {mask : M} {box : Fin w → B} {children : List (WideTree w M B P)}

theorem flatMap_getD {α : Type} (l : List α) (d : α) (f : α → List P) (hd : f d = [])
    (hlength : l.length ≤ w) :
    (List.finRange w).flatMap (fun i : Fin w => f (l.getD i d)) = l.flatMap f := by
  induction l generalizing w with
  | nil => simp [hd]
  | cons x l ih =>
      rw [List.length_cons] at hlength
      obtain ⟨w, rfl⟩ := Nat.exists_eq_succ_of_ne_zero
        (Nat.ne_of_gt (Nat.lt_of_lt_of_le (Nat.succ_pos _) hlength))
      rw [List.finRange_succ, List.flatMap_cons, List.flatMap_map, List.flatMap_cons]
      congr 1
      exact ih (Nat.le_of_succ_le_succ hlength)

theorem prims_ofList (h : children.length ≤ w) :
    (ofList mask box children).prims = children.flatMap prims :=
  flatMap_getD children absent prims rfl h

theorem map_ofList (f : P → Q) :
    (ofList mask box children).map f = ofList mask box (children.map (map f)) := by
  rw [ofList, map, ofList]
  congr 1
  funext i
  rw [← map_absent f, List.getD_map]

theorem forall_getD {R : WideTree w M B P → Prop} (habsent : R absent)
    (h : ∀ child ∈ children, R child) (i : Fin w) : R (children.getD i absent) := by
  by_cases hi : i.val < children.length
  · rw [List.getD_eq_getElem _ _ hi]
    exact h _ (List.getElem_mem hi)
  · rw [List.getD_eq_default _ _ (Nat.le_of_not_lt hi)]
    exact habsent

theorem masked_ofList {summary : List P → M} (hlength : children.length ≤ w)
    (hmask : mask = summary (children.flatMap prims)) (h : ∀ child ∈ children, child.Masked summary) :
    (ofList mask box children).Masked summary :=
  ⟨hmask.trans (congrArg summary (prims_ofList hlength).symm), forall_getD trivial h⟩

theorem bounded_ofList {bound : List P → B} (hbox : ∀ (i : Fin w) (hi : i.val < children.length),
    box i = bound children[i.val].prims) (h : ∀ child ∈ children, child.Bounded bound) :
    (ofList mask box children).Bounded bound := by
  refine ⟨fun i hne => ?_, forall_getD trivial h⟩
  by_cases hi : i.val < children.length
  · have hchild : children.getD i absent = children[i.val] := List.getD_eq_getElem _ _ hi
    exact (hbox i hi).trans (congrArg (fun t => bound t.prims) hchild.symm)
  · exact absurd (List.getD_eq_default _ _ (Nat.le_of_not_lt hi)) hne

end ofList

section visit

variable (enter : M → Bool) (meets : B → Bool) (accept : P → Bool)

/-- What a search finds that goes on below a node and into a child only where it has to. -/
def visit : WideTree w M B P → List P
  | absent => []
  | leaf list => list.filter accept
  | node mask box child =>
      if enter mask then
        (List.finRange w).flatMap (fun i => if meets (box i) then (child i).visit else [])
      else []

variable {enter meets accept}

theorem flatMap_sublist {α : Type} {l : List α} {f g : α → List P} (h : ∀ a, (f a).Sublist (g a)) :
    (l.flatMap f).Sublist (l.flatMap g) := by
  induction l with
  | nil => exact .slnil
  | cons a l ih => exact (h a).append ih

theorem visit_sublist (t : WideTree w M B P) :
    (t.visit enter meets accept).Sublist (t.prims.filter accept) := by
  induction t with
  | absent => exact .slnil
  | leaf list => exact .refl _
  | node mask box child ih =>
      rw [visit, prims, List.filter_flatMap]
      split
      · apply flatMap_sublist
        intro i
        split
        · exact ih i
        · exact List.nil_sublist _
      · exact List.nil_sublist _

def Admits (enter : M → Bool) (meets : B → Bool) (hit : P → Bool) : WideTree w M B P → Prop :=
  Forall (fun mask box child => ∀ i, ∀ p ∈ (child i).prims, hit p = true →
    enter mask = true ∧ meets (box i) = true)

theorem filter_eq_nil {hit : P → Bool} {l : List P} (h : ∀ p ∈ l, hit p = true → False) :
    l.filter hit = [] :=
  List.filter_eq_nil_iff.2 (fun p hp hhit => h p hp hhit)

theorem filter_sublist_visit {hit : P → Bool} (haccept : ∀ p, hit p = true → accept p = true)
    {t : WideTree w M B P} (h : t.Admits enter meets hit) :
    (t.prims.filter hit).Sublist (t.visit enter meets accept) := by
  induction t with
  | absent => exact .slnil
  | leaf list => exact List.monotone_filter_right list haccept
  | node mask box child ih =>
      obtain ⟨hnode, hchild⟩ := h
      rw [prims, visit, List.filter_flatMap]
      split
      · apply flatMap_sublist
        intro i
        split
        · exact ih i (hchild i)
        next hmeets =>
          rw [filter_eq_nil (fun p hp hhit => hmeets (hnode i p hp hhit).2)]
      next henter =>
        have hnil : ∀ i, (child i).prims.filter hit = [] := fun i =>
          filter_eq_nil (fun p hp hhit => henter (hnode i p hp hhit).1)
        simp [hnil]

end visit

end WideTree

end RTBuild.Library
