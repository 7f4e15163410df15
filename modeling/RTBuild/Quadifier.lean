import RTBuild.StaticDeque

namespace RTBuild.Quadifier

/-- The entry of a triangle that an earlier triangle has taken as its partner.
Every other entry is the distance to the own partner, or 0 without one. -/
def paired : Nat := 0xFFFF

def triangle : Nat := 0

def maxDistance : Nat := 31

structure Indices where
  x : Nat
  y : Nat
  z : Nat
  deriving DecidableEq, Repr

def bsf (mask : List Bool) : Nat := mask.findIdx id

def lane (a : Indices) (b : Nat) : Nat := bsf [b == a.x, b == a.y, b == a.z, true]

/-- pair_triangles on two index triples: at most one vertex of b is not a vertex of a. -/
def pairTriangles (a b : Indices) : Bool :=
  let lb0 := lane a b.x
  let lb1 := lane a b.y
  let lb2 := lane a b.z
  (lb0 == 3).toNat + (lb1 == 3).toNat + (lb2 == 3).toNat ≤ 1

def primOffset (primID1 primID0 : Nat) : Nat :=
  if primID0 ≤ primID1 then primID1 - primID0 else primID1 + 2 ^ 32 - primID0

abbrev Window := StaticDeque Nat 32

def merges (getTriangle : Nat → Indices) (primID0 primID1 : Nat) : Bool :=
  pairTriangles (getTriangle primID0) (getTriangle primID1) && primOffset primID1 primID0 ≤ maxDistance

/-- The search of merge_triangle_window over n slots from a slot on. It has no
value where an assertion fails. -/
def findPartner (getTriangle : Nat → Indices) (primID0 : Nat) (window : Window) (quads : Nat → Nat) :
    Nat → Nat → Option (Window × (Nat → Nat))
  | 0, _ => some (window, Function.update quads primID0 triangle)
  | n + 1, slot =>
      let primID1 := window.get slot
      if merges getTriangle primID0 primID1 then
        let offset := primOffset primID1 primID0
        if 0 < offset ∧ offset < paired then
          let quads := Function.update (Function.update quads primID0 offset) primID1 paired
          (window.erase slot).map (fun window => (window, quads))
        else none
      else findPartner getTriangle primID0 window quads n (slot + 1)

def mergeTriangleWindow (getTriangle : Nat → Indices) (window : Window) (quads : Nat → Nat) :
    Option (Window × (Nat → Nat)) := do
  let (primID0, window) ← window.popFront
  findPartner getTriangle primID0 window quads window.size window.begin_

structure Pairing where
  window : Window
  quads : Nat → Nat
  numTrianglePairs : Nat

def Pairing.merge (getTriangle : Nat → Indices) (s : Pairing) : Option Pairing := do
  let (window, quads) ← mergeTriangleWindow getTriangle s.window s.quads
  return ⟨window, quads, s.numTrianglePairs + 1⟩

def Pairing.pushAll (getTriangle : Nat → Indices) : Nat → Nat → Pairing → Option Pairing
  | 0, _, s => some s
  | n + 1, primID, s => do
      let window ← s.window.pushBack primID
      let s := { s with window }
      let s ← if window.full then s.merge getTriangle else some s
      pushAll getTriangle n (primID + 1) s

def Pairing.drain (getTriangle : Nat → Indices) : Nat → Pairing → Option Pairing
  | 0, s => if s.window.size = 0 then some s else none
  | fuel + 1, s =>
      if s.window.size = 0 then some s else do drain getTriangle fuel (← s.merge getTriangle)

def pairRange (getTriangle : Nat → Indices) (primID0 primID1 : Nat) (quads : Nat → Nat) :
    Option (Nat × (Nat → Nat)) := do
  let s ← Pairing.pushAll getTriangle (primID1 - primID0) primID0 ⟨.empty (fun _ => 0), quads, 0⟩
  let s ← s.drain getTriangle 32
  return (s.numTrianglePairs, s.quads)

def covers (m : Nat × Nat) : List Nat := if m.2 = 0 then [m.1] else [m.1, m.1 + m.2]

variable {getTriangle : Nat → Indices}

structure Merged (getTriangle : Nat → Indices) (p distance : Nat) (W W' : List Nat)
    (quads quads' : Nat → Nat) : Prop where
  perm : (covers (p, distance) ++ W').Perm (p :: W)
  sublist : W'.Sublist W
  le_max : distance ≤ maxDistance
  pairs : distance ≠ 0 → pairTriangles (getTriangle p) (getTriangle (p + distance)) = true
  quads_eq : quads' =
    if distance = 0 then Function.update quads p triangle
    else Function.update (Function.update quads p distance) (p + distance) paired

theorem findPartner_spec (getTriangle : Nat → Indices) {p n slot : Nat} {window : Window}
    (hlt : ∀ q ∈ window.toList, p < q) (hslot : window.begin_ ≤ slot) (hn : slot + n = window.end_)
    (quads : Nat → Nat) :
    ∃ distance window' quads', findPartner getTriangle p window quads n slot = some (window', quads') ∧
      Merged getTriangle p distance window.toList window'.toList quads quads' := by
  induction n generalizing slot with
  | zero =>
      exact ⟨0, window, _, rfl, by simp [covers], List.Sublist.refl _, Nat.zero_le _,
        fun h => absurd rfl h, rfl⟩
  | succ n ih =>
      rw [findPartner]
      by_cases hmerges : merges getTriangle p (window.get slot) = true
      · have hk : slot - window.begin_ < window.size := by
          rw [StaticDeque.size]
          omega
        have hslot' : window.begin_ + (slot - window.begin_) = slot := by omega
        have hget := StaticDeque.getElem?_toList window hk
        rw [hslot'] at hget
        obtain ⟨hk', hget⟩ := List.getElem?_eq_some_iff.1 hget
        have hp := hlt _ (List.getElem_mem hk')
        rw [hget] at hp
        have hoffset : primOffset (window.get slot) p = window.get slot - p := if_pos (Nat.le_of_lt hp)
        have hmerges' := hmerges
        rw [merges, hoffset, Bool.and_eq_true, decide_eq_true_eq] at hmerges'
        obtain ⟨hpair, hmax⟩ := hmerges'
        obtain ⟨window', herase, hlist⟩ := StaticDeque.erase_eq hk
        rw [hslot'] at herase
        have hpartner : p + (window.get slot - p) = window.get slot := by omega
        have hne : window.get slot - p ≠ 0 := by omega
        have hassert : 0 < window.get slot - p ∧ window.get slot - p < paired :=
          ⟨by omega, Nat.lt_of_le_of_lt hmax (by decide)⟩
        simp only [hmerges, if_true, hoffset, hassert, and_self, herase, Option.map_some]
        refine ⟨window.get slot - p, window', _, rfl, ?_, ?_, hmax, fun _ => by rwa [hpartner], ?_⟩
        · have hperm := List.getElem_cons_eraseIdx_perm hk'
          rw [hget] at hperm
          rw [covers, if_neg hne, hlist]
          simp only [hpartner]
          exact hperm.cons p
        · rw [hlist]
          exact List.eraseIdx_sublist _ _
        · rw [if_neg hne, hpartner]
      · simp only [hmerges]
        exact ih (by omega) (by omega)

theorem mergeTriangleWindow_spec (getTriangle : Nat → Indices) {p : Nat} {W : List Nat}
    {window : Window} (hW : window.toList = p :: W) (hlt : ∀ q ∈ W, p < q) (quads : Nat → Nat) :
    ∃ distance window' quads', mergeTriangleWindow getTriangle window quads = some (window', quads') ∧
      Merged getTriangle p distance W window'.toList quads quads' := by
  obtain ⟨front, hpop, hlist⟩ := StaticDeque.popFront_eq hW
  have hn : front.begin_ + front.size = front.end_ := by
    have h := front.begin_le
    rw [StaticDeque.size]
    omega
  subst hlist
  obtain ⟨distance, window', quads', hfind, hmerged⟩ :=
    findPartner_spec getTriangle hlt (Nat.le_refl _) hn quads
  exact ⟨distance, window', quads', by rw [mergeTriangleWindow, hpop]; exact hfind, hmerged⟩

/-- The triangles from primID0 up to next have been pushed. Those taken out
since form the matching, with one element for each merge. -/
structure Inv (getTriangle : Nat → Indices) (primID0 next : Nat) (quads0 : Nat → Nat)
    (matching : List (Nat × Nat)) (s : Pairing) : Prop where
  perm : (matching.flatMap covers ++ s.window.toList).Perm (List.range' primID0 (next - primID0))
  sorted : s.window.toList.Pairwise (· < ·)
  count : s.numTrianglePairs = matching.length
  le_max : ∀ m ∈ matching, m.2 ≤ maxDistance
  lead : ∀ m ∈ matching, s.quads m.1 = m.2
  partner : ∀ m ∈ matching, m.2 ≠ 0 →
    s.quads (m.1 + m.2) = paired ∧ pairTriangles (getTriangle m.1) (getTriangle (m.1 + m.2)) = true
  frame : ∀ i, i < primID0 ∨ next ≤ i → s.quads i = quads0 i

variable {primID0 next : Nat} {quads0 : Nat → Nat} {matching : List (Nat × Nat)} {s : Pairing}

theorem Inv.start (getTriangle : Nat → Indices) (primID0 : Nat) (quads0 : Nat → Nat) :
    Inv getTriangle primID0 primID0 quads0 [] ⟨.empty (fun _ => 0), quads0, 0⟩ where
  perm := by simp
  sorted := List.Pairwise.nil
  count := rfl
  le_max := fun _ h => nomatch h
  lead := fun _ h => nomatch h
  partner := fun _ h => nomatch h
  frame := fun _ _ => rfl

theorem Inv.mem_range (h : Inv getTriangle primID0 next quads0 matching s) {i : Nat}
    (hi : i ∈ matching.flatMap covers ++ s.window.toList) : primID0 ≤ i ∧ i < next := by
  have hi := List.mem_range'_1.1 (h.perm.mem_iff.1 hi)
  omega

theorem Inv.push (h : Inv getTriangle primID0 next quads0 matching s) (hle : primID0 ≤ next)
    (hroom : s.window.size < 32) :
    ∃ window, s.window.pushBack next = some window ∧ window.toList = s.window.toList ++ [next] ∧
      Inv getTriangle primID0 (next + 1) quads0 matching { s with window } := by
  obtain ⟨window, hpush, hlist⟩ := StaticDeque.pushBack_eq hroom next
  refine ⟨window, hpush, hlist, ?_, ?_, h.count, h.le_max, h.lead, h.partner, ?_⟩
  · have hsucc : next + 1 - primID0 = next - primID0 + 1 := by omega
    have hlast : primID0 + (next - primID0) = next := by omega
    rw [hlist, ← List.append_assoc, hsucc, List.range'_1_concat, hlast]
    exact h.perm.append_right [next]
  · rw [hlist, List.pairwise_append]
    refine ⟨h.sorted, List.pairwise_singleton .., fun i hi j hj => ?_⟩
    obtain rfl := List.mem_singleton.1 hj
    exact (h.mem_range (List.mem_append_right _ hi)).2
  · intro i hi
    exact h.frame i (by omega)

theorem mem_covers_fst (m : Nat × Nat) : m.1 ∈ covers m := by
  rw [covers]
  split <;> exact List.mem_cons_self ..

theorem mem_covers_partner {m : Nat × Nat} (h : m.2 ≠ 0) : m.1 + m.2 ∈ covers m := by
  rw [covers, if_neg h]
  exact List.mem_cons_of_mem _ (List.mem_cons_self ..)

theorem Inv.merge (h : Inv getTriangle primID0 next quads0 matching s) {p : Nat} {W : List Nat}
    (hW : s.window.toList = p :: W) :
    ∃ s' distance, s.merge getTriangle = some s' ∧ s'.window.toList.Sublist W ∧
      Inv getTriangle primID0 next quads0 (matching ++ [(p, distance)]) s' := by
  have hsorted := h.sorted
  rw [hW] at hsorted
  obtain ⟨hp, hsorted⟩ := List.pairwise_cons.1 hsorted
  obtain ⟨distance, window', quads', hmerge, hm⟩ :=
    mergeTriangleWindow_spec getTriangle hW hp s.quads
  have hperm : ((matching ++ [(p, distance)]).flatMap covers ++ window'.toList).Perm
      (List.range' primID0 (next - primID0)) := by
    rw [List.flatMap_append, List.append_assoc, List.flatMap_singleton]
    refine (hm.perm.append_left _).trans ?_
    rw [← hW]
    exact h.perm
  have hnodup : (matching.flatMap covers ++ covers (p, distance)).Nodup := by
    have hall := hperm.nodup_iff.2 List.nodup_range'
    rw [List.flatMap_append, List.flatMap_singleton] at hall
    exact (List.nodup_append.1 hall).1
  have hquads : ∀ i, i ∉ covers (p, distance) → quads' i = s.quads i := by
    intro i hi
    have hip : i ≠ p := fun heq => hi (heq ▸ mem_covers_fst (p, distance))
    rw [hm.quads_eq]
    split
    · exact Function.update_of_ne hip ..
    · rename_i hd
      have hiq : i ≠ p + distance := fun heq => hi (heq ▸ mem_covers_partner (m := (p, distance)) hd)
      rw [Function.update_of_ne hiq, Function.update_of_ne hip]
  have hfresh : ∀ m ∈ matching, ∀ i ∈ covers m, quads' i = s.quads i := by
    intro m hmem i hi
    refine hquads i fun hi' => ?_
    exact (List.nodup_append.1 hnodup).2.2 i (List.mem_flatMap.2 ⟨m, hmem, hi⟩) i hi' rfl
  have hnew : quads' p = distance := by
    rw [hm.quads_eq]
    split
    · rename_i hd
      rw [Function.update_self, hd]
      rfl
    · rename_i hd
      rw [Function.update_of_ne (by omega), Function.update_self]
  refine ⟨⟨window', quads', s.numTrianglePairs + 1⟩, distance, by rw [Pairing.merge, hmerge]; rfl,
    hm.sublist, hperm, hsorted.sublist hm.sublist, ?_, ?_, ?_, ?_, ?_⟩
  · rw [h.count, List.length_append, List.length_singleton]
  · intro m hmem
    rcases List.mem_append.1 hmem with hmem | hmem
    · exact h.le_max m hmem
    · obtain rfl := List.mem_singleton.1 hmem
      exact hm.le_max
  · intro m hmem
    rcases List.mem_append.1 hmem with hmem | hmem
    · exact (hfresh m hmem _ (mem_covers_fst m)).trans (h.lead m hmem)
    · obtain rfl := List.mem_singleton.1 hmem
      exact hnew
  · intro m hmem hd
    rcases List.mem_append.1 hmem with hmem | hmem
    · obtain ⟨hpaired, hpairs⟩ := h.partner m hmem hd
      exact ⟨(hfresh m hmem _ (mem_covers_partner hd)).trans hpaired, hpairs⟩
    · obtain rfl := List.mem_singleton.1 hmem
      refine ⟨?_, hm.pairs hd⟩
      simp only [hm.quads_eq, if_neg hd, Function.update_self]
  · intro i hi
    refine (hquads i fun hmem => ?_).trans (h.frame i hi)
    have hrange := List.mem_range'_1.1 (hperm.mem_iff.1 (List.mem_append_left _
      (List.mem_flatMap.2 ⟨(p, distance), List.mem_append_right _ (List.mem_singleton_self _), hmem⟩)))
    omega

theorem Inv.pushAll (h : Inv getTriangle primID0 next quads0 matching s) (hle : primID0 ≤ next)
    (hroom : s.window.size < 32) (n : Nat) :
    ∃ s' matching', Pairing.pushAll getTriangle n next s = some s' ∧ s'.window.size < 32 ∧
      Inv getTriangle primID0 (next + n) quads0 matching' s' := by
  induction n generalizing next matching s with
  | zero => exact ⟨s, matching, rfl, hroom, h⟩
  | succ n ih =>
      obtain ⟨window, hpush, hlist, hinv⟩ := h.push hle hroom
      have hsize : window.size = s.window.size + 1 := by
        rw [← StaticDeque.length_toList, hlist, List.length_append, StaticDeque.length_toList,
          List.length_singleton]
      have hnext : next + (n + 1) = next + 1 + n := by omega
      rw [hnext]
      by_cases hfull : window.full = true
      · obtain ⟨p, W, hW⟩ : ∃ p W, window.toList = p :: W := by
          cases hl : window.toList with
          | nil => simp [hl] at hlist
          | cons p W => exact ⟨p, W, rfl⟩
        obtain ⟨s', distance, hmerge, hsub, hinv'⟩ := hinv.merge hW
        have hroom' : s'.window.size < 32 := by
          have hlen := hsub.length_le
          have hcons := congrArg List.length hW
          rw [StaticDeque.length_toList] at hlen hcons
          rw [List.length_cons] at hcons
          omega
        obtain ⟨s'', matching', hrest, hroom'', hinv''⟩ := ih hinv' (by omega) hroom'
        refine ⟨s'', matching', ?_, hroom'', hinv''⟩
        rw [Pairing.pushAll, hpush]
        simp only [Option.bind_eq_bind, Option.bind_some, hfull, if_true, hmerge]
        exact hrest
      · have hroom' : window.size < 32 := by
          have hle := window.size_le_capacity
          rw [StaticDeque.full, beq_iff_eq] at hfull
          omega
        obtain ⟨s'', matching', hrest, hroom'', hinv''⟩ := ih hinv (by omega) hroom'
        refine ⟨s'', matching', ?_, hroom'', hinv''⟩
        rw [Pairing.pushAll, hpush]
        simp only [Option.bind_eq_bind, Option.bind_some, hfull]
        exact hrest

theorem Inv.drain (h : Inv getTriangle primID0 next quads0 matching s) {fuel : Nat}
    (hfuel : s.window.size ≤ fuel) :
    ∃ s' matching', s.drain getTriangle fuel = some s' ∧ s'.window.toList = [] ∧
      Inv getTriangle primID0 next quads0 matching' s' := by
  induction fuel generalizing matching s with
  | zero =>
      have hzero : s.window.size = 0 := Nat.le_zero.1 hfuel
      refine ⟨s, matching, if_pos hzero, ?_, h⟩
      rwa [← List.length_eq_zero_iff, StaticDeque.length_toList]
  | succ fuel ih =>
      by_cases hzero : s.window.size = 0
      · refine ⟨s, matching, if_pos hzero, ?_, h⟩
        rwa [← List.length_eq_zero_iff, StaticDeque.length_toList]
      · obtain ⟨p, W, hW⟩ : ∃ p W, s.window.toList = p :: W := by
          cases hl : s.window.toList with
          | nil => simp [← StaticDeque.length_toList, hl] at hzero
          | cons p W => exact ⟨p, W, rfl⟩
        obtain ⟨s', distance, hmerge, hsub, hinv⟩ := h.merge hW
        have hfuel' : s'.window.size ≤ fuel := by
          have hlen := hsub.length_le
          have hcons := congrArg List.length hW
          rw [StaticDeque.length_toList] at hlen hcons
          rw [List.length_cons] at hcons
          omega
        obtain ⟨s'', matching', hrest, hnil, hinv'⟩ := ih hinv hfuel'
        refine ⟨s'', matching', ?_, hnil, hinv'⟩
        rw [Pairing.drain, if_neg hzero, hmerge]
        exact hrest

structure Matched (getTriangle : Nat → Indices) (primID0 primID1 : Nat) (matching : List (Nat × Nat))
    (quads : Nat → Nat) : Prop where
  perm : (matching.flatMap covers).Perm (List.range' primID0 (primID1 - primID0))
  le_max : ∀ m ∈ matching, m.2 ≤ maxDistance
  lead : ∀ m ∈ matching, quads m.1 = m.2
  partner : ∀ m ∈ matching, m.2 ≠ 0 →
    quads (m.1 + m.2) = paired ∧ pairTriangles (getTriangle m.1) (getTriangle (m.1 + m.2)) = true

theorem Matched.mem_range {first last : Nat} {quads : Nat → Nat}
    (h : Matched getTriangle first last matching quads) {m : Nat × Nat} (hm : m ∈ matching) {i : Nat}
    (hi : i ∈ covers m) : first ≤ i ∧ i < last := by
  have hrange := List.mem_range'_1.1 (h.perm.mem_iff.1 (List.mem_flatMap.2 ⟨m, hm, hi⟩))
  omega

theorem Matched.congr {first last : Nat} {quads quads' : Nat → Nat}
    (h : Matched getTriangle first last matching quads)
    (heq : ∀ i, first ≤ i → i < last → quads' i = quads i) :
    Matched getTriangle first last matching quads' := by
  have hcover : ∀ m ∈ matching, ∀ i ∈ covers m, quads' i = quads i := fun m hm i hi =>
    heq i (h.mem_range hm hi).1 (h.mem_range hm hi).2
  refine ⟨h.perm, h.le_max, fun m hm => ?_, fun m hm hd => ?_⟩
  · exact (hcover m hm _ (mem_covers_fst m)).trans (h.lead m hm)
  · obtain ⟨hpaired, hpairs⟩ := h.partner m hm hd
    exact ⟨(hcover m hm _ (mem_covers_partner hd)).trans hpaired, hpairs⟩

theorem Matched.append {first mid last : Nat} {quads : Nat → Nat} {matching' : List (Nat × Nat)}
    (h : Matched getTriangle first mid matching quads)
    (h' : Matched getTriangle mid last matching' quads) (hfirst : first ≤ mid) (hlast : mid ≤ last) :
    Matched getTriangle first last (matching ++ matching') quads := by
  have hmem : ∀ {P : Nat × Nat → Prop}, (∀ m ∈ matching, P m) → (∀ m ∈ matching', P m) →
      ∀ m ∈ matching ++ matching', P m := fun hP hP' m hm => (List.mem_append.1 hm).elim (hP m) (hP' m)
  refine ⟨?_, hmem h.le_max h'.le_max, hmem h.lead h'.lead, hmem h.partner h'.partner⟩
  have hmid : first + (mid - first) = mid := by omega
  have hlen : last - first = (mid - first) + (last - mid) := by omega
  rw [List.flatMap_append, hlen, ← List.range'_append_1, hmid]
  exact h.perm.append h'.perm

theorem Matched.exists_mem {first last : Nat} {quads : Nat → Nat}
    (h : Matched getTriangle first last matching quads) {i : Nat} (hfirst : first ≤ i)
    (hlast : i < last) : ∃ m ∈ matching, i ∈ covers m :=
  List.mem_flatMap.1 (h.perm.mem_iff.2 (List.mem_range'_1.2 (by omega)))

theorem Matched.nodup {first last : Nat} {quads : Nat → Nat}
    (h : Matched getTriangle first last matching quads) : (matching.flatMap covers).Nodup :=
  h.perm.nodup_iff.2 List.nodup_range'

/-- No assertion fails, the range is matched, and nothing else is written. -/
theorem pairRange_spec (getTriangle : Nat → Indices) {primID0 primID1 : Nat} (hle : primID0 ≤ primID1)
    (quads0 : Nat → Nat) :
    ∃ matching quads, pairRange getTriangle primID0 primID1 quads0 = some (matching.length, quads) ∧
      Matched getTriangle primID0 primID1 matching quads ∧
      ∀ i, i < primID0 ∨ primID1 ≤ i → quads i = quads0 i := by
  obtain ⟨s, matching, hpush, hroom, hinv⟩ :=
    (Inv.start getTriangle primID0 quads0).pushAll (Nat.le_refl _) (by decide : 0 < 32)
      (primID1 - primID0)
  obtain ⟨s', matching', hdrain, hnil, hinv'⟩ := hinv.drain (Nat.le_of_lt hroom)
  rw [Nat.add_sub_cancel' hle] at hinv'
  refine ⟨matching', s'.quads, ?_, ⟨?_, hinv'.le_max, hinv'.lead, hinv'.partner⟩, hinv'.frame⟩
  · rw [pairRange, hpush]
    simp only [Option.bind_eq_bind, Option.bind_some, hdrain, hinv'.count]
    rfl
  · have hperm := hinv'.perm
    rwa [hnil, List.append_nil] at hperm

theorem eq_of_mem_covers {m : Nat × Nat} {i : Nat} (h : i ∈ covers m) :
    i = m.1 ∨ m.2 ≠ 0 ∧ i = m.1 + m.2 := by
  rw [covers] at h
  split at h
  · exact Or.inl (List.mem_singleton.1 h)
  · rename_i hd
    rcases List.mem_pair.1 h with h | h
    · exact Or.inl h
    · exact Or.inr ⟨hd, h⟩

def Leads (quads : Nat → Nat) (p : Nat) : Prop := quads p ≠ paired ∧ quads p ≠ triangle

instance (quads : Nat → Nat) (p : Nat) : Decidable (Leads quads p) := inferInstanceAs (Decidable (_ ∧ _))

section

variable {first last : Nat} {quads : Nat → Nat}

theorem Matched.lead_ne_paired (h : Matched getTriangle first last matching quads) {m : Nat × Nat}
    (hm : m ∈ matching) : quads m.1 ≠ paired := by
  rw [h.lead m hm]
  have hmax := h.le_max m hm
  intro heq
  rw [heq] at hmax
  exact absurd hmax (by decide)

theorem Matched.entry (h : Matched getTriangle first last matching quads) {p : Nat} (hfirst : first ≤ p)
    (hlast : p < last) :
    quads p = paired ∨ quads p = triangle ∨
      1 ≤ quads p ∧ quads p ≤ maxDistance ∧ p + quads p < last ∧ quads (p + quads p) = paired ∧
        pairTriangles (getTriangle p) (getTriangle (p + quads p)) = true := by
  obtain ⟨m, hm, hp⟩ := h.exists_mem hfirst hlast
  rcases eq_of_mem_covers hp with rfl | ⟨hd, rfl⟩
  · rw [h.lead m hm]
    by_cases hd : m.2 = 0
    · exact Or.inr (Or.inl hd)
    · obtain ⟨hpaired, hpairs⟩ := h.partner m hm hd
      exact Or.inr (Or.inr ⟨Nat.pos_of_ne_zero hd, h.le_max m hm,
        (h.mem_range hm (mem_covers_partner hd)).2, hpaired, hpairs⟩)
  · exact Or.inl (h.partner m hm hd).1

theorem Matched.eq_of_mem (h : Matched getTriangle first last matching quads) {m m' : Nat × Nat}
    (hm : m ∈ matching) (hm' : m' ∈ matching) {i : Nat} (hi : i ∈ covers m) (hi' : i ∈ covers m') :
    m = m' := by
  have hdisjoint := (List.nodup_flatMap.1 h.nodup).2
  by_contra hne
  have hsymm : Std.Symm (Function.onFun List.Disjoint covers) := ⟨fun _ _ hab => hab.symm⟩
  exact hdisjoint.forall hm hm' hne hi hi'

/-- A triangle is the partner of one other triangle at most. -/
theorem Matched.existsUnique_lead (h : Matched getTriangle first last matching quads) {q : Nat}
    (hfirst : first ≤ q) (hlast : q < last) (hq : quads q = paired) :
    ∃! p, first ≤ p ∧ p < last ∧ Leads quads p ∧ p + quads p = q := by
  obtain ⟨m, hm, hmem⟩ := h.exists_mem hfirst hlast
  rcases eq_of_mem_covers hmem with rfl | ⟨hd, rfl⟩
  · exact absurd hq (h.lead_ne_paired hm)
  · obtain ⟨hge, hlt⟩ := h.mem_range hm (mem_covers_fst m)
    have hlead := h.lead m hm
    refine ⟨m.1, ⟨hge, hlt, ⟨h.lead_ne_paired hm, hlead ▸ hd⟩, by rw [hlead]⟩, ?_⟩
    rintro p ⟨hp, hp', ⟨hunpaired, hleads⟩, hpartner⟩
    obtain ⟨m', hm', hmem'⟩ := h.exists_mem hp hp'
    rcases eq_of_mem_covers hmem' with rfl | ⟨hd', rfl⟩
    · rw [h.lead m' hm'] at hpartner hleads
      have hcover := mem_covers_partner (m := m') hleads
      rw [hpartner] at hcover
      rw [h.eq_of_mem hm' hm hcover hmem]
    · exact absurd (h.partner m' hm' hd').1 hunpaired

theorem Matched.length_eq (h : Matched getTriangle first last matching quads) :
    matching.length =
      ((List.range' first (last - first)).filter (fun p => quads p ≠ paired)).length := by
  have hleads : ∀ m ∈ matching, (covers m).filter (fun p => quads p ≠ paired) = [m.1] := by
    intro m hm
    have hfst := h.lead_ne_paired hm
    by_cases hd : m.2 = 0
    · rw [covers, if_pos hd]
      simp [hfst]
    · rw [covers, if_neg hd]
      simp [hfst, (h.partner m hm hd).1]
  calc
    matching.length = (matching.flatMap fun m => [m.1]).length := by simp
    _ = ((matching.flatMap covers).filter (fun p => quads p ≠ paired)).length := by
      rw [List.filter_flatMap]
      congr 1
      exact (List.flatMap_congr hleads).symm
    _ = _ := (h.perm.filter _).length_eq

end

inductive Reached (getTriangle : Nat → Indices) (primID0 : Nat) (quads0 : Nat → Nat) :
    Nat → Pairing → Prop
  | start : Reached getTriangle primID0 quads0 primID0 ⟨.empty (fun _ => 0), quads0, 0⟩
  | push {next : Nat} {s : Pairing} {window : Window} (h : Reached getTriangle primID0 quads0 next s)
      (hpush : s.window.pushBack next = some window) :
      Reached getTriangle primID0 quads0 (next + 1) { s with window }
  | merge {next : Nat} {s s' : Pairing} (h : Reached getTriangle primID0 quads0 next s)
      (hmerge : s.merge getTriangle = some s') : Reached getTriangle primID0 quads0 next s'

theorem Inv.exists_merge (h : Inv getTriangle primID0 next quads0 matching s)
    (hsize : 0 < s.window.size) :
    ∃ s' distance p, s.merge getTriangle = some s' ∧
      Inv getTriangle primID0 next quads0 (matching ++ [(p, distance)]) s' := by
  cases hW : s.window.toList with
  | nil =>
      rw [← StaticDeque.length_toList, hW] at hsize
      exact absurd hsize (Nat.lt_irrefl _)
  | cons p W =>
      obtain ⟨s', distance, hmerge, -, hinv⟩ := h.merge hW
      exact ⟨s', distance, p, hmerge, hinv⟩

theorem merge_nonempty {s s' : Pairing} (h : s.merge getTriangle = some s') : 0 < s.window.size := by
  rw [StaticDeque.size]
  by_contra hsize
  have hempty : s.window.popFront = none := dif_neg (by omega)
  simp [Pairing.merge, mergeTriangleWindow, hempty] at h

theorem Reached.inv (h : Reached getTriangle primID0 quads0 next s) :
    primID0 ≤ next ∧ ∃ matching, Inv getTriangle primID0 next quads0 matching s := by
  induction h with
  | start => exact ⟨Nat.le_refl _, [], Inv.start getTriangle primID0 quads0⟩
  | @push next s window _ hpush ih =>
      obtain ⟨hle, matching, hinv⟩ := ih
      have hroom : s.window.size < 32 := by
        by_contra hfull
        rw [StaticDeque.pushBack, dif_neg hfull] at hpush
        exact absurd hpush (by simp)
      obtain ⟨window', hpush', -, hinv'⟩ := hinv.push hle hroom
      obtain rfl : window' = window := Option.some.inj (hpush'.symm.trans hpush)
      exact ⟨Nat.le_succ_of_le hle, matching, hinv'⟩
  | @merge next s s' _ hmerge ih =>
      obtain ⟨hle, matching, hinv⟩ := ih
      obtain ⟨s'', distance, p, hmerge', hinv'⟩ := hinv.exists_merge (merge_nonempty hmerge)
      obtain rfl : s'' = s' := Option.some.inj (hmerge'.symm.trans hmerge)
      exact ⟨hle, _, hinv'⟩

theorem Reached.pushAll (h : Reached getTriangle primID0 quads0 next s) {n : Nat} {s' : Pairing}
    (hrun : Pairing.pushAll getTriangle n next s = some s') :
    Reached getTriangle primID0 quads0 (next + n) s' := by
  induction n generalizing next s with
  | zero =>
      obtain rfl : s = s' := Option.some.inj hrun
      exact h
  | succ n ih =>
      rw [Pairing.pushAll, Option.bind_eq_bind, Option.bind_eq_some_iff] at hrun
      obtain ⟨window, hpush, hrun⟩ := hrun
      have hpushed := h.push hpush
      rw [Nat.add_comm n 1, ← Nat.add_assoc]
      split at hrun
      · rw [Option.bind_eq_bind, Option.bind_eq_some_iff] at hrun
        obtain ⟨merged, hmerge, hrun⟩ := hrun
        exact ih (hpushed.merge hmerge) hrun
      · exact ih hpushed hrun

theorem Reached.drain (h : Reached getTriangle primID0 quads0 next s) {fuel : Nat} {s' : Pairing}
    (hrun : s.drain getTriangle fuel = some s') : Reached getTriangle primID0 quads0 next s' := by
  induction fuel generalizing s with
  | zero =>
      rw [Pairing.drain] at hrun
      split at hrun
      · obtain rfl : s = s' := Option.some.inj hrun
        exact h
      · exact absurd hrun (by simp)
  | succ fuel ih =>
      rw [Pairing.drain] at hrun
      split at hrun
      · obtain rfl : s = s' := Option.some.inj hrun
        exact h
      · rw [Option.bind_eq_bind, Option.bind_eq_some_iff] at hrun
        obtain ⟨merged, hmerge, hrun⟩ := hrun
        exact ih (h.merge hmerge) hrun

theorem pairRange_of_le (getTriangle : Nat → Indices) {primID0 primID1 : Nat} (hle : primID1 ≤ primID0)
    (quads0 : Nat → Nat) : pairRange getTriangle primID0 primID1 quads0 = some (0, quads0) := by
  rw [pairRange, Nat.sub_eq_zero_of_le hle]
  rfl

theorem reached_of_pairRange {primID0 primID1 numTrianglePairs : Nat} {quads : Nat → Nat}
    (hrun : pairRange getTriangle primID0 primID1 quads0 = some (numTrianglePairs, quads)) :
    ∃ s, Reached getTriangle primID0 quads0 (max primID0 primID1) s ∧
      s.numTrianglePairs = numTrianglePairs ∧ s.quads = quads := by
  rw [pairRange, Option.bind_eq_bind, Option.bind_eq_some_iff] at hrun
  obtain ⟨pushed, hpush, hrun⟩ := hrun
  rw [Option.bind_eq_some_iff] at hrun
  obtain ⟨s, hdrain, hs⟩ := hrun
  have hreached := (Reached.start.pushAll hpush).drain hdrain
  rw [Nat.add_comm, Nat.sub_add_eq_max, Nat.max_comm] at hreached
  cases hs
  exact ⟨s, hreached, rfl, rfl⟩

/-- A range ends with a partial matching, and the window serves pushes and
merges in any order. -/
theorem pairRange_matching (getTriangle : Nat → Indices) (primID0 primID1 : Nat) (quads0 : Nat → Nat) :
    (∃ numTrianglePairs quads,
      pairRange getTriangle primID0 primID1 quads0 = some (numTrianglePairs, quads) ∧
      (∀ i, i < primID0 ∨ primID1 ≤ i → quads i = quads0 i) ∧
      (∀ p, primID0 ≤ p → p < primID1 →
        quads p = paired ∨ quads p = triangle ∨
          1 ≤ quads p ∧ quads p ≤ 31 ∧ p + quads p < primID1 ∧ quads (p + quads p) = paired ∧
            pairTriangles (getTriangle p) (getTriangle (p + quads p)) = true) ∧
      (∀ q, primID0 ≤ q → q < primID1 → quads q = paired →
        ∃! p, primID0 ≤ p ∧ p < primID1 ∧ Leads quads p ∧ p + quads p = q) ∧
      numTrianglePairs =
        ((List.range' primID0 (primID1 - primID0)).filter (fun p => quads p ≠ paired)).length ∧
      ∃ s, Reached getTriangle primID0 quads0 (max primID0 primID1) s ∧
        s.numTrianglePairs = numTrianglePairs ∧ s.quads = quads) ∧
    ∀ next s, Reached getTriangle primID0 quads0 next s →
      s.window.toList.Pairwise (· < ·) ∧
      (s.window.size < 32 → (s.window.pushBack next).isSome) ∧
      (0 < s.window.size → (s.merge getTriangle).isSome) := by
  refine ⟨?_, fun next s hreached => ?_⟩
  · rcases Nat.le_total primID0 primID1 with hle | hle
    · obtain ⟨matching, quads, hrun, hmatched, hframe⟩ := pairRange_spec getTriangle hle quads0
      refine ⟨matching.length, quads, hrun, hframe, fun p => hmatched.entry,
        fun q => hmatched.existsUnique_lead, hmatched.length_eq, ?_⟩
      obtain ⟨s, hreached, hs⟩ := reached_of_pairRange hrun
      exact ⟨s, hreached, hs⟩
    · refine ⟨0, quads0, pairRange_of_le getTriangle hle quads0, fun _ _ => rfl, fun p hp hp' => ?_,
        fun q hq hq' => ?_, ?_, ?_⟩
      · exact absurd (hle.trans hp) (Nat.not_le.2 hp')
      · exact absurd (hle.trans hq) (Nat.not_le.2 hq')
      · rw [Nat.sub_eq_zero_of_le hle]
        rfl
      · exact reached_of_pairRange (pairRange_of_le getTriangle hle quads0)
  · obtain ⟨hle, matching, hinv⟩ := hreached.inv
    refine ⟨hinv.sorted, fun hroom => ?_, fun hsize => ?_⟩
    · obtain ⟨window, hpush, -⟩ := hinv.push hle hroom
      rw [hpush]
      rfl
    · obtain ⟨s', -, -, hmerge, -⟩ := hinv.exists_merge hsize
      rw [hmerge]
      rfl

end RTBuild.Quadifier
