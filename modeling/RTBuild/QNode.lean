import RTBuild.PrimRef

namespace RTBuild

/-- The type of a node. NODE_TYPE_MIXED has the same code as INTERNAL. -/
inductive NodeType
  | internal
  | inst
  | procedural
  | quad
  | invalid
  deriving DecidableEq, Repr

def NodeType.code : NodeType → Fin 16
  | .internal => 0
  | .inst => 1
  | .procedural => 3
  | .quad => 4
  | .invalid => 7

def NodeType.ofCode (code : Fin 16) : Option NodeType :=
  if code = 0 then some .internal
  else if code = 1 then some .inst
  else if code = 3 then some .procedural
  else if code = 4 then some .quad
  else if code = 7 then some .invalid
  else none

@[simp] theorem NodeType.ofCode_code (ty : NodeType) : NodeType.ofCode ty.code = some ty := by
  cases ty <;> rfl

instance neZero_four : NeZero 4 := ⟨by decide⟩

instance neZero_sixteen : NeZero 16 := ⟨by decide⟩

/-- The slots of ChildData: the size of a child in 64 byte blocks, and its start
primitive, which holds the child type in mixed mode. -/
structure ChildData where
  blockIncr : Fin 4
  startPrim : Fin 16
  deriving DecidableEq

structure InternalNode where
  lower : Vec3f
  childOffset : Int
  nodeType : NodeType
  exp : Int × Int × Int
  nodeMask : BitVec 8
  childData : Fin 6 → ChildData
  lowerX : Fin 6 → BitVec 8
  upperX : Fin 6 → BitVec 8
  lowerY : Fin 6 → BitVec 8
  upperY : Fin 6 → BitVec 8
  lowerZ : Fin 6 → BitVec 8
  upperZ : Fin 6 → BitVec 8
  /-- ghost: the box that setChild was given, before it is quantized -/
  box : Fin 6 → BBox3f

namespace InternalNode

def ofType (type : NodeType) : InternalNode where
  lower := (0, 0, 0)
  childOffset := 0
  nodeType := type
  exp := (0, 0, 0)
  nodeMask := 0xFF
  childData _ := ⟨0, 0⟩
  lowerX _ := 0x80
  upperX _ := 0x00
  lowerY _ := 0x80
  upperY _ := 0x00
  lowerZ _ := 0x80
  upperZ _ := 0x00
  box _ := ⊥

def reduceMaxAbs (v : Vec3f) : ℚ := max (max |v.1| |v.2.1|) |v.2.2|

def ulp : ℚ := 1 / 2 ^ 23

def enlarge (box : NonemptyInterval Vec3f) (err : ℚ) : Vec3f × Vec3f :=
  (box.fst - (err, err, err), box.snd + (err, err, err))

def conservativeBox (box : NonemptyInterval Vec3f) : Vec3f × Vec3f :=
  enlarge box (ulp * max (reduceMaxAbs box.fst) (reduceMaxAbs box.snd))

def frexpExp (v : ℚ) : Int := if v = 0 then 0 else Int.log 2 |v| + 1

def ldexp (v : ℚ) (e : Int) : ℚ := v * (2 : ℚ) ^ e

def gridExp (len : ℚ) : Int :=
  let e := frexpExp len
  let mant := ldexp len (-e)
  (max (-128) (e + if 255 / 256 < mant then 1 else 0)).bmod 256

def setNodeBounds (node : InternalNode) (box : BBox3f) : InternalNode :=
  match box with
  | ⊥ => node
  | (box : NonemptyInterval Vec3f) =>
      let (lower, upper) := conservativeBox box
      let up := 1 + ulp
      let len := upper - lower
      { node with
        lower := lower
        exp := (gridExp (len.1 * up), gridExp (len.2.1 * up), gridExp (len.2.2 * up)) }

def ofBounds (box : BBox3f) (type : NodeType) : InternalNode := (ofType type).setNodeBounds box

def clamp (q : Int) : BitVec 8 := BitVec.ofNat 8 (min (max q 0) 255).toNat

def quantizeLower (e : Int) (v : ℚ) : BitVec 8 := clamp ⌊ldexp v (-e + 8)⌋

def quantizeUpper (e : Int) (v : ℚ) : BitVec 8 := clamp ⌈ldexp v (-e + 8)⌉

/-- Only the topmost bits of lower_x and upper_x tell whether a child is valid. -/
def valid (node : InternalNode) (i : Fin 6) : Bool :=
  node.lowerX i &&& 0x80 = 0 || node.upperX i &&& 0x80 ≠ 0

def isFatLeaf (node : InternalNode) : Bool := node.nodeType != .internal

def offsetFits (addr childDataPtr : Nat) : Bool :=
  ((((childDataPtr : Int) - addr) / 64).bmod (2 ^ 32) == ((childDataPtr : Int) - addr) / 64)

def setChildOffset (node : InternalNode) (addr childDataPtr : Nat) : InternalNode :=
  { node with childOffset := (((childDataPtr : Int) - addr) / 64).bmod (2 ^ 32) }

/-- The block delta of the last child is not stored. -/
def setChildType (node : InternalNode) (child : Fin 6) (childType : NodeType)
    (blockDelta curPrim : Nat) :
    InternalNode :=
  let blockDelta := if child = 5 then 0 else blockDelta
  let data : ChildData :=
    if node.isFatLeaf then ⟨Fin.ofNat 4 blockDelta, Fin.ofNat 16 curPrim⟩
    else ⟨Fin.ofNat 4 blockDelta, childType.code⟩
  { node with childData := Function.update node.childData child data }

def setChildBounds (node : InternalNode) (childID : Fin 6) (fbounds : BBox3f) : InternalNode :=
  match fbounds with
  | ⊥ => node
  | (fbounds : NonemptyInterval Vec3f) =>
      let (lower, upper) := conservativeBox fbounds
      let lower := lower - node.lower
      let upper := upper - node.lower
      { node with
        lowerX := Function.update node.lowerX childID (quantizeLower node.exp.1 lower.1)
        upperX := Function.update node.upperX childID (quantizeUpper node.exp.1 upper.1)
        lowerY := Function.update node.lowerY childID (quantizeLower node.exp.2.1 lower.2.1)
        upperY := Function.update node.upperY childID (quantizeUpper node.exp.2.1 upper.2.1)
        lowerZ := Function.update node.lowerZ childID (quantizeLower node.exp.2.2 lower.2.2)
        upperZ := Function.update node.upperZ childID (quantizeUpper node.exp.2.2 upper.2.2)
        box := Function.update node.box childID fbounds }

def setChild (node : InternalNode) (childID : Fin 6) (fbounds : BBox3f) (type : NodeType)
    (blockDelta curPrim : Nat) : InternalNode :=
  (node.setChildType childID type blockDelta curPrim).setChildBounds childID fbounds

def setNodeMask (node : InternalNode) (mask : BitVec 8) : InternalNode := { node with nodeMask := mask }

def getChildOffset (node : InternalNode) (childID : Fin 6) : Int :=
  64 * (node.childOffset +
    ((List.range childID).map (fun j => ((node.childData (Fin.ofNat 6 j)).blockIncr : Int))).sum)

def getChildType (node : InternalNode) (childID : Fin 6) : Option NodeType :=
  if node.isFatLeaf then some node.nodeType else NodeType.ofCode (node.childData childID).startPrim

def getChildStartPrim (node : InternalNode) (childID : Fin 6) : Nat :=
  if node.isFatLeaf then (node.childData childID).startPrim else 0

theorem toNat_clamp (q : Int) : ((clamp q).toNat : Int) = min (max q 0) 255 := by
  have hlt : (min (max q 0) 255).toNat < 2 ^ 8 := by omega
  rw [clamp, BitVec.toNat_ofNat, Nat.mod_eq_of_lt hlt]
  omega

theorem ldexp_mono {v w : ℚ} (h : v ≤ w) (e : Int) : ldexp v e ≤ ldexp w e :=
  mul_le_mul_of_nonneg_right h (zpow_pos (by norm_num) e).le

theorem quantize_le {v w : ℚ} (h : v ≤ w) (e : Int) :
    (quantizeLower e v).toNat ≤ (quantizeUpper e w).toNat := by
  have hle : ⌊ldexp v (-e + 8)⌋ ≤ ⌈ldexp w (-e + 8)⌉ :=
    (Int.floor_le_ceil _).trans (Int.ceil_mono (ldexp_mono h _))
  have hv := toNat_clamp ⌊ldexp v (-e + 8)⌋
  have hw := toNat_clamp ⌈ldexp w (-e + 8)⌉
  simp only [quantizeLower, quantizeUpper]
  omega

theorem topBit_iff (x : BitVec 8) : x &&& 0x80 = 0 ↔ x.toNat < 128 := by
  have hall : ∀ x : BitVec 8, x &&& 0x80 = 0 ↔ x.toNat < 128 := by decide
  exact hall x

theorem valid_of_le {node : InternalNode} {i : Fin 6}
    (h : (node.lowerX i).toNat ≤ (node.upperX i).toNat) : node.valid i = true := by
  rw [valid, Bool.or_eq_true, decide_eq_true_iff, decide_eq_true_iff, topBit_iff, ne_eq, topBit_iff]
  omega

theorem reduceMaxAbs_nonneg (v : Vec3f) : 0 ≤ reduceMaxAbs v := (abs_nonneg _).trans (le_max_right _ _)

theorem conservativeBox_le (box : NonemptyInterval Vec3f) :
    (conservativeBox box).1 ≤ (conservativeBox box).2 := by
  have herr : 0 ≤ ulp * max (reduceMaxAbs box.fst) (reduceMaxAbs box.snd) :=
    mul_nonneg (by norm_num [ulp]) ((reduceMaxAbs_nonneg _).trans (le_max_left _ _))
  rw [conservativeBox, enlarge]
  generalize ulp * max (reduceMaxAbs box.fst) (reduceMaxAbs box.snd) = err at herr ⊢
  have hzero : (0 : Vec3f) ≤ (err, err, err) := ⟨herr, herr, herr⟩
  exact (sub_le_self _ hzero).trans (box.fst_le_snd.trans (le_add_of_nonneg_right hzero))

structure Slot where
  valid : Bool
  data : ChildData
  box : BBox3f

def slot (node : InternalNode) (i : Fin 6) : Slot := ⟨node.valid i, node.childData i, node.box i⟩

def storedData (nodeType : NodeType) (child : Fin 6) (childType : NodeType)
    (blockDelta curPrim : Nat) : ChildData where
  blockIncr := Fin.ofNat 4 (if child = 5 then 0 else blockDelta)
  startPrim := if nodeType = .internal then childType.code else Fin.ofNat 16 curPrim

@[simp] theorem nodeType_setChild (node : InternalNode) (i : Fin 6) (box : BBox3f) (type : NodeType)
    (blockDelta curPrim : Nat) :
    (node.setChild i box type blockDelta curPrim).nodeType = node.nodeType := by
  rcases box with _ | box <;> rfl

@[simp] theorem childOffset_setChild (node : InternalNode) (i : Fin 6) (box : BBox3f)
    (type : NodeType) (blockDelta curPrim : Nat) :
    (node.setChild i box type blockDelta curPrim).childOffset = node.childOffset := by
  rcases box with _ | box <;> rfl

@[simp] theorem nodeMask_setChild (node : InternalNode) (i : Fin 6) (box : BBox3f) (type : NodeType)
    (blockDelta curPrim : Nat) :
    (node.setChild i box type blockDelta curPrim).nodeMask = node.nodeMask := by
  rcases box with _ | box <;> rfl

theorem slot_setChild_of_ne (node : InternalNode) {i j : Fin 6} (h : j ≠ i) (box : BBox3f)
    (type : NodeType) (blockDelta curPrim : Nat) :
    (node.setChild i box type blockDelta curPrim).slot j = node.slot j := by
  rcases box with _ | box
  · simp [setChild, setChildBounds, setChildType, slot, valid, h]
  · simp [setChild, setChildBounds, setChildType, slot, valid, h]

/-- The quantized bounds of a child with a box of its own. -/
theorem setChildBounds_coe (node : InternalNode) (i : Fin 6) (box : NonemptyInterval Vec3f) :
    node.setChildBounds i box =
      let lower := (conservativeBox box).1 - node.lower
      let upper := (conservativeBox box).2 - node.lower
      { node with
        lowerX := Function.update node.lowerX i (quantizeLower node.exp.1 lower.1)
        upperX := Function.update node.upperX i (quantizeUpper node.exp.1 upper.1)
        lowerY := Function.update node.lowerY i (quantizeLower node.exp.2.1 lower.2.1)
        upperY := Function.update node.upperY i (quantizeUpper node.exp.2.1 upper.2.1)
        lowerZ := Function.update node.lowerZ i (quantizeLower node.exp.2.2 lower.2.2)
        upperZ := Function.update node.upperZ i (quantizeUpper node.exp.2.2 upper.2.2)
        box := Function.update node.box i box } := rfl

theorem slot_setChild (node : InternalNode) (i : Fin 6) (box : NonemptyInterval Vec3f) (type : NodeType)
    (blockDelta curPrim : Nat) :
    (node.setChild i box type blockDelta curPrim).slot i =
      ⟨true, storedData node.nodeType i type blockDelta curPrim, box⟩ := by
  have hbox := (conservativeBox_le box).1
  have hvalid : (node.setChild i box type blockDelta curPrim).valid i = true := by
    refine valid_of_le ?_
    have hle : (conservativeBox box).1.1 - node.lower.1 ≤ (conservativeBox box).2.1 - node.lower.1 :=
      sub_le_sub_right hbox _
    simpa [setChild, setChildBounds_coe, setChildType] using quantize_le hle node.exp.1
  have hdata : (node.setChild i box type blockDelta curPrim).childData i =
      storedData node.nodeType i type blockDelta curPrim := by
    by_cases hmixed : node.nodeType = .internal <;>
      simp [setChild, setChildBounds_coe, setChildType, storedData, isFatLeaf, hmixed]
  rw [slot, hvalid, hdata]
  simp [setChild, setChildBounds_coe]

@[simp] theorem slot_setNodeMask (node : InternalNode) (mask : BitVec 8) (i : Fin 6) :
    (node.setNodeMask mask).slot i = node.slot i := rfl

@[simp] theorem slot_setChildOffset (node : InternalNode) (addr childDataPtr : Nat) (i : Fin 6) :
    (node.setChildOffset addr childDataPtr).slot i = node.slot i := rfl

@[simp] theorem nodeType_ofBounds (box : BBox3f) (type : NodeType) :
    (ofBounds box type).nodeType = type := by
  rcases box with _ | box <;> rfl

@[simp] theorem valid_slot_ofBounds (box : BBox3f) (type : NodeType) (i : Fin 6) :
    ((ofBounds box type).slot i).valid = false := by
  have hvalid : (ofType type).valid i = false := by simp [valid, ofType]
  rcases box with _ | box
  · exact hvalid
  · exact hvalid

structure ChildArgs where
  box : BBox3f
  type : NodeType
  blockDelta : Nat
  curPrim : Nat

def setChildren (node : InternalNode) : Nat → List ChildArgs → InternalNode
  | _, [] => node
  | i, c :: cs =>
      (node.setChild (Fin.ofNat 6 i) c.box c.type c.blockDelta c.curPrim).setChildren (i + 1) cs

@[simp] theorem nodeType_setChildren (node : InternalNode) (i : Nat) (cs : List ChildArgs) :
    (node.setChildren i cs).nodeType = node.nodeType := by
  induction cs generalizing node i with
  | nil => rfl
  | cons c cs ih => rw [setChildren, ih, nodeType_setChild]

theorem slot_setChildren_of_lt (node : InternalNode) {i : Nat} {cs : List ChildArgs} {j : Fin 6}
    (hlength : i + cs.length ≤ 6) (hj : j.val < i ∨ i + cs.length ≤ j.val) :
    (node.setChildren i cs).slot j = node.slot j := by
  induction cs generalizing node i with
  | nil => rfl
  | cons c cs ih =>
      rw [List.length_cons] at hlength hj
      have hi : (Fin.ofNat 6 i).val = i := Nat.mod_eq_of_lt (by omega)
      have hne : j ≠ Fin.ofNat 6 i := fun h => by
        have := congrArg Fin.val h
        omega
      rw [setChildren, ih _ (by omega) (by omega), slot_setChild_of_ne _ hne]

theorem slot_setChildren (node : InternalNode) {i : Nat} {cs : List ChildArgs}
    (hlength : i + cs.length ≤ 6) (hbox : ∀ c ∈ cs, c.box ≠ ⊥) {k : Nat} (hk : k < cs.length) :
    (node.setChildren i cs).slot (Fin.ofNat 6 (i + k)) =
      ⟨true, storedData node.nodeType
        (Fin.ofNat 6 (i + k)) cs[k].type cs[k].blockDelta cs[k].curPrim, cs[k].box⟩ := by
  induction cs generalizing node i k with
  | nil => exact absurd hk (Nat.not_lt_zero k)
  | cons c cs ih =>
      rw [List.length_cons] at hlength
      rw [setChildren]
      cases k with
      | zero =>
          have hi : (Fin.ofNat 6 i).val = i := Nat.mod_eq_of_lt (by omega)
          have hne := hbox c (List.mem_cons_self ..)
          have hbelow : (Fin.ofNat 6 i).val < i + 1 := by omega
          have hlater :
              ((node.setChild (Fin.ofNat 6 i) c.box c.type c.blockDelta c.curPrim).setChildren
                (i + 1) cs).slot (Fin.ofNat 6 i) =
              (node.setChild (Fin.ofNat 6 i) c.box c.type c.blockDelta c.curPrim).slot
                (Fin.ofNat 6 i) :=
            slot_setChildren_of_lt _ (by omega) (Or.inl hbelow)
          refine hlater.trans ?_
          obtain ⟨box, type, blockDelta, curPrim⟩ := c
          rcases box with _ | box
          · exact absurd rfl hne
          · exact slot_setChild node _ box type blockDelta curPrim
      | succ k =>
          rw [List.length_cons] at hk
          have hrest := ih (node.setChild (Fin.ofNat 6 i) c.box c.type c.blockDelta c.curPrim)
            (i := i + 1) (k := k)
            (by omega) (fun c hc => hbox c (List.mem_cons_of_mem _ hc)) (by omega)
          rw [nodeType_setChild] at hrest
          have hindex : i + (k + 1) = i + 1 + k := by omega
          rw [hindex]
          exact hrest

end InternalNode

end RTBuild
