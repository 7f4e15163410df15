import RTBuild.PrimRef

namespace RTBuild

def dot (a b : Vec3f) : ℚ := a.1 * b.1 + (a.2.1 * b.2.1 + a.2.2 * b.2.2)

def cross (a b : Vec3f) : Vec3f :=
  (a.2.1 * b.2.2 - a.2.2 * b.2.1, a.2.2 * b.1 - a.1 * b.2.2, a.1 * b.2.1 - a.2.1 * b.1)

structure LinearSpace3f where
  vx : Vec3f
  vy : Vec3f
  vz : Vec3f
  deriving DecidableEq

namespace LinearSpace3f

variable (m : LinearSpace3f)

def det : ℚ := dot m.vx (cross m.vy m.vz)

def transposed : LinearSpace3f :=
  ⟨(m.vx.1, m.vy.1, m.vz.1), (m.vx.2.1, m.vy.2.1, m.vz.2.1), (m.vx.2.2, m.vy.2.2, m.vz.2.2)⟩

def adjoint : LinearSpace3f := transposed ⟨cross m.vy m.vz, cross m.vz m.vx, cross m.vx m.vy⟩

def inverse : LinearSpace3f :=
  ⟨(1 / m.det) • m.adjoint.vx, (1 / m.det) • m.adjoint.vy, (1 / m.det) • m.adjoint.vz⟩

def mul (b : Vec3f) : Vec3f := b.1 • m.vx + (b.2.1 • m.vy + b.2.2 • m.vz)

end LinearSpace3f

structure AffineSpace3f where
  l : LinearSpace3f
  p : Vec3f
  deriving DecidableEq

namespace AffineSpace3f

def one : AffineSpace3f := ⟨⟨(1, 0, 0), (0, 1, 0), (0, 0, 1)⟩, (0, 0, 0)⟩

def rcp (a : AffineSpace3f) : AffineSpace3f := ⟨a.l.inverse, -(a.l.inverse.mul a.p)⟩

def xfmPoint (m : AffineSpace3f) (p : Vec3f) : Vec3f :=
  p.1 • m.l.vx + (p.2.1 • m.l.vy + (p.2.2 • m.l.vz + m.p))

end AffineSpace3f

namespace LinearSpace3f

variable (m : LinearSpace3f)

def toLinearMap : Vec3f →ₗ[ℚ] Vec3f where
  toFun := m.mul
  map_add' u v := by
    simp only [mul, Prod.fst_add, Prod.snd_add]
    module
  map_smul' a v := by
    simp only [mul, Prod.smul_fst, Prod.smul_snd, smul_eq_mul, RingHom.id_apply]
    module

theorem mul_add (u v : Vec3f) : m.mul (u + v) = m.mul u + m.mul v := m.toLinearMap.map_add u v

theorem mul_neg (v : Vec3f) : m.mul (-v) = -m.mul v := m.toLinearMap.map_neg v

theorem mul_smul (a : ℚ) (v : Vec3f) : m.mul (a • v) = a • m.mul v := m.toLinearMap.map_smul a v

theorem adjoint_mul (v : Vec3f) : m.adjoint.mul (m.mul v) = m.det • v := by
  ext
  all_goals
    simp only [mul, adjoint, transposed, det, dot, cross, Prod.smul_mk, Prod.mk_add_mk, Prod.fst_add,
      Prod.snd_add, Prod.smul_fst, Prod.smul_snd, smul_eq_mul]
    ring

theorem mul_adjoint (v : Vec3f) : m.mul (m.adjoint.mul v) = m.det • v := by
  ext
  all_goals
    simp only [mul, adjoint, transposed, det, dot, cross, Prod.smul_mk, Prod.mk_add_mk, Prod.fst_add,
      Prod.snd_add, Prod.smul_fst, Prod.smul_snd, smul_eq_mul]
    ring

theorem inverse_mul_eq (v : Vec3f) : m.inverse.mul v = (1 / m.det) • m.adjoint.mul v := by
  rw [mul, mul, inverse]
  module

variable {m}

theorem inverse_mul (h : m.det ≠ 0) (v : Vec3f) : m.inverse.mul (m.mul v) = v := by
  rw [inverse_mul_eq, adjoint_mul, smul_smul, one_div_mul_cancel h, one_smul]

theorem mul_inverse (h : m.det ≠ 0) (v : Vec3f) : m.mul (m.inverse.mul v) = v := by
  rw [inverse_mul_eq, mul_smul, mul_adjoint, smul_smul, one_div_mul_cancel h, one_smul]

end LinearSpace3f

namespace AffineSpace3f

variable {m : AffineSpace3f}

theorem xfmPoint_eq (m : AffineSpace3f) (x : Vec3f) : m.xfmPoint x = m.l.mul x + m.p := by
  rw [xfmPoint, LinearSpace3f.mul]
  module

theorem rcp_xfmPoint (h : m.l.det ≠ 0) (x : Vec3f) : m.rcp.xfmPoint (m.xfmPoint x) = x := by
  rw [xfmPoint_eq, xfmPoint_eq, rcp, LinearSpace3f.mul_add, LinearSpace3f.inverse_mul h]
  exact add_neg_cancel_right x _

theorem xfmPoint_rcp (h : m.l.det ≠ 0) (x : Vec3f) : m.xfmPoint (m.rcp.xfmPoint x) = x := by
  rw [xfmPoint_eq, xfmPoint_eq, rcp, LinearSpace3f.mul_add, LinearSpace3f.mul_neg,
    LinearSpace3f.mul_inverse h, LinearSpace3f.mul_inverse h]
  exact neg_add_cancel_right x _

end AffineSpace3f

end RTBuild
