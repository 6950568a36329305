import Mathlib.Algebra.Field.Basic
import Mathlib.Tactic.LinearCombination
import Mathlib.Tactic.SplitIfs

/-!
# Residues modulo a cubic

Polynomials of degree two at most, multiplied modulo `x³ + ax + b`. At a root of the
cubic the value of a product is the product of the values, so that a power of the
indeterminate taken here is the same power of every root.
-/

namespace PbftBlock.Library.CubicResidues

set_option autoImplicit false

/-- The coefficients, the constant first. -/
@[ext] structure Residue (F : Type) where
  c₀ : F
  c₁ : F
  c₂ : F
deriving DecidableEq

variable {F : Type} [Field F]

def value (r : F) (u : Residue F) : F := u.c₀ + u.c₁ * r + u.c₂ * r ^ 2

def mul (a b : F) (u v : Residue F) : Residue F :=
  let c₃ := u.c₁ * v.c₂ + u.c₂ * v.c₁
  let c₄ := u.c₂ * v.c₂
  ⟨u.c₀ * v.c₀ - b * c₃, u.c₀ * v.c₁ + u.c₁ * v.c₀ - a * c₃ - b * c₄,
    u.c₀ * v.c₂ + u.c₁ * v.c₁ + u.c₂ * v.c₀ - a * c₄⟩

def power (a b : F) : (bits : ℕ) → (k : ℕ) → Residue F
  | 0, _ => ⟨1, 0, 0⟩
  | bits + 1, k =>
      let half := power a b bits (k / 2)
      let square := mul a b half half
      if k % 2 = 0 then square else mul a b square ⟨0, 1, 0⟩

variable {a b r : F}

theorem value_mul (root : r ^ 3 + a * r + b = 0) (u v : Residue F) :
    value r (mul a b u v) = value r u * value r v := by
  simp only [value, mul]
  linear_combination (-(u.c₁ * v.c₂ + u.c₂ * v.c₁) - u.c₂ * v.c₂ * r) * root

theorem value_power (root : r ^ 3 + a * r + b = 0) {bits k : ℕ} (fits : k < 2 ^ bits) :
    value r (power a b bits k) = r ^ k := by
  induction bits generalizing k with
  | zero =>
      obtain rfl : k = 0 := by simpa using fits
      simp [power, value]
  | succ bits induction =>
      have below : k / 2 < 2 ^ bits := by
        rw [pow_succ] at fits
        omega
      have half := induction below
      have indeterminate : value r ⟨0, 1, 0⟩ = r := by simp [value]
      rw [power]
      split_ifs with even
      · rw [value_mul root, half, ← pow_add]
        congr 1
        omega
      · rw [value_mul root, value_mul root, half, indeterminate, ← pow_add, ← pow_succ]
        congr 1
        omega

/-- A cubic has no root when the indeterminate differs from its power with the number of
the field's elements by an invertible residue. -/
theorem no_root {q bits : ℕ} (frobenius : ∀ x : F, x ^ q = x) (fits : q < 2 ^ bits)
    (inverse : Residue F)
    (inverts : mul a b ⟨(power a b bits q).c₀, (power a b bits q).c₁ - 1, (power a b bits q).c₂⟩
      inverse = ⟨1, 0, 0⟩) (r : F) : r ^ 3 + a * r + b ≠ 0 := by
  intro root
  have fixed : value r (power a b bits q) = r := (value_power root fits).trans (frobenius r)
  have vanishes : value r ⟨(power a b bits q).c₀, (power a b bits q).c₁ - 1,
      (power a b bits q).c₂⟩ = 0 := by
    rw [value] at fixed ⊢
    linear_combination fixed
  have product := value_mul root
    ⟨(power a b bits q).c₀, (power a b bits q).c₁ - 1, (power a b bits q).c₂⟩ inverse
  rw [inverts, vanishes, zero_mul] at product
  exact one_ne_zero ((by simp [value] : value r ⟨1, 0, 0⟩ = 1).symm.trans product)

end PbftBlock.Library.CubicResidues
