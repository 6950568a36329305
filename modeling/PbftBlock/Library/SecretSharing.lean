import Mathlib.LinearAlgebra.Lagrange
import Mathlib.SetTheory.Cardinal.Finite
import Mathlib.Tactic.LinearCombination

/-!
# Sharing a secret by a polynomial

The secret is the constant coefficient of a polynomial and the shares are values of
it. As many values as there are coefficients give the polynomial back by
interpolation. With fewer values away from zero every secret is possible, and all
secrets in the same number of ways.
-/

namespace PbftBlock.Library.SecretSharing

open Polynomial

set_option autoImplicit false

variable {F : Type} [Field F]

section Recovery

noncomputable def ofCoefficients : List F → F[X]
  | [] => 0
  | c :: cs => C c + X * ofCoefficients cs

theorem eval_of_coefficients_cons (c x : F) (cs : List F) :
    (ofCoefficients (c :: cs)).eval x = c + x * (ofCoefficients cs).eval x := by
  simp [ofCoefficients]

theorem degree_of_coefficients (cs : List F) : (ofCoefficients cs).degree < cs.length := by
  induction cs with
  | nil => simp [ofCoefficients]
  | cons c cs induction =>
      rw [degree_lt_iff_coeff_zero] at induction ⊢
      intro m above
      obtain ⟨m, rfl⟩ : ∃ less, m = less + 1 := ⟨m - 1, by rw [List.length_cons] at above; omega⟩
      rw [ofCoefficients, coeff_add, coeff_C_succ, coeff_X_mul, zero_add]
      apply induction
      rw [List.length_cons] at above
      omega

/-- The interpolation formula on samples of a polynomial of small degree. -/
theorem interpolation_eval {n : Nat} {f : F[X]} {v : Nat → F}
    (distinct : Set.InjOn v (Finset.range n)) (degree : f.degree < n) (x : F) :
    ∑ i ∈ Finset.range n,
      f.eval (v i) * ∏ j ∈ Finset.range n, (if i = j then 1 else (x - v j) / (v i - v j)) =
        f.eval x := by
  have whole : f = Lagrange.interpolate (Finset.range n) v fun i => f.eval (v i) :=
    Lagrange.eq_interpolate distinct (by rw [Finset.card_range]; exact degree)
  conv_rhs => rw [whole, Lagrange.interpolate_apply, eval_finsetSum]
  apply Finset.sum_congr rfl
  intro i _
  rw [eval_mul, eval_C, Lagrange.basis, eval_prod]
  apply congrArg
  have skipped : (if i = i then (1 : F) else (x - v i) / (v i - v i)) = 1 := if_pos rfl
  rw [← Finset.prod_erase (Finset.range n) skipped]
  apply Finset.prod_congr rfl
  intro j member
  rw [if_neg (Finset.ne_of_mem_erase member).symm, Lagrange.basisDivisor, eval_mul, eval_C,
    eval_sub, eval_X, eval_C, div_eq_inv_mul]

end Recovery

section Secrecy

/-- The value at `x` of a polynomial with the constant coefficient zero. -/
def spread {d : Nat} (c : Fin d → F) (x : F) : F := ∑ k, c k * x ^ (k.val + 1)

theorem spread_add {d : Nat} (c c' : Fin d → F) (x : F) :
    spread (c + c') x = spread c x + spread c' x := by
  simp [spread, add_mul, Finset.sum_add_distrib]

theorem eval_coefficients_spread {d : Nat} (s x : F) (c : Fin d → F) :
    (ofCoefficients (s :: List.ofFn c)).eval x = s + spread c x := by
  induction d generalizing s with
  | zero => simp [spread, ofCoefficients]
  | succ d induction =>
      rw [List.ofFn_succ, eval_of_coefficients_cons, induction, spread, spread, Fin.sum_univ_succ]
      simp only [Fin.val_zero, Fin.val_succ, mul_add, Finset.mul_sum, pow_succ]
      congr 2
      · ring
      · apply Finset.sum_congr rfl
        intro k _
        ring

/-- Any values at few points other than zero are taken. -/
theorem spread_reaches [DecidableEq F] {d : Nat} {points : Finset F} (nonzero : 0 ∉ points)
    (few : points.card ≤ d) (y : F → F) : ∃ c : Fin d → F, ∀ x ∈ points, spread c x = y x := by
  -- interpolate the values together with a zero at zero
  have distinct : Set.InjOn (id : F → F) (insert 0 points : Finset F) := Set.injOn_id _
  let f := Lagrange.interpolate (insert 0 points) id fun x => if x = 0 then 0 else y x
  have node : ∀ x ∈ insert 0 points, f.eval x = if x = 0 then 0 else y x := fun x member =>
    Lagrange.eval_interpolate_at_node _ distinct member
  have degree : f.natDegree ≤ d := by
    apply natDegree_le_of_degree_le
    apply (Lagrange.degree_interpolate_le _ distinct).trans
    rw [Finset.card_insert_of_notMem nonzero, Nat.add_sub_cancel]
    exact_mod_cast few
  have start : f.coeff 0 = 0 := by
    rw [coeff_zero_eq_eval_zero, node 0 (Finset.mem_insert_self 0 points), if_pos rfl]
  refine ⟨fun k => f.coeff (k.val + 1), ?_⟩
  intro x member
  have other : x ≠ 0 := fun zero => nonzero (zero ▸ member)
  have value := node x (Finset.mem_insert_of_mem member)
  rw [if_neg other, eval_eq_sum_range' (Nat.lt_succ_of_le degree), Finset.sum_range_succ', start,
    zero_mul, add_zero, Finset.sum_range] at value
  exact value

/-- The coefficients for which the values at the points are the given ones. -/
def Matches {ι : Type} {d : Nat} (points : Finset F) (y : ι → F → F) (c : ι → Fin d → F) : Prop :=
  ∀ i, ∀ x ∈ points, spread (c i) x = y i x

variable {ι : Type} {d : Nat} {points : Finset F}

theorem matches_exist [DecidableEq F] (nonzero : 0 ∉ points) (few : points.card ≤ d)
    (y : ι → F → F) : ∃ c : ι → Fin d → F, Matches points y c := by
  choose c reached using fun i => spread_reaches nonzero few (y i)
  exact ⟨c, reached⟩

/-- All values are taken equally often: the coefficients for one are those for the
other, shifted. -/
theorem card_matches_eq [DecidableEq F] (nonzero : 0 ∉ points) (few : points.card ≤ d)
    (y y' : ι → F → F) :
    Nat.card {c : ι → Fin d → F // Matches points y c} =
      Nat.card {c : ι → Fin d → F // Matches points y' c} := by
  obtain ⟨shift, moves⟩ : ∃ shift : ι → Fin d → F, Matches points (y' - y) shift :=
    matches_exist nonzero few _
  apply Nat.card_congr
  apply (Equiv.addRight shift).subtypeEquiv
  intro c
  have moved : ∀ i, ∀ x ∈ points, spread (c i + shift i) x = spread (c i) x + (y' i x - y i x) := by
    intro i x member
    rw [spread_add, moves i x member]
    rfl
  constructor
  · intro fits i x member
    change spread (c i + shift i) x = y' i x
    rw [moved i x member, fits i x member, add_sub_cancel]
  · intro fits i x member
    have value : spread (c i + shift i) x = y' i x := fits i x member
    rw [moved i x member] at value
    linear_combination value

theorem card_matches_pos [DecidableEq F] [Finite F] [Finite ι] (nonzero : 0 ∉ points)
    (few : points.card ≤ d) (y : ι → F → F) :
    0 < Nat.card {c : ι → Fin d → F // Matches points y c} := by
  obtain ⟨c, fits⟩ := matches_exist nonzero few y
  rw [Nat.card_pos_iff]
  exact ⟨⟨c, fits⟩, inferInstance⟩

end Secrecy

end PbftBlock.Library.SecretSharing
