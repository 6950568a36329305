import PbftBlock.Shamir

/-!
# What few shares reveal

The coefficients that `makePolynomial` draws are counted. Whatever fewer than
`threshold` shares say, the same number of choices leads to them from every secret of
the same length.
-/

namespace PbftBlock.ShareSecrecy

open PbftBlock.Library.SecretSharing
open PbftBlock.Shamir hiding add div log exp

set_option autoImplicit false

/-- The random coefficients of one polynomial for each byte of a secret. -/
abbrev Choices (length degree : Nat) := Fin length → Fin degree → UInt8

def drawnBytes {length degree : Nat} (c : Choices length degree) : List UInt8 :=
  (List.ofFn fun i => List.ofFn (c i)).flatten

/-- The coordinates are among those that `Split` assigns to the shares of the secret. -/
def Assigns (secret : List UInt8) (parts threshold : Int) (perm : List Nat)
    (seen : Finset UInt8) : Prop :=
  ∃ rand shares, split secret parts threshold perm rand = .ok shares ∧
    ∀ x ∈ seen, ∃ ys, ys ++ [x] ∈ shares

/-- `Split` gives each of the coordinates its share values. -/
def Gives (secret : List UInt8) (parts threshold : Int) (perm : List Nat) (seen : Finset UInt8)
    (values : UInt8 → List UInt8) (rand : List UInt8) : Prop :=
  ∃ shares, split secret parts threshold perm rand = .ok shares ∧
    ∀ x ∈ seen, values x ++ [x] ∈ shares

noncomputable def ways (secret : List UInt8) (parts threshold : Int) (perm : List Nat)
    (seen : Finset UInt8) (values : UInt8 → List UInt8) : Nat :=
  Nat.card {c : Choices secret.length (threshold - 1).toNat //
    Gives secret parts threshold perm seen values (drawnBytes c)}

section Coefficients

variable {length degree : Nat}

theorem drawn_bytes_length (c : Choices length degree) :
    (drawnBytes c).length = length * degree := by
  unfold drawnBytes
  rw [List.length_flatten]
  simp [Function.comp_def]

theorem polynomials_drawn (secret : List UInt8) (c : Choices secret.length degree) :
    polynomials degree secret (drawnBytes c) =
      List.ofFn fun i => secret.get i :: List.ofFn (c i) := by
  induction secret with
  | nil => rfl
  | cons val secret induction =>
      have front : drawnBytes c = List.ofFn (c 0) ++ drawnBytes (fun i => c i.succ) := by
        rw [drawnBytes, List.ofFn_succ, List.flatten_cons]
        rfl
      rw [polynomials, front, List.take_left' (List.length_ofFn ..), List.drop_left' (List.length_ofFn ..),
        induction, List.ofFn_succ]
      rfl

theorem evaluate_drawn (s x : UInt8) (c : Fin degree → UInt8) :
    (⟨evaluate (s :: List.ofFn c) x⟩ : Gf) = ⟨s⟩ + spread (fun k => ⟨c k⟩) ⟨x⟩ := by
  rw [evaluate_eval (List.cons_ne_nil _ _), toPolynomial, List.map_cons, List.map_ofFn,
    eval_coefficients_spread]
  rfl

end Coefficients

section Counting

variable {secret : List UInt8} {parts threshold : Int} {perm : List Nat} {seen : Finset UInt8}
  {values : UInt8 → List UInt8}

theorem split_inv {rand : List UInt8} {shares : List (List UInt8)}
    (ran : split secret parts threshold perm rand = .ok shares) :
    secret ≠ [] ∧ ∃ ps, shares = (coordinates perm parts.toNat).map (share ps) := by
  unfold split at ran
  split_ifs at ran with _ _ _ _ empty
  cases made : makePolynomials (UInt8.ofNat (threshold - 1).toNat) secret rand with
  | error err =>
      rw [made] at ran
      cases ran
  | ok ps =>
      rw [made] at ran
      cases ran
      exact ⟨by simpa using empty, ps, rfl⟩

theorem assigns_inv (assigned : Assigns secret parts threshold perm seen) :
    secret ≠ [] ∧ ∀ x ∈ seen, x ∈ coordinates perm parts.toNat := by
  obtain ⟨rand, shares, ran, each⟩ := assigned
  obtain ⟨some, ps, rfl⟩ := split_inv ran
  refine ⟨some, ?_⟩
  intro x member
  obtain ⟨ys, given⟩ := each x member
  obtain ⟨x', inside, same⟩ := List.mem_map.mp given
  obtain ⟨_, last⟩ := List.append_inj' same rfl
  rw [← (List.cons.inj last).1]
  exact inside

theorem share_given {ps : List (List UInt8)} {xs ys : List UInt8} {x : UInt8} (assigned : x ∈ xs)
    (length : ys.length = ps.length) :
    ys ++ [x] ∈ xs.map (share ps) ↔ ys = ps.map (evaluate · x) := by
  constructor
  · intro member
    obtain ⟨x', _, same⟩ := List.mem_map.mp member
    obtain ⟨values, last⟩ := List.append_inj same (by rw [List.length_map, length])
    rw [← values, (List.cons.inj last).1]
  · intro same
    rw [same]
    exact List.mem_map_of_mem assigned

theorem eq_of_fn_iff {n : Nat} {ys : List UInt8} (length : ys.length = n) (f : Fin n → UInt8) :
    ys = List.ofFn f ↔ ∀ i : Fin n, ys.getD i.val 0 = f i := by
  constructor
  · rintro rfl i
    rw [List.getD_eq_getElem _ _ (by rw [length]; exact i.2), List.getElem_ofFn]
  · intro each
    apply List.ext_getElem
    · rw [length, List.length_ofFn]
    · intro i inside _
      have value := each ⟨i, by omega⟩
      rw [List.getD_eq_getElem _ _ inside] at value
      rw [value, List.getElem_ofFn]

/-- What the drawn coefficients have to add to the secret at a coordinate. -/
def target (secret : List UInt8) (values : UInt8 → List UInt8) (i : Fin secret.length) (z : Gf) : Gf :=
  ⟨(values z.byte).getD i.val 0⟩ - ⟨secret.get i⟩

theorem gives_iff (some : secret ≠ []) (least : 2 ≤ threshold) (order : threshold ≤ parts)
    (most : parts ≤ 255) (permuted : perm.Perm (List.range 255))
    (assigned : ∀ x ∈ seen, x ∈ coordinates perm parts.toNat)
    (lengths : ∀ x ∈ seen, (values x).length = secret.length)
    (c : Choices secret.length (threshold - 1).toNat) :
    Gives secret parts threshold perm seen values (drawnBytes c) ↔
      Matches (seen.image Gf.mk) (target secret values) fun i k => ⟨c i k⟩ := by
  have sharing : Sharing secret parts threshold perm (drawnBytes c) :=
    ⟨some, least, order, most, permuted, (drawn_bytes_length c).ge⟩
  have split := split_ok sharing
  have each : ∀ x ∈ seen,
      (values x ++ [x] ∈ (coordinates perm parts.toNat).map
        (share (polynomials (threshold - 1).toNat secret (drawnBytes c))) ↔
      ∀ i, spread (fun k => (⟨c i k⟩ : Gf)) ⟨x⟩ = target secret values i ⟨x⟩) := by
    intro x member
    rw [share_given (assigned x member) (by rw [lengths x member, polynomials_length]),
      polynomials_drawn, List.map_ofFn, eq_of_fn_iff (lengths x member)]
    apply forall_congr'
    intro i
    have value := evaluate_drawn (secret.get i) x (c i)
    rw [target, eq_sub_iff_add_eq', ← value]
    exact ⟨fun same => congrArg Gf.mk same.symm, fun same => (congrArg Gf.byte same).symm⟩
  constructor
  · rintro ⟨shares, ran, given⟩ i z member
    obtain ⟨x, inside, rfl⟩ := Finset.mem_image.mp member
    rw [split] at ran
    cases ran
    exact (each x inside).mp (given x inside) i
  · intro fits
    refine ⟨_, split, ?_⟩
    intro x inside
    rw [each x inside]
    intro i
    exact fits i ⟨x⟩ (Finset.mem_image_of_mem Gf.mk inside)

/-- Bytes are the elements of the field. -/
def byteEquiv : UInt8 ≃ Gf := ⟨Gf.mk, Gf.byte, fun _ => rfl, fun _ => rfl⟩

theorem ways_matches (some : secret ≠ []) (least : 2 ≤ threshold) (order : threshold ≤ parts)
    (most : parts ≤ 255) (permuted : perm.Perm (List.range 255))
    (assigned : ∀ x ∈ seen, x ∈ coordinates perm parts.toNat)
    (lengths : ∀ x ∈ seen, (values x).length = secret.length) :
    ways secret parts threshold perm seen values =
      Nat.card {c : Fin secret.length → Fin (threshold - 1).toNat → Gf //
        Matches (seen.image Gf.mk) (target secret values) c} := by
  apply Nat.card_congr
  apply (Equiv.piCongrRight fun _ => Equiv.piCongrRight fun _ => byteEquiv).subtypeEquiv
  intro c
  exact gives_iff some least order most permuted assigned lengths c

/-- The values at fewer than `threshold` coordinates come about in the same number of
ways from any two secrets of one length. -/
theorem shares_reveal_nothing (secret secret' : List UInt8) (parts threshold : Int)
    (perm : List Nat) (same : secret'.length = secret.length) (least : 2 ≤ threshold)
    (order : threshold ≤ parts) (most : parts ≤ 255) (permuted : perm.Perm (List.range 255))
    (seen : Finset UInt8) (assigns : Assigns secret parts threshold perm seen)
    (few : seen.card ≤ threshold - 1)
    (values : UInt8 → List UInt8) (lengths : ∀ x ∈ seen, (values x).length = secret.length) :
    ways secret parts threshold perm seen values = ways secret' parts threshold perm seen values ∧
      0 < ways secret parts threshold perm seen values := by
  have most' : parts.toNat ≤ 255 := Int.toNat_le.mpr most
  obtain ⟨some, assigned⟩ := assigns_inv assigns
  have some' : secret' ≠ [] := by
    rw [← List.length_pos_iff] at some ⊢
    omega
  have lengths' : ∀ x ∈ seen, (values x).length = secret'.length := by
    intro x member
    rw [lengths x member, same]
  obtain ⟨_, _, nonzero⟩ := coordinates_facts permuted most'
  have apart : (0 : Gf) ∉ seen.image Gf.mk := by
    intro member
    obtain ⟨x, inside, zero⟩ := Finset.mem_image.mp member
    have origin : x = 0 := congrArg Gf.byte zero
    exact nonzero (origin ▸ assigned x inside)
  have fewer : (seen.image Gf.mk).card ≤ (threshold - 1).toNat := by
    have mapped : (seen.image Gf.mk).card ≤ seen.card := Finset.card_image_le
    omega
  rw [ways_matches some least order most permuted assigned lengths,
    ways_matches some' least order most permuted assigned lengths']
  refine ⟨?_, card_matches_pos apart fewer _⟩
  -- the secrets differ, but the index types are the same
  have across : ∀ n, n = secret.length → ∀ y : Fin n → Gf → Gf,
      Nat.card {c : Fin secret.length → Fin (threshold - 1).toNat → Gf //
        Matches (seen.image Gf.mk) (target secret values) c} =
      Nat.card {c : Fin n → Fin (threshold - 1).toNat → Gf //
        Matches (seen.image Gf.mk) y c} := by
    rintro n rfl y
    exact card_matches_eq apart fewer _ _
  exact across _ same _

/-- One share of two, for two secrets of one byte. -/
theorem one_share_reveals_nothing :
    ways [7] 2 2 (List.range 255) {1} (fun _ => [5]) =
        ways [8] 2 2 (List.range 255) {1} (fun _ => [5]) ∧
      0 < ways [7] 2 2 (List.range 255) {1} (fun _ => [5]) := by
  have sharing : Sharing [7] 2 2 (List.range 255) [9] :=
    ⟨List.cons_ne_nil 7 [], by decide, by decide, by decide, List.Perm.refl _, by decide⟩
  have assigns : Assigns [7] 2 2 (List.range 255) {1} := by
    refine ⟨[9], _, split_ok sharing, ?_⟩
    intro x member
    rw [Finset.mem_singleton.mp member]
    exact ⟨_, List.mem_cons_self⟩
  exact shares_reveal_nothing [7] [8] 2 2 (List.range 255) rfl (by decide) (by decide) (by decide)
    (List.Perm.refl _) {1} assigns (by decide) (fun _ => [5]) fun _ _ => rfl

end Counting

end PbftBlock.ShareSecrecy
