import PbftBlock.Shamir
import PbftBlock.RlpxHandshake

/-!
# Backup of a key

`TSS_backup` splits a key into shares and encrypts each for its holder. What a holder
decrypts is the share, and enough shares give the key back.
-/

namespace PbftBlock.SecretBackup

open PbftBlock.Library.FallibleMethods PbftBlock.Sm2 PbftBlock.NodeKeys PbftBlock.RlpxHandshake
open PbftBlock.Shamir hiding add div log exp

set_option autoImplicit false

variable {curve : Curve}

section Encryption

/-- Whatever numbers `Encrypt` has drawn when it returns, `Decrypt` gives the data back. -/
theorem sm2_round_trip (exchanges : Exchanges curve) (prv : PrivateKey curve)
    (data : List UInt8) (ks : List Nat) (cipher : List UInt8)
    (returned : encrypt curve prv.point data ks = some cipher) :
    cipher.length = (if data = [] then 0 else data.length + 97) ∧ decrypt prv cipher = .ok data := by
  by_cases empty : data = []
  · subst empty
    obtain rfl : [] = cipher := Option.some.inj returned
    exact ⟨rfl, rfl⟩
  · rw [if_neg empty]
    exact ⟨encrypt_length exchanges empty returned, decrypt_encrypt exchanges empty returned⟩

/-- One byte for the second key of the clock, whose first coordinate has 31 leading
zeros. -/
theorem sm2_round_trip_on_clock :
    ∃ cipher, encrypt clock bob.point [7] [3] = some cipher ∧
      cipher.length = 98 ∧ decrypt bob cipher = .ok [7] := by
  have exchanges := lawful_exchanges clock_lawful
  have shared : clock.scalarMult bob.point 3 = ⟨6, 6⟩ := rfl
  obtain ⟨cipher, _, returned⟩ := clock_encrypts (List.cons_ne_nil 7 []) shared
  exact ⟨cipher, returned, sm2_round_trip exchanges bob [7] [3] cipher returned⟩

end Encryption

/-- How a backup fails: in `Split`, in drawing for `Encrypt` with the texts made so far, or
with the panic of a nil key. -/
inductive BackupError where
  | shamir (err : ShamirError)
  | drawing (secstr : List (List UInt8))
  | panicked

/-- The loop of the encryptions, where `done` are the texts made so far. -/
def sealFrom (curve : Curve) (piece : Nat → List UInt8) (ks : Nat → List Nat) :
    List (List UInt8) → List (List UInt8) → Except BackupError (List (List UInt8))
  | [], done => .ok done
  | backuper :: rest, done =>
      match toECDSAPub curve backuper with
      | some (some point) =>
          match encrypt curve point (piece done.length) (ks done.length) with
          | none => .error (.drawing (done ++ List.replicate (rest.length + 1) []))
          | some text => sealFrom curve piece ks rest (done ++ [text])
      | _ => .error .panicked

/-- `TSS_backup`, with the numbers that `Split` and the calls of `Encrypt` draw. -/
def tssBackup (curve : Curve) (prk : List UInt8) (backuperList : List (List UInt8))
    (threshold : Int) (perm : List Nat) (rand : List UInt8) (ks : Nat → List Nat) :
    Except BackupError (List (List UInt8)) :=
  match split prk backuperList.length threshold perm rand with
  | .error err => .error (.shamir err)
  | .ok piece => sealFrom curve (piece.getD · []) ks backuperList []

def tssRecover (seglist : List (List UInt8)) : Except ShamirError (List UInt8) :=
  match combine seglist with
  | .error err => .error err
  | .ok prk => .ok prk

section Recovery

variable {secret rand : List UInt8} {parts threshold : Int} {perm : List Nat}

theorem split_shares (sharing : Sharing secret parts threshold perm rand) :
    ∃ shares, split secret parts threshold perm rand = .ok shares ∧
      (shares.length : Int) = parts ∧ shares.Nodup ∧ (∀ share ∈ shares, share ≠ []) ∧
      ∀ chosen : List (List UInt8), chosen.Nodup → (∀ share ∈ chosen, share ∈ shares) →
        threshold ≤ chosen.length → combine chosen = .ok secret := by
  have least := sharing.least
  have order := sharing.order
  have most : parts.toNat ≤ 255 := Int.toNat_le.mpr sharing.most
  obtain ⟨count, distinct, _⟩ := coordinates_facts sharing.permuted most
  have some : polynomials (threshold - 1).toNat secret rand ≠ [] := by
    apply List.length_pos_iff.mp
    rw [polynomials_length]
    exact List.length_pos_iff.mpr sharing.some
  refine ⟨_, split_ok sharing, ?_, ?_, ?_, ?_⟩
  · rw [List.length_map, count]
    omega
  · apply List.Nodup.map_on _ distinct
    intro x _ y _ same
    have coordinate := congrArg (List.getD · (polynomials (threshold - 1).toNat secret rand).length 0)
      same
    simpa only [share_coordinate] using coordinate
  · intro share member
    obtain ⟨x, _, rfl⟩ := List.mem_map.mp member
    exact List.append_ne_nil_of_right_ne_nil _ (List.cons_ne_nil x [])
  · intro chosen different taken enough
    rw [combine_selection some (polynomials_sizes _ _ _) taken different (by omega) (by omega),
      polynomials_origin]

def publicKeys (holders : List (PrivateKey curve)) : List (List UInt8) :=
  holders.map fun prv => fromECDSAPub (some prv.point)

theorem public_key_read (lawful : Lawful curve) (prv : PrivateKey curve) :
    toECDSAPub curve (fromECDSAPub (some prv.point)) = some (some prv.point) := by
  rw [toECDSAPub, if_neg (by simp [fromECDSAPub, marshal])]
  exact congrArg some (unmarshal_key lawful prv)

/-- What the loop adds are the pieces, each encrypted for its holder. -/
theorem seal_from_inv (lawful : Lawful curve) {piece : Nat → List UInt8} {ks : Nat → List Nat}
    (holders : List (PrivateKey curve)) (done texts : List (List UInt8))
    (ran : sealFrom curve piece ks (publicKeys holders) done = .ok texts) :
    ∃ new, texts = done ++ new ∧ new.length = holders.length ∧
      ∀ i (inside : i < holders.length),
        encrypt curve (holders.get ⟨i, inside⟩).point (piece (done.length + i))
          (ks (done.length + i)) = some (new.getD i []) := by
  induction holders generalizing done with
  | nil =>
      cases ran
      exact ⟨[], (List.append_nil _).symm, rfl, fun i inside => absurd inside (Nat.not_lt_zero i)⟩
  | cons prv holders induction =>
      rw [publicKeys, List.map_cons, sealFrom, public_key_read lawful] at ran
      dsimp only at ran
      cases first : encrypt curve prv.point (piece done.length) (ks done.length) with
      | none =>
          rw [first] at ran
          cases ran
      | some text =>
          rw [first] at ran
          obtain ⟨new, rfl, count, each⟩ := induction (done ++ [text]) ran
          refine ⟨text :: new, by simp, by simp [count], ?_⟩
          intro i inside
          cases i with
          | zero => exact first
          | succ i =>
              have later := each i (by simpa using inside)
              rw [List.length_append, List.length_singleton, Nat.add_assoc, Nat.add_comm 1] at later
              exact later

/-- The pieces of a backup, each read by its holder. -/
theorem backup_pieces (lawful : Lawful curve) {holders : List (PrivateKey curve)}
    {ks : Nat → List Nat} {shares texts : List (List UInt8)}
    (made : split secret (publicKeys holders).length threshold perm rand = .ok shares)
    (count : shares.length = holders.length) (some : ∀ share ∈ shares, share ≠ [])
    (ran : tssBackup curve secret (publicKeys holders) threshold perm rand ks = .ok texts) :
    texts.length = holders.length ∧
      ∀ i : Fin holders.length, decrypt (holders.get i) (texts.getD i []) = .ok (shares.getD i []) := by
  rw [tssBackup, made] at ran
  obtain ⟨new, rfl, length, each⟩ := seal_from_inv lawful holders [] texts ran
  refine ⟨length, ?_⟩
  intro i
  have inside : i < shares.length := by omega
  have nonempty : shares.getD i [] ≠ [] := by
    rw [List.getD_eq_getElem _ _ inside]
    exact some _ (List.getElem_mem inside)
  have returned := each i i.2
  rw [List.length_nil, Nat.zero_add] at returned
  exact decrypt_encrypt (lawful_exchanges lawful) nonempty returned

theorem selection_nodup {shares : List (List UInt8)} {n : Nat} (count : shares.length = n)
    (distinct : shares.Nodup) {chosen : List (Fin n)} (different : chosen.Nodup) :
    (chosen.map fun i : Fin n => shares.getD i.val []).Nodup := by
  apply different.map
  intro i j same
  have first : i < shares.length := by omega
  have second : j < shares.length := by omega
  dsimp only at same
  rw [List.getD_eq_getElem _ _ first, List.getD_eq_getElem _ _ second] at same
  exact Fin.ext ((List.Nodup.getElem_inj_iff distinct).mp same)

theorem tss_recovers (lawful : Lawful curve) (holders : List (PrivateKey curve))
    (ks : Nat → List Nat) (sharing : Sharing secret holders.length threshold perm rand)
    (texts : List (List UInt8))
    (ran : tssBackup curve secret (publicKeys holders) threshold perm rand ks = .ok texts) :
    texts.length = holders.length ∧
      ∀ chosen : List (Fin holders.length), chosen.Nodup → threshold ≤ chosen.length →
        ∃ segments, (chosen.mapM fun i => decrypt (holders.get i) (texts.getD i [])) = .ok segments ∧
          tssRecover segments = .ok secret := by
  obtain ⟨shares, made, count, distinct, some, recovers⟩ := split_shares sharing
  have size : (publicKeys holders).length = holders.length := List.length_map ..
  rw [← size] at made
  have whole : shares.length = holders.length := by omega
  obtain ⟨length, each⟩ := backup_pieces lawful made whole some ran
  refine ⟨length, ?_⟩
  intro chosen different enough
  refine ⟨_, map_loop_ok chosen fun i _ => each i, ?_⟩
  have combined := recovers (chosen.map fun i : Fin holders.length => shares.getD i.val [])
    (selection_nodup whole distinct different) (by
      intro share member
      obtain ⟨i, _, rfl⟩ := List.mem_map.mp member
      have inside : i < shares.length := by omega
      rw [List.getD_eq_getElem _ _ inside]
      exact List.getElem_mem inside) (by rwa [List.length_map])
  rw [tssRecover, combined]

/-- Any selection of at least `threshold` shares of `Split` combines to the secret, and
any such selection of the pieces of a backup, decrypted by their holders, to the key. -/
theorem backup_recovers (lawful : Lawful curve) :
    (∀ secret parts threshold perm rand, Sharing secret parts threshold perm rand →
      ∃ shares, split secret parts threshold perm rand = .ok shares ∧
        (shares.length : Int) = parts ∧ shares.Nodup ∧
        ∀ chosen : List (List UInt8), chosen.Nodup → (∀ share ∈ chosen, share ∈ shares) →
          threshold ≤ chosen.length → combine chosen = .ok secret) ∧
    (∀ prk threshold perm rand ks texts, ∀ holders : List (PrivateKey curve),
      Sharing prk holders.length threshold perm rand →
      tssBackup curve prk (publicKeys holders) threshold perm rand ks = .ok texts →
      texts.length = holders.length ∧
        ∀ chosen : List (Fin holders.length), chosen.Nodup → threshold ≤ chosen.length →
          ∃ segments,
            (chosen.mapM fun i => decrypt (holders.get i) (texts.getD i [])) = .ok segments ∧
            tssRecover segments = .ok prk) := by
  constructor
  · intro secret parts threshold perm rand sharing
    obtain ⟨shares, made, count, distinct, _, recovers⟩ := split_shares sharing
    exact ⟨shares, made, count, distinct, recovers⟩
  · intro prk threshold perm rand ks texts holders sharing ran
    exact tss_recovers lawful holders ks sharing texts ran

def clockNumbers (i : Nat) : List Nat := if i = 0 then [6] else [3]

theorem clock_sharing : Sharing [7] 2 2 (List.range 255) [9] :=
  ⟨List.cons_ne_nil 7 [], by decide, by decide, by decide, List.Perm.refl _, by decide⟩

theorem clock_backup :
    ∃ texts, tssBackup clock [7] (publicKeys [alice, bob]) 2 (List.range 255) [9] clockNumbers =
      .ok texts := by
  obtain ⟨shares, made, count, _, each, _⟩ := split_shares clock_sharing
  have nonempty : ∀ i < 2, shares.getD i [] ≠ [] := by
    intro i less
    have inside : i < shares.length := by omega
    rw [List.getD_eq_getElem _ _ inside]
    exact each _ (List.getElem_mem inside)
  have left : clock.scalarMult alice.point 6 = ⟨6, 6⟩ := rfl
  have right : clock.scalarMult bob.point 3 = ⟨6, 6⟩ := rfl
  obtain ⟨first, _, ran⟩ := clock_encrypts (nonempty 0 (by decide)) left
  obtain ⟨second, _, ran'⟩ := clock_encrypts (nonempty 1 (by decide)) right
  have made' : split [7] (publicKeys [alice, bob]).length 2 (List.range 255) [9] = .ok shares := made
  have numbers : clockNumbers 0 = [6] ∧ clockNumbers 1 = [3] := ⟨rfl, rfl⟩
  refine ⟨[first, second], ?_⟩
  rw [tssBackup, made']
  change sealFrom clock (shares.getD · []) clockNumbers
    [fromECDSAPub (some alice.point), fromECDSAPub (some bob.point)] [] = _
  rw [sealFrom, public_key_read clock_lawful]
  dsimp only [List.length_nil]
  rw [numbers.1, ran]
  dsimp only [List.nil_append]
  rw [sealFrom, public_key_read clock_lawful]
  dsimp only [List.length_singleton]
  rw [numbers.2, ran']
  rfl

/-- A key of one byte, backed up for two holders who hand their pieces in the other
order. -/
theorem backup_recovers_on_clock :
    ∃ texts, tssBackup clock [7] (publicKeys [alice, bob]) 2 (List.range 255) [9] clockNumbers =
        .ok texts ∧
      ∃ segments, (([1, 0] : List (Fin 2)).mapM fun i =>
          decrypt ([alice, bob].get i) (texts.getD i [])) = .ok segments ∧
        tssRecover segments = .ok [7] := by
  obtain ⟨texts, ran⟩ := clock_backup
  obtain ⟨_, recovers⟩ :=
    (backup_recovers clock_lawful).2 [7] 2 _ _ _ texts [alice, bob] clock_sharing ran
  exact ⟨texts, ran, recovers [1, 0] (by decide) (by decide)⟩

end Recovery

end PbftBlock.SecretBackup
