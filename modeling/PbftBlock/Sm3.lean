import PbftBlock.Library.BigEndian
import PbftBlock.Library.BlockAbsorption

/-!
# The running SM3 hash

`Write` compresses all whole blocks and keeps the rest, so its chunks may be cut
anywhere. `Sum` compresses the padding into the digest of the object itself and
leaves the kept bytes and the length alone: the object goes on from a changed
digest. Both ends of a link use it as a running MAC, so what matters below is the
exact state, not a hash value.
-/

namespace PbftBlock.Sm3

open PbftBlock.Library.BigEndian PbftBlock.Library.BlockAbsorption

set_option autoImplicit false

structure Digest where
  a : UInt32
  b : UInt32
  c : UInt32
  d : UInt32
  e : UInt32
  f : UInt32
  g : UInt32
  h : UInt32
deriving DecidableEq

def ff0 (x y z : UInt32) : UInt32 := x ^^^ y ^^^ z

def ff1 (x y z : UInt32) : UInt32 := (x &&& y) ||| (x &&& z) ||| (y &&& z)

def gg0 (x y z : UInt32) : UInt32 := x ^^^ y ^^^ z

def gg1 (x y z : UInt32) : UInt32 := (x &&& y) ||| (~~~x &&& z)

-- a shift by 32 yields 0 in the source and the word itself here; the disjunction
-- with the unshifted word is that word both times
def leftRotate (x i : UInt32) : UInt32 := (x <<< (i % 32)) ||| (x >>> (32 - i % 32))

def p0 (x : UInt32) : UInt32 := x ^^^ leftRotate x 9 ^^^ leftRotate x 17

def p1 (x : UInt32) : UInt32 := x ^^^ leftRotate x 15 ^^^ leftRotate x 23

def blockWords (block : List UInt8) : List UInt32 :=
  (List.range 16).map fun i => UInt32.ofNat (ofBytes ((block.drop (4 * i)).take 4))

def extend (w : List UInt32) : List UInt32 :=
  let i := w.length
  w ++ [p1 (w.getD (i - 16) 0 ^^^ w.getD (i - 9) 0 ^^^ leftRotate (w.getD (i - 3) 0) 15) ^^^
    leftRotate (w.getD (i - 13) 0) 7 ^^^ w.getD (i - 6) 0]

def schedule (block : List UInt8) : List UInt32 := extend^[52] (blockWords block)

/-- One of the sixty-four rounds; the first sixteen use `ff0`, `gg0` and another
constant than the rest. -/
def round (w : List UInt32) (regs : Digest) (i : Nat) : Digest :=
  let early := i < 16
  let t : UInt32 := if early then 0x79cc4519 else 0x7a879d8a
  let ff := if early then ff0 regs.a regs.b regs.c else ff1 regs.a regs.b regs.c
  let gg := if early then gg0 regs.e regs.f regs.g else gg1 regs.e regs.f regs.g
  let ss1 := leftRotate (leftRotate regs.a 12 + regs.e + leftRotate t (UInt32.ofNat i)) 7
  let ss2 := ss1 ^^^ leftRotate regs.a 12
  let w1 := w.getD i 0 ^^^ w.getD (i + 4) 0
  let tt1 := ff + regs.d + ss2 + w1
  let tt2 := gg + regs.h + ss1 + w.getD i 0
  { a := tt1, b := regs.a, c := leftRotate regs.b 9, d := regs.c
    e := p0 tt2, f := regs.e, g := leftRotate regs.f 19, h := regs.g }

def compress (v : Digest) (block : List UInt8) : Digest :=
  let r := (List.range 64).foldl (round (schedule block)) v
  { a := v.a ^^^ r.a, b := v.b ^^^ r.b, c := v.c ^^^ r.c, d := v.d ^^^ r.d
    e := v.e ^^^ r.e, f := v.f ^^^ r.f, g := v.g ^^^ r.g, h := v.h ^^^ r.h }

def blockSize : Nat := 64

def update (digest : Digest) (msg : List UInt8) : Digest :=
  absorbWhole blockSize compress digest msg

/-- The running hash. Fewer than `blockSize` bytes wait for the next block. -/
structure SM3 where
  digest : Digest
  length : UInt64
  unhandleMsg : List UInt8
  short : unhandleMsg.length < blockSize
deriving DecidableEq

def new : SM3 where
  digest :=
    { a := 0x7380166f, b := 0x4914b2b9, c := 0x172442d7, d := 0xda8a0600
      e := 0xa96f30bc, f := 0x163138aa, g := 0xe38dee4d, h := 0xb0fb0e4e }
  length := 0
  unhandleMsg := []
  short := by decide

def write (sm3 : SM3) (p : List UInt8) : SM3 where
  digest := update sm3.digest (sm3.unhandleMsg ++ p)
  length := sm3.length + UInt64.ofNat (p.length * 8)
  unhandleMsg := leftover blockSize (sm3.unhandleMsg ++ p)
  short := leftover_short blockSize (by decide) _

/-- The waiting bytes, a one bit, zeros up to eight bytes below a block boundary,
and the length in bits. -/
def pad (sm3 : SM3) : List UInt8 :=
  sm3.unhandleMsg ++ [0x80] ++ List.replicate ((119 - sm3.unhandleMsg.length) % 64) 0 ++
    toBytes 8 sm3.length.toNat

theorem pad_length (sm3 : SM3) : (pad sm3).length % blockSize = 0 := by
  have short : sm3.unhandleMsg.length < 64 := sm3.short
  simp only [pad, List.length_append, List.length_singleton, List.length_replicate,
    to_bytes_length, blockSize]
  omega

def digestBytes (v : Digest) : List UInt8 :=
  toBytes 4 v.a.toNat ++ toBytes 4 v.b.toNat ++ toBytes 4 v.c.toNat ++ toBytes 4 v.d.toNat ++
    toBytes 4 v.e.toNat ++ toBytes 4 v.f.toNat ++ toBytes 4 v.g.toNat ++ toBytes 4 v.h.toNat

theorem digest_bytes_length (v : Digest) : (digestBytes v).length = 32 := by
  simp [digestBytes]

/-- `Sum`: the digest bytes alone, without the argument in front, and the object
with the padding compressed into its digest. -/
def sum (sm3 : SM3) (data : List UInt8) : List UInt8 × SM3 :=
  let written := write sm3 data
  let final := update written.digest (pad written)
  (digestBytes final, { written with digest := final })

theorem sum_length (sm3 : SM3) (data : List UInt8) : (sum sm3 data).1.length = 32 :=
  digest_bytes_length _

def sm3Sum (data : List UInt8) : List UInt8 := (sum (write new data) []).1

/-- `Keccak256` of the crypto package, which is SM3 here. -/
def keccak256 (data : List (List UInt8)) : List UInt8 := (sum (data.foldl write new) []).1

theorem keccak256_length (data : List (List UInt8)) : (keccak256 data).length = 32 :=
  sum_length _ _

theorem write_nil (sm3 : SM3) : write sm3 [] = sm3 := by
  have short := sm3.short
  obtain ⟨digest, length, unhandled, _⟩ := sm3
  simp only [write, update, List.append_nil, absorb_whole_of_short blockSize compress digest short,
    leftover_of_short blockSize short, SM3.mk.injEq, true_and, and_true]
  simp

theorem write_append (sm3 : SM3) (first second : List UInt8) :
    write (write sm3 first) second = write sm3 (first ++ second) := by
  have positive : 0 < blockSize := by decide
  have bits : sm3.length + UInt64.ofNat (first.length * 8) + UInt64.ofNat (second.length * 8) =
      sm3.length + UInt64.ofNat ((first ++ second).length * 8) := by
    rw [List.length_append, Nat.add_mul, UInt64.ofNat_add, UInt64.add_assoc]
  simp only [write, update, SM3.mk.injEq]
  refine ⟨?_, bits, ?_⟩
  · rw [← List.append_assoc, absorb_whole_append blockSize compress positive sm3.digest
      (sm3.unhandleMsg ++ first)]
  · rw [← List.append_assoc, leftover_append blockSize positive (sm3.unhandleMsg ++ first)]

theorem write_chunks (sm3 : SM3) (chunks : List (List UInt8)) :
    chunks.foldl write sm3 = write sm3 chunks.flatten := by
  induction chunks generalizing sm3 with
  | nil => exact (write_nil sm3).symm
  | cons chunk chunks induction =>
      rw [List.foldl_cons, induction, write_append, List.flatten_cons]

end PbftBlock.Sm3
