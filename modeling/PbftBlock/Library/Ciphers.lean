/-!
# Modes and networks of ciphers

A stream cipher combines every byte with the byte of its key stream at the same position. Cipher
block chaining combines every block with the ciphertext of the block before it. A network of four
words replaces one of them by its combination with a function of the other three, and is undone
by the same rounds with the keys in reverse order.
-/

namespace PbftBlock.Library.Ciphers

set_option autoImplicit false

/-! ## Key streams -/

section KeyStreams

def keyed (key : Nat → UInt8) : Nat → List UInt8 → List UInt8
  | _, [] => []
  | pos, byte :: rest => (byte ^^^ key pos) :: keyed key (pos + 1) rest

variable (key : Nat → UInt8) (pos : Nat) (bytes more : List UInt8)

@[simp] theorem keyed_length : (keyed key pos bytes).length = bytes.length := by
  induction bytes generalizing pos with
  | nil => rfl
  | cons byte rest induction => rw [keyed, List.length_cons, induction, List.length_cons]

theorem keyed_append :
    keyed key pos (bytes ++ more) = keyed key pos bytes ++ keyed key (pos + bytes.length) more := by
  induction bytes generalizing pos with
  | nil => rfl
  | cons byte rest induction =>
      rw [List.cons_append, keyed, keyed, induction, List.cons_append, List.length_cons,
        Nat.add_assoc, Nat.add_comm 1]

theorem keyed_keyed : keyed key pos (keyed key pos bytes) = bytes := by
  induction bytes generalizing pos with
  | nil => rfl
  | cons byte rest induction =>
      rw [keyed, keyed, induction, UInt8.xor_assoc, UInt8.xor_self, UInt8.xor_zero]

/-- Bytes combined twice with the same pad are the bytes. -/
theorem xor_pad_twice {pad data : List UInt8} (same : pad.length = data.length) :
    List.zipWith (· ^^^ ·) pad (List.zipWith (· ^^^ ·) pad data) = data := by
  induction pad generalizing data with
  | nil =>
      rw [List.eq_nil_of_length_eq_zero same.symm]
      rfl
  | cons key pad induction =>
      cases data with
      | nil => cases same
      | cons byte data =>
          have rest : pad.length = data.length := Nat.succ.inj same
          rw [List.zipWith_cons_cons, List.zipWith_cons_cons, induction rest, ← UInt8.xor_assoc,
            UInt8.xor_self, UInt8.zero_xor]

end KeyStreams

/-! ## Cipher block chaining -/

section Chaining

variable (size : Nat)

def chainEncrypt (encrypt : List UInt8 → List UInt8) :
    Nat → List UInt8 → List UInt8 → List UInt8
  | 0, _, _ => []
  | count + 1, previous, src =>
      let block := encrypt (List.zipWith (· ^^^ ·) previous (src.take size))
      block ++ chainEncrypt encrypt count block (src.drop size)

def chainDecrypt (decrypt : List UInt8 → List UInt8) :
    Nat → List UInt8 → List UInt8 → List UInt8
  | 0, _, _ => []
  | count + 1, previous, src =>
      List.zipWith (· ^^^ ·) previous (decrypt (src.take size)) ++
        chainDecrypt decrypt count (src.take size) (src.drop size)

variable {size} {encrypt decrypt : List UInt8 → List UInt8}
  (whole : ∀ block, (encrypt block).length = size)

include whole

theorem chain_encrypt_length (count : Nat) (previous src : List UInt8) :
    (chainEncrypt size encrypt count previous src).length = count * size := by
  induction count generalizing previous src with
  | zero => rw [chainEncrypt, List.length_nil, Nat.zero_mul]
  | succ count induction =>
      rw [chainEncrypt, List.length_append, whole, induction, Nat.succ_mul, Nat.add_comm]

theorem chain_decrypt_encrypt
    (inverts : ∀ block, block.length = size → decrypt (encrypt block) = block)
    (count : Nat) {previous src : List UInt8} (vector : previous.length = size)
    (full : src.length = count * size) :
    chainDecrypt size decrypt count previous (chainEncrypt size encrypt count previous src) =
      src := by
  induction count generalizing previous src with
  | zero =>
      rw [Nat.zero_mul] at full
      rw [List.eq_nil_of_length_eq_zero full]
      rfl
  | succ count induction =>
      rw [Nat.succ_mul] at full
      have first : (src.take size).length = size := by
        rw [List.length_take]
        omega
      have rest : (src.drop size).length = count * size := by
        rw [List.length_drop]
        omega
      have same : previous.length = (src.take size).length := by rw [vector, first]
      have mixed : (List.zipWith (· ^^^ ·) previous (src.take size)).length = size := by
        rw [List.length_zipWith, vector, first, Nat.min_self]
      -- the ciphertext starts with the block that the next one is combined with
      have block := whole (List.zipWith (· ^^^ ·) previous (src.take size))
      rw [chainEncrypt, chainDecrypt, List.take_left' block, List.drop_left' block,
        inverts _ mixed, xor_pad_twice same, induction block rest, List.take_append_drop]

end Chaining

/-! ## Networks of four words -/

section Networks

structure Quad (Word : Type) where
  a : Word
  b : Word
  c : Word
  d : Word
deriving DecidableEq

variable {Word Key : Type}

def flip (words : Quad Word) : Quad Word := ⟨words.d, words.c, words.b, words.a⟩

theorem flip_flip (words : Quad Word) : flip (flip words) = words := rfl

variable (mix : Word → Word → Word) (f : Word → Word → Word → Key → Word)

/-- The first word leaves, its combination with the others enters at the end. -/
def round (words : Quad Word) (key : Key) : Quad Word :=
  ⟨words.b, words.c, words.d, mix words.a (f words.b words.c words.d key)⟩

def rounds (keys : List Key) (words : Quad Word) : Quad Word := keys.foldl (round mix f) words

/-- All rounds, and the words of the result backwards. -/
def crypt (keys : List Key) (words : Quad Word) : Quad Word := flip (rounds mix f keys words)

variable {mix f} (cancel : ∀ x y, mix (mix x y) y = x)
  (symmetric : ∀ x y z key, f x y z key = f z y x key)

include cancel symmetric

theorem round_flip_round (words : Quad Word) (key : Key) :
    round mix f (flip (round mix f words key)) key = flip words := by
  have undone : mix (mix words.a (f words.b words.c words.d key))
      (f words.d words.c words.b key) = words.a := by
    rw [symmetric words.d words.c words.b key, cancel]
  simp only [round, flip, undone]

theorem rounds_reverse (keys : List Key) (words : Quad Word) :
    rounds mix f keys.reverse (flip (rounds mix f keys words)) = flip words := by
  induction keys generalizing words with
  | nil => rfl
  | cons key keys induction =>
      have rest := induction (round mix f words key)
      simp only [rounds, List.reverse_cons, List.foldl_append, List.foldl_cons,
        List.foldl_nil] at rest ⊢
      rw [rest]
      exact round_flip_round cancel symmetric words key

theorem crypt_reverse (keys : List Key) (words : Quad Word) :
    crypt mix f keys.reverse (crypt mix f keys words) = words := by
  rw [crypt, crypt, rounds_reverse cancel symmetric, flip_flip]

end Networks

end PbftBlock.Library.Ciphers
