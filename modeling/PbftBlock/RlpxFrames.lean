import Mathlib.Data.Nat.Bitwise
import PbftBlock.Library.Ciphers
import PbftBlock.RlpStream
import PbftBlock.Sm3

/-!
# Frames on an encrypted link

`WriteMsg` and `ReadMsg` of `rlpxFrameRW`. Both ends carry a key stream and a
running MAC per direction. The writer feeds its MAC in the chunks the payload
arrives in, the reader in one piece, and both call `Sum`, which changes the MAC
state, at the same points.
-/

namespace PbftBlock.RlpxFrames

open PbftBlock.Library.BigEndian PbftBlock.Library.FallibleMethods
open PbftBlock.Library.Ciphers (keyed keyed_append keyed_keyed keyed_length)
open PbftBlock.RlpEncoding PbftBlock.RlpStream PbftBlock.Sm3

set_option autoImplicit false

/-- A `cipher.Stream`: its key stream and how much of it is used. -/
structure CipherStream where
  key : Nat → UInt8
  pos : Nat

def CipherStream.xorKeyStream (stream : CipherStream) (src : List UInt8) :
    List UInt8 × CipherStream :=
  (keyed stream.key stream.pos src, { stream with pos := stream.pos + src.length })

structure BlockCipher where
  encrypt : List UInt8 → List UInt8
  size : ∀ src, (encrypt src).length = 16

/-- The payload is what its reader delivers, read by read. -/
structure Msg where
  code : UInt64
  size : UInt32
  payload : List (List UInt8)
deriving DecidableEq

inductive LinkError where
  | eof
  | unexpectedEOF
  | text (msg : String)
  | rlp (err : RlpError)
deriving DecidableEq

/-- The frame reader and writer, with the bytes that arrive on `conn` and those
written to it. -/
structure FrameRW where
  input : List UInt8
  output : List UInt8
  enc : CipherStream
  dec : CipherStream
  macCipher : BlockCipher
  egressMAC : SM3
  ingressMAC : SM3

abbrev LinkM (α : Type) := Fallible LinkError FrameRW α

def maxUint24 : Nat := 2 ^ 24 - 1

def zeroHeader : List UInt8 := [0xC2, 0x80, 0x80]

def putInt24 (v : Nat) : List UInt8 :=
  [UInt8.ofNat (v >>> 16), UInt8.ofNat (v >>> 8), UInt8.ofNat v]

def readInt24 (b : List UInt8) : Nat :=
  (b.getD 2 0).toNat ||| (b.getD 1 0).toNat <<< 8 ||| (b.getD 0 0).toNat <<< 16

def updateMAC (mac : SM3) (block : BlockCipher) (seed : List UInt8) : List UInt8 × SM3 :=
  let first := sum mac []
  let aesbuf := List.zipWith (· ^^^ ·) (block.encrypt (first.1.take 16)) seed
  let second := sum (write first.2 aesbuf) []
  (second.1.take 16, second.2)

/-- A write to the `StreamWriter` over `conn` and the egress MAC. -/
def tee (rw : FrameRW) (src : List UInt8) : FrameRW :=
  let cipher := rw.enc.xorKeyStream src
  { rw with
    enc := cipher.2
    output := rw.output ++ cipher.1
    egressMAC := write rw.egressMAC cipher.1 }

/-- One read of `io.Copy`; nothing is written when it delivers nothing. -/
def copyChunk (rw : FrameRW) (chunk : List UInt8) : FrameRW :=
  if chunk.isEmpty then rw else tee rw chunk

def frameHeader (fsize : Nat) : List UInt8 := putInt24 fsize ++ zeroHeader ++ List.replicate 10 0

def writeHeader (rw : FrameRW) (fsize : Nat) : FrameRW :=
  let head := rw.enc.xorKeyStream (frameHeader fsize)
  let mac := updateMAC rw.egressMAC rw.macCipher head.1
  { rw with enc := head.2, egressMAC := mac.2, output := rw.output ++ (head.1 ++ mac.1) }

def writeFrameMAC (rw : FrameRW) : FrameRW :=
  let fmacseed := sum rw.egressMAC []
  let mac := updateMAC fmacseed.2 rw.macCipher fmacseed.1
  { rw with egressMAC := mac.2, output := rw.output ++ mac.1 }

def writeMsg (msg : Msg) : LinkM Unit := fun rw =>
  let ptype := encodeToBytes (writeUint msg.code.toNat)
  let fsize := (ptype.length + msg.size.toNat) % 2 ^ 32
  if maxUint24 < fsize then .error (.text "message size overflows uint24") rw
  else
    let rw := tee (writeHeader rw fsize) ptype
    let rw := msg.payload.foldl copyChunk rw
    let rw := if 0 < fsize % 16 then tee rw (List.replicate (16 - fsize % 16) 0) else rw
    .ok () (writeFrameMAC rw)

def readFullConn : Nat → LinkM (List UInt8) :=
  takeFull FrameRW.input (fun rest rw => { rw with input := rest }) .eof .unexpectedEOF

/-- Checks a tag against the ingress MAC, which is updated either way. -/
def checkMAC (seed tag : List UInt8) (text : String) : LinkM Unit := fun rw =>
  let mac := updateMAC rw.ingressMAC rw.macCipher seed
  let rw := { rw with ingressMAC := mac.2 }
  if mac.1 = tag then .ok () rw else .error (.text text) rw

def decrypt (src : List UInt8) : LinkM (List UInt8) := fun rw =>
  let plain := rw.dec.xorKeyStream src
  .ok plain.1 { rw with dec := plain.2 }

/-- Feeds the frame to the ingress MAC and takes the seed of its tag. -/
def absorbFrame (framebuf : List UInt8) : LinkM (List UInt8) := fun rw =>
  let seed := sum (write rw.ingressMAC framebuf) []
  .ok seed.1 { rw with ingressMAC := seed.2 }

def decodeMsg (content : List UInt8) : LinkM Msg := fun rw =>
  match RlpStream.decode "uint64" (decodeUint 64 "uint64") (newStream content 0) with
  | .error err _ => .error (.rlp err) rw
  | .ok code s => .ok ⟨UInt64.ofNat code, UInt32.ofNat s.r.length, [s.r]⟩ rw

def readHeader : LinkM Nat :=
  andThen (readFullConn 32) fun headbuf =>
  andThen (checkMAC (headbuf.take 16) (headbuf.drop 16) "bad header MAC") fun _ =>
  andThen (decrypt (headbuf.take 16)) fun head => .ok (readInt24 head)

/-- The content of a frame, which is padded to sixteen bytes, and its tag. -/
def readFrame (fsize : Nat) : LinkM (List UInt8) :=
  let rsize := fsize + (if 0 < fsize % 16 then 16 - fsize % 16 else 0)
  andThen (readFullConn rsize) fun framebuf =>
  andThen (absorbFrame framebuf) fun fmacseed =>
  andThen (readFullConn 16) fun tag =>
  andThen (checkMAC fmacseed tag "bad frame MAC") fun _ =>
  andThen (decrypt framebuf) fun frame => .ok (frame.take fsize)

def readMsg : LinkM Msg := andThen readHeader fun fsize => andThen (readFrame fsize) decodeMsg

section Format

/-- One direction of a link, as either end keeps it. -/
structure Half where
  keys : CipherStream
  macCipher : BlockCipher
  mac : SM3

def egress (rw : FrameRW) : Half := ⟨rw.enc, rw.macCipher, rw.egressMAC⟩

def ingress (rw : FrameRW) : Half := ⟨rw.dec, rw.macCipher, rw.ingressMAC⟩

def sealFrame (half : Half) (head frame : List UInt8) : List UInt8 × Half :=
  let cipherHead := half.keys.xorKeyStream head
  let headMAC := updateMAC half.mac half.macCipher cipherHead.1
  let cipherFrame := cipherHead.2.xorKeyStream frame
  let seed := sum (write headMAC.2 cipherFrame.1) []
  let frameMAC := updateMAC seed.2 half.macCipher seed.1
  (cipherHead.1 ++ headMAC.1 ++ (cipherFrame.1 ++ frameMAC.1),
    ⟨cipherFrame.2, half.macCipher, frameMAC.2⟩)

def padding (size : Nat) : List UInt8 :=
  if 0 < size % 16 then List.replicate (16 - size % 16) 0 else []

theorem update_mac_length (mac : SM3) (block : BlockCipher) (seed : List UInt8) :
    (updateMAC mac block seed).1.length = 16 := by
  rw [updateMAC, List.length_take, sum_length]
  rfl

theorem frame_header_length (fsize : Nat) : (frameHeader fsize).length = 16 := by
  simp [frameHeader, putInt24, zeroHeader]

theorem read_int24_put_int24 {v : Nat} (small : v < 2 ^ 24) (more : List UInt8) :
    readInt24 (putInt24 v ++ more) = v := by
  have low : (UInt8.ofNat v).toNat = v % 256 := UInt8.toNat_ofNat'
  have middle : (UInt8.ofNat (v >>> 8)).toNat = v / 256 % 256 := by
    rw [UInt8.toNat_ofNat', Nat.shiftRight_eq_div_pow]
  have high : (UInt8.ofNat (v >>> 16)).toNat = v / 65536 % 256 := by
    rw [UInt8.toNat_ofNat', Nat.shiftRight_eq_div_pow]
  simp only [readInt24, putInt24, List.cons_append, List.nil_append, List.getD_cons_zero,
    List.getD_cons_succ, low, middle, high]
  rw [Nat.lor_comm (v % 256), ← Nat.shiftLeft_add_eq_or_of_lt (by omega), Nat.lor_comm,
    ← Nat.shiftLeft_add_eq_or_of_lt (by simp only [Nat.shiftLeft_eq]; omega)]
  simp only [Nat.shiftLeft_eq]
  omega

variable {rw : FrameRW}

theorem tee_nil (rw : FrameRW) : tee rw [] = rw := by
  simp [tee, CipherStream.xorKeyStream, keyed, write_nil]

theorem tee_tee (rw : FrameRW) (first second : List UInt8) :
    tee (tee rw first) second = tee rw (first ++ second) := by
  simp [tee, CipherStream.xorKeyStream, keyed_append, write_append, Nat.add_assoc]

theorem copy_chunks (rw : FrameRW) (chunks : List (List UInt8)) :
    chunks.foldl copyChunk rw = tee rw chunks.flatten := by
  induction chunks generalizing rw with
  | nil => exact (tee_nil rw).symm
  | cons chunk chunks induction =>
      have step : copyChunk rw chunk = tee rw chunk := by
        unfold copyChunk
        split_ifs with nothing
        · rw [List.isEmpty_iff.mp nothing, tee_nil]
        · rfl
      rw [List.foldl_cons, induction, step, tee_tee, List.flatten_cons]

/-- A message whose size is announced correctly and fits the header. -/
structure WellSized (msg : Msg) : Prop where
  announced : msg.payload.flatten.length = msg.size.toNat
  fits : (encodeToBytes (writeUint msg.code.toNat)).length + msg.payload.flatten.length < 2 ^ 24

def frameContent (msg : Msg) : List UInt8 := uintBytes msg.code.toNat ++ msg.payload.flatten

theorem frame_content_small {msg : Msg} (sized : WellSized msg) :
    (frameContent msg).length < 2 ^ 24 := by
  have fits := sized.fits
  rw [encode_uint] at fits
  rwa [frameContent, List.length_append]

def frameOf (half : Half) (msg : Msg) : List UInt8 × Half :=
  sealFrame half (frameHeader (frameContent msg).length)
    (frameContent msg ++ padding (frameContent msg).length)

theorem write_msg_frame {msg : Msg} (sized : WellSized msg) (rw : FrameRW) :
    ∃ after, writeMsg msg rw = .ok () after ∧
      after.output = rw.output ++ (frameOf (egress rw) msg).1 ∧
      egress after = (frameOf (egress rw) msg).2 := by
  have announced : (uintBytes msg.code.toNat).length + msg.size.toNat =
      (frameContent msg).length := by
    rw [frameContent, List.length_append, sized.announced]
  have small := frame_content_small sized
  have size : (uintBytes msg.code.toNat).length + msg.size.toNat < 2 ^ 32 := by omega
  have padded : ∀ rw : FrameRW, (if 0 < (frameContent msg).length % 16 then
      tee rw (List.replicate (16 - (frameContent msg).length % 16) 0) else rw) =
        tee rw (padding (frameContent msg).length) := by
    intro rw
    unfold padding
    split_ifs
    · rfl
    · exact (tee_nil rw).symm
  rw [writeMsg]
  dsimp only
  rw [encode_uint, Nat.mod_eq_of_lt size, announced, if_neg (by simp [maxUint24]; omega),
    copy_chunks, padded, tee_tee, tee_tee]
  refine ⟨_, rfl, ?_, ?_⟩
  · simp [writeFrameMAC, tee, writeHeader, frameOf, sealFrame, egress, frameContent,
      CipherStream.xorKeyStream, frame_header_length, List.append_assoc]
  · simp [writeFrameMAC, tee, writeHeader, frameOf, sealFrame, egress, frameContent,
      CipherStream.xorKeyStream, frame_header_length, List.append_assoc]

theorem read_full_conn {taken rest : List UInt8} {n : Nat} (arrived : rw.input = taken ++ rest)
    (length : taken.length = n) : readFullConn n rw = .ok taken { rw with input := rest } :=
  take_full_ok arrived length

theorem check_mac_ok {seed tag : List UInt8} (text : String)
    (right : (updateMAC rw.ingressMAC rw.macCipher seed).1 = tag) :
    checkMAC seed tag text rw =
      .ok () { rw with ingressMAC := (updateMAC rw.ingressMAC rw.macCipher seed).2 } := by
  rw [checkMAC, if_pos right]

theorem padded_length (size : Nat) :
    size + (padding size).length = size + (if 0 < size % 16 then 16 - size % 16 else 0) := by
  unfold padding
  split_ifs <;> simp

theorem decode_msg_content {msg : Msg} (sized : WellSized msg) (rw : FrameRW) :
    decodeMsg (frameContent msg) rw = .ok ⟨msg.code, msg.size, [msg.payload.flatten]⟩ rw := by
  have fits : Fits (newStream (frameContent msg) 0) (uintBytes msg.code.toNat).length := by
    refine ⟨rfl, ?_, ?_, rfl⟩ <;> simp [newStream, frameContent]
  have code : msg.code.toNat < 2 ^ 64 := UInt64.toNat_lt msg.code
  have narrow : putintSize msg.code.toNat ≤ 64 / 8 := (putint_size_bounds _).2
  obtain ⟨after, read, consumed⟩ := uint_written code narrow rfl rfl fits rfl
  have left : after.r = msg.payload.flatten := by
    rw [consumed.r]
    exact List.drop_left
  have decoded : RlpStream.decode "uint64" (decodeUint 64 "uint64")
      (newStream (frameContent msg) 0) = .ok msg.code.toNat after :=
    map_error_ok (map_error_ok read)
  rw [decodeMsg, decoded]
  dsimp only
  rw [left, sized.announced, UInt64.ofNat_toNat, UInt32.ofNat_toNat]

theorem read_header_ok {n : Nat} (small : n < 2 ^ 24) {head tag rest : List UInt8}
    (sent : head = keyed rw.dec.key rw.dec.pos (frameHeader n))
    (tagged : tag = (updateMAC rw.ingressMAC rw.macCipher head).1)
    (arrived : rw.input = head ++ tag ++ rest) :
    readHeader rw = .ok n { rw with
      input := rest
      dec := { rw.dec with pos := rw.dec.pos + 16 }
      ingressMAC := (updateMAC rw.ingressMAC rw.macCipher head).2 } := by
  have headLength : head.length = 16 := by rw [sent, keyed_length, frame_header_length]
  have tagLength : tag.length = 16 := by rw [tagged, update_mac_length]
  have plain : keyed rw.dec.key rw.dec.pos head = frameHeader n := by rw [sent, keyed_keyed]
  have size : readInt24 (frameHeader n) = n := by
    rw [frameHeader, List.append_assoc]
    exact read_int24_put_int24 small _
  have both : (head ++ tag).length = 32 := by rw [List.length_append, headLength, tagLength]
  rw [readHeader, and_then_ok (read_full_conn arrived both), List.take_left' headLength,
    List.drop_left' headLength]
  refine Eq.trans (and_then_ok (check_mac_ok _ tagged.symm)) (Eq.trans (and_then_ok rfl) ?_)
  simp only [CipherStream.xorKeyStream, plain, size, headLength]

theorem read_frame_ok {content frame tag rest : List UInt8}
    (sent : frame = keyed rw.dec.key rw.dec.pos (content ++ padding content.length))
    (tagged : tag = (updateMAC (sum (write rw.ingressMAC frame) []).2 rw.macCipher
      (sum (write rw.ingressMAC frame) []).1).1)
    (arrived : rw.input = frame ++ (tag ++ rest)) :
    readFrame content.length rw = .ok content { rw with
      input := rest
      dec := { rw.dec with pos := rw.dec.pos + (content ++ padding content.length).length }
      ingressMAC := (updateMAC (sum (write rw.ingressMAC frame) []).2 rw.macCipher
        (sum (write rw.ingressMAC frame) []).1).2 } := by
  have frameLength : frame.length = (content ++ padding content.length).length := by
    rw [sent, keyed_length]
  have tagLength : tag.length = 16 := by rw [tagged, update_mac_length]
  have plain : keyed rw.dec.key rw.dec.pos frame = content ++ padding content.length := by
    rw [sent, keyed_keyed]
  have rounded : frame.length =
      content.length + (if 0 < content.length % 16 then 16 - content.length % 16 else 0) := by
    rw [frameLength, List.length_append, padded_length]
  rw [readFrame, and_then_ok (read_full_conn arrived rounded)]
  refine Eq.trans (and_then_ok rfl) (Eq.trans (and_then_ok (read_full_conn rfl tagLength)) ?_)
  refine Eq.trans (and_then_ok (check_mac_ok _ tagged.symm)) (Eq.trans (and_then_ok rfl) ?_)
  simp only [CipherStream.xorKeyStream, plain, List.take_left, frameLength]

theorem read_msg_frame {msg : Msg} (sized : WellSized msg) {rest : List UInt8}
    (arrived : rw.input = (frameOf (ingress rw) msg).1 ++ rest) :
    ∃ after, readMsg rw = .ok ⟨msg.code, msg.size, [msg.payload.flatten]⟩ after ∧
      after.input = rest ∧ ingress after = (frameOf (ingress rw) msg).2 := by
  have small := frame_content_small sized
  rw [frameOf, sealFrame] at arrived
  dsimp only [ingress, CipherStream.xorKeyStream] at arrived
  rw [List.append_assoc, List.append_assoc (keyed _ _ (_ ++ _))] at arrived
  rw [frame_header_length] at arrived
  rw [readMsg, and_then_ok (read_header_ok small rfl rfl arrived)]
  refine ⟨_, Eq.trans (and_then_ok (read_frame_ok rfl rfl rfl)) (decode_msg_content sized _), rfl, ?_⟩
  simp [ingress, frameOf, sealFrame, CipherStream.xorKeyStream, frame_header_length]

end Format

section Sequences

def writeAll : List Msg → LinkM Unit
  | [] => .ok ()
  | msg :: msgs => andThen (writeMsg msg) fun _ => writeAll msgs

def readAll : Nat → LinkM (List Msg)
  | 0 => .ok []
  | count + 1 => andThen readMsg fun msg => andThen (readAll count) fun msgs => .ok (msg :: msgs)

/-- The direction from writer to reader is in the same state at both ends. -/
def Mirrored (writer reader : FrameRW) : Prop := egress writer = ingress reader

def delivered (msg : Msg) : Msg := { msg with payload := [msg.payload.flatten] }

/-- Whatever is sent in whatever chunks, the other end reads the same messages
from exactly the bytes that were written, and both ends are in step again. -/
theorem link_stays_in_step (writer : FrameRW) (msgs : List Msg)
    (sized : ∀ msg ∈ msgs, WellSized msg) :
    ∃ written after, writeAll msgs writer = .ok () after ∧
      after.output = writer.output ++ written ∧
      ∀ reader rest, Mirrored writer reader → reader.input = written ++ rest →
        ∃ done, readAll msgs.length reader = .ok (msgs.map delivered) done ∧
          done.input = rest ∧ Mirrored after done := by
  induction msgs generalizing writer with
  | nil =>
      refine ⟨[], writer, rfl, (List.append_nil _).symm, ?_⟩
      intro reader rest mirrored arrived
      exact ⟨reader, rfl, arrived, mirrored⟩
  | cons msg msgs induction =>
      have first := sized msg List.mem_cons_self
      obtain ⟨middle, sent, output, moved⟩ := write_msg_frame first writer
      obtain ⟨written, after, others, grown, later⟩ :=
        induction middle fun other member => sized other (List.mem_cons_of_mem _ member)
      refine ⟨(frameOf (egress writer) msg).1 ++ written, after, ?_, ?_, ?_⟩
      · rw [writeAll, and_then_ok sent]
        exact others
      · rw [grown, output, List.append_assoc]
      · intro reader rest mirrored arrived
        unfold Mirrored at mirrored
        rw [mirrored, List.append_assoc] at arrived
        obtain ⟨next, received, remaining, step⟩ := read_msg_frame first arrived
        have again : Mirrored middle next := by
          unfold Mirrored
          rw [moved, step, mirrored]
        obtain ⟨done, all, consumed, inStep⟩ := later next rest again remaining
        refine ⟨done, ?_, consumed, inStep⟩
        rw [List.length_cons, readAll, and_then_ok received, and_then_ok all]
        rfl

def plainLink (input : List UInt8) : FrameRW where
  input := input
  output := []
  enc := ⟨UInt8.ofNat, 0⟩
  dec := ⟨UInt8.ofNat, 0⟩
  macCipher := ⟨fun _ => List.replicate 16 7, fun _ => rfl⟩
  egressMAC := new
  ingressMAC := new

def twoMessages : List Msg := [⟨0, 3, [[1, 2], [], [3]]⟩, ⟨300, 0, []⟩]

theorem link_stays_in_step_for_two_messages :
    ∃ written done, readAll 2 (plainLink written) = .ok (twoMessages.map delivered) done ∧
      done.input = [] := by
  have sized : ∀ msg ∈ twoMessages, WellSized msg := by
    intro msg member
    simp only [twoMessages, List.mem_cons, List.not_mem_nil, or_false] at member
    rcases member with rfl | rfl <;> exact ⟨by decide, by decide⟩
  obtain ⟨written, after, _, _, read⟩ := link_stays_in_step (plainLink []) twoMessages sized
  obtain ⟨done, received, rest, _⟩ := read (plainLink written) [] rfl (List.append_nil _).symm
  exact ⟨written, done, received, rest⟩

end Sequences

end PbftBlock.RlpxFrames
