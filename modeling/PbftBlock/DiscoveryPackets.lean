import PbftBlock.RlpDecoders
import PbftBlock.Sm2Signatures

/-!
# Packets of the discovery protocol

A packet is a hash, room for a signature, the type and the RLP encoding of a
request, and the length of the signature. Every request ends in a field `Rest` that
takes up what later versions may add.
-/

namespace PbftBlock.DiscoveryPackets

open PbftBlock.Library.FallibleMethods PbftBlock.NodeKeys PbftBlock.RlpStream PbftBlock.RlpWriters
open PbftBlock.RlpDecoders PbftBlock.RlpTypes PbftBlock.Sm2 PbftBlock.Sm3
open PbftBlock.RlpEncoding (EncBuf writeUint to_writer_flatten)
open PbftBlock.Library.Rlp (string number list string_length_pos list_length)
open PbftBlock.Sm2Signatures (Draw)

set_option autoImplicit false

section Transcription

structure RpcEndpoint where
  ip : List UInt8
  udp : UInt16
  tcp : UInt16
deriving DecidableEq

structure RpcNode where
  ip : List UInt8
  udp : UInt16
  tcp : UInt16
  id : NodeID
deriving DecidableEq

structure Ping where
  version : UInt64
  fromEndpoint : RpcEndpoint
  toEndpoint : RpcEndpoint
  expiration : UInt64
  rest : List (List UInt8) := []
deriving DecidableEq

structure Pong where
  toEndpoint : RpcEndpoint
  replyTok : List UInt8
  expiration : UInt64
  rest : List (List UInt8) := []
deriving DecidableEq

structure Findnode where
  target : NodeID
  expiration : UInt64
  rest : List (List UInt8) := []
deriving DecidableEq

structure Neighbors where
  nodes : List RpcNode
  expiration : UInt64
  rest : List (List UInt8) := []
deriving DecidableEq

inductive Packet where
  | ping (req : Ping)
  | pong (req : Pong)
  | findnode (req : Findnode)
  | neighbors (req : Neighbors)
deriving DecidableEq

def pingPacket : UInt8 := 1
def pongPacket : UInt8 := 2
def findnodePacket : UInt8 := 3
def neighborsPacket : UInt8 := 4

def Packet.ptype : Packet → UInt8
  | .ping _ => pingPacket
  | .pong _ => pongPacket
  | .findnode _ => findnodePacket
  | .neighbors _ => neighborsPacket

def Packet.rest : Packet → List (List UInt8)
  | .ping req => req.rest
  | .pong req => req.rest
  | .findnode req => req.rest
  | .neighbors req => req.rest

/-- `drawing` stands for a signature that is not finished with the numbers given. -/
inductive PacketError where
  | text (msg : String)
  | rlp (err : RlpError)
  | crypto (err : CryptoError)
  | drawing
  | panicked
deriving DecidableEq

-- the writers that the encoder chooses for the types of the fields
def bytesWriter (b : List UInt8) : Writer := fun w => .ok (writeBytes b w)
def arrayWriter (b : List UInt8) : Writer := fun w => .ok (writeByteArray b w)
def uintWriter (i : Nat) : Writer := fun w => .ok (writeUint i w)

def structWriter (fields : List Writer) : Writer := writeList (writeElems id fields)

def RpcEndpoint.writer (e : RpcEndpoint) : Writer :=
  structWriter [bytesWriter e.ip, uintWriter e.udp.toNat, uintWriter e.tcp.toNat]

def RpcNode.writer (n : RpcNode) : Writer :=
  structWriter [bytesWriter n.ip, uintWriter n.udp.toNat, uintWriter n.tcp.toNat,
    arrayWriter n.id.1]

/-- The elements of the tail `Rest` follow the other fields as they are. -/
def Packet.writer : Packet → Writer
  | .ping req => structWriter ([uintWriter req.version.toNat, req.fromEndpoint.writer,
      req.toEndpoint.writer, uintWriter req.expiration.toNat] ++ req.rest.map writeRawValue)
  | .pong req => structWriter ([req.toEndpoint.writer, bytesWriter req.replyTok,
      uintWriter req.expiration.toNat] ++ req.rest.map writeRawValue)
  | .findnode req => structWriter ([arrayWriter req.target.1,
      uintWriter req.expiration.toNat] ++ req.rest.map writeRawValue)
  | .neighbors req => structWriter ([writeList (writeElems RpcNode.writer req.nodes),
      uintWriter req.expiration.toNat] ++ req.rest.map writeRawValue)

def rlpEncode (writer : Writer) : Except String (List UInt8) :=
  (writer {}).map fun w => w.toWriter.flatten

def encodedSize (writer : Writer) : Except String Nat := (writer {}).map EncBuf.size

def decodeIP : StreamM (List UInt8) := mapError (wrapStreamError · "net.IP") Stream.bytes

def decodePort : StreamM UInt16 :=
  andThen (decodeUint 16 "uint16") fun num => .ok (UInt16.ofNat num)

def decodeUint64 (typ : String) : StreamM UInt64 :=
  andThen (decodeUint 64 typ) fun num => .ok (UInt64.ofNat num)

def decodeNodeID : StreamM NodeID :=
  andThen (decodeByteArray 64 "discover.NodeID") fun b => .ok (filled 64 b)

def decodeRpcEndpoint : StreamM RpcEndpoint :=
  let typ := "discover.rpcEndpoint"
  decodeStruct typ <|
    andThen (decodeField typ "IP" decodeIP) fun ip =>
    andThen (decodeField typ "UDP" decodePort) fun udp =>
    andThen (decodeField typ "TCP" decodePort) fun tcp => .ok ⟨ip, udp, tcp⟩

def decodeRpcNode : StreamM RpcNode :=
  let typ := "discover.rpcNode"
  decodeStruct typ <|
    andThen (decodeField typ "IP" decodeIP) fun ip =>
    andThen (decodeField typ "UDP" decodePort) fun udp =>
    andThen (decodeField typ "TCP" decodePort) fun tcp =>
    andThen (decodeField typ "ID" decodeNodeID) fun id => .ok ⟨ip, udp, tcp, id⟩

/-- Every element takes at least one byte. -/
def decodeNodes : StreamM (List RpcNode) := fun s =>
  decodeListSlice "[]discover.rpcNode" (s.r.length + 1) decodeRpcNode s

def pingFields (typ : String) : StreamM Packet :=
  andThen (decodeField typ "Version" (decodeUint64 "uint")) fun version =>
  andThen (decodeField typ "From" decodeRpcEndpoint) fun fromEndpoint =>
  andThen (decodeField typ "To" decodeRpcEndpoint) fun toEndpoint =>
  andThen (decodeField typ "Expiration" (decodeUint64 "uint64")) fun expiration =>
  andThen (decodeField typ "Rest" (decodeTail Stream.raw)) fun rest =>
    .ok (.ping ⟨version, fromEndpoint, toEndpoint, expiration, rest⟩)

def pongFields (typ : String) : StreamM Packet :=
  andThen (decodeField typ "To" decodeRpcEndpoint) fun toEndpoint =>
  andThen (decodeField typ "ReplyTok" decodeByteSlice) fun replyTok =>
  andThen (decodeField typ "Expiration" (decodeUint64 "uint64")) fun expiration =>
  andThen (decodeField typ "Rest" (decodeTail Stream.raw)) fun rest =>
    .ok (.pong ⟨toEndpoint, replyTok, expiration, rest⟩)

def findnodeFields (typ : String) : StreamM Packet :=
  andThen (decodeField typ "Target" decodeNodeID) fun target =>
  andThen (decodeField typ "Expiration" (decodeUint64 "uint64")) fun expiration =>
  andThen (decodeField typ "Rest" (decodeTail Stream.raw)) fun rest =>
    .ok (.findnode ⟨target, expiration, rest⟩)

def neighborsFields (typ : String) : StreamM Packet :=
  andThen (decodeField typ "Nodes" decodeNodes) fun nodes =>
  andThen (decodeField typ "Expiration" (decodeUint64 "uint64")) fun expiration =>
  andThen (decodeField typ "Rest" (decodeTail Stream.raw)) fun rest =>
    .ok (.neighbors ⟨nodes, expiration, rest⟩)

def decodeInto (typ : String) (fields : String → StreamM Packet) : StreamM Packet :=
  decode typ (decodeStruct typ (fields typ))

def requestDecoder (ptype : UInt8) : Option (StreamM Packet) :=
  if ptype = pingPacket then some (decodeInto "discover.ping" pingFields)
  else if ptype = pongPacket then some (decodeInto "discover.pong" pongFields)
  else if ptype = findnodePacket then some (decodeInto "discover.findnode" findnodeFields)
  else if ptype = neighborsPacket then some (decodeInto "discover.neighbors" neighborsFields)
  else none

def macSize : Nat := 32
def sigSize : Nat := 140
def headSize : Nat := macSize + sigSize
def headSpace : List UInt8 := List.replicate headSize 0

def copyAt (offset : Nat) (dst src : List UInt8) : List UInt8 :=
  dst.take offset ++ src.take (dst.length - offset) ++ dst.drop (offset + src.length)

variable {curve : Curve}

def encodePacket (prv : PrivateKey curve) (draws : List UInt8 → List Draw) (ptype : UInt8)
    (req : Packet) : Except PacketError (List UInt8) :=
  match rlpEncode req.writer with
  | .error msg => .error (.text msg)
  | .ok body =>
      let packet := headSpace ++ ptype :: body
      let hash := keccak256 [packet.drop headSize]
      match Sm2Signatures.sign prv hash (draws hash) with
      | none => .error .drawing
      | some (.error err) => .error (.crypto err)
      | some (.ok digits) =>
          let sig := NodeKeys.sign prv digits
          let packet := copyAt macSize packet sig ++ [UInt8.ofNat sig.length]
          .ok (copyAt 0 packet (keccak256 [packet.drop macSize]))

def recoverNodeID (curve : Curve) (hash sig : List UInt8) : Except PacketError NodeID :=
  match ecrecover curve hash sig with
  | .error err => .error (.crypto err)
  | .ok pubkey =>
      if pubkey.length ≠ 65 then
        .error (.text ("recovered pubkey has " ++ toString (pubkey.length * 8) ++
          " bits, want 520 bits"))
      else .ok (copyBytes 64 (pubkey.drop 1))

/-- `sig[:siglen]`, which may reach behind the header and even behind the packet, as
far as the array goes in which the packet lies. -/
def resliceSig (buf behind : List UInt8) (siglen : Nat) : Option (List UInt8) :=
  let sig := (buf.drop macSize).take sigSize
  let array := (buf ++ behind).drop macSize
  if sig.length ≠ siglen then
    if array.length < siglen then none else some (array.take siglen)
  else some sig

/-- `decodePacket` of the packet `buf`, with the bytes that follow it in its array. -/
def decodePacket (curve : Curve) (buf behind : List UInt8) :
    Except PacketError (Packet × NodeID × List UInt8) :=
  if buf.length < headSize + 1 then .error (.text "too small")
  else
    let hash := buf.take macSize
    let sigdata := buf.dropLast.drop headSize
    let siglen := buf.getLastD 0
    if hash ≠ keccak256 [buf.drop macSize] then .error (.text "bad hash")
    else
      match resliceSig buf behind siglen.toNat with
      | none => .error .panicked
      | some sig =>
          match recoverNodeID curve (keccak256 [sigdata]) sig with
          | .error err => .error err
          | .ok fromID =>
              match sigdata with
              | [] => .error .panicked
              | ptype :: body =>
                  match requestDecoder ptype with
                  | none => .error (.text ("unknown type: " ++ toString ptype.toNat))
                  | some decoder =>
                      match decoder (newStream body 0) with
                      | .error err _ => .error (.rlp err)
                      | .ok req _ => .ok (req, fromID, hash)

end Transcription

section Encodings

def RpcEndpoint.rlp (e : RpcEndpoint) : List UInt8 :=
  list [string e.ip, number e.udp.toNat, number e.tcp.toNat]

def RpcNode.rlp (n : RpcNode) : List UInt8 :=
  list [string n.ip, number n.udp.toNat, number n.tcp.toNat, string n.id.1]

def Packet.parts : Packet → List (List UInt8)
  | .ping req => [number req.version.toNat, req.fromEndpoint.rlp, req.toEndpoint.rlp,
      number req.expiration.toNat]
  | .pong req => [req.toEndpoint.rlp, string req.replyTok, number req.expiration.toNat]
  | .findnode req => [string req.target.1, number req.expiration.toNat]
  | .neighbors req => [list (req.nodes.map RpcNode.rlp), number req.expiration.toNat]

def Packet.rlp (req : Packet) : List UInt8 := list (req.parts ++ req.rest)

def Written (writer : Writer) (bytes : List UInt8) : Prop :=
  bytes.length < 2 ^ 64 → Writes writer bytes

theorem written_bytes (b : List UInt8) : Written (bytesWriter b) (string b) := writes_string

theorem written_array (b : List UInt8) : Written (arrayWriter b) (string b) := writes_string

theorem written_raw (raw : List UInt8) : Written (writeRawValue raw) raw := fun _ => writes_append raw

theorem written_port (port : UInt16) : Written (uintWriter port.toNat) (number port.toNat) := by
  have small := port.toNat_lt
  exact fun _ => writes_uint (by omega)

theorem written_uint64 (i : UInt64) : Written (uintWriter i.toNat) (number i.toNat) :=
  fun _ => writes_uint i.toNat_lt

theorem writes_fields {fields : List Writer} {parts : List (List UInt8)}
    (each : List.Forall₂ Written fields parts) (small : parts.flatten.length < 2 ^ 64) :
    Writes (writeElems id fields) parts.flatten := by
  induction each with
  | nil =>
      intro w
      exact ⟨w, rfl, wrote_nothing w⟩
  | cons first _ induction =>
      rw [List.flatten_cons, List.length_append] at small
      rw [List.flatten_cons]
      exact writes_then (first (by omega)) (induction (by omega))

theorem written_struct {fields : List Writer} {parts : List (List UInt8)}
    (each : List.Forall₂ Written fields parts) : Written (structWriter fields) (list parts) := by
  intro small
  have payload := payload_length_lt parts
  apply writes_list (by omega)
  exact writes_fields each (by omega)

theorem written_slice {α : Type} {elem : α → Writer} {rlp : α → List UInt8}
    (each : ∀ v, Written (elem v) (rlp v)) (vs : List α) :
    Written (writeList (writeElems elem vs)) (list (vs.map rlp)) := by
  intro small
  have payload := payload_length_lt (vs.map rlp)
  apply writes_list (by omega)
  apply writes_elems
  intro v member
  have part := part_length_le (List.mem_map_of_mem (f := rlp) member)
  exact each v (by omega)

theorem written_endpoint (e : RpcEndpoint) : Written e.writer e.rlp :=
  written_struct (.cons (written_bytes _) (.cons (written_port _) (.cons (written_port _) .nil)))

theorem written_node (n : RpcNode) : Written n.writer n.rlp :=
  written_struct (.cons (written_bytes _) (.cons (written_port _) (.cons (written_port _)
    (.cons (written_array _) .nil))))

theorem written_rest (rest : List (List UInt8)) :
    List.Forall₂ Written (rest.map writeRawValue) rest := by
  induction rest with
  | nil => exact .nil
  | cons raw rest induction => exact .cons (written_raw raw) induction

theorem written_request (req : Packet) : Written req.writer req.rlp := by
  cases req with
  | ping req =>
      apply written_struct
      exact .cons (written_uint64 _) (.cons (written_endpoint _) (.cons (written_endpoint _)
        (.cons (written_uint64 _) (written_rest _))))
  | pong req =>
      apply written_struct
      exact .cons (written_endpoint _) (.cons (written_bytes _) (.cons (written_uint64 _)
        (written_rest _)))
  | findnode req =>
      apply written_struct
      exact .cons (written_array _) (.cons (written_uint64 _) (written_rest _))
  | neighbors req =>
      apply written_struct
      exact .cons (written_slice written_node _) (.cons (written_uint64 _) (written_rest _))

theorem rlp_encode_written {writer : Writer} {bytes : List UInt8} (written : Written writer bytes)
    (small : bytes.length < 2 ^ 64) : rlpEncode writer = .ok bytes := by
  obtain ⟨w, ran, wrote⟩ := written small {}
  rw [rlpEncode, ran]
  exact congrArg Except.ok ((to_writer_flatten _ _ _).trans (to_bytes_wrote wrote))

end Encodings

section Decodings

variable {α β : Type} {bytes more : List UInt8} {value : α}

/-- The bytes are some, and the decoder takes them for the value wherever they are
next, if they can be addressed. -/
def Taken (decoder : StreamM α) (bytes : List UInt8) (value : α) : Prop :=
  0 < bytes.length ∧ (bytes.length < 2 ^ 64 → Takes decoder bytes value)

/-- The same at the end of a list. -/
def TakenLast (decoder : StreamM α) (bytes : List UInt8) (value : α) : Prop :=
  bytes.length < 2 ^ 64 → ReadsLast decoder bytes value

theorem taken_field {first : StreamM α} {next : α → StreamM β} {result : β} (typ name : String)
    (head : Taken first bytes value) (tail : TakenLast (next value) more result) :
    TakenLast (andThen (decodeField typ name first) next) (bytes ++ more) result := by
  intro small
  rw [List.length_append] at small
  apply reads_field typ name (List.length_pos_iff.mp head.1)
  · exact reads_of_takes (head.2 (by omega))
  · exact tail (by omega)

theorem taken_done (value : α) : TakenLast (.ok value) [] value := by
  intro _ s tos outer rest armed stack full arrived fits
  exact ⟨s, rfl, rfl, rfl, rfl, (charge_zero _).symm, armed⟩

theorem taken_struct {fields : StreamM α} {parts : List (List UInt8)} (typ : String)
    (inner : TakenLast fields parts.flatten value) :
    Taken (decodeStruct typ fields) (list parts) value := by
  have payload := payload_length_lt parts
  refine ⟨by omega, fun small => ?_⟩
  apply takes_struct typ (by omega)
  exact inner (by omega)

theorem taken_ip (ip : List UInt8) : Taken decodeIP (string ip) ip :=
  ⟨string_length_pos ip, fun small => takes_map_error (takes_string small)⟩

theorem taken_byte_slice (b : List UInt8) : Taken decodeByteSlice (string b) b :=
  ⟨string_length_pos b, fun small => takes_map_error (takes_string small)⟩

theorem taken_port (port : UInt16) : Taken decodePort (number port.toNat) port :=
  ⟨number_length_pos _, fun _ => takes_width .w16 port "uint16"⟩

theorem taken_uint64 (typ : String) (i : UInt64) : Taken (decodeUint64 typ) (number i.toNat) i :=
  ⟨number_length_pos _, fun _ => takes_width .w64 i typ⟩

theorem taken_node_id (id : NodeID) : Taken decodeNodeID (string id.1) id := by
  refine ⟨string_length_pos _, fun small => ?_⟩
  have array := takes_byte_array "discover.NodeID" (by rw [id.2]; decide) small
  rw [id.2] at array
  apply takes_then array
  intro s
  rw [filled, dif_pos id.2]

theorem taken_endpoint (e : RpcEndpoint) : Taken decodeRpcEndpoint e.rlp e := by
  apply taken_struct
  apply taken_field _ _ (taken_ip e.ip)
  apply taken_field _ _ (taken_port e.udp)
  apply taken_field _ _ (taken_port e.tcp)
  exact taken_done e

theorem taken_node (n : RpcNode) : Taken decodeRpcNode n.rlp n := by
  apply taken_struct
  apply taken_field _ _ (taken_ip n.ip)
  apply taken_field _ _ (taken_port n.udp)
  apply taken_field _ _ (taken_port n.tcp)
  apply taken_field _ _ (taken_node_id n.id)
  exact taken_done n

theorem node_at_end {s : Stream} (armed : s.kind = none) (done : atListEnd s.stack = true) :
    decodeRpcNode s = .error .eol { s with kinderr := none } :=
  and_then_error (map_error_error (and_then_error (next_kind_at_end armed done)))

theorem taken_nodes (nodes : List RpcNode) :
    Taken decodeNodes (list (nodes.map RpcNode.rlp)) nodes := by
  have payload := payload_length_lt (nodes.map RpcNode.rlp)
  have some (n : RpcNode) : 0 < n.rlp.length := (taken_node n).1
  have count : nodes.length ≤ (nodes.map RpcNode.rlp).flatten.length := by
    rw [← List.length_map (f := RpcNode.rlp)]
    apply count_le_length
    intro part member
    obtain ⟨n, _, rfl⟩ := List.mem_map.mp member
    exact some n
  refine ⟨by omega, fun small => ?_⟩
  intro s rest armed inside next fits
  -- the loop is given as many turns as there are bytes ahead
  have enough : nodes.length < s.r.length + 1 := by
    have present := fits.present
    omega
  have elems : ReadsLast (decodeSliceElems decodeRpcNode (s.r.length + 1) 0)
      (nodes.map RpcNode.rlp).flatten nodes := by
    apply reads_slice_elems
    · intro n member
      have part := part_length_le (List.mem_map_of_mem (f := RpcNode.rlp) member)
      exact (taken_node n).2 (by omega)
    · intro n _
      exact List.length_pos_iff.mp (some n)
    · intro s armed done
      exact node_at_end armed done
    · exact enough
  have slice := takes_list_slice "[]discover.rpcNode" (show _ < 2 ^ 64 by omega)
    (fun none => List.eq_nil_of_length_eq_zero (by omega)) elems
  exact slice s rest armed inside next fits

theorem taken_rest {make : List (List UInt8) → Packet} {req : Packet} (typ : String)
    (made : make [] = req) :
    TakenLast (andThen (decodeField typ "Rest" (decodeTail Stream.raw)) fun rest => .ok (make rest))
      [] req := fun _ => reads_empty_tail typ "Rest" made

theorem taken_request {req : Packet} (empty : req.rest = []) :
    ∃ typ fields, requestDecoder req.ptype = some (decodeInto typ fields) ∧
      TakenLast (fields typ) req.parts.flatten req := by
  cases req with
  | ping req =>
      refine ⟨_, pingFields, rfl, ?_⟩
      apply taken_field _ _ (taken_uint64 "uint" req.version)
      apply taken_field _ _ (taken_endpoint req.fromEndpoint)
      apply taken_field _ _ (taken_endpoint req.toEndpoint)
      apply taken_field _ _ (taken_uint64 "uint64" req.expiration)
      apply taken_rest
      rw [← show req.rest = [] from empty]
  | pong req =>
      refine ⟨_, pongFields, rfl, ?_⟩
      apply taken_field _ _ (taken_endpoint req.toEndpoint)
      apply taken_field _ _ (taken_byte_slice req.replyTok)
      apply taken_field _ _ (taken_uint64 "uint64" req.expiration)
      apply taken_rest
      rw [← show req.rest = [] from empty]
  | findnode req =>
      refine ⟨_, findnodeFields, rfl, ?_⟩
      apply taken_field _ _ (taken_node_id req.target)
      apply taken_field _ _ (taken_uint64 "uint64" req.expiration)
      apply taken_rest
      rw [← show req.rest = [] from empty]
  | neighbors req =>
      refine ⟨_, neighborsFields, rfl, ?_⟩
      apply taken_field _ _ (taken_nodes req.nodes)
      apply taken_field _ _ (taken_uint64 "uint64" req.expiration)
      apply taken_rest
      rw [← show req.rest = [] from empty]

theorem request_decoded {req : Packet} (empty : req.rest = [])
    (small : req.rlp.length < 2 ^ 64) :
    ∃ decoder s, requestDecoder req.ptype = some decoder ∧
      decoder (newStream req.rlp 0) = .ok req s := by
  obtain ⟨typ, fields, chosen, taken⟩ := taken_request empty
  have bytes : req.rlp = list req.parts := by
    rw [Packet.rlp, empty, List.append_nil]
  rw [bytes] at small ⊢
  have takes := (taken_struct typ taken).2 small
  have fits : Fits (newStream (list req.parts) 0) (list req.parts).length :=
    ⟨rfl, Nat.le_refl _, Nat.le_refl _, rfl⟩
  obtain ⟨s, read, _⟩ := takes _ [] rfl rfl (List.append_nil _).symm fits
  exact ⟨_, s, chosen, map_error_ok read⟩

end Decodings

section RoundTrip

theorem copy_at_append (front old rest new : List UInt8) (fits : new.length ≤ old.length) :
    copyAt front.length (front ++ (old ++ rest)) new =
      front ++ (new ++ (old.drop new.length ++ rest)) := by
  have room : new.length ≤ (front ++ (old ++ rest)).length - front.length := by
    simp only [List.length_append]
    omega
  rw [copyAt, List.take_left, List.take_of_length_le room, List.drop_length_add_append,
    List.drop_append_of_le_length fits, List.append_assoc]

def signedPart (sig payload : List UInt8) : List UInt8 :=
  sig ++ (List.replicate (sigSize - sig.length) 0 ++ (payload ++ [UInt8.ofNat sig.length]))

theorem signed_part_length {sig : List UInt8} (payload : List UInt8) (fits : sig.length ≤ sigSize) :
    (signedPart sig payload).length = sigSize + payload.length + 1 := by
  simp only [signedPart, List.length_append, List.length_replicate, List.length_singleton]
  omega

variable {curve : Curve} {prv : PrivateKey curve} {draws : List UInt8 → List Draw}

/-- Every hash is signed with the numbers drawn, and the signature verifies. -/
def Verifies (prv : PrivateKey curve) (draws : List UInt8 → List Draw) : Prop :=
  ∀ hash, ∃ digits, Sm2Signatures.sign prv hash (draws hash) = some (.ok digits) ∧
    Sm2.verify curve (some prv.point) hash digits.1 digits.2 = .ok true

/-- A signature that fits leaves the type and the body as they are. -/
theorem encode_packet_eq {req : Packet} {ptype : UInt8} {digits : Nat × Nat}
    (small : req.rlp.length < 2 ^ 64)
    (signed : Sm2Signatures.sign prv (keccak256 [ptype :: req.rlp])
      (draws (keccak256 [ptype :: req.rlp])) = some (.ok digits))
    (fits : (NodeKeys.sign prv digits).length ≤ sigSize) :
    encodePacket prv draws ptype req =
      .ok (keccak256 [signedPart (NodeKeys.sign prv digits) (ptype :: req.rlp)] ++
        signedPart (NodeKeys.sign prv digits) (ptype :: req.rlp)) := by
  have space : headSpace = List.replicate macSize 0 ++ List.replicate sigSize 0 := by
    rw [List.replicate_append_replicate]
    rfl
  have payload : (headSpace ++ ptype :: req.rlp).drop headSize = ptype :: req.rlp :=
    List.drop_left' List.length_replicate
  have copied : copyAt macSize (headSpace ++ ptype :: req.rlp) (NodeKeys.sign prv digits) ++
      [UInt8.ofNat (NodeKeys.sign prv digits).length] =
      List.replicate macSize 0 ++ signedPart (NodeKeys.sign prv digits) (ptype :: req.rlp) := by
    have moved := copy_at_append (List.replicate macSize 0) (List.replicate sigSize 0)
      (ptype :: req.rlp) (NodeKeys.sign prv digits) (by rwa [List.length_replicate])
    rw [List.length_replicate, List.drop_replicate] at moved
    rw [space, List.append_assoc, moved, signedPart]
    simp only [List.append_assoc]
  have hashed : (List.replicate macSize 0 ++
      signedPart (NodeKeys.sign prv digits) (ptype :: req.rlp)).drop macSize =
      signedPart (NodeKeys.sign prv digits) (ptype :: req.rlp) :=
    List.drop_left' List.length_replicate
  have front := copy_at_append [] (List.replicate macSize 0)
    (signedPart (NodeKeys.sign prv digits) (ptype :: req.rlp))
    (keccak256 [signedPart (NodeKeys.sign prv digits) (ptype :: req.rlp)])
    (by rw [keccak256_length, List.length_replicate]; exact Nat.le_refl _)
  rw [keccak256_length, List.drop_replicate] at front
  rw [encodePacket, rlp_encode_written (written_request req) small]
  dsimp only
  rw [payload, signed]
  dsimp only
  rw [copied, hashed]
  exact congrArg Except.ok front

/-- The length byte finds the signature again, whether it fills its room or not. -/
theorem reslice_signed {hash sig : List UInt8} (payload behind : List UInt8)
    (hashSize : hash.length = macSize) (fits : sig.length ≤ sigSize) :
    resliceSig (hash ++ signedPart sig payload) behind sig.length = some sig := by
  have size := signed_part_length payload fits
  have whole : (hash ++ signedPart sig payload).drop macSize = signedPart sig payload :=
    List.drop_left' hashSize
  have further : (hash ++ signedPart sig payload ++ behind).drop macSize =
      signedPart sig payload ++ behind := by
    rw [List.append_assoc]
    exact List.drop_left' hashSize
  have short : ((signedPart sig payload).take sigSize).length = sigSize := by
    rw [List.length_take, size]
    omega
  rw [resliceSig, whole, further, short]
  split_ifs with differ beyond
  · rw [List.length_append, size] at beyond
    omega
  · rw [signedPart, List.append_assoc, List.take_left]
  · have full : sig.length = sigSize := by omega
    rw [← full, signedPart, List.take_left]

theorem recover_signer (lawful : Lawful curve) {hash : List UInt8} {digits : Nat × Nat}
    (right : Sm2.verify curve (some prv.point) hash digits.1 digits.2 = .ok true) :
    recoverNodeID curve hash (NodeKeys.sign prv digits) = .ok (pubkeyID prv.point) := by
  rw [recoverNodeID, ecrecover_sign lawful right]
  dsimp only
  rw [if_neg (by simp [marshal_length])]
  rfl

theorem framed_payload {hash sig : List UInt8} (payload : List UInt8)
    (hashSize : hash.length = macSize) (fits : sig.length ≤ sigSize) :
    (hash ++ signedPart sig payload).dropLast.drop headSize = payload ∧
      (hash ++ signedPart sig payload).getLastD 0 = UInt8.ofNat sig.length := by
  have ends : hash ++ signedPart sig payload =
      (hash ++ (sig ++ List.replicate (sigSize - sig.length) 0)) ++ payload ++
        [UInt8.ofNat sig.length] := by
    simp only [signedPart, List.append_assoc]
  have head : (hash ++ (sig ++ List.replicate (sigSize - sig.length) 0)).length = headSize := by
    simp only [List.length_append, List.length_replicate, hashSize, headSize]
    omega
  rw [ends, List.dropLast_concat, List.drop_left' head, List.getLastD_concat]
  exact ⟨rfl, rfl⟩

theorem length_byte {sig : List UInt8} (fits : sig.length ≤ sigSize) :
    (UInt8.ofNat sig.length).toNat = sig.length := by
  apply UInt8.toNat_ofNat_of_lt'
  exact Nat.lt_of_le_of_lt fits (by decide)

theorem decode_framed {hash sig body : List UInt8} {ptype : UInt8} {fromID : NodeID} {req : Packet}
    {decoder : StreamM Packet} {s : Stream} (behind : List UInt8) (fits : sig.length ≤ sigSize)
    (hashed : hash = keccak256 [signedPart sig (ptype :: body)])
    (recovered : recoverNodeID curve (keccak256 [ptype :: body]) sig = .ok fromID)
    (known : requestDecoder ptype = some decoder)
    (decoded : decoder (newStream body 0) = .ok req s) :
    decodePacket curve (hash ++ signedPart sig (ptype :: body)) behind =
      .ok (req, fromID, hash) := by
  have hashSize : hash.length = macSize := by
    rw [hashed]
    exact keccak256_length _
  obtain ⟨sigdata, last⟩ := framed_payload (ptype :: body) hashSize fits
  have long : ¬(hash ++ signedPart sig (ptype :: body)).length < headSize + 1 := by
    rw [List.length_append, hashSize, signed_part_length _ fits, headSize]
    omega
  have front : (hash ++ signedPart sig (ptype :: body)).take macSize = hash :=
    List.take_left' hashSize
  have behindHash : (hash ++ signedPart sig (ptype :: body)).drop macSize =
      signedPart sig (ptype :: body) := List.drop_left' hashSize
  rw [decodePacket, if_neg long]
  dsimp only
  rw [front, behindHash, if_neg (not_not.mpr hashed), last, length_byte fits,
    reslice_signed _ behind hashSize fits, sigdata]
  dsimp only
  rw [recovered]
  dsimp only
  rw [known]
  dsimp only
  rw [decoded]

theorem packet_decoded (lawful : Lawful curve) (verifies : Verifies prv draws) {req : Packet}
    (empty : req.rest = []) (small : req.rlp.length < 2 ^ 64) :
    ∃ packet, encodePacket prv draws req.ptype req = .ok packet ∧
      packet.dropLast.drop headSize = req.ptype :: req.rlp ∧
      ∀ behind, decodePacket curve packet behind =
        .ok (req, pubkeyID prv.point, packet.take macSize) := by
  obtain ⟨digits, signed, right⟩ := verifies (keccak256 [req.ptype :: req.rlp])
  obtain ⟨decoder, s, known, decoded⟩ := request_decoded empty small
  have fits : (NodeKeys.sign prv digits).length ≤ sigSize := sign_length lawful right
  refine ⟨_, encode_packet_eq small signed fits, ?_, fun behind => ?_⟩
  · exact (framed_payload _ (keccak256_length _) fits).1
  · rw [decode_framed behind fits rfl (recover_signer lawful right) known decoded,
      List.take_left' (show _ = macSize from keccak256_length _)]

end RoundTrip

end PbftBlock.DiscoveryPackets
