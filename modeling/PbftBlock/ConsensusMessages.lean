import Mathlib

/-!
# Blocks, requests and the four consensus messages

The records of `eth/pbft-core.go`, with Go pointers that may be nil as options
and `uint64` as `UInt64`. Message timestamps are written and never read by any
handler, so they are left out. `newhashReq` and `Block.Hash` are transcribed as
they stand: each prints one number, the request number or the block number.
-/

namespace PbftBlock.ConsensusMessages

set_option autoImplicit false

/-- `time.Time`, as a number of nanoseconds. -/
abbrev Instant := Nat

abbrev Bytes := List UInt8

abbrev Address := { bytes : Bytes // bytes.length = 20 }

/-- `Address.SetBytes` on the zero address: the last twenty bytes, right aligned. -/
def bytesToAddress (bytes : Bytes) : Address :=
  ⟨(bytes.drop (bytes.length - 20)).leftpad 20 0, by
    rw [List.length_leftpad, List.length_drop]
    omega⟩

def hexDigit (byte : UInt8) : Option UInt8 :=
  if 48 ≤ byte ∧ byte ≤ 57 then some (byte - 48)
  else if 97 ≤ byte ∧ byte ≤ 102 then some (byte - 87)
  else if 65 ≤ byte ∧ byte ≤ 70 then some (byte - 55)
  else none

/-- `hex.DecodeString` as `Hex2Bytes` uses it: the bytes decoded before the
first malformed pair, the error being dropped. -/
def hex2Bytes : Bytes → Bytes
  | high :: low :: rest =>
      match hexDigit high, hexDigit low with
      | some upper, some lower => (16 * upper + lower) :: hex2Bytes rest
      | _, _ => []
  | _ => []

def fromHex (text : Bytes) : Bytes :=
  if 1 < text.length then
    let digits := if text.take 2 = [48, 120] then text.drop 2 else text
    hex2Bytes (if digits.length % 2 = 1 then 48 :: digits else digits)
  else []

def hexToAddress (text : String) : Address := bytesToAddress (fromHex text.toUTF8.data.toList)

structure Header where
  parentHash : String
  number : Option Int
  coinbase : Address
  extra : Bytes
  time : Option Int
  chainName : String
  root : String
deriving DecidableEq

structure Transaction where
  string : String
deriving DecidableEq

structure Receipt where
  string : String
deriving DecidableEq

structure Block where
  number : UInt64
  valid : Int
  timee : Instant
  header : Option Header
  txs : List (Option Transaction)
  uncles : List (Option Header)
  receipt : List (Option Receipt)
deriving DecidableEq

/-- `strconv.Itoa(int(n))` for a `uint64`: the conversion to `int` keeps the bits. -/
def itoa (number : UInt64) : String := number.toInt64.toInt.repr

theorem itoa_injective {left right : UInt64} (same : itoa left = itoa right) : left = right := by
  have integers := Int.repr_inj.mp same
  have signed := Int64.toInt_inj.mp integers
  simpa using congrArg Int64.toUInt64 signed

def blockHash (block : Block) : String := itoa block.number

def isValid (block : Block) : Bool := block.valid == 0

structure Request where
  reqID : UInt64
  sender : String
  view : UInt64
  blockHeight : UInt64
  blockHash : String
  blockCreator : Address
  block : Bytes
  realblock : Option Block
deriving DecidableEq

def newhashReq (request : Request) : String := itoa request.reqID

structure PrePrepare where
  sender : String
  view : UInt64
  reqID : UInt64
  requestDigest : String
  request : Option Request
deriving DecidableEq

structure TxsExeSequences where
  objectsExeSeqs : List Int
  dependencyTX : List Int
deriving DecidableEq

structure Prepare where
  sender : String
  view : UInt64
  reqID : UInt64
  requestDigest : String
  txsExeSeqs : Bytes
deriving DecidableEq

structure ValidResultForBlock where
  sender : String
  blockHeight : UInt64
  blockHash : String
  blockCreator : Address
  opinion : Bool
  sign : String
deriving DecidableEq

structure Commit where
  sender : String
  view : UInt64
  reqID : UInt64
  requestDigest : String
  vr : ValidResultForBlock
deriving DecidableEq

structure Checkpoint where
  sender : String
  blockHeight : UInt64
  reqID : UInt64
  blockHash : String
deriving DecidableEq

/-- `Block.Transactions` followed by `TxDependency`: the two constant arrays of
fifty entries, whatever the receiver is. -/
def blockTransactions : TxsExeSequences where
  objectsExeSeqs := (List.range 50).map fun i => (i : Int) + 1
  dependencyTX := (List.range 50).map fun i => 50 - (i : Int)

def decimal (value : Int) : Bytes :=
  let digits := (Nat.toDigits 10 value.natAbs).map fun digit => UInt8.ofNat digit.toNat
  if value < 0 then 45 :: digits else digits

def jsonArray (values : List Int) : Bytes :=
  [91] ++ List.intercalate [44] (values.map decimal) ++ [93]

def tostringTxs (txs : TxsExeSequences) : Bytes :=
  "\x7b\"Objects_ExeSeqs\":".toUTF8.data.toList ++ jsonArray txs.objectsExeSeqs ++
    ",\"Dependency_TX\":".toUTF8.data.toList ++ jsonArray txs.dependencyTX ++ [125]

/-- What the `Msg` field of a `ConsensusMsg` decodes to; the constructor is the
`Type` string that travels beside it. -/
inductive Message where
  | request (request : Request)
  | prePrepare (preprep : PrePrepare)
  | prepare (prep : Prepare)
  | commit (commit : Commit)
deriving DecidableEq

structure ConsensusMsg where
  msg : Message
  sender : String
deriving DecidableEq

/-- A forwarded message: `sender` is copied from the message, `newsender` is
the node that forwards it. -/
structure ConsensusMsg2 where
  msg : Message
  sender : String
  newsender : String
deriving DecidableEq

end PbftBlock.ConsensusMessages
