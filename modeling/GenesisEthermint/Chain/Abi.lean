import GenesisEthermint.Types.Address
import Mathlib.Tactic.Ring

/-!
# Contract ABI

What the keeper packs into a contract call, and how it reads what a contract gives back.
Calls are kept as a method with its arguments, because nothing in the module looks at their
encoding. Return values and event data are raw bytes, because an arbitrary contract chooses
them, and go-ethereum's decoder decides which of them are accepted.
-/

namespace GenesisEthermint.Chain

open GenesisEthermint.Types

/-! ## Words -/

/-- The number a big-endian byte string denotes. -/
def beNat (bytes : List UInt8) : ℕ := bytes.foldl (fun acc b => 256 * acc + b.toNat) 0

/-- The last `k` bytes of a number, big-endian. -/
def beBytes : ℕ → ℕ → List UInt8
  | 0, _ => []
  | k + 1, n => beBytes k (n / 256) ++ [UInt8.ofNat (n % 256)]

/-- A 32-byte word. -/
def word (n : ℕ) : List UInt8 := beBytes 32 n

theorem length_beBytes (k n : ℕ) : (beBytes k n).length = k := by
  induction k generalizing n with
  | zero => rfl
  | succ k ih => simp only [beBytes, List.length_append, ih, List.length_cons, List.length_nil]

theorem beNat_append_singleton (bytes : List UInt8) (b : UInt8) :
    beNat (bytes ++ [b]) = 256 * beNat bytes + b.toNat := by
  simp only [beNat, List.foldl_append, List.foldl_cons, List.foldl_nil]

theorem beNat_beBytes (k n : ℕ) : beNat (beBytes k n) = n % 256 ^ k := by
  induction k generalizing n with
  | zero => simp only [beBytes, pow_zero, Nat.mod_one]; rfl
  | succ k ih =>
    have hb : (UInt8.ofNat (n % 256)).toNat = n % 256 :=
      UInt8.toNat_ofNat_of_lt (Nat.mod_lt _ (by decide))
    have hpow : 256 ^ (k + 1) = 256 * 256 ^ k := by ring
    rw [beBytes, beNat_append_singleton, ih, hb, hpow, Nat.mod_mul]
    omega

theorem beNat_word {n : ℕ} (h : n < 2 ^ 256) : beNat (word n) = n := by
  rw [word, beNat_beBytes]
  exact Nat.mod_eq_of_lt (by simpa using h)

theorem length_word (n : ℕ) : (word n).length = 32 := length_beBytes 32 n

/-! ## Packing calls -/

/-- The contract methods the module and the token standard name. -/
inductive Method where
  | name | symbol | decimals | transfer | transferFrom | approve | mint | burn | burnFrom
  | burnCoins
  deriving DecidableEq, Repr

/-- The method's name in the contract interface. -/
def Method.text : Method → String
  | name => "name"
  | symbol => "symbol"
  | decimals => "decimals"
  | transfer => "transfer"
  | transferFrom => "transferFrom"
  | approve => "approve"
  | mint => "mint"
  | burn => "burn"
  | burnFrom => "burnFrom"
  | burnCoins => "burnCoins"

inductive AbiType where
  | address | uint256
  deriving DecidableEq, Repr

inductive AbiArg where
  | address (a : Address)
  | uint256 (n : ℕ)
  deriving DecidableEq

def AbiArg.type : AbiArg → AbiType
  | .address _ => .address
  | .uint256 _ => .uint256

/-- A `*big.Int` packed as `uint256`: two's complement in 256 bits. -/
def packInt (i : ℤ) : AbiArg := .uint256 (i % 2 ^ 256).toNat

/-- The methods of a contract interface with their input types. -/
abbrev ABI := Method → Option (List AbiType)

/-- The interface in `ERC20Burnable.json`. -/
def erc20Burnable : ABI
  | .name | .symbol | .decimals => some []
  | .transfer | .approve | .burnFrom => some [.address, .uint256]
  | .transferFrom => some [.address, .address, .uint256]
  | .burn => some [.uint256]
  | .mint | .burnCoins => none

/-- The interface in `ERC20MinterBurner.json`. -/
def erc20BurnableAndMintable : ABI
  | .mint | .burnCoins => some [.address, .uint256]
  | m => erc20Burnable m

/-- The input data of an EVM message: a packed method call, the preset token's code with its
constructor arguments, or any other bytes a user sends. -/
inductive Payload where
  | call (method : Method) (args : List AbiArg)
  | create (name symbol : String)
  | raw (data : List UInt8)
  deriving DecidableEq

/-- `abi.Pack`. -/
def ABI.pack (abi : ABI) (method : Method) (args : List AbiArg) : Except GoError Payload :=
  match abi method with
  | none => .error (.errorf ("method '" ++ method.text ++ "' not found"))
  | some types =>
    if args.length ≠ types.length then
      .error (.errorf s!"argument count mismatch: got {args.length} for {types.length}")
    else if args.map AbiArg.type ≠ types then
      .error (.errorf "abi: cannot use argument as type of the input")
    else .ok (.call method args)

/-! ## Unpacking results -/

/-- The text of a byte slice under `%+v`. -/
def bytesText (b : List UInt8) : String :=
  "[" ++ String.intercalate " " (b.map fun x => toString x.toNat) ++ "]"

/-- A Go string holding the bytes. -/
def bytesString (b : List UInt8) : String := String.ofList (b.map fun x => Char.ofNat x.toNat)

/-- The first word of non-empty data. -/
def firstWord (data : List UInt8) : Except GoError (List UInt8) :=
  if data.length = 0 then
    .error (.errorf
      "abi: attempting to unmarshall an empty string while arguments are expected")
  else if data.length < 32 then
    .error (.errorf
      s!"abi: cannot marshal in to go type: length insufficient {data.length} require 32")
  else .ok (data.take 32)

/-- A method's output must be whole words. -/
def methodOutput (data : List UInt8) : Except GoError (List UInt8) :=
  if data.length % 32 ≠ 0 then
    .error (.errorf ("abi: improperly formatted output: " ++ bytesString data ++ " - Bytes: ["
      ++ bytesText data ++ "]"))
  else firstWord data

/-- `readBool`. -/
def readBool (w : List UInt8) : Except GoError Bool :=
  if beNat w = 0 then .ok false
  else if beNat w = 1 then .ok true
  else .error (.errorf "abi: improperly encoded boolean value")

/-- `erc20.UnpackIntoInterface(&unpackedRet, "transfer", res.Ret)`. -/
def unpackBool (ret : List UInt8) : Except GoError Bool := methodOutput ret >>= readBool

/-- `UnpackIntoInterface` of a `uint8` result: the last byte of the word. -/
def unpackUint8 (ret : List UInt8) : Except GoError ℕ :=
  methodOutput ret >>= fun w => .ok (beNat w % 256)

/-- `lengthPrefixPointsTo` at index 0, and the bytes it points to. -/
def unpackString (ret : List UInt8) : Except GoError String := do
  let offset ← methodOutput ret
  let offsetEnd := beNat offset + 32
  rejectIf (ret.length < offsetEnd)
    (.errorf ("abi: cannot marshal in to go slice: offset " ++ toString offsetEnd
      ++ " would go over slice boundary (len=" ++ toString ret.length ++ ")"))
  let length := beNat ((ret.drop (offsetEnd - 32)).take 32)
  rejectIf (2 ^ 63 ≤ offsetEnd + length)
    (.errorf ("abi: length larger than int64: " ++ toString (offsetEnd + length)))
  rejectIf (ret.length < offsetEnd + length)
    (.errorf ("abi: cannot marshal in to go type: length insufficient " ++ toString ret.length
      ++ " require " ++ toString (offsetEnd + length)))
  return bytesString ((ret.drop offsetEnd).take length)

theorem unpackBool_word {b : Bool} : unpackBool (word b.toNat) = .ok b := by
  cases b <;> decide

/-! ## Events -/

/-- `ethtypes.Log`: the fields the hook reads. -/
structure Log where
  address : Address
  topics : List Hash
  data : List UInt8
  deriving DecidableEq

/-- The events of the `ERC20Burnable` interface. -/
inductive Event where
  | Approval | Transfer
  deriving DecidableEq, Repr

/-- The identifier of `Transfer(address,address,uint256)`. -/
def transferID : Hash where
  bytes := [0xdd, 0xf2, 0x52, 0xad, 0x1b, 0xe2, 0xc8, 0x9b, 0x69, 0xc2, 0xb0,
    0x68, 0xfc, 0x37, 0x8d, 0xaa, 0x95, 0x2b, 0xa7, 0xf1, 0x63, 0xc4,
    0xa1, 0x16, 0x28, 0xf5, 0x5a, 0x4d, 0xf5, 0x23, 0xb3, 0xef]
  length_eq := by decide

/-- The identifier of `Approval(address,address,uint256)`. -/
def approvalID : Hash where
  bytes := [0x8c, 0x5b, 0xe1, 0xe5, 0xeb, 0xec, 0x7d, 0x5b, 0xd1, 0x4f, 0x71,
    0x42, 0x7d, 0x1e, 0x84, 0xf3, 0xdd, 0x03, 0x14, 0xc0, 0xf7, 0xb2,
    0x29, 0x1e, 0x5b, 0x20, 0x0a, 0xc8, 0xc7, 0xc3, 0xb9, 0x25]
  length_eq := by decide

/-- `erc20.EventByID`. -/
def eventByID (id : Hash) : Option Event :=
  if id = approvalID then some .Approval
  else if id = transferID then some .Transfer
  else none

/-- `erc20.Unpack(event.Name, log.Data)` for the one non-indexed `uint256` of either event. -/
def unpackEvent (data : List UInt8) : Except GoError ℕ := (firstWord data).map beNat

/-- The topic an indexed address is logged as. -/
def addressTopic (a : Address) : Hash where
  bytes := List.replicate 12 0 ++ a.bytes
  length_eq := by simp [a.length_eq]

@[simp] theorem bytesToAddress_addressTopic (a : Address) :
    bytesToAddress (addressTopic a).bytes = a := by
  ext1
  have hlen : (List.replicate 12 (0 : UInt8) ++ a.bytes).length = 32 := by simp [a.length_eq]
  have hsplit : List.replicate 20 (0 : UInt8) ++ (List.replicate 12 0 ++ a.bytes) =
      List.replicate 32 0 ++ a.bytes := by simp
  simp only [bytesToAddress, addressTopic, hlen, hsplit]
  exact List.drop_left' (by simp)

/-- The log of an ERC20 transfer. -/
def transferLog (contract sender recipient : Address) (n : ℕ) : Log where
  address := contract
  topics := [transferID, addressTopic sender, addressTopic recipient]
  data := word n

theorem unpackEvent_word {n : ℕ} (h : n < 2 ^ 256) : unpackEvent (word n) = .ok n := by
  have htake : (word n).take 32 = word n := by
    rw [List.take_of_length_le]
    exact le_of_eq (length_word n)
  simp [unpackEvent, firstWord, length_word, htake, Except.map, beNat_word h]

end GenesisEthermint.Chain
