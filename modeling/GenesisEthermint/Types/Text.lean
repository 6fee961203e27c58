import GenesisEthermint.Types.Errors
import Mathlib.Data.List.Basic

/-!
# Strings and Hex

Go strings are byte strings. Here a Go string is a `String` whose characters are its bytes,
so a character compares, counts and prints as the byte it stands for. Where a text is written to
the store it is ASCII, and its characters are its bytes in UTF-8, too.

The grammars the module decides on a bare string live here: hex addresses as go-ethereum
reads them, coin denominations as the SDK's regular expression reads them, and the blank test
`strings.TrimSpace(s) == ""`.
-/

namespace GenesisEthermint.Types

/-! ## Hexadecimal -/

def isHexCharacter (c : Char) : Bool :=
  ('0' ≤ c && c ≤ '9') || ('a' ≤ c && c ≤ 'f') || ('A' ≤ c && c ≤ 'F')

/-- The value of a hexadecimal character, as `encoding/hex` reads it. -/
def fromHexChar (c : Char) : Option ℕ :=
  if '0' ≤ c ∧ c ≤ '9' then some (c.toNat - 48)
  else if 'a' ≤ c ∧ c ≤ 'f' then some (c.toNat - 87)
  else if 'A' ≤ c ∧ c ≤ 'F' then some (c.toNat - 55)
  else none

/-- `hex.DecodeString` on an even number of characters: the bytes decoded before the first
bad character, and whether there was one. -/
def hexDecode : List Char → List UInt8 × Bool
  | c :: d :: rest =>
    match fromHexChar c, fromHexChar d with
    | some x, some y =>
      let (bytes, ok) := hexDecode rest
      (UInt8.ofNat (16 * x + y) :: bytes, ok)
    | _, _ => ([], false)
  | [_] => ([], false)
  | [] => ([], true)

/-- The lower-case hexadecimal digit of a value below 16. -/
def hexDigit (n : ℕ) : Char := if n < 10 then Char.ofNat (n + 48) else Char.ofNat (n + 87)

/-- `hex.EncodeToString`. -/
def hexEncode : List UInt8 → List Char
  | [] => []
  | b :: rest => hexDigit (b.toNat / 16) :: hexDigit (b.toNat % 16) :: hexEncode rest

def has0xPrefix : List Char → Bool
  | '0' :: 'x' :: _ => true
  | '0' :: 'X' :: _ => true
  | _ => false

/-- The characters after an optional `0x`. -/
def strip0x (cs : List Char) : List Char := if has0xPrefix cs then cs.drop 2 else cs

/-- `common.FromHex`: pads an odd number of digits, and drops what follows a bad one. -/
def fromHex (s : String) : List UInt8 :=
  let cs := strip0x s.toList
  let cs := if cs.length % 2 = 1 then '0' :: cs else cs
  (hexDecode cs).1

/-- `common.IsHexAddress`: forty hexadecimal digits after an optional `0x`. -/
def isHexAddress (s : String) : Bool :=
  (strip0x s.toList).length == 40 && (strip0x s.toList).all isHexCharacter

/-! ## Blank strings and splitting -/

/-- The UTF-8 encodings of the characters `strings.TrimSpace` removes. -/
def spaceEncodings : List (List Char) :=
  ["\t", "\n", "\x0b", "\x0c", "\r", " ", "\xc2\x85", "\xc2\xa0", "\xe1\x9a\x80",
    "\xe2\x80\x80", "\xe2\x80\x81", "\xe2\x80\x82", "\xe2\x80\x83", "\xe2\x80\x84",
    "\xe2\x80\x85", "\xe2\x80\x86", "\xe2\x80\x87", "\xe2\x80\x88", "\xe2\x80\x89",
    "\xe2\x80\x8a", "\xe2\x80\xa8", "\xe2\x80\xa9", "\xe2\x80\xaf", "\xe2\x81\x9f",
    "\xe3\x80\x80"].map String.toList

/-- Whether the characters are white space only; `fuel` bounds the number of them. -/
def blankWithin : ℕ → List Char → Bool
  | _, [] => true
  | 0, _ :: _ => false
  | fuel + 1, c :: cs =>
    match spaceEncodings.find? (fun e => e.isPrefixOf (c :: cs)) with
    | some e => blankWithin fuel ((c :: cs).drop e.length)
    | none => false

/-- `strings.TrimSpace(s) == ""`. -/
def isBlank (s : String) : Bool := blankWithin s.toList.length s.toList

/-- `strings.SplitN(s, "/", 2)`: what stands before the first slash, and after it if any. -/
def splitSlash (s : String) : String × Option String :=
  let cs := s.toList
  let head := cs.takeWhile (· ≠ '/')
  match cs.drop head.length with
  | [] => (s, none)
  | _ :: rest => (String.ofList head, some (String.ofList rest))

/-- `strings.Contains(s, sub)`. -/
def contains (s sub : String) : Bool := s.toList.tails.any fun t => sub.toList.isPrefixOf t

/-- `strings.HasPrefix(s, p)`. -/
def hasPrefix (s p : String) : Bool := p.toList.isPrefixOf s.toList

/-! ## Denominations -/

def isLetter (c : Char) : Bool := ('a' ≤ c && c ≤ 'z') || ('A' ≤ c && c ≤ 'Z')

def isDenomChar (c : Char) : Bool := isLetter c || ('0' ≤ c && c ≤ '9') || c == '/' || c == '-'

/-- `reDnm`: a letter, then 2 to 127 letters, digits, slashes and hyphens. -/
def reDnm : List Char → Bool
  | c :: rest => isLetter c && rest.all isDenomChar && 2 ≤ rest.length && rest.length ≤ 127
  | [] => false

/-- `sdk.ValidateDenom`. -/
def validateDenom (denom : String) : Except GoError Unit :=
  if reDnm denom.toList then .ok () else .error (.errorf ("invalid denom: " ++ denom))

/-- `ParseHexHash`: whether the string is the hex of nothing or of 32 bytes. -/
def parseHexHash (s : String) : Except GoError (List UInt8) :=
  match hexDecode s.toList with
  | (_, false) => .error (.errorf "encoding/hex: invalid byte or odd length hex string")
  | (bytes, true) =>
    if 0 < bytes.length ∧ bytes.length ≠ 32 then
      .error (.errorf s!"expected size to be 32 bytes, got {bytes.length} bytes")
    else .ok bytes

/-- `DenomPrefix` of the IBC transfer module. -/
def DenomPrefix : String := "ibc"

/-- `ibctransfertypes.ValidateIBCDenom`: a bare denomination, or `ibc/` and a hash. -/
def validateIBCDenom (denom : String) : Except GoError Unit := do
  validateDenom denom
  let malformed : GoError := .wrap ErrInvalidDenomForTransfer
    ("denomination should be prefixed with the format 'ibc/\x7bhash(trace + \"/\" + "
      ++ denom ++ ")\x7d'")
  match splitSlash denom with
  -- the bare prefix is refused, any other bare denomination passes
  | (head, none) =>
    if isBlank denom ∨ head = DenomPrefix then throw malformed else pure ()
  | (head, some hash) =>
    if isBlank denom ∨ head ≠ DenomPrefix ∨ isBlank hash then throw malformed
    else
      match parseHexHash hash with
      | .ok _ => pure ()
      | .error e => throw (.wrap e ("invalid denom trace hash " ++ hash))

end GenesisEthermint.Types
