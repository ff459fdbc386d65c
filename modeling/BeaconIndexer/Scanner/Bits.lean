/-
SSZ bit sequences in hex (`src/scanner/bits.rs`, `decode_sync_committee_bits` of
`src/scanner/sync_committee.rs`), with the hex decoder the source takes from a crate.
-/
import BeaconIndexer.Chain

namespace BeaconIndexer

inductive HexError where
  | oddLength
  | invalidHexCharacter (c : Char) (index : Nat)

/-- `{:?}` of a character below 256: other than ASCII, all from U+00A1 on but the soft hyphen are printed as they are. -/
def debugChar (c : Char) : String :=
  let escaped := match c.toNat with
    | 0 => "\\0"
    | 9 => "\\t"
    | 10 => "\\n"
    | 13 => "\\r"
    | 39 => "\\\x27"
    | 92 => "\\\\"
    | n => if n < 32 ∨ 127 ≤ n ∧ n ≤ 160 ∨ n = 173 then "\\u\x7b" ++ String.ofList (Nat.toDigits 16 n) ++ "\x7d"
      else c.toString
  "\x27" ++ escaped ++ "\x27"

def HexError.message : HexError → String
  | oddLength => "Odd number of digits"
  | invalidHexCharacter c index => s!"Invalid character {debugChar c} at position {index}"

def hexDigit (c : Char) : Option Nat :=
  if '0' ≤ c ∧ c ≤ '9' then some (c.toNat - 48)
  else if 'a' ≤ c ∧ c ≤ 'f' then some (c.toNat - 87)
  else if 'A' ≤ c ∧ c ≤ 'F' then some (c.toNat - 55)
  else none

/-- The bytes of an even number of hex digits, from position `i` on. -/
def decodeHexPairs (i : Nat) : List Char → Except HexError (List Nat)
  | [] => .ok []
  | [_] => .error .oddLength
  | hi :: lo :: rest =>
    match hexDigit hi, hexDigit lo with
    | none, _ => .error (.invalidHexCharacter hi i)
    | some _, none => .error (.invalidHexCharacter lo (i + 1))
    | some h, some l => (decodeHexPairs (i + 2) rest).map ((16 * h + l) :: ·)

/-- The UTF-8 bytes of a string, each as the character of its number. -/
def utf8Bytes (s : List Char) : List Char :=
  s.flatMap fun c => (String.utf8EncodeChar c).map fun b => Char.ofNat b.toNat

/-- The crate decodes bytes, and its errors count them. -/
def decodeHex (s : List Char) : Except HexError (List Nat) :=
  let bytes := utf8Bytes s
  if bytes.length % 2 = 1 then .error .oddLength else decodeHexPairs 0 bytes

/-- `trim_start_matches("0x")`, which drops every leading occurrence. -/
def trimHexPrefix : List Char → List Char
  | '0' :: 'x' :: rest => trimHexPrefix rest
  | s => s

/-- The lowest `n` bits of a byte, least significant first. -/
def byteBits (n byte : Nat) : List Bool := (List.range n).map fun i => byte / 2 ^ i % 2 == 1

/-- Decode an SSZ bitlist; its sentinel is the highest set bit of the last byte. -/
def decodeBitlist (hexStr : List Char) : Except Error (List Bool) :=
  match decodeHex (trimHexPrefix hexStr) with
  | .error e => .error (.inconsistentBeaconData s!"bitlist: invalid hex ({e.message}): {String.ofList hexStr}")
  | .ok bytes =>
    match bytes.getLast? with
    | none => .error (.inconsistentBeaconData "bitlist: empty input (no sentinel)")
    | some lastByte =>
      if lastByte = 0 then
        .error (.inconsistentBeaconData "bitlist: last byte is 0 — SSZ bitlist has no sentinel bit")
      else
        .ok ((bytes.dropLast.flatMap (byteBits 8)) ++ byteBits lastByte.log2 lastByte)

/-- Decode an SSZ bitvector; the caller checks its length. -/
def decodeBitvector (hexStr : List Char) : Except Error (List Bool) :=
  match decodeHex (trimHexPrefix hexStr) with
  | .error e => .error (.inconsistentBeaconData s!"bitvector: invalid hex ({e.message}): {String.ofList hexStr}")
  | .ok bytes => .ok (bytes.flatMap (byteBits 8))

def decodeSyncCommitteeBits (spec : ChainSpec) (hexStr : List Char) : Except Error (List Bool) :=
  match decodeBitvector hexStr with
  | .error e => .error e
  | .ok bits =>
    if bits.length = spec.syncCommitteeSize then .ok bits
    else .error (.inconsistentBeaconData
      s!"sync_committee_bits: got {bits.length} bits, expected {spec.syncCommitteeSize}")

theorem decodeSyncCommitteeBits_length {spec : ChainSpec} {hexStr : List Char} {bits : List Bool}
    (h : decodeSyncCommitteeBits spec hexStr = .ok bits) : bits.length = spec.syncCommitteeSize := by
  unfold decodeSyncCommitteeBits at h
  split at h
  · cases h
  · split at h
    · cases h; assumption
    · cases h

example : decodeBitlist ['0', 'x', '0', 'B'] = .ok [true, true, false] := by rfl

end BeaconIndexer
