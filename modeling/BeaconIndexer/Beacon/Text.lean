/-
The text of roots and block ids (`Root`, `BlockId` of `src/beacon_client/types.rs`) and of the roots that
`live_blocks` stores. Strings are lists of characters.
-/
import BeaconIndexer.Scanner.Bits
import Mathlib.Data.List.DropRight

namespace BeaconIndexer.Text

/-- `Error::InvalidBlockId`. -/
structure InvalidBlockId where
  value : List Char
  deriving DecidableEq

def InvalidBlockId.message (e : InvalidBlockId) : String := s!"Invalid beacon block id: {String.ofList e.value}"

/-! ## Roots -/

/-- `char::is_whitespace`: the property White_Space of Unicode. -/
def isWhitespace (c : Char) : Bool :=
  let n := c.toNat
  (decide (9 ≤ n) && decide (n ≤ 13)) || n == 0x20 || n == 0x85 || n == 0xA0 || n == 0x1680 ||
    (decide (0x2000 ≤ n) && decide (n ≤ 0x200A)) || n == 0x2028 || n == 0x2029 || n == 0x202F || n == 0x205F || n == 0x3000

def trim (s : List Char) : List Char := (s.dropWhile isWhitespace).rdropWhile isWhitespace

/-- `strip_prefix("0x")`, or else `strip_prefix("0X")`. -/
def stripRootPrefix : List Char → Option (List Char)
  | '0' :: 'x' :: rest => some rest
  | '0' :: 'X' :: rest => some rest
  | _ => none

def isAsciiHexdigit (c : Char) : Bool := (hexDigit c).isSome

/-- The source counts and checks bytes; a character that is not a hex digit fails one check or the other. -/
def normalizePrefixedHexRoot (value : List Char) : Option (List Char) :=
  match stripRootPrefix (trim value) with
  | none => none
  | some hex =>
    if hex.length ≠ 64 ∨ !hex.all isAsciiHexdigit then none
    else some ('0' :: 'x' :: hex.map Char.toLower)

/-- A `Root` of the source: the text that `parse` made, or the empty text of `Default`. -/
structure Root where
  text : List Char
  made : text = [] ∨ ∃ value, normalizePrefixedHexRoot value = some text
  deriving DecidableEq

namespace Root

/-- `Root::default()`. -/
def default : Root := ⟨[], .inl rfl⟩

def parse (value : List Char) : Except InvalidBlockId Root :=
  match h : normalizePrefixedHexRoot value with
  | none => .error ⟨value⟩
  | some text => .ok ⟨text, .inr ⟨value, h⟩⟩

end Root

/-! ## Block ids -/

inductive BlockId where
  | slot (slot : UInt64)
  | root (root : Root)
  | head
  | genesis
  | finalized
  deriving DecidableEq

namespace BlockId

def asRequestSegment : BlockId → List Char
  | .slot n => Nat.toDigits 10 n.toNat
  | .root r => r.text
  | .head => ['h', 'e', 'a', 'd']
  | .genesis => ['g', 'e', 'n', 'e', 's', 'i', 's']
  | .finalized => ['f', 'i', 'n', 'a', 'l', 'i', 'z', 'e', 'd']

def eqIgnoreAsciiCase (s t : List Char) : Bool := s.map Char.toLower == t.map Char.toLower

/-- The digits that `u64::from_str` reads: a leading plus is allowed. -/
def unsignedDigits : List Char → List Char
  | '+' :: rest => rest
  | s => s

def parseU64 (s : List Char) : Option UInt64 :=
  let digits := unsignedDigits s
  if digits.isEmpty ∨ !digits.all Char.isDigit then none
  else if Nat.ofDigitChars 10 digits 0 < 2 ^ 64 then some (UInt64.ofNat (Nat.ofDigitChars 10 digits 0)) else none

def tryFrom (value : List Char) : Except InvalidBlockId BlockId :=
  if eqIgnoreAsciiCase value ['h', 'e', 'a', 'd'] then .ok .head
  else if eqIgnoreAsciiCase value ['g', 'e', 'n', 'e', 's', 'i', 's'] then .ok .genesis
  else if eqIgnoreAsciiCase value ['f', 'i', 'n', 'a', 'l', 'i', 'z', 'e', 'd'] then .ok .finalized
  else match parseU64 value with
    | some n => .ok (.slot n)
    | none => (Root.parse value).map .root

end BlockId

/-! ## The rows of `live_blocks` -/

/-- What `record_block` binds. -/
def blockColumns (slot : Nat) (root parent : Root) : Int × List Char × List Char :=
  (asI64 slot, root.text, parent.text)

/-- `slot as u64`. -/
def asU64 (value : Int) : Nat := (value % 2 ^ 64).toNat

/-- What `recent_blocks` makes of the selected rows. -/
def readBlocks (rows : List (Int × List Char × List Char)) : Except InvalidBlockId (List (Nat × Root × Root)) :=
  rows.mapM fun (slot, root, parent) => do
    let root ← Root.parse root
    let parent ← Root.parse parent
    return (asU64 slot, root, parent)

end BeaconIndexer.Text
