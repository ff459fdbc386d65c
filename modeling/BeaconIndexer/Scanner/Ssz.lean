/-
Bit decoding against the SSZ encoding: decoding inverts encoding, and a hex string is accepted for
exactly the bytes it denotes, unless its prefix is repeated.
-/
import BeaconIndexer.Base.Ssz
import BeaconIndexer.Scanner.Bits

namespace BeaconIndexer

open Ssz

/-! ## Hex -/

def hexChar (d : Nat) : Char := if d < 10 then Char.ofNat (48 + d) else Char.ofNat (87 + d)

/-- The hex digits of bytes, without a prefix. -/
def encodeHex (bytes : List Nat) : List Char := bytes.flatMap fun b => [hexChar (b / 16), hexChar (b % 16)]

/-- What follows one `0x`, if there is one. -/
def stripHexPrefix : List Char → List Char
  | '0' :: 'x' :: rest => rest
  | s => s

theorem hexDigit_lt {c : Char} {d : Nat} (h : hexDigit c = some d) : d < 16 := by
  unfold hexDigit at h
  simp only [Char.le_def, UInt32.le_iff_toNat_le] at h
  split at h
  · rename_i hc
    cases h
    have h9 : c.toNat ≤ 57 := hc.2
    omega
  · split at h
    · rename_i hc
      cases h
      have hf : c.toNat ≤ 102 := hc.2
      omega
    · split at h
      · rename_i hc
        cases h
        have hF : c.toNat ≤ 70 := hc.2
        omega
      · cases h

theorem hexDigit_hexChar {d : Nat} (h : d < 16) : hexDigit (hexChar d) = some d := by
  interval_cases d <;> rfl

/-- Two digits make a byte. -/
theorem decodeHexPairs_cons_ok {hi lo : Char} {rest : List Char} {i : Nat} {bytes : List Nat} :
    decodeHexPairs i (hi :: lo :: rest) = .ok bytes ↔ ∃ x y tail, hexDigit hi = some x ∧ hexDigit lo = some y ∧
      decodeHexPairs (i + 2) rest = .ok tail ∧ bytes = (16 * x + y) :: tail := by
  rw [decodeHexPairs]
  cases hexDigit hi with
  | none => simp
  | some x =>
    cases hexDigit lo with
    | none => simp
    | some y => cases decodeHexPairs (i + 2) rest <;> simp [Except.map, eq_comm]

theorem decodeHexPairs_encodeHex : ∀ {bytes : List Nat} (i : Nat), (∀ b ∈ bytes, b < 256) →
    decodeHexPairs i (encodeHex bytes) = .ok bytes
  | [], i, _ => rfl
  | b :: bytes, i, h => by
    have hb := h b (List.mem_cons_self ..)
    have ih := decodeHexPairs_encodeHex (i + 2) fun x hx => h x (List.mem_cons_of_mem b hx)
    have hsum : b = 16 * (b / 16) + b % 16 := by omega
    unfold encodeHex at ih ⊢
    rw [List.flatMap_cons]
    exact decodeHexPairs_cons_ok.2 ⟨_, _, _, hexDigit_hexChar (by omega), hexDigit_hexChar (by omega), ih, by rw [← hsum]⟩

/-- Hex digits denote bytes. -/
theorem decodeHexPairs_lt : ∀ {s : List Char} {i : Nat} {bytes : List Nat}, decodeHexPairs i s = .ok bytes →
    ∀ b ∈ bytes, b < 256
  | [], i, bytes, h => by cases h; intro b hb; cases hb
  | [_], i, bytes, h => by cases h
  | hi :: lo :: rest, i, bytes, h => by
    obtain ⟨x, y, tail, hhi, hlo, hrest, rfl⟩ := decodeHexPairs_cons_ok.1 h
    intro b hb
    rcases List.mem_cons.1 hb with rfl | hb
    · have hx := hexDigit_lt hhi
      have hy := hexDigit_lt hlo
      omega
    · exact decodeHexPairs_lt hrest b hb

/-- What is decoded is an even number of hex digits. -/
theorem decodeHexPairs_ok : ∀ {s : List Char} {i : Nat} {bytes : List Nat}, decodeHexPairs i s = .ok bytes →
    (∀ c ∈ s, (hexDigit c).isSome = true) ∧ s.length = 2 * bytes.length
  | [], i, bytes, h => by
    cases h
    simp
  | [_], i, bytes, h => by cases h
  | hi :: lo :: rest, i, bytes, h => by
    obtain ⟨x, y, tail, hx, hy, hrest, rfl⟩ := decodeHexPairs_cons_ok.1 h
    obtain ⟨hall, hlen⟩ := decodeHexPairs_ok hrest
    refine ⟨?_, by simp [hlen]; omega⟩
    simp only [List.forall_mem_cons, hx, hy]
    exact ⟨rfl, rfl, hall⟩

theorem utf8Bytes_of_ascii : ∀ {s : List Char}, (∀ c ∈ s, c.toNat < 128) → utf8Bytes s = s
  | [], _ => rfl
  | c :: s, h => by
    have ih := utf8Bytes_of_ascii fun d hd => h d (List.mem_cons_of_mem c hd)
    have hc : c.toNat < 128 := h c (List.mem_cons_self ..)
    have hbyte : (UInt8.ofNat c.toNat).toNat = c.toNat := by
      rw [UInt8.toNat_ofNat']
      omega
    unfold utf8Bytes at ih ⊢
    rw [List.flatMap_cons, ih, String.utf8EncodeChar, if_pos (show c.val.toNat ≤ 0x7f from Nat.le_of_lt_succ hc)]
    show Char.ofNat (UInt8.ofNat c.toNat).toNat :: s = c :: s
    rw [hbyte, Char.ofNat_toNat]

/-- The first byte of a character beyond ASCII is beyond it too. -/
theorem ascii_of_utf8Bytes {s : List Char} (h : ∀ b ∈ utf8Bytes s, b.toNat < 128) : ∀ c ∈ s, c.toNat < 128 := by
  intro c hc
  by_contra hge
  have hbig : ¬c.val.toNat ≤ 0x7f := fun hle => hge (Nat.lt_succ_of_le hle)
  have hfirst : ∃ b ∈ String.utf8EncodeChar c, 128 ≤ b.toNat := by
    unfold String.utf8EncodeChar
    dsimp only
    rw [if_neg hbig]
    split
    · refine ⟨_, List.mem_cons_self .., ?_⟩
      rw [UInt8.toNat_ofNat']
      omega
    · split
      · refine ⟨_, List.mem_cons_self .., ?_⟩
        rw [UInt8.toNat_ofNat']
        omega
      · refine ⟨_, List.mem_cons_self .., ?_⟩
        rw [UInt8.toNat_ofNat']
        omega
  obtain ⟨b, hb, hle⟩ := hfirst
  have hlt := h (Char.ofNat b.toNat) (List.mem_flatMap.2 ⟨c, hc, List.mem_map_of_mem hb⟩)
  have hb256 : b.toNat < 256 := b.toNat_lt
  have hsame : (Char.ofNat b.toNat).toNat = b.toNat := by
    unfold Char.ofNat
    rw [dif_pos (Or.inl (by omega))]
    rfl
  rw [hsame] at hlt
  omega

theorem hexDigit_ascii {c : Char} (h : (hexDigit c).isSome = true) : c.toNat < 128 := by
  by_contra hge
  have hnone : hexDigit c = none := by
    unfold hexDigit
    simp only [Char.le_def, UInt32.le_iff_toNat_le]
    have h9 : ('9').val.toNat = 57 := rfl
    have hf : ('f').val.toNat = 102 := rfl
    have hF : ('F').val.toNat = 70 := rfl
    have hc : c.val.toNat = c.toNat := rfl
    rw [if_neg (by omega), if_neg (by omega), if_neg (by omega)]
  rw [hnone] at h
  cases h

/-- Hex digits are their own bytes. -/
theorem decodeHex_ok_iff {s : List Char} {bytes : List Nat} : decodeHex s = .ok bytes ↔ decodeHexPairs 0 s = .ok bytes := by
  unfold decodeHex
  dsimp only
  constructor
  · intro h
    split at h
    · cases h
    · obtain ⟨hdigits, -⟩ := decodeHexPairs_ok h
      have hascii := ascii_of_utf8Bytes fun b hb => hexDigit_ascii (hdigits b hb)
      rwa [utf8Bytes_of_ascii hascii] at h
  · intro h
    obtain ⟨hdigits, hlen⟩ := decodeHexPairs_ok h
    rw [utf8Bytes_of_ascii fun c hc => hexDigit_ascii (hdigits c hc), if_neg (by omega)]
    exact h

theorem decodeHex_encodeHex {bytes : List Nat} (h : ∀ b ∈ bytes, b < 256) : decodeHex (encodeHex bytes) = .ok bytes :=
  decodeHex_ok_iff.2 (decodeHexPairs_encodeHex 0 h)

theorem decodeHex_lt {s : List Char} {bytes : List Nat} (h : decodeHex s = .ok bytes) : ∀ b ∈ bytes, b < 256 :=
  decodeHexPairs_lt (decodeHex_ok_iff.1 h)

/-- No hex digits begin with a prefix. -/
theorem decodeHex_prefixed (rest : List Char) : ∀ bytes, decodeHex ('0' :: 'x' :: rest) ≠ .ok bytes := by
  intro bytes h
  cases decodeHex_ok_iff.1 h

/-! ## Prefixes -/

/-- The prefix occurs twice. -/
def RepeatedPrefix (s : List Char) : Prop := ∃ rest, s = '0' :: 'x' :: '0' :: 'x' :: rest

theorem trimHexPrefix_of_decodeHex {s : List Char} {bytes : List Nat} (h : decodeHex s = .ok bytes) :
    trimHexPrefix s = s := by
  unfold trimHexPrefix
  split
  · exact absurd h (decodeHex_prefixed _ bytes)
  · rfl

theorem stripHexPrefix_cases (s : List Char) :
    (∃ rest, s = '0' :: 'x' :: rest ∧ stripHexPrefix s = rest ∧ trimHexPrefix s = trimHexPrefix rest) ∨
    (stripHexPrefix s = s ∧ trimHexPrefix s = s) := by
  unfold stripHexPrefix
  split
  · exact .inl ⟨_, rfl, rfl, rfl⟩
  · rename_i h
    refine .inr ⟨rfl, ?_⟩
    unfold trimHexPrefix
    split
    · exact absurd rfl (h _)
    · rfl

/-- Dropping one prefix is dropping every one, unless the prefix is repeated. -/
theorem trimHexPrefix_eq {s : List Char} (h : ¬RepeatedPrefix s) : trimHexPrefix s = stripHexPrefix s := by
  rcases stripHexPrefix_cases s with ⟨rest, rfl, hs, ht⟩ | ⟨hs, ht⟩
  · rw [hs, ht]
    unfold trimHexPrefix
    split
    · exact absurd ⟨_, rfl⟩ h
    · rfl
  · rw [hs, ht]

theorem trimHexPrefix_encodeHex {bytes : List Nat} (h : ∀ b ∈ bytes, b < 256) :
    trimHexPrefix ('0' :: 'x' :: encodeHex bytes) = encodeHex bytes :=
  trimHexPrefix_of_decodeHex (decodeHex_encodeHex h)

/-! ## Decoding the denoted bytes -/

theorem byteBits_eq : ∀ n byte : Nat, byteBits n byte = bitsOf n byte
  | 0, _ => rfl
  | n + 1, byte => by
    have ih := byteBits_eq n (byte / 2)
    unfold byteBits at ih ⊢
    rw [List.range_succ_eq_map, List.map_cons, List.map_map, bitsOf, ← ih]
    have hshift : ∀ i, byte / 2 ^ (i + 1) = byte / 2 / 2 ^ i := by
      intro i
      rw [pow_succ', Nat.div_div_eq_div_mul]
    simp [Function.comp_def, hshift]

theorem decodeBitvector_iff {s : List Char} {bits : List Bool} :
    decodeBitvector s = .ok bits ↔ ∃ bytes, decodeHex (trimHexPrefix s) = .ok bytes ∧ bits = unpack bytes := by
  have hbits : byteBits 8 = bitsOf 8 := funext (byteBits_eq 8)
  unfold decodeBitvector unpack
  rw [hbits]
  cases decodeHex (trimHexPrefix s) with
  | error e => simp
  | ok bytes =>
    constructor
    · intro h
      cases h
      exact ⟨bytes, rfl, rfl⟩
    · rintro ⟨_, h, rfl⟩
      cases h
      rfl

theorem decodeBitlist_iff {s : List Char} {bits : List Bool} :
    decodeBitlist s = .ok bits ↔ decodeHex (trimHexPrefix s) = .ok (encodeBitlist bits) := by
  have hbits : byteBits 8 = bitsOf 8 := funext (byteBits_eq 8)
  unfold decodeBitlist
  cases hs : decodeHex (trimHexPrefix s) with
  | error e => simp
  | ok bytes =>
    simp only [Except.ok.injEq]
    rw [encodeBitlist_iff (decodeHex_lt hs)]
    cases bytes.getLast? with
    | none => simp
    | some last =>
      by_cases h0 : last = 0
      · simp [h0]
      · rw [hbits]
        simp only [h0, if_false, byteBits_eq, Except.ok.injEq, Option.some.injEq, exists_eq_left', ne_eq, not_false_iff,
          true_and, unpack]
        exact eq_comm

theorem decodeSyncCommitteeBits_iff {spec : ChainSpec} {s : List Char} {bits : List Bool} :
    decodeSyncCommitteeBits spec s = .ok bits ↔ decodeBitvector s = .ok bits ∧ bits.length = spec.syncCommitteeSize := by
  unfold decodeSyncCommitteeBits
  cases decodeBitvector s with
  | error e => simp
  | ok bits' =>
    by_cases hl : bits'.length = spec.syncCommitteeSize
    · simp only [if_pos hl, Except.ok.injEq]
      constructor
      · rintro rfl
        exact ⟨rfl, hl⟩
      · exact fun h => h.1
    · simp only [if_neg hl, Except.ok.injEq]
      constructor
      · intro h
        cases h
      · rintro ⟨rfl, h⟩
        exact absurd h hl

/-! ## Strings -/

/-- The string is decoded as the bytes after its optional prefix say, and rejected where they are not an encoding. -/
structure DecodesExactly (spec : ChainSpec) (s : List Char) : Prop where
  bitlist : ∀ bits, decodeBitlist s = .ok bits ↔ decodeHex (stripHexPrefix s) = .ok (encodeBitlist bits)
  rejected : (∃ e, decodeBitlist s = .error e) ↔ (∃ e, decodeHex (stripHexPrefix s) = .error e) ∨
    decodeHex (stripHexPrefix s) = .ok [] ∨ ∃ bytes, decodeHex (stripHexPrefix s) = .ok bytes ∧ bytes.getLast? = some 0
  bitvector : ∀ bits, decodeBitvector s = .ok bits ↔
    ∃ bytes, decodeHex (stripHexPrefix s) = .ok bytes ∧ bits = unpack bytes
  sync : ∀ bits, decodeSyncCommitteeBits spec s = .ok bits ↔
    bits.length = spec.syncCommitteeSize ∧ ∃ bytes, decodeHex (stripHexPrefix s) = .ok bytes ∧ bits = unpack bytes

/-- A string is rejected for its hex, for having no byte, or for a zero last byte. -/
theorem decodeBitlist_error_iff {s : List Char} : (∃ e, decodeBitlist s = .error e) ↔
    (∃ e, decodeHex (trimHexPrefix s) = .error e) ∨ decodeHex (trimHexPrefix s) = .ok [] ∨
      ∃ bytes, decodeHex (trimHexPrefix s) = .ok bytes ∧ bytes.getLast? = some 0 := by
  unfold decodeBitlist
  cases hs : decodeHex (trimHexPrefix s) with
  | error e => simp
  | ok bytes =>
    simp only [Except.ok.injEq, reduceCtorEq, exists_false, false_or, exists_eq_left', ← List.getLast?_eq_none_iff]
    cases bytes.getLast? with
    | none => simp
    | some last => by_cases h0 : last = 0 <;> simp [h0]

theorem decodesExactly_of_trim {spec : ChainSpec} {s : List Char} (h : trimHexPrefix s = stripHexPrefix s) :
    DecodesExactly spec s := by
  constructor
  · intro bits
    rw [decodeBitlist_iff, h]
  · rw [decodeBitlist_error_iff, h]
  · intro bits
    rw [decodeBitvector_iff, h]
  · intro bits
    rw [decodeSyncCommitteeBits_iff, decodeBitvector_iff, h]
    exact and_comm

/-- Where neither reading of the prefix leaves hex, everything is rejected. -/
theorem decodesExactly_of_error {spec : ChainSpec} {s : List Char} {e e' : HexError}
    (ht : decodeHex (trimHexPrefix s) = .error e) (hs : decodeHex (stripHexPrefix s) = .error e') : DecodesExactly spec s := by
  constructor
  · intro bits
    rw [decodeBitlist_iff, ht, hs]
    simp
  · rw [decodeBitlist_error_iff, ht, hs]
    simp
  · intro bits
    rw [decodeBitvector_iff, ht, hs]
    simp
  · intro bits
    rw [decodeSyncCommitteeBits_iff, decodeBitvector_iff, ht, hs]
    simp

/-- Decoding inverts encoding, bitvectors of whole bytes and bit sequences correspond, and a string is decoded as
the bytes after its prefix, unless it repeats the prefix in front of hex. -/
theorem bits_decode_encode (spec : ChainSpec) :
    (∀ bits, decodeBitlist ('0' :: 'x' :: encodeHex (encodeBitlist bits)) = .ok bits) ∧
    (∀ s s' bits, decodeBitlist s = .ok bits → decodeBitlist s' = .ok bits →
      decodeHex (trimHexPrefix s) = decodeHex (trimHexPrefix s')) ∧
    (∀ bytes, (∀ b ∈ bytes, b < 256) →
      ∃ bits, 8 ∣ bits.length ∧ decodeBitvector ('0' :: 'x' :: encodeHex bytes) = .ok bits) ∧
    (∀ bits, 8 ∣ bits.length → ∃! bytes : List Nat,
      (∀ b ∈ bytes, b < 256) ∧ decodeBitvector ('0' :: 'x' :: encodeHex bytes) = .ok bits) ∧
    ∀ s, DecodesExactly spec s ↔ ¬(RepeatedPrefix s ∧ ∃ bytes, decodeHex (trimHexPrefix s) = .ok bytes) := by
  have hvector : ∀ {bytes bits}, (∀ b ∈ bytes, b < 256) →
      (decodeBitvector ('0' :: 'x' :: encodeHex bytes) = .ok bits ↔ unpack bytes = bits) := by
    intro bytes bits hb
    rw [decodeBitvector_iff, trimHexPrefix_encodeHex hb, decodeHex_encodeHex hb]
    simp [eq_comm]
  refine ⟨fun bits => ?_, fun s s' bits h h' => ?_, fun bytes hb => ?_, fun bits h8 => ?_, fun s => ?_⟩
  · rw [decodeBitlist_iff, trimHexPrefix_encodeHex (encodeBitlist_lt bits), decodeHex_encodeHex (encodeBitlist_lt bits)]
  · rw [decodeBitlist_iff.1 h, decodeBitlist_iff.1 h']
  · exact ⟨unpack bytes, by simp, (hvector hb).2 rfl⟩
  · obtain ⟨bytes, ⟨hb, hbits⟩, huniq⟩ := existsUnique_unpack h8
    refine ⟨bytes, ⟨hb, (hvector hb).2 hbits⟩, ?_⟩
    rintro bytes' ⟨hb', hbits'⟩
    exact huniq bytes' ⟨hb', (hvector hb').1 hbits'⟩
  constructor
  · rintro h ⟨⟨rest, rfl⟩, bytes, hbytes⟩
    -- the decoder accepts what is not hex after one prefix
    have hvec := decodeBitvector_iff.2 ⟨bytes, hbytes, rfl⟩
    obtain ⟨bytes', hstrip, -⟩ := (h.bitvector _).1 hvec
    exact decodeHex_prefixed rest bytes' hstrip
  · intro h
    by_cases hrep : RepeatedPrefix s
    · cases ht : decodeHex (trimHexPrefix s) with
      | ok bytes => exact absurd ⟨hrep, bytes, ht⟩ h
      | error e =>
        obtain ⟨rest, rfl⟩ := hrep
        cases hs : decodeHex (stripHexPrefix ('0' :: 'x' :: '0' :: 'x' :: rest)) with
        | ok bytes => exact absurd hs (decodeHex_prefixed rest bytes)
        | error e' => exact decodesExactly_of_error ht hs
    · exact decodesExactly_of_trim (trimHexPrefix_eq hrep)

theorem bits_decode_encode_nineBits : ∃ bits : List Bool, bits.length = 9 ∧
    encodeBitlist bits = [255, 3] ∧ decodeBitlist ['0', 'x', 'f', 'f', '0', '3'] = .ok bits ∧
    DecodesExactly ⟨32, 512, 64, 0, by decide⟩ ['0', 'x', 'f', 'f', '0', '3'] := by
  have h := bits_decode_encode ⟨32, 512, 64, 0, by decide⟩
  refine ⟨List.replicate 9 true, rfl, rfl, h.1 (List.replicate 9 true), (h.2.2.2.2 _).2 ?_⟩
  rintro ⟨⟨rest, hrest⟩, -⟩
  cases hrest

/-- Two prefixes are dropped, although what follows the first one is not hex. -/
theorem repeated_prefix_decoded : decodeBitlist ['0', 'x', '0', 'x', '0', 'B'] = .ok [true, true, false] ∧
    (∀ bytes, decodeHex (stripHexPrefix ['0', 'x', '0', 'x', '0', 'B']) ≠ .ok bytes) ∧
    ¬DecodesExactly ⟨32, 512, 64, 0, by decide⟩ ['0', 'x', '0', 'x', '0', 'B'] := by
  have hstrip : ∀ bytes, decodeHex (stripHexPrefix ['0', 'x', '0', 'x', '0', 'B']) ≠ .ok bytes := decodeHex_prefixed _
  exact ⟨rfl, hstrip, fun h => hstrip _ ((h.bitlist _).1 rfl)⟩

end BeaconIndexer
