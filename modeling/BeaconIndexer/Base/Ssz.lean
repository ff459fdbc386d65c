/-
Bit sequences as bytes: least significant bit first, eight to a byte. A bitvector fills its bytes,
a bitlist ends with one set bit after its last one.
-/
import Mathlib.Data.List.Basic
import Mathlib.Tactic

namespace Ssz

/-! ## One byte -/

/-- The number with these bits, least significant first. -/
def byteOf : List Bool → Nat
  | [] => 0
  | b :: bits => b.toNat + 2 * byteOf bits

/-- The lowest `n` bits of a number, least significant first. -/
def bitsOf : (n byte : Nat) → List Bool
  | 0, _ => []
  | n + 1, byte => (byte % 2 == 1) :: bitsOf n (byte / 2)

@[simp]
theorem bitsOf_length : ∀ n byte : Nat, (bitsOf n byte).length = n
  | 0, _ => rfl
  | n + 1, byte => by simp [bitsOf, bitsOf_length n]

theorem byteOf_lt : ∀ bits : List Bool, byteOf bits < 2 ^ bits.length
  | [] => by simp [byteOf]
  | b :: bits => by
    have ih := byteOf_lt bits
    have hb : b.toNat ≤ 1 := Bool.toNat_le b
    simp only [byteOf, List.length_cons, pow_succ]
    omega

theorem bitsOf_byteOf : ∀ bits : List Bool, bitsOf bits.length (byteOf bits) = bits
  | [] => rfl
  | b :: bits => by
    have hdiv : (b.toNat + 2 * byteOf bits) / 2 = byteOf bits := by
      have hb : b.toNat ≤ 1 := Bool.toNat_le b
      omega
    have hmod : ((b.toNat + 2 * byteOf bits) % 2 == 1) = b := by
      cases b <;> simp
    simp only [byteOf, List.length_cons, bitsOf, hdiv, hmod, bitsOf_byteOf bits]

theorem byteOf_bitsOf : ∀ {n byte : Nat}, byte < 2 ^ n → byteOf (bitsOf n byte) = byte
  | 0, byte, h => by simp only [bitsOf, byteOf]; omega
  | n + 1, byte, h => by
    have hlt : byte / 2 < 2 ^ n := by rw [pow_succ] at h; omega
    have hbit : (byte % 2 == 1).toNat = byte % 2 := by
      rcases Nat.mod_two_eq_zero_or_one byte with h | h <;> rw [h] <;> rfl
    simp only [bitsOf, byteOf, byteOf_bitsOf hlt, hbit]
    omega

/-- A set bit on top of the others. -/
theorem byteOf_concat_true : ∀ bits : List Bool, byteOf (bits ++ [true]) = byteOf bits + 2 ^ bits.length
  | [] => rfl
  | b :: bits => by
    simp only [List.cons_append, byteOf, byteOf_concat_true bits, List.length_cons, pow_succ]
    omega

/-- The bits below the top one do not see it. -/
theorem bitsOf_add_pow : ∀ n byte : Nat, bitsOf n (byte + 2 ^ n) = bitsOf n byte
  | 0, _ => rfl
  | n + 1, byte => by
    have hdiv : (byte + 2 ^ (n + 1)) / 2 = byte / 2 + 2 ^ n := by rw [pow_succ]; omega
    have hmod : (byte + 2 ^ (n + 1)) % 2 = byte % 2 := by rw [pow_succ]; omega
    simp only [bitsOf, hdiv, hmod, bitsOf_add_pow n]

/-- The top set bit is the one put there. -/
theorem log2_concat_true (bits : List Bool) : (byteOf (bits ++ [true])).log2 = bits.length := by
  have hlt := byteOf_lt bits
  have hpos : 0 < 2 ^ bits.length := Nat.two_pow_pos _
  rw [byteOf_concat_true, Nat.log2_eq_iff (by omega)]
  constructor
  · omega
  · rw [pow_succ]
    omega

/-- A number that is not 0 is its bits below the top one, and that one. -/
theorem byteOf_log2 {byte : Nat} (h : byte ≠ 0) : byteOf (bitsOf byte.log2 byte ++ [true]) = byte := by
  obtain ⟨hle, hlt⟩ := (Nat.log2_eq_iff h).1 rfl
  have hsplit : byte = (byte - 2 ^ byte.log2) + 2 ^ byte.log2 := by omega
  have hrest : byte - 2 ^ byte.log2 < 2 ^ byte.log2 := by
    rw [pow_succ] at hlt
    omega
  have hbits : bitsOf byte.log2 byte = bitsOf byte.log2 (byte - 2 ^ byte.log2) := by
    conv_lhs => arg 2; rw [hsplit]
    exact bitsOf_add_pow _ _
  rw [byteOf_concat_true, bitsOf_length, hbits, byteOf_bitsOf hrest]
  omega

/-! ## Byte strings -/

/-- `n` bytes from the front of a bit sequence; missing bits are 0. -/
def pack : (n : Nat) → List Bool → List Nat
  | 0, _ => []
  | n + 1, bits => byteOf (bits.take 8) :: pack n (bits.drop 8)

def unpack (bytes : List Nat) : List Bool := bytes.flatMap (bitsOf 8)

@[simp]
theorem unpack_length : ∀ bytes : List Nat, (unpack bytes).length = 8 * bytes.length
  | [] => rfl
  | b :: bytes => by
    have ih := unpack_length bytes
    unfold unpack at ih ⊢
    rw [List.flatMap_cons, List.length_append, ih, bitsOf_length, List.length_cons]
    omega

theorem pack_append : ∀ (n m : Nat) {front : List Bool} (rest : List Bool), front.length = 8 * n →
    pack (n + m) (front ++ rest) = pack n front ++ pack m rest
  | 0, m, front, rest, h => by
    obtain rfl : front = [] := List.eq_nil_of_length_eq_zero (by omega)
    simp [pack]
  | n + 1, m, front, rest, h => by
    rw [show n + 1 + m = (n + m) + 1 by omega]
    have htake : (front ++ rest).take 8 = front.take 8 := List.take_append_of_le_length (by omega)
    have hdrop : (front ++ rest).drop 8 = front.drop 8 ++ rest := List.drop_append_of_le_length (by omega)
    simp only [pack, htake, hdrop, List.cons_append]
    rw [pack_append n m rest (by simp; omega)]

theorem unpack_pack : ∀ (n : Nat) {bits : List Bool}, bits.length = 8 * n → unpack (pack n bits) = bits
  | 0, bits, h => by
    obtain rfl : bits = [] := List.eq_nil_of_length_eq_zero (by omega)
    rfl
  | n + 1, bits, h => by
    have hlen : (bits.take 8).length = 8 := by simp; omega
    have hbyte := bitsOf_byteOf (bits.take 8)
    rw [hlen] at hbyte
    have ih := unpack_pack n (show (bits.drop 8).length = 8 * n by simp; omega)
    unfold unpack at ih ⊢
    rw [pack, List.flatMap_cons, ih, hbyte, List.take_append_drop]

theorem pack_unpack : ∀ {bytes : List Nat}, (∀ b ∈ bytes, b < 256) → pack bytes.length (unpack bytes) = bytes
  | [], _ => rfl
  | b :: bytes, h => by
    have hb : byteOf (bitsOf 8 b) = b := byteOf_bitsOf (h b (List.mem_cons_self ..))
    have ih := pack_unpack fun x hx => h x (List.mem_cons_of_mem b hx)
    unfold unpack at ih ⊢
    rw [List.flatMap_cons, List.length_cons, pack]
    rw [List.take_left' (bitsOf_length 8 b), List.drop_left' (bitsOf_length 8 b), hb, ih]

theorem pack_lt : ∀ (n : Nat) (bits : List Bool), ∀ b ∈ pack n bits, b < 256
  | n + 1, bits, b, hb => by
    rcases List.mem_cons.1 hb with rfl | hb
    · have hlt := byteOf_lt (bits.take 8)
      have hlen : (bits.take 8).length ≤ 8 := by simp
      exact lt_of_lt_of_le hlt (Nat.pow_le_pow_right (by decide) hlen)
    · exact pack_lt n _ b hb

/-! ## Bitlists -/

/-- The bits and the set bit after the last one. -/
def encodeBitlist (bits : List Bool) : List Nat := pack (bits.length / 8 + 1) (bits ++ [true])

theorem encodeBitlist_lt (bits : List Bool) : ∀ b ∈ encodeBitlist bits, b < 256 := pack_lt _ _

/-- Full bytes, and a last byte that holds the remaining bits and the closing one. -/
theorem encodeBitlist_append {front rest : List Bool} {n : Nat} (hf : front.length = 8 * n) (hr : rest.length < 8) :
    encodeBitlist (front ++ rest) = pack n front ++ [byteOf (rest ++ [true])] := by
  have hn : (front ++ rest).length / 8 + 1 = n + 1 := by
    rw [List.length_append, hf]
    omega
  unfold encodeBitlist
  rw [hn, List.append_assoc, pack_append n 1 _ hf]
  simp only [pack]
  rw [List.take_of_length_le (by simp; omega)]

/-- A byte string encodes the bits below the top set bit of its last byte. -/
theorem encodeBitlist_iff {bytes : List Nat} (hb : ∀ b ∈ bytes, b < 256) (bits : List Bool) :
    bytes = encodeBitlist bits ↔ ∃ last, bytes.getLast? = some last ∧ last ≠ 0 ∧
      bits = unpack bytes.dropLast ++ bitsOf last.log2 last := by
  constructor
  · rintro rfl
    have hsplit := List.take_append_drop (8 * (bits.length / 8)) bits
    have hfront : (bits.take (8 * (bits.length / 8))).length = 8 * (bits.length / 8) := by simp; omega
    have hrest : (bits.drop (8 * (bits.length / 8))).length < 8 := by simp; omega
    have henc := encodeBitlist_append hfront hrest
    rw [hsplit] at henc
    refine ⟨_, by rw [henc, List.getLast?_concat], ?_, ?_⟩
    · rw [byteOf_concat_true]
      have := Nat.two_pow_pos (bits.drop (8 * (bits.length / 8))).length
      omega
    · rw [henc, List.dropLast_concat, unpack_pack _ hfront, log2_concat_true, byteOf_concat_true, bitsOf_add_pow,
        bitsOf_byteOf, hsplit]
  · rintro ⟨last, hlast, hne, rfl⟩
    obtain ⟨front, rfl⟩ := List.getLast?_eq_some_iff.1 hlast
    have hlt : last < 2 ^ 8 := hb last (by simp)
    have hlog : last.log2 < 8 := (Nat.log2_lt hne).2 hlt
    rw [List.dropLast_concat, encodeBitlist_append (unpack_length front) (by rw [bitsOf_length]; exact hlog),
      pack_unpack fun b hm => hb b (by simp [hm]), byteOf_log2 hne]

/-! ## Bitvectors -/

/-- Whole bytes and bit sequences of whole bytes correspond to each other. -/
theorem existsUnique_unpack {bits : List Bool} (h : 8 ∣ bits.length) :
    ∃! bytes : List Nat, (∀ b ∈ bytes, b < 256) ∧ unpack bytes = bits := by
  obtain ⟨n, hn⟩ := h
  refine ⟨pack n bits, ⟨pack_lt n bits, unpack_pack n hn⟩, ?_⟩
  rintro bytes ⟨hb, rfl⟩
  have hlen : n = bytes.length := by
    rw [unpack_length] at hn
    omega
  rw [hlen, pack_unpack hb]

end Ssz
