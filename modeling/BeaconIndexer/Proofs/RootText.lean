/-
The text of a root is a canonical form: two spellings are read as one root exactly when they denote the same
32 bytes, and a root and a block id are read back from their own text.
-/
import BeaconIndexer.Beacon.Text
import BeaconIndexer.Beacon.Types
import BeaconIndexer.Scanner.Ssz

namespace BeaconIndexer.Text

/-! ## Trimming -/

theorem trim_of_ends {s m pre post : List Char} (hs : s = pre ++ (m ++ post)) (hpre : ∀ c ∈ pre, isWhitespace c = true)
    (hpost : ∀ c ∈ post, isWhitespace c = true) (hm : m ≠ []) (hhead : isWhitespace (m.head hm) = false)
    (hlast : isWhitespace (m.getLast hm) = false) : trim s = m := by
  subst hs
  unfold trim
  have hfront : (pre ++ (m ++ post)).dropWhile isWhitespace = m ++ post := by
    rw [List.dropWhile_append_of_pos hpre]
    cases m with
    | nil => exact absurd rfl hm
    | cons c m => exact List.dropWhile_cons_of_neg (by simpa using hhead)
  rw [hfront]
  unfold List.rdropWhile
  rw [List.reverse_append, List.dropWhile_append_of_pos (by simpa using hpost)]
  have hrev : m.reverse ≠ [] := by simpa using hm
  have hkeep : m.reverse.dropWhile isWhitespace = m.reverse := by
    rw [List.dropWhile_eq_self_iff]
    intro hpos
    have hfirst : m.reverse[0] = m.getLast hm := by
      rw [← List.head_eq_getElem hrev, List.head_reverse]
    simpa [hfirst] using hlast
  rw [hkeep, List.reverse_reverse]

/-- A string is its trimmed middle between whitespace. -/
theorem trim_split (s : List Char) : ∃ pre post, s = pre ++ (trim s ++ post) ∧ (∀ c ∈ pre, isWhitespace c = true) ∧
    ∀ c ∈ post, isWhitespace c = true := by
  refine ⟨s.takeWhile isWhitespace, (s.dropWhile isWhitespace).rtakeWhile isWhitespace, ?_, fun c hc => List.mem_takeWhile_imp hc, fun c hc => ?_⟩
  · unfold trim
    rw [List.rdropWhile_append_rtakeWhile, List.takeWhile_append_dropWhile]
  · exact List.mem_rtakeWhile_imp hc

/-! ## Hex digits -/

/-- The characters that denote a digit. -/
def hexDigits : List Char := ['0', '1', '2', '3', '4', '5', '6', '7', '8', '9', 'a', 'b', 'c', 'd', 'e', 'f', 'A', 'B', 'C', 'D', 'E', 'F']

theorem mem_hexDigits {c : Char} (h : isAsciiHexdigit c = true) : c ∈ hexDigits := by
  have hc : c = Char.ofNat c.toNat := (Char.ofNat_toNat c).symm
  have hrange : (48 ≤ c.toNat ∧ c.toNat ≤ 57) ∨ (97 ≤ c.toNat ∧ c.toNat ≤ 102) ∨ (65 ≤ c.toNat ∧ c.toNat ≤ 70) := by
    unfold isAsciiHexdigit hexDigit at h
    simp only [Char.le_def, UInt32.le_iff_toNat_le] at h
    split at h
    · rename_i hd
      exact .inl hd
    · split at h
      · rename_i hd
        exact .inr (.inl hd)
      · split at h
        · rename_i hd
          exact .inr (.inr hd)
        · cases h
  generalize c.toNat = n at hc hrange
  subst hc
  rcases hrange with ⟨hlo, hhi⟩ | ⟨hlo, hhi⟩ | ⟨hlo, hhi⟩
  · interval_cases n <;> decide
  · interval_cases n <;> decide
  · interval_cases n <;> decide

theorem isWhitespace_hexDigit {c : Char} (h : isAsciiHexdigit c = true) : isWhitespace c = false := by
  have hall : (hexDigits.all fun c => !isWhitespace c) = true := by rfl
  simpa using List.all_eq_true.1 hall c (mem_hexDigits h)

/-- Lowering the case of a digit gives the digit that the encoder writes for its value. -/
theorem toLower_hexDigit {c : Char} {d : Nat} (h : hexDigit c = some d) : c.toLower = hexChar d := by
  have hall : (hexDigits.all fun c => (hexDigit c).map hexChar == some c.toLower) = true := by rfl
  have hc := List.all_eq_true.1 hall c (mem_hexDigits (by rw [isAsciiHexdigit, h]; rfl))
  rw [h, beq_iff_eq] at hc
  exact (Option.some.inj hc).symm

theorem decodeHexPairs_digits : ∀ {s : List Char} {i : Nat}, s.length % 2 = 0 → (∀ c ∈ s, isAsciiHexdigit c = true) →
    ∃ bytes, decodeHexPairs i s = .ok bytes ∧ s.map Char.toLower = encodeHex bytes
  | [], _, _, _ => ⟨[], rfl, rfl⟩
  | [_], _, h, _ => by simp at h
  | hi :: lo :: rest, i, hlen, hall => by
    obtain ⟨x, hx⟩ := Option.isSome_iff_exists.1 (hall hi (by simp))
    obtain ⟨y, hy⟩ := Option.isSome_iff_exists.1 (hall lo (by simp))
    obtain ⟨bytes, hbytes, hlower⟩ := decodeHexPairs_digits (i := i + 2) (s := rest) (by simp at hlen; omega)
      fun c hc => hall c (by simp [hc])
    refine ⟨(16 * x + y) :: bytes, decodeHexPairs_cons_ok.2 ⟨x, y, bytes, hx, hy, hbytes, rfl⟩, ?_⟩
    have hlow : (16 * x + y) / 16 = x ∧ (16 * x + y) % 16 = y := by
      have := hexDigit_lt hy
      omega
    unfold encodeHex at hlower ⊢
    rw [List.flatMap_cons, ← hlower, hlow.1, hlow.2]
    simp [toLower_hexDigit hx, toLower_hexDigit hy]

theorem decodeHex_iff_digits {s : List Char} : (∃ bytes, decodeHex s = .ok bytes ∧ bytes.length = 32) ↔
    s.length = 64 ∧ s.all isAsciiHexdigit = true := by
  constructor
  · rintro ⟨bytes, hs, hlen⟩
    obtain ⟨hall, hdigits⟩ := decodeHexPairs_ok (decodeHex_ok_iff.1 hs)
    exact ⟨by omega, List.all_eq_true.2 hall⟩
  · rintro ⟨hlen, hall⟩
    obtain ⟨bytes, hs, -⟩ := decodeHexPairs_digits (i := 0) (by omega) (List.all_eq_true.1 hall)
    obtain ⟨-, hdigits⟩ := decodeHexPairs_ok hs
    exact ⟨bytes, decodeHex_ok_iff.2 hs, by omega⟩

theorem lower_of_decodeHex {s : List Char} {bytes : List Nat} (h : decodeHex s = .ok bytes) :
    s.map Char.toLower = encodeHex bytes := by
  have hpairs := decodeHex_ok_iff.1 h
  obtain ⟨hall, hlen⟩ := decodeHexPairs_ok hpairs
  obtain ⟨bytes', h', hlower⟩ := decodeHexPairs_digits (i := 0) (by omega) hall
  rw [hpairs] at h'
  cases h'
  exact hlower

/-! ## What a spelling denotes -/

/-- A spelling of 32 bytes: hex digits of either case behind `0x` or `0X`, between whitespace. -/
def Denotes (s : List Char) (bytes : List Nat) : Prop :=
  ∃ pre p digits post, s = pre ++ ('0' :: p :: digits ++ post) ∧ (∀ c ∈ pre, isWhitespace c = true) ∧
    (∀ c ∈ post, isWhitespace c = true) ∧ (p = 'x' ∨ p = 'X') ∧ decodeHex digits = .ok bytes ∧ bytes.length = 32

/-- The canonical spelling. -/
def rootChars (bytes : List Nat) : List Char := '0' :: 'x' :: encodeHex bytes

theorem rootChars_injective {a b : List Nat} (ha : ∀ x ∈ a, x < 256) (hb : ∀ x ∈ b, x < 256)
    (h : rootChars a = rootChars b) : a = b := by
  have hcodes : encodeHex a = encodeHex b := by simpa [rootChars] using h
  have hdecode := decodeHex_encodeHex ha
  rw [hcodes, decodeHex_encodeHex hb] at hdecode
  cases hdecode
  rfl

theorem Denotes.lt {s : List Char} {bytes : List Nat} (h : Denotes s bytes) : ∀ b ∈ bytes, b < 256 := by
  obtain ⟨_, _, _, _, -, -, -, -, hdigits, -⟩ := h
  exact decodeHex_lt hdigits

theorem stripRootPrefix_some {s hex : List Char} (h : stripRootPrefix s = some hex) :
    ∃ p, (p = 'x' ∨ p = 'X') ∧ s = '0' :: p :: hex := by
  unfold stripRootPrefix at h
  split at h
  · cases h
    exact ⟨'x', .inl rfl, rfl⟩
  · cases h
    exact ⟨'X', .inr rfl, rfl⟩
  · cases h

/-- A string is normalized exactly if it denotes 32 bytes, to their canonical spelling. -/
theorem normalize_iff {s t : List Char} :
    normalizePrefixedHexRoot s = some t ↔ ∃ bytes, Denotes s bytes ∧ t = rootChars bytes := by
  constructor
  · intro h
    unfold normalizePrefixedHexRoot at h
    split at h
    · cases h
    · rename_i hex hstrip
      split at h
      · cases h
      · rename_i hcheck
        cases h
        simp only [not_or, ne_eq, not_not, Bool.not_eq_true', Bool.not_eq_false] at hcheck
        obtain ⟨bytes, hbytes, hlen⟩ := decodeHex_iff_digits.2 hcheck
        obtain ⟨p, hp, htrim⟩ := stripRootPrefix_some hstrip
        obtain ⟨pre, post, hs, hpre, hpost⟩ := trim_split s
        rw [htrim] at hs
        exact ⟨bytes, ⟨pre, p, hex, post, hs, hpre, hpost, hp, hbytes, hlen⟩, by rw [lower_of_decodeHex hbytes]; rfl⟩
  · rintro ⟨bytes, ⟨pre, p, digits, post, hs, hpre, hpost, hp, hbytes, hlen⟩, rfl⟩
    obtain ⟨hdigits, hall⟩ := decodeHex_iff_digits.1 ⟨bytes, hbytes, hlen⟩
    have htrim : trim s = '0' :: p :: digits := by
      refine trim_of_ends hs hpre hpost (by simp) (by rfl) ?_
      have hne : digits ≠ [] := by
        rintro rfl
        simp at hdigits
      rw [List.getLast_cons (by simp), List.getLast_cons hne]
      exact isWhitespace_hexDigit (List.all_eq_true.1 hall _ (List.getLast_mem hne))
    have hstrip : stripRootPrefix ('0' :: p :: digits) = some digits := by
      rcases hp with rfl | rfl
      · rfl
      · rfl
    unfold normalizePrefixedHexRoot
    rw [htrim, hstrip]
    simp only
    rw [if_neg (by simp [hdigits, hall]), lower_of_decodeHex hbytes]
    rfl

theorem Denotes.unique {s : List Char} {a b : List Nat} (ha : Denotes s a) (hb : Denotes s b) : a = b := by
  have h : some (rootChars a) = some (rootChars b) := (normalize_iff.2 ⟨a, ha, rfl⟩).symm.trans (normalize_iff.2 ⟨b, hb, rfl⟩)
  exact rootChars_injective ha.lt hb.lt (Option.some.inj h)

/-- Bytes are denoted by their canonical spelling. -/
theorem Denotes.canonical {s : List Char} {bytes : List Nat} (h : Denotes s bytes) : Denotes (rootChars bytes) bytes := by
  have hlen : bytes.length = 32 := by
    obtain ⟨_, _, _, _, -, -, -, -, -, hlen⟩ := h
    exact hlen
  exact ⟨[], 'x', encodeHex bytes, [], by simp [rootChars], by simp, by simp, .inl rfl, decodeHex_encodeHex h.lt, hlen⟩

/-! ## Roots -/

theorem Root.ext_text : ∀ {r r' : Root}, r.text = r'.text → r = r'
  | ⟨_, _⟩, ⟨_, _⟩, rfl => rfl

theorem parse_ok_iff {s : List Char} {r : Root} :
    Root.parse s = .ok r ↔ ∃ bytes, Denotes s bytes ∧ r.text = rootChars bytes := by
  have hparse : Root.parse s = .ok r ↔ normalizePrefixedHexRoot s = some r.text := by
    unfold Root.parse
    split
    · rename_i h
      simp [h]
    · rename_i text h
      constructor
      · intro heq
        cases heq
        exact h
      · intro heq
        exact congrArg Except.ok (Root.ext_text (Option.some.inj (h.symm.trans heq)))
  rw [hparse, normalize_iff]

/-- Two accepted strings give one root exactly when they denote the same bytes. -/
theorem parse_eq_iff {s t : List Char} {r r' : Root} (hs : Root.parse s = .ok r) (ht : Root.parse t = .ok r') :
    r = r' ↔ ∃ bytes, Denotes s bytes ∧ Denotes t bytes := by
  obtain ⟨a, ha, hr⟩ := parse_ok_iff.1 hs
  obtain ⟨b, hb, hr'⟩ := parse_ok_iff.1 ht
  constructor
  · rintro rfl
    have hab : a = b := rootChars_injective ha.lt hb.lt (hr.symm.trans hr')
    exact ⟨a, ha, hab ▸ hb⟩
  · rintro ⟨bytes, hs', ht'⟩
    rw [ha.unique hs'] at hr
    rw [hb.unique ht'] at hr'
    exact Root.ext_text (hr.trans hr'.symm)

/-- A root that is not the default one is read back from its own text. -/
theorem parse_text {r : Root} : Root.parse r.text = .ok r ↔ r ≠ Root.default := by
  constructor
  · rintro h rfl
    have hempty : Root.parse Root.default.text = .error ⟨[]⟩ := by decide
    rw [hempty] at h
    cases h
  · intro h
    rcases r.made with hnone | ⟨value, hvalue⟩
    · exact absurd (Root.ext_text hnone) h
    · obtain ⟨bytes, hbytes, htext⟩ := normalize_iff.1 hvalue
      refine parse_ok_iff.2 ⟨bytes, ?_, htext⟩
      rw [htext]
      exact hbytes.canonical

theorem parse_ne_default {s : List Char} {r : Root} (h : Root.parse s = .ok r) : r ≠ Root.default := by
  rintro rfl
  obtain ⟨bytes, -, htext⟩ := parse_ok_iff.1 h
  cases htext

/-! ### Roots as numbers -/

/-- The bytes of a root, most significant first, as the number that stands for it everywhere else. -/
def Root.identity (r : Root) : BeaconIndexer.Root :=
  ⟨((decodeHex (r.text.drop 2)).toOption.getD []).foldl (fun n b => 256 * n + b) 0⟩

theorem foldl_bytes_injective : ∀ {a b : List Nat}, a.length = b.length → (∀ x ∈ a, x < 256) → (∀ x ∈ b, x < 256) →
    ∀ {n m : Nat}, a.foldl (fun n b => 256 * n + b) n = b.foldl (fun n b => 256 * n + b) m → n = m ∧ a = b
  | [], [], _, _, _, _, _, h => ⟨h, rfl⟩
  | x :: a, y :: b, hlen, ha, hb, n, m, h => by
    rw [List.foldl_cons, List.foldl_cons] at h
    obtain ⟨hhead, htail⟩ := foldl_bytes_injective (by simpa using hlen) (fun z hz => ha z (List.mem_cons_of_mem _ hz))
      (fun z hz => hb z (List.mem_cons_of_mem _ hz)) h
    have hx := ha x (List.mem_cons_self ..)
    have hy := hb y (List.mem_cons_self ..)
    exact ⟨by omega, by rw [htail, show x = y by omega]⟩

/-- Roots are told apart by their numbers. -/
theorem identity_eq_iff {s t : List Char} {r r' : Root} (hs : Root.parse s = .ok r) (ht : Root.parse t = .ok r') :
    r.identity = r'.identity ↔ r = r' := by
  obtain ⟨a, ha, hr⟩ := parse_ok_iff.1 hs
  obtain ⟨b, hb, hr'⟩ := parse_ok_iff.1 ht
  have hlen : ∀ {s : List Char} {bytes : List Nat}, Denotes s bytes → bytes.length = 32 :=
    fun ⟨_, _, _, _, _, _, _, _, _, h⟩ => h
  have hvalue : ∀ {r : Root} {s : List Char} {bytes : List Nat}, Denotes s bytes → r.text = rootChars bytes →
      r.identity = ⟨bytes.foldl (fun n b => 256 * n + b) 0⟩ := by
    intro r s bytes hden htext
    unfold Root.identity
    rw [htext, rootChars, List.drop_succ_cons, List.drop_succ_cons, List.drop_zero, decodeHex_encodeHex hden.lt]
    rfl
  constructor
  · intro h
    rw [hvalue ha hr, hvalue hb hr'] at h
    have hsame := (foldl_bytes_injective ((hlen ha).trans (hlen hb).symm) ha.lt hb.lt (congrArg BeaconIndexer.Root.value h)).2
    exact Root.ext_text (by rw [hr, hr', hsame])
  · rintro rfl
    rfl

/-! ### The rows of `live_blocks` -/

theorem asU64_asI64 {n : Nat} (h : n < 2 ^ 64) : asU64 (asI64 n) = n := by
  unfold asU64 asI64
  split
  · omega
  · omega

/-- The roots of recorded blocks are read back as they were recorded. -/
theorem readBlocks_columns : ∀ {blocks : List (Nat × Root × Root)},
    (∀ b ∈ blocks, b.1 < 2 ^ 64 ∧ b.2.1 ≠ Root.default ∧ b.2.2 ≠ Root.default) →
    readBlocks (blocks.map fun b => blockColumns b.1 b.2.1 b.2.2) = .ok blocks
  | [], _ => rfl
  | (slot, root, parent) :: blocks, h => by
    obtain ⟨hslot, hroot, hparent⟩ := h _ (List.mem_cons_self ..)
    have ih := readBlocks_columns fun b hb => h b (List.mem_cons_of_mem _ hb)
    unfold readBlocks at ih ⊢
    rw [List.map_cons, List.mapM_cons, ih]
    simp only [blockColumns, parse_text.2 hroot, parse_text.2 hparent, asU64_asI64 hslot]
    rfl

/-! ## Block ids -/

namespace BlockId

theorem eqIgnoreAsciiCase_length {s t : List Char} (h : eqIgnoreAsciiCase s t = true) : s.length = t.length := by
  have hmap : s.map Char.toLower = t.map Char.toLower := by simpa [eqIgnoreAsciiCase] using h
  simpa using congrArg List.length hmap

theorem eqIgnoreAsciiCase_mem {s t : List Char} (h : eqIgnoreAsciiCase s t = true) {k : Char} (hk : k ∈ t) :
    ∃ c ∈ s, c.toLower = k.toLower := by
  have hmap : s.map Char.toLower = t.map Char.toLower := by simpa [eqIgnoreAsciiCase] using h
  have hmem : k.toLower ∈ s.map Char.toLower := by
    rw [hmap]
    exact List.mem_map_of_mem hk
  exact List.mem_map.1 hmem

theorem mem_unsignedDigits {s : List Char} {c : Char} (hc : c ∈ s) (hplus : c ≠ '+') : c ∈ unsignedDigits s := by
  unfold unsignedDigits
  split
  · rcases List.mem_cons.1 hc with h | h
    · exact absurd h hplus
    · exact h
  · exact hc

/-- A string with a character that is no digit is no slot. -/
theorem parseU64_none {s : List Char} {c : Char} (hc : c ∈ s) (hplus : c ≠ '+') (hdigit : c.isDigit = false) :
    parseU64 s = none := by
  unfold parseU64
  refine if_pos (.inr ?_)
  rw [Bool.not_eq_true', List.all_eq_false]
  exact ⟨c, mem_unsignedDigits hc hplus, by simp [hdigit]⟩

/-- A spelling of a root is read as that root, never as a keyword or a slot. -/
theorem tryFrom_of_parse {s : List Char} {r : Root} (h : Root.parse s = .ok r) : tryFrom s = .ok (.root r) := by
  obtain ⟨bytes, ⟨pre, p, digits, post, hs, -, -, hp, hbytes, hlen⟩, -⟩ := parse_ok_iff.1 h
  have hdigits := (decodeHex_iff_digits.1 ⟨bytes, hbytes, hlen⟩).1
  have hlong : 66 ≤ s.length := by
    rw [hs]
    simp
    omega
  have hkeyword : ∀ t : List Char, t.length < 66 → ¬eqIgnoreAsciiCase s t = true := by
    intro t ht heq
    have := eqIgnoreAsciiCase_length heq
    omega
  have hslot : parseU64 s = none := by
    have hmem : p ∈ s := by simp [hs]
    rcases hp with rfl | rfl
    · exact parseU64_none hmem (by decide) (by decide)
    · exact parseU64_none hmem (by decide) (by decide)
  unfold tryFrom
  rw [if_neg (hkeyword _ (by decide)), if_neg (hkeyword _ (by decide)), if_neg (hkeyword _ (by decide)), hslot, h]
  rfl

theorem toLower_of_isDigit {c : Char} (h : c.isDigit = true) : c.toLower = c := by
  unfold Char.toLower
  refine dif_neg fun hupper => ?_
  have h9 : c.val ≤ 57 := by simp [Char.isDigit] at h; exact h.2
  have hA : (65 : UInt32) ≤ c.val := hupper.1
  exact absurd (UInt32.le_trans hA h9) (by decide)

theorem toDigits_isDigit {n : Nat} : ∀ c ∈ Nat.toDigits 10 n, c.isDigit = true :=
  fun _ hc => Nat.isDigit_of_mem_toDigits (by decide) (by decide) hc

theorem parseU64_toDigits (n : UInt64) : parseU64 (Nat.toDigits 10 n.toNat) = some n := by
  have hplain : unsignedDigits (Nat.toDigits 10 n.toNat) = Nat.toDigits 10 n.toNat := by
    unfold unsignedDigits
    split
    · rename_i rest heq
      have hplus := toDigits_isDigit '+' (by rw [heq]; exact List.mem_cons_self ..)
      cases hplus
    · rfl
  unfold parseU64
  rw [hplain, if_neg, Nat.ofDigitChars_ten_toDigits, if_pos n.toNat_lt, UInt64.ofNat_toNat]
  rw [not_or]
  refine ⟨by simp [Nat.toDigits_ne_nil], ?_⟩
  rw [Bool.not_eq_true', Bool.not_eq_false, List.all_eq_true]
  exact toDigits_isDigit

theorem tryFrom_toDigits (n : UInt64) : tryFrom (Nat.toDigits 10 n.toNat) = .ok (.slot n) := by
  have hkeyword : ∀ (t : List Char) (k : Char), k ∈ t → k.toLower.isDigit = false →
      ¬eqIgnoreAsciiCase (Nat.toDigits 10 n.toNat) t = true := by
    intro t k hk hnot heq
    obtain ⟨c, hc, hck⟩ := eqIgnoreAsciiCase_mem heq hk
    have hdigit := toDigits_isDigit c hc
    rw [toLower_of_isDigit hdigit] at hck
    rw [hck, hnot] at hdigit
    cases hdigit
  unfold tryFrom
  rw [if_neg (hkeyword _ 'h' (by simp) (by decide)), if_neg (hkeyword _ 'g' (by simp) (by decide)),
    if_neg (hkeyword _ 'f' (by simp) (by decide)), parseU64_toDigits]

/-- Every block id but the default root is read back from its request segment. -/
theorem tryFrom_asRequestSegment {b : BlockId} : tryFrom b.asRequestSegment = .ok b ↔ b ≠ .root Root.default := by
  cases b with
  | slot n => exact iff_of_true (tryFrom_toDigits n) (by simp)
  | root r =>
    constructor
    · rintro h heq
      cases heq
      have hempty : tryFrom (BlockId.root Root.default).asRequestSegment = .error ⟨[]⟩ := by decide
      rw [hempty] at h
      cases h
    · intro h
      refine tryFrom_of_parse (parse_text.2 fun heq => h ?_)
      rw [heq]
  | head => exact iff_of_true (by decide) (by simp)
  | genesis => exact iff_of_true (by decide) (by simp)
  | finalized => exact iff_of_true (by decide) (by simp)

end BlockId

/-! ## The canonical text -/

/-- The text forms are canonical: equal roots are those of spellings of the same bytes, and the numbers that stand for
roots tell them apart; a parsed root is read back from its own text and from the rows of `live_blocks`, no spelling of a root is read as a slot or a keyword, and every block
id but that of the default root is read back from its request segment. -/
theorem text_canonical :
    (∀ (s t : List Char) (r r' : Root), Root.parse s = .ok r → Root.parse t = .ok r' →
      (r = r' ↔ ∃ bytes, Denotes s bytes ∧ Denotes t bytes) ∧ (r.identity = r'.identity ↔ r = r')) ∧
    (∀ s, (∃ r, Root.parse s = .ok r) ↔ ∃ bytes, Denotes s bytes) ∧
    (∀ (s : List Char) (r : Root), Root.parse s = .ok r →
      Root.parse r.text = .ok r ∧ BlockId.tryFrom s = .ok (.root r) ∧ BlockId.tryFrom r.text = .ok (.root r)) ∧
    (∀ blocks : List (Nat × Root × Root),
      (∀ b ∈ blocks, b.1 < 2 ^ 64 ∧ (∃ s, Root.parse s = .ok b.2.1) ∧ ∃ s, Root.parse s = .ok b.2.2) →
      readBlocks (blocks.map fun b => blockColumns b.1 b.2.1 b.2.2) = .ok blocks) ∧
    ∀ b : BlockId, BlockId.tryFrom b.asRequestSegment = .ok b ↔ b ≠ .root Root.default := by
  refine ⟨fun s t r r' hs ht => ⟨parse_eq_iff hs ht, identity_eq_iff hs ht⟩, fun s => ?_, fun s r h => ?_, fun blocks h => ?_, fun b => BlockId.tryFrom_asRequestSegment⟩
  · constructor
    · rintro ⟨r, hr⟩
      obtain ⟨bytes, hbytes, -⟩ := parse_ok_iff.1 hr
      exact ⟨bytes, hbytes⟩
    · rintro ⟨bytes, hbytes⟩
      exact ⟨⟨rootChars bytes, .inr ⟨s, normalize_iff.2 ⟨bytes, hbytes, rfl⟩⟩⟩, parse_ok_iff.2 ⟨bytes, hbytes, rfl⟩⟩
  · have hown := parse_text.2 (parse_ne_default h)
    exact ⟨hown, BlockId.tryFrom_of_parse h, BlockId.tryFrom_of_parse hown⟩
  · refine readBlocks_columns fun b hb => ?_
    obtain ⟨hslot, ⟨s, hs⟩, t, ht⟩ := h b hb
    exact ⟨hslot, parse_ne_default hs, parse_ne_default ht⟩

/-- A root in capitals behind a blank, and the same root in its canonical spelling. -/
def capitalRoot : List Char := ' ' :: '0' :: 'X' :: List.replicate 64 'A'

def plainRoot : List Char := '0' :: 'x' :: List.replicate 64 'a'

theorem capitals_read_alike : ∃ r r' : Root, Root.parse capitalRoot = .ok r ∧ Root.parse plainRoot = .ok r' ∧
    (r = r' ↔ ∃ bytes, Denotes capitalRoot bytes ∧ Denotes plainRoot bytes) ∧
    BlockId.tryFrom capitalRoot = .ok (.root r) ∧ readBlocks [blockColumns 5 r r'] = .ok [(5, r, r')] := by
  have hcapital : normalizePrefixedHexRoot capitalRoot = some plainRoot := by decide +kernel
  have hplain : normalizePrefixedHexRoot plainRoot = some plainRoot := by decide +kernel
  obtain ⟨a, ha, hra⟩ := normalize_iff.1 hcapital
  obtain ⟨b, hb, hrb⟩ := normalize_iff.1 hplain
  have hr : Root.parse capitalRoot = .ok ⟨plainRoot, .inr ⟨_, hcapital⟩⟩ := parse_ok_iff.2 ⟨a, ha, hra⟩
  have hr' : Root.parse plainRoot = .ok ⟨plainRoot, .inr ⟨_, hplain⟩⟩ := parse_ok_iff.2 ⟨b, hb, hrb⟩
  refine ⟨_, _, hr, hr', (text_canonical.1 _ _ _ _ hr hr').1, (text_canonical.2.2.1 _ _ hr).2.1,
    text_canonical.2.2.2.1 [(5, _, _)] ?_⟩
  intro block hblock
  rw [List.mem_singleton.1 hblock]
  exact ⟨show 5 < 2 ^ 64 by norm_num, ⟨_, hr⟩, _, hr'⟩

/-- The empty text of `Root::default()` is no block id. -/
theorem default_root_unreadable : ¬∀ b : BlockId, BlockId.tryFrom b.asRequestSegment = .ok b :=
  fun h => BlockId.tryFrom_asRequestSegment.1 (h (.root Root.default)) rfl

end BeaconIndexer.Text
