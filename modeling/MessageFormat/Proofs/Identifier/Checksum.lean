import MessageFormat.Identifier.Scheme
import Mathlib

/-!
# What the checksum tells apart

A shift of the register is linear and loses nothing, and a register of few bits is what is left of
the same bits further up. So what is passed in a window of four bytes can be recovered from the
registers in front of it and behind it (`window_eq`): texts that differ in such a window only have
different checksums, and ids with a checksum are different for them (`slugWithChecksum_ne`).
-/

namespace MessageFormat

namespace Checksum

variable {r s : UInt32}

/-! ## One shift -/

theorem toNat_shiftBit (r : UInt32) : (shiftBit r).toNat =
    if r.toNat % 2 = 1 then r.toNat / 2 ^^^ 0xEDB88320 else r.toNat / 2 := by
  have low : r &&& 1 = 1 ↔ r.toNat % 2 = 1 := by
    rw [← UInt32.toNat_inj, UInt32.toNat_and, UInt32.toNat_one, Nat.and_one_is_mod]
  have half : (r >>> 1).toNat = r.toNat / 2 := by
    rw [UInt32.toNat_shiftRight]
    exact Nat.shiftRight_one _
  simp only [shiftBit, low]
  split
  · rw [UInt32.toNat_xor, half]
    rfl
  · exact half

theorem shiftBit_xor (r s : UInt32) : shiftBit (r ^^^ s) = shiftBit r ^^^ shiftBit s := by
  have odd := @Nat.xor_mod_two_eq_one r.toNat s.toNat
  rw [← UInt32.toNat_inj, UInt32.toNat_xor, toNat_shiftBit, toNat_shiftBit, toNat_shiftBit,
    UInt32.toNat_xor, Nat.xor_div_two, if_congr odd rfl rfl]
  by_cases hr : r.toNat % 2 = 1 <;> by_cases hs : s.toNat % 2 = 1
  · have both : r.toNat / 2 ^^^ 0xEDB88320 ^^^ (s.toNat / 2 ^^^ 0xEDB88320) =
        r.toNat / 2 ^^^ s.toNat / 2 ^^^ (0xEDB88320 ^^^ 0xEDB88320) := by ac_rfl
    rw [if_neg (by simp [hr, hs]), if_pos hr, if_pos hs, both, Nat.xor_self, Nat.xor_zero]
  · rw [if_pos (by simp [hr, hs]), if_pos hr, if_neg hs, Nat.xor_right_comm]
  · rw [if_pos (by simp [hr, hs]), if_neg hr, if_pos hs, Nat.xor_assoc]
  · rw [if_neg (by simp [hr, hs]), if_neg hr, if_neg hs]

/-- The polynomial has the highest bit, which no register has after a shift. -/
theorem eq_zero_of_shiftBit (h : shiftBit r = 0) : r = 0 := by
  have half : r.toNat / 2 < 2 ^ 31 := by
    have := r.toNat_lt
    omega
  have value := toNat_shiftBit r
  rw [h, UInt32.toNat_zero] at value
  rw [← UInt32.toNat_inj, UInt32.toNat_zero]
  split at value
  · have := Nat.xor_eq_zero_iff.1 value.symm
    omega
  · omega

theorem shiftBit_double (h : s.toNat = 2 * r.toNat) : shiftBit s = r := by
  rw [← UInt32.toNat_inj, toNat_shiftBit, if_neg (by omega)]
  omega

/-! ## Many shifts -/

theorem repeat_xor (n : Nat) (r s : UInt32) : Nat.repeat shiftBit n (r ^^^ s) =
    Nat.repeat shiftBit n r ^^^ Nat.repeat shiftBit n s := by
  induction n with
  | zero => rfl
  | succ n ih => simp only [Nat.repeat, ih, shiftBit_xor]

theorem repeat_injective (n : Nat) : Function.Injective (Nat.repeat shiftBit n) := by
  have zero : ∀ r, Nat.repeat shiftBit n r = 0 → r = 0 := by
    induction n with
    | zero => exact fun _ => id
    | succ n ih => exact fun r h => ih r (eq_zero_of_shiftBit h)
  intro r s h
  apply UInt32.xor_eq_zero_iff.1
  exact zero _ (by rw [repeat_xor, h, UInt32.xor_self])

theorem repeat_of_toNat {n : Nat} (h : s.toNat = 2 ^ n * r.toNat) :
    Nat.repeat shiftBit n s = r := by
  induction n generalizing r with
  | zero => exact UInt32.toNat_inj.1 (by simpa [Nat.repeat] using h)
  | succ n ih =>
    have bound := s.toNat_lt
    have double : (UInt32.ofNat (2 * r.toNat)).toNat = 2 * r.toNat := by
      refine UInt32.toNat_ofNat_of_lt' (Nat.lt_of_le_of_lt ?_ bound)
      rw [h, pow_succ, mul_assoc]
      exact Nat.le_mul_of_pos_left _ (Nat.two_pow_pos n)
    have shifted : s.toNat = 2 ^ n * (UInt32.ofNat (2 * r.toNat)).toNat := by
      rw [double, h, pow_succ, mul_assoc]
    rw [Nat.repeat, ih shifted]
    exact shiftBit_double double

/-! ## Bytes -/

theorem shiftByte_left_injective (b : UInt8) : Function.Injective (shiftByte · b) :=
  fun _ _ h => (UInt32.xor_left_inj _).1 (repeat_injective 8 h)

theorem foldl_shiftByte_injective (bytes : List UInt8) :
    Function.Injective (bytes.foldl shiftByte) := by
  induction bytes with
  | nil => exact Function.injective_id
  | cons b bytes ih => exact fun _ _ h => shiftByte_left_injective b (ih h)

/-- Registers that differ in the lowest bits only after a byte differed further up in front of it,
apart from the byte. -/
theorem toNat_xor_of_shiftByte {b c : UInt8}
    (h : (shiftByte r b ^^^ shiftByte s c).toNat < 2 ^ 24) :
    (r ^^^ s).toNat =
      2 ^ 8 * (shiftByte r b ^^^ shiftByte s c).toNat ^^^ (b ^^^ c).toNat := by
  generalize hd : shiftByte r b ^^^ shiftByte s c = d at h ⊢
  have raised : (UInt32.ofNat (2 ^ 8 * d.toNat)).toNat = 2 ^ 8 * d.toNat :=
    UInt32.toNat_ofNat_of_lt' (by simp only [UInt32.size]; omega)
  have passed : (r ^^^ b.toUInt32) ^^^ (s ^^^ c.toUInt32) = UInt32.ofNat (2 ^ 8 * d.toNat) := by
    apply repeat_injective 8
    rw [repeat_xor, repeat_of_toNat raised]
    exact hd
  have apart : r ^^^ s = UInt32.ofNat (2 ^ 8 * d.toNat) ^^^ (b ^^^ c).toUInt32 := by
    have sorted : r ^^^ b.toUInt32 ^^^ (s ^^^ c.toUInt32) ^^^ (b.toUInt32 ^^^ c.toUInt32) =
        r ^^^ s ^^^ (b.toUInt32 ^^^ b.toUInt32 ^^^ (c.toUInt32 ^^^ c.toUInt32)) := by ac_rfl
    rw [← passed, UInt8.toUInt32_xor, sorted, UInt32.xor_self, UInt32.xor_self, UInt32.xor_zero,
      UInt32.xor_zero]
  rw [apart, UInt32.toNat_xor, raised, UInt8.toNat_toUInt32]

/-- From different bytes of a window no register goes to the same one. -/
theorem window_eq {window other : List UInt8} (length : window.length = other.length)
    (short : window.length ≤ 4) (h : window.foldl shiftByte r = other.foldl shiftByte s) :
    (r ^^^ s).toNat < 2 ^ (8 * window.length) ∧ (r = s → window = other) := by
  induction window generalizing other r s with
  | nil =>
    obtain rfl := List.length_eq_zero_iff.1 length.symm
    obtain rfl : r = s := h
    exact ⟨by simp, fun _ => rfl⟩
  | cons b window ih =>
    obtain ⟨c, other, rfl⟩ := List.exists_cons_of_length_eq_add_one length.symm
    simp only [List.length_cons, Nat.add_right_cancel_iff] at length short ⊢
    obtain ⟨small, recovered⟩ := ih length (by omega) h
    have low : (shiftByte r b ^^^ shiftByte s c).toNat < 2 ^ 24 :=
      small.trans_le (Nat.pow_le_pow_right (by decide) (by omega))
    have apart := toNat_xor_of_shiftByte low
    have byte : (b ^^^ c).toNat < 2 ^ 8 := (b ^^^ c).toNat_lt
    constructor
    · rw [apart, Nat.mul_succ, Nat.add_comm]
      refine Nat.xor_lt_two_pow ?_ (byte.trans_le (Nat.pow_le_pow_right (by decide) (by omega)))
      rw [pow_add]
      exact Nat.mul_lt_mul_of_pos_left small (by decide)
    · rintro rfl
      rw [UInt32.xor_self, UInt32.toNat_zero, eq_comm, Nat.xor_eq_zero_iff] at apart
      have same : (b ^^^ c).toNat = 0 := by omega
      obtain rfl : b = c := UInt8.xor_eq_zero_iff.1 (UInt8.toNat_inj.1 same)
      rw [recovered rfl]

/-- Lists of bytes that are equal outside of a window have the same front and the same rest. -/
theorem exists_window {bytes other : List UInt8} {start : Nat}
    (length : bytes.length = other.length)
    (near : ∀ i, bytes[i]? ≠ other[i]? → start ≤ i ∧ i < start + 4) :
    ∃ front window window' rest, bytes = front ++ (window ++ rest) ∧
      other = front ++ (window' ++ rest) ∧ window.length = window'.length ∧ window.length ≤ 4 := by
  have front : bytes.take start = other.take start := by
    refine List.ext_getElem? fun i => ?_
    rw [List.getElem?_take, List.getElem?_take]
    split
    · by_contra differ
      have := near i differ
      omega
    · rfl
  have rest : (bytes.drop start).drop 4 = (other.drop start).drop 4 := by
    refine List.ext_getElem? fun i => ?_
    rw [List.drop_drop, List.drop_drop, List.getElem?_drop, List.getElem?_drop]
    by_contra differ
    have := near _ differ
    omega
  refine ⟨bytes.take start, (bytes.drop start).take 4, (other.drop start).take 4,
    (bytes.drop start).drop 4, ?_, ?_, ?_, ?_⟩
  · rw [List.take_append_drop, List.take_append_drop]
  · rw [front, rest, List.take_append_drop, List.take_append_drop]
  · rw [List.length_take, List.length_take, List.length_drop, List.length_drop, length]
  · exact List.length_take_le _ _

theorem eq_of_foldl_shiftByte {bytes other : List UInt8} {start : Nat}
    (length : bytes.length = other.length)
    (near : ∀ i, bytes[i]? ≠ other[i]? → start ≤ i ∧ i < start + 4)
    (h : bytes.foldl shiftByte r = other.foldl shiftByte r) : bytes = other := by
  obtain ⟨front, window, window', rest, rfl, rfl, same, short⟩ := exists_window length near
  simp only [List.foldl_append] at h
  rw [(window_eq same short (foldl_shiftByte_injective rest h)).2 rfl]

/-! ## Texts -/

theorem utf8_append (cs ds : List Char) : utf8 (cs ++ ds) = utf8 cs ++ utf8 ds :=
  List.flatMap_append

theorem utf8_injective : Function.Injective utf8 := by
  intro cs ds h
  have encoded : cs.utf8Encode = ds.utf8Encode := congrArg List.toByteArray h
  have decoded := congrArg ByteArray.utf8Decode? encoded
  rw [List.utf8Decode?_utf8Encode, List.utf8Decode?_utf8Encode] at decoded
  exact Array.toList_inj.2 (Option.some.inj decoded)

def hexDigit (c : Char) : Nat := if c.isDigit then c.toNat - 48 else c.toNat - 87

def hexValue (digits : List Char) : Nat :=
  digits.foldl (fun value c => 16 * value + hexDigit c) 0

theorem hexDigit_digitChar : ∀ d < 16, hexDigit (Nat.digitChar d) = d := by decide

theorem hexValue_toDigits (n : Nat) : hexValue (Nat.toDigits 16 n) = n := by
  induction n using Nat.strong_induction_on with
  | _ n ih =>
    rw [Nat.toDigits_eq_if (by decide)]
    split
    · rename_i small
      rw [hexValue, List.foldl_cons, hexDigit_digitChar n small]
      exact Nat.zero_add n
    · have front := ih (n / 16) (by omega)
      have last := hexDigit_digitChar (n % 16) (Nat.mod_lt n (by decide))
      rw [hexValue] at front ⊢
      rw [List.foldl_append, front, List.foldl_cons, last]
      exact Nat.div_add_mod n 16

theorem hexValue_hex (value : UInt32) : hexValue (hex value) = value.toNat := by
  have zeros (n : Nat) :
      (List.replicate n '0').foldl (fun value c => 16 * value + hexDigit c) 0 = 0 := by
    induction n with
    | zero => rfl
    | succ n ih => exact ih
  rw [hexValue, hex, List.foldl_append, zeros]
  exact hexValue_toDigits _

theorem hex_injective : Function.Injective hex := by
  intro value other h
  rw [← UInt32.toNat_inj, ← hexValue_hex, ← hexValue_hex, h]

theorem length_hex (value : UInt32) : (hex value).length = 8 := by
  have bound : (Nat.toDigits 16 value.toNat).length ≤ 8 :=
    (Nat.length_toDigits_le_iff (by decide) (by decide)).2 value.toNat_lt
  rw [hex, List.length_append, List.length_replicate]
  omega

end Checksum

/-! ## Ids -/

namespace Identifier

open Checksum (utf8 hex shiftByte)

variable {p q : String}

/-- The register behind the length that stands in front of a text. -/
def lengthRegister (units : Nat) : UInt32 :=
  (utf8 ((toString units).toList ++ [':'])).foldl shiftByte 0xFFFFFFFF

theorem checksum_eq (p : String) : checksum p =
    (utf8 (normalized p).toList).foldl shiftByte
      (lengthRegister (utf16Length (normalized p).toList)) ^^^ 0xFFFFFFFF := by
  rw [checksum, Checksum.crc32, List.append_cons, Checksum.utf8_append, List.foldl_append]
  rfl

theorem checksum_ne {start : Nat} (differ : normalized p ≠ normalized q)
    (units : utf16Length (normalized p).toList = utf16Length (normalized q).toList)
    (bytes : (utf8 (normalized p).toList).length = (utf8 (normalized q).toList).length)
    (near : ∀ i, (utf8 (normalized p).toList)[i]? ≠ (utf8 (normalized q).toList)[i]? →
      start ≤ i ∧ i < start + 4) : checksum p ≠ checksum q := by
  intro same
  rw [checksum_eq, checksum_eq, units, UInt32.xor_left_inj] at same
  have texts := Checksum.utf8_injective (Checksum.eq_of_foldl_shiftByte bytes near same)
  exact differ (String.toList_inj.1 texts)

/-- Patterns whose normalized forms have the same lengths and differ within four bytes have
different ids with a checksum. -/
theorem slugWithChecksum_ne (differ : normalized p ≠ normalized q)
    (units : utf16Length (normalized p).toList = utf16Length (normalized q).toList)
    (bytes : (utf8 (normalized p).toList).length = (utf8 (normalized q).toList).length)
    (near : ∃ start, ∀ i, (utf8 (normalized p).toList)[i]? ≠ (utf8 (normalized q).toList)[i]? →
      start ≤ i ∧ i < start + 4) : slugWithChecksum p ≠ slugWithChecksum q := by
  obtain ⟨start, near⟩ := near
  intro same
  have letters := congrArg String.toList same
  simp only [slugWithChecksum, String.toList_append, String.toList_ofList] at letters
  have length : (hex (checksum p)).length = (hex (checksum q)).length := by
    rw [Checksum.length_hex, Checksum.length_hex]
  have digits := (List.append_inj' letters length).2
  exact checksum_ne differ units bytes near (Checksum.hex_injective digits)

/-- Two patterns that only the checksum tells apart: the slug spells neither sign. -/
theorem slugWithChecksum_ne_currency :
    normalized "{n}  €" = "{n} €" ∧ normalized "{n} ₤" = "{n} ₤" ∧
      slug "{n}  €" = slug "{n} ₤" ∧ slugWithChecksum "{n}  €" ≠ slugWithChecksum "{n} ₤" := by
  have euro : normalized "{n}  €" = "{n} €" := by cbv
  have lira : normalized "{n} ₤" = "{n} ₤" := by cbv
  have near : ∀ i, (utf8 "{n} €".toList)[i]? ≠ (utf8 "{n} ₤".toList)[i]? → 4 ≤ i ∧ i < 4 + 4 := by
    have inside : ∀ i < 7, (utf8 "{n} €".toList)[i]? ≠ (utf8 "{n} ₤".toList)[i]? → 4 ≤ i := by
      decide
    intro i differ
    obtain small | large := Nat.lt_or_ge i 7
    · exact ⟨inside i small differ, Nat.lt_succ_of_lt small⟩
    · exact (differ ((List.getElem?_eq_none large).trans (List.getElem?_eq_none large).symm)).elim
  refine ⟨euro, lira, ?_, slugWithChecksum_ne ?_ ?_ ?_ ⟨4, ?_⟩⟩
  · rw [slug, slug, euro, lira]
    decide
  · rw [euro, lira]
    decide
  · rw [euro, lira]
    decide
  · rw [euro, lira]
    decide
  · rw [euro, lira]
    exact near

end Identifier

end MessageFormat
