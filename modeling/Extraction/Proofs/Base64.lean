import Extraction.Base64
import Mathlib.Algebra.Group.Nat.Defs
import Mathlib.Data.List.Basic

/-!
# Base64

What is written in base64 is read back: each group of three octets has its four
characters, whatever follows, and one or two octets at the end are told by the
padding. The characters stand for the bits of the octets, taken six by six.
-/

namespace Extraction.Base64

theorem value?_digit : ∀ n < 64, value? (digit n) = some n := by decide

theorem digit_ne_padding : ∀ n < 64, digit n ≠ '=' := by decide

/-- Two characters before the padding stand for one octet. -/
theorem decodeChars?_two {k l : Nat} (hk : k < 64) (hl : l < 64) (hbits : l % 16 = 0) :
    decodeChars? [digit k, digit l, '=', '='] = some [(k * 4 + l / 16).toUInt8] := by
  simp [decodeChars?, value?_digit k hk, value?_digit l hl, hbits]

/-- Three characters before the padding stand for two octets. -/
theorem decodeChars?_three {k l m : Nat} (hk : k < 64) (hl : l < 64) (hm : m < 64)
    (hbits : m % 4 = 0) :
    decodeChars? [digit k, digit l, digit m, '='] =
      some [(k * 4 + l / 16).toUInt8, (l % 16 * 16 + m / 4).toUInt8] := by
  rw [decodeChars?]
  · simp [value?_digit k hk, value?_digit l hl, value?_digit m hm, hbits]
  · exact digit_ne_padding m hm

/-- Four characters the last of which is no padding stand for three octets. -/
theorem decodeChars?_four {k l m n : Nat} (hk : k < 64) (hl : l < 64) (hm : m < 64) (hn : n < 64)
    (rest : List Char) :
    decodeChars? (digit k :: digit l :: digit m :: digit n :: rest) =
      (decodeChars? rest).map fun octets =>
        (k * 4 + l / 16).toUInt8 :: (l % 16 * 16 + m / 4).toUInt8 :: (m % 4 * 64 + n).toUInt8 ::
          octets := by
  have hpadding := digit_ne_padding n hn
  rw [decodeChars?]
  · simp only [value?_digit k hk, value?_digit l hl, value?_digit m hm, value?_digit n hn]
    cases decodeChars? rest <;> rfl
  · intro _ hd
    exact absurd hd hpadding
  · intro hd
    exact absurd hd hpadding

/-- An octet is put together again from its parts. -/
theorem toUInt8_eq {n : Nat} {b : UInt8} (h : n = b.toNat) : n.toUInt8 = b := by
  rw [h]
  exact UInt8.ofNat_toNat

theorem decodeChars?_encodeChars (s : Octets) : decodeChars? (encodeChars s) = some s := by
  fun_induction encodeChars s with
  | case1 => rfl
  | case2 a =>
      have ha := a.toNat_lt
      have hbits : a.toNat % 4 * 16 % 16 = 0 := by omega
      rw [decodeChars?_two (by omega) (by omega) hbits, toUInt8_eq (b := a) (by omega)]
  | case3 a b =>
      have ha := a.toNat_lt
      have hb := b.toNat_lt
      have hbits : b.toNat % 16 * 4 % 4 = 0 := by omega
      rw [decodeChars?_three (by omega) (by omega) (by omega) hbits, toUInt8_eq (b := a) (by omega),
        toUInt8_eq (b := b) (by omega)]
  | case4 a b c rest ih =>
      have ha := a.toNat_lt
      have hb := b.toNat_lt
      have hc := c.toNat_lt
      rw [decodeChars?_four (by omega) (by omega) (by omega) (by omega), ih, Option.map_some,
        toUInt8_eq (b := a) (by omega), toUInt8_eq (b := b) (by omega),
        toUInt8_eq (b := c) (by omega)]

/-- Octets are read back from the text they are written in. -/
theorem decode?_encode (s : Octets) : decode? (encode s) = some s := by
  rw [decode?, encode, String.toList_ofList, decodeChars?_encodeChars]

theorem encode_injective {s s' : Octets} (h : encode s = encode s') : s = s' := by
  have hdecode := decode?_encode s
  rw [h, decode?_encode] at hdecode
  exact (Option.some.inj hdecode).symm

/-! ## The text of octets -/

/-- The characters of base64 in the order of the values they stand for. -/
def alphabet : List Char :=
  "ABCDEFGHIJKLMNOPQRSTUVWXYZabcdefghijklmnopqrstuvwxyz0123456789+/".toList

theorem idxOf_digit : ∀ n < 64, alphabet.idxOf (digit n) = n := by decide

theorem digit_mem_alphabet {n : Nat} (h : n < 64) : digit n ∈ alphabet := by
  rw [← List.idxOf_lt_length_iff, idxOf_digit n h]
  exact h

/-- How many padding signs stand behind so many octets. -/
def padding (length : Nat) : Nat := (3 - length % 3) % 3

/-- The lowest bits of a number, the highest of them first. -/
def bits : Nat → Nat → List Bool
  | 0, _ => []
  | width + 1, n => n.testBit width :: bits width n

theorem bits_mod {width size : Nat} (h : width ≤ size) (n : Nat) :
    bits width (n % 2 ^ size) = bits width n := by
  induction width with
  | zero => rfl
  | succ width ih =>
      have hbit : (n % 2 ^ size).testBit width = n.testBit width := by
        simp [Nat.testBit_mod_two_pow, Nat.lt_of_succ_le h]
      rw [bits, bits, hbit, ih (Nat.le_of_succ_le h)]

/-- The bits of a number are those of its two parts. -/
theorem bits_add (high low n : Nat) :
    bits (high + low) n = bits high (n / 2 ^ low) ++ bits low (n % 2 ^ low) := by
  rw [bits_mod (Nat.le_refl low)]
  induction high with
  | zero => rw [Nat.zero_add, bits, List.nil_append]
  | succ high ih =>
      rw [Nat.add_right_comm, bits, ih, bits, Nat.testBit_div_two_pow, List.cons_append]

/-- The bits of two parts of a number put together. -/
theorem bits_join (high low x : Nat) {y : Nat} (hy : y < 2 ^ low) :
    bits (high + low) (x * 2 ^ low + y) = bits high x ++ bits low y := by
  have hdiv : (x * 2 ^ low + y) / 2 ^ low = x := by
    rw [Nat.mul_comm, Nat.mul_add_div (Nat.two_pow_pos low), Nat.div_eq_of_lt hy, Nat.add_zero]
  have hmod : (x * 2 ^ low + y) % 2 ^ low = y := by
    rw [Nat.mul_add_mod_self_right, Nat.mod_eq_of_lt hy]
  rw [bits_add, hdiv, hmod]

/-- The six bits of a character that lie in two octets. -/
theorem bits_middle {x y : Nat} (hy : y < 16) :
    bits 6 (x * 16 + y) = bits 2 x ++ bits 4 y :=
  bits_join 2 4 x hy

theorem bits_end {x y : Nat} (hy : y < 4) : bits 6 (x * 4 + y) = bits 4 x ++ bits 2 y :=
  bits_join 4 2 x hy

theorem bits_octet_first (n : Nat) : bits 8 n = bits 6 (n / 4) ++ bits 2 (n % 4) := bits_add 6 2 n

theorem bits_octet_second (n : Nat) : bits 8 n = bits 4 (n / 16) ++ bits 4 (n % 16) :=
  bits_add 4 4 n

theorem bits_octet_third (n : Nat) : bits 8 n = bits 2 (n / 64) ++ bits 6 (n % 64) := bits_add 2 6 n

/-- Octets are written in as many characters as they have bits six by six, filled up with zeros. -/
theorem exists_values_encodeChars (s : Octets) :
    ∃ values : List Nat, (∀ n ∈ values, n < 64) ∧
      encodeChars s = values.map digit ++ List.replicate (padding s.length) '=' ∧
      values.flatMap (bits 6) =
        s.flatMap (fun b => bits 8 b.toNat) ++ List.replicate (2 * padding s.length) false := by
  fun_induction encodeChars s with
  | case1 => exact ⟨[], List.forall_mem_nil _, rfl, rfl⟩
  | case2 a =>
      have ha := a.toNat_lt
      refine ⟨[a.toNat / 4, a.toNat % 4 * 16], ?_, ?_, ?_⟩
      · simp only [List.forall_mem_cons]
        exact ⟨by omega, by omega, List.forall_mem_nil _⟩
      · simp [padding, List.replicate_succ]
      · have hlast := bits_middle (x := a.toNat % 4) (y := 0) (by decide)
        rw [Nat.add_zero] at hlast
        simp [padding, hlast, bits_octet_first]
        rfl
  | case3 a b =>
      have ha := a.toNat_lt
      have hb := b.toNat_lt
      have hsecond : b.toNat / 16 < 16 := by omega
      refine ⟨[a.toNat / 4, a.toNat % 4 * 16 + b.toNat / 16, b.toNat % 16 * 4], ?_, ?_, ?_⟩
      · simp only [List.forall_mem_cons]
        exact ⟨by omega, by omega, by omega, List.forall_mem_nil _⟩
      · simp [padding, List.replicate_succ]
      · have hlast := bits_end (x := b.toNat % 16) (y := 0) (by decide)
        rw [Nat.add_zero] at hlast
        simp [padding, bits_middle hsecond, hlast, bits_octet_first a.toNat,
          bits_octet_second b.toNat]
        rfl
  | case4 a b c rest ih =>
      have ha := a.toNat_lt
      have hb := b.toNat_lt
      have hc := c.toNat_lt
      have hsecond : b.toNat / 16 < 16 := by omega
      have hthird : c.toNat / 64 < 4 := by omega
      obtain ⟨values, hsmall, htext, hbits⟩ := ih
      have hpadding : padding (rest.length + 3) = padding rest.length := by
        simp [padding]
      refine ⟨a.toNat / 4 :: (a.toNat % 4 * 16 + b.toNat / 16) ::
        (b.toNat % 16 * 4 + c.toNat / 64) :: c.toNat % 64 :: values, ?_, ?_, ?_⟩
      · simp only [List.forall_mem_cons]
        exact ⟨by omega, by omega, by omega, by omega, hsmall⟩
      · simp [htext, hpadding]
      · simp [bits_middle hsecond, bits_end hthird, bits_octet_first a.toNat,
          bits_octet_second b.toNat, bits_octet_third c.toNat, hbits, hpadding]

/-- A text is octets in base64: its characters stand for the bits of the octets, six by six and
filled up with zeros, and padding signs follow. -/
def IsWritten (s : Octets) (text : List Char) : Prop :=
  ∃ chars, text = chars ++ List.replicate (padding s.length) '=' ∧
    (∀ c ∈ chars, c ∈ alphabet) ∧
    chars.flatMap (fun c => bits 6 (alphabet.idxOf c)) =
      s.flatMap (fun b => bits 8 b.toNat) ++ List.replicate (2 * padding s.length) false

theorem isWritten_encodeChars (s : Octets) : IsWritten s (encodeChars s) := by
  obtain ⟨values, hsmall, htext, hbits⟩ := exists_values_encodeChars s
  refine ⟨values.map digit, htext, ?_, ?_⟩
  · intro c hc
    obtain ⟨n, hn, rfl⟩ := List.mem_map.mp hc
    exact digit_mem_alphabet (hsmall n hn)
  · rw [← hbits, List.flatMap_map]
    apply List.flatMap_congr
    intro n hn
    rw [idxOf_digit n (hsmall n hn)]

theorem length_encodeChars (s : Octets) : (encodeChars s).length = 4 * ((s.length + 2) / 3) := by
  fun_induction encodeChars s with
  | case1 => rfl
  | case2 => simp
  | case3 => simp
  | case4 a b c rest ih =>
      simp only [List.length_cons, ih]
      omega

end Extraction.Base64
