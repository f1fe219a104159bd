import Extraction.Text.Octets

/-!
# Texts and their octets

A text is read back from its octets, one character at a time and whatever
follows. So different texts have different octets, and octets that are read as a
text are those of this text.
-/

namespace Extraction.Octets

/-- A character is the one of its own number, if it needs that many octets. -/
theorem charFrom?_toNat {least : Nat} (c : Char) (h : least ≤ c.toNat) :
    charFrom? least c.toNat = some c := by
  have hvalid : c.toNat < 0xD800 ∨ (0xDFFF < c.toNat ∧ c.toNat < 0x110000) := c.valid
  have hrange : c.toNat < 0xD800 ∨ (0xE000 ≤ c.toNat ∧ c.toNat < 0x110000) := by omega
  simp [charFrom?, h, hrange, Char.ofNat_toNat]

/-- A trailing octet adds its six bits. -/
theorem trailing_cons (least count n m : Nat) (rest : Octets) :
    trailing least (count + 1) n ((0x80 + m % 0x40).toUInt8 :: rest) =
      trailing least count (n * 0x40 + m % 0x40) rest := by
  have hsize : 0x80 + m % 0x40 < 0x100 := by omega
  have hoctet : (0x80 + m % 0x40).toUInt8.toNat = 0x80 + m % 0x40 :=
    UInt8.toNat_ofNat_of_lt hsize
  have htrailing : isTrailing (0x80 + m % 0x40).toUInt8 = true := by
    simp only [isTrailing, Bool.and_eq_true, decide_eq_true_eq, UInt8.le_iff_toNat_le,
      UInt8.lt_iff_toNat_lt, hoctet, UInt8.reduceToNat]
    omega
  have hpayload : payload (0x80 + m % 0x40).toUInt8 = m % 0x40 := by
    rw [payload, hoctet]
    omega
  rw [trailing, if_pos htrailing, hpayload]

/-- The first octet tells how many trailing ones belong to it. -/
theorem nextChar?_cons {n : Nat} (hn : n < 0x100) (rest : Octets) :
    nextChar? (n.toUInt8 :: rest) =
      if n < 0x80 then some (Char.ofNat n, rest)
      else if 0xC0 ≤ n ∧ n < 0xE0 then trailing 0x80 1 (n % 0x20) rest
      else if 0xE0 ≤ n ∧ n < 0xF0 then trailing 0x800 2 (n % 0x10) rest
      else if 0xF0 ≤ n ∧ n < 0xF8 then trailing 0x10000 3 (n % 0x8) rest
      else none := by
  have hoctet : n.toUInt8.toNat = n := UInt8.toNat_ofNat_of_lt hn
  simp only [nextChar?, UInt8.le_iff_toNat_le, UInt8.lt_iff_toNat_lt, hoctet, UInt8.reduceToNat,
    Bool.and_eq_true, decide_eq_true_eq]

/-- The first character is read back from its octets, whatever follows them. -/
theorem nextChar?_ofChar_append (c : Char) (rest : Octets) :
    nextChar? (ofChar c ++ rest) = some (c, rest) := by
  have hvalid : c.toNat < 0xD800 ∨ (0xDFFF < c.toNat ∧ c.toNat < 0x110000) := c.valid
  -- However many octets there are, their bits make up the number of the character.
  have hread {least n : Nat} (h : least ≤ c.toNat) (hn : n = c.toNat) :
      trailing least 0 n rest = some (c, rest) := by
    rw [trailing, hn, charFrom?_toNat c h]
    rfl
  simp only [ofChar]
  split
  next h1 =>
    rw [List.singleton_append, nextChar?_cons (by omega), if_pos h1, Char.ofNat_toNat]
  split
  next h1 h2 =>
    rw [List.cons_append, List.singleton_append, nextChar?_cons (by omega), if_neg (by omega),
      if_pos (by omega), trailing_cons]
    exact hread (by omega) (by omega)
  split
  next h1 h2 h3 =>
    rw [List.cons_append, List.cons_append, List.singleton_append, nextChar?_cons (by omega),
      if_neg (by omega), if_neg (by omega), if_pos (by omega), trailing_cons, trailing_cons]
    exact hread (by omega) (by omega)
  next h1 h2 h3 =>
    rw [List.cons_append, List.cons_append, List.cons_append, List.singleton_append,
      nextChar?_cons (by omega), if_neg (by omega), if_neg (by omega), if_neg (by omega),
      if_pos (by omega), trailing_cons, trailing_cons, trailing_cons]
    exact hread (by omega) (by omega)

theorem toChars?_ofChars (s : List Char) : toChars? (ofChars s) = some s := by
  induction s with
  | nil =>
      rw [toChars?]
      rfl
  | cons c s ih =>
      rw [ofChars, List.flatMap_cons, toChars?, ← ofChars]
      split
      next hnone =>
        rw [nextChar?_ofChar_append] at hnone
        cases hnone
      next hsome =>
        rw [nextChar?_ofChar_append] at hsome
        cases hsome
        rw [ih]
        rfl

/-- A text is read back from its octets. -/
theorem toString?_ofString (s : String) : toString? (ofString s) = some s := by
  rw [toString?, ofString, toChars?_ofChars, Option.map_some, String.ofList_toList]

theorem ofString_injective {a b : String} (h : ofString a = ofString b) : a = b := by
  have hread := toString?_ofString a
  rw [h, toString?_ofString] at hread
  exact (Option.some.inj hread).symm

theorem charFrom?_eq_some {least n : Nat} {c : Char} (h : charFrom? least n = some c) :
    least ≤ n ∧ c.toNat = n := by
  unfold charFrom? at h
  split at h
  next hrange =>
    simp only [Bool.and_eq_true, Bool.or_eq_true, decide_eq_true_eq] at hrange
    have hvalid : n.isValidChar := by
      unfold Nat.isValidChar
      omega
    cases h
    exact ⟨hrange.1, by rw [Char.ofNat, dif_pos hvalid]; rfl⟩
  next => cases h

/-- A trailing octet is told by the six bits it carries. -/
theorem exists_trailing {least count n : Nat} {s rest : Octets} {c : Char}
    (h : trailing least (count + 1) n s = some (c, rest)) :
    ∃ m tail, m < 0x40 ∧ s = (0x80 + m).toUInt8 :: tail ∧
      trailing least count (n * 0x40 + m) tail = some (c, rest) := by
  cases s with
  | nil => cases h
  | cons b tail =>
      rw [trailing] at h
      split at h
      next htrailing =>
        simp only [isTrailing, Bool.and_eq_true, decide_eq_true_eq, UInt8.le_iff_toNat_le,
          UInt8.lt_iff_toNat_lt, UInt8.reduceToNat] at htrailing
        refine ⟨payload b, tail, Nat.mod_lt _ (by decide), ?_, h⟩
        have hoctet : 0x80 + payload b = b.toNat := by
          unfold payload
          omega
        rw [hoctet, Nat.toUInt8, UInt8.ofNat_toNat]
      next => cases h

theorem eq_of_trailing_zero {least n : Nat} {s rest : Octets} {c : Char}
    (h : trailing least 0 n s = some (c, rest)) : least ≤ n ∧ c.toNat = n ∧ s = rest := by
  obtain ⟨_, hchar, heq⟩ := Option.map_eq_some_iff.mp h
  cases heq
  obtain ⟨hleast, hnumber⟩ := charFrom?_eq_some hchar
  exact ⟨hleast, hnumber, rfl⟩

/-- What is read as a character are the octets of that character. -/
theorem eq_ofChar_append_of_nextChar? {s rest : Octets} {c : Char}
    (h : nextChar? s = some (c, rest)) : s = ofChar c ++ rest := by
  cases s with
  | nil => cases h
  | cons a tail =>
      have hsize : a.toNat < 0x100 := a.toNat_lt
      obtain ⟨n, hn, rfl⟩ : ∃ n, n < 0x100 ∧ a = n.toUInt8 :=
        ⟨a.toNat, hsize, by rw [Nat.toUInt8, UInt8.ofNat_toNat]⟩
      rw [nextChar?_cons hn] at h
      split at h
      next h1 =>
        cases h
        have hnumber : (Char.ofNat n).toNat = n := by
          rw [Char.ofNat, dif_pos (.inl (by omega))]
          rfl
        simp [ofChar, hnumber, h1]
      split at h
      next h1 h2 =>
        obtain ⟨m, tail, hm, rfl, hend⟩ := exists_trailing h
        obtain ⟨hleast, hnumber, rfl⟩ := eq_of_trailing_zero hend
        have hlead : n = 0xC0 + c.toNat / 0x40 := by omega
        have hlast : m = c.toNat % 0x40 := by omega
        rw [ofChar, if_neg (by omega), if_pos (by omega), ← hlead, ← hlast]
        rfl
      split at h
      next h1 h2 h3 =>
        obtain ⟨m, tail, hm, rfl, hmore⟩ := exists_trailing h
        obtain ⟨k, tail, hk, rfl, hend⟩ := exists_trailing hmore
        obtain ⟨hleast, hnumber, rfl⟩ := eq_of_trailing_zero hend
        have hlead : n = 0xE0 + c.toNat / 0x1000 := by omega
        have hmiddle : m = c.toNat / 0x40 % 0x40 := by omega
        have hlast : k = c.toNat % 0x40 := by omega
        rw [ofChar, if_neg (by omega), if_neg (by omega), if_pos (by omega), ← hlead, ← hmiddle,
          ← hlast]
        rfl
      split at h
      next h1 h2 h3 h4 =>
        obtain ⟨m, tail, hm, rfl, hmore⟩ := exists_trailing h
        obtain ⟨k, tail, hk, rfl, hlater⟩ := exists_trailing hmore
        obtain ⟨j, tail, hj, rfl, hend⟩ := exists_trailing hlater
        obtain ⟨hleast, hnumber, rfl⟩ := eq_of_trailing_zero hend
        have hlead : n = 0xF0 + c.toNat / 0x40000 := by omega
        have hsecond : m = c.toNat / 0x1000 % 0x40 := by omega
        have hthird : k = c.toNat / 0x40 % 0x40 := by omega
        have hlast : j = c.toNat % 0x40 := by omega
        rw [ofChar, if_neg (by omega), if_neg (by omega), if_neg (by omega), ← hlead, ← hsecond,
          ← hthird, ← hlast]
        rfl
      next => cases h

theorem eq_ofChars_of_toChars? {s : Octets} {cs : List Char} (h : toChars? s = some cs) :
    s = ofChars cs := by
  fun_induction toChars? s generalizing cs with
  | case1 s hnext hempty =>
      cases h
      exact List.isEmpty_iff.mp hempty
  | case2 => cases h
  | case3 s c rest hnext _ ih =>
      obtain ⟨cs, hrest, rfl⟩ := Option.map_eq_some_iff.mp h
      rw [eq_ofChar_append_of_nextChar? hnext, ih hrest]
      rfl

/-- Octets are read as a text exactly when they are its octets. -/
theorem toString?_eq_some_iff {s : Octets} {t : String} :
    toString? s = some t ↔ s = ofString t := by
  constructor
  · intro h
    obtain ⟨cs, hcs, rfl⟩ := Option.map_eq_some_iff.mp h
    rw [eq_ofChars_of_toChars? hcs, ofString, String.toList_ofList]
  · rintro rfl
    exact toString?_ofString t

end Extraction.Octets
