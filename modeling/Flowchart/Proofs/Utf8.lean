/-
  Flowchart.Proofs.Utf8

  Reading bytes as text accepts just what writing text as bytes produces
  (`ofUtf8_eq_ok`): every text is read back, and bytes that are read are the
  bytes of one text only.

  The reader builds the number of a character from the top, six bits for each
  further byte.  So each of its parts is described by the number `n` that it
  ends with: the bytes it uses up are those that hold the lower bits of `n`
  (`continuation`), and what was read before them holds the upper ones.  The
  bounds on second bytes leave out the numbers that are written with fewer
  bytes, the surrogates, and the numbers beyond the last character.
-/

import Flowchart.Text.Utf8

namespace Flowchart.Text

/-! ## Further bytes of a character -/

theorem toNat_byte {n : Nat} (h : n < 0x100) : (UInt8.ofNat n).toNat = n :=
  UInt8.toNat_ofNat_of_lt' h

/-- The byte that holds the lowest six bits of a number. -/
def continuation (n : Nat) : UInt8 :=
  UInt8.ofNat (0x80 + n % 64)

theorem toNat_continuation (n : Nat) : (continuation n).toNat = 0x80 + n % 64 := by
  rw [continuation, toNat_byte (by omega)]

/-- A byte that continues a character adds the lowest six bits of the number it gives. -/
theorem continuation_iff {high n : Nat} {b : UInt8} :
    isContinuation b.toNat = true ∧ addBits high b = n ↔ n / 64 = high ∧ b = continuation n := by
  unfold addBits
  rw [isContinuation, decide_eq_true_eq]
  constructor
  · rintro ⟨⟨hlow, hhigh⟩, hn⟩
    have hbits : b.toNat = 0x80 + n % 64 := by omega
    constructor
    · omega
    · rw [continuation, ← hbits, UInt8.ofNat_toNat]
  · rintro ⟨hn, rfl⟩
    rw [toNat_continuation]
    omega

/-- What is read behind a test is read if the test is passed. -/
theorem ite_error_eq_ok {ε α : Type} {test : Bool} {outcome : Except ε α} {fault : ε}
    {result : α} :
    (if test then outcome else .error fault) = .ok result ↔
      test = true ∧ outcome = .ok result := by
  cases test with
  | false => simp
  | true => simp

section

variable {bytes rest : List UInt8} {c : Char}

theorem readLastByte_eq_ok {length high : Nat} :
    readLastByte length high bytes = .ok (c, rest) ↔
      ∃ n, n / 64 = high ∧ c = Char.ofNat n ∧ bytes = continuation n :: rest := by
  cases bytes with
  | nil => simp [readLastByte]
  | cons b tail =>
    rw [readLastByte, ite_error_eq_ok]
    constructor
    · rintro ⟨hb, h⟩
      obtain ⟨rfl, rfl⟩ := Prod.mk.inj (Except.ok.inj h)
      obtain ⟨hn, heq⟩ := continuation_iff.mp ⟨hb, rfl⟩
      exact ⟨_, hn, rfl, by rw [← heq]⟩
    · rintro ⟨n, hn, rfl, hbytes⟩
      obtain ⟨rfl, rfl⟩ := List.cons.inj hbytes
      obtain ⟨hb, hadd⟩ := continuation_iff.mpr ⟨hn, rfl⟩
      exact ⟨hb, by rw [hadd]⟩

theorem readTwoOfFour_eq_ok {high : Nat} :
    readTwoOfFour high bytes = .ok (c, rest) ↔
      ∃ n, n / 4096 = high ∧ c = Char.ofNat n ∧
        bytes = continuation (n / 64) :: continuation n :: rest := by
  cases bytes with
  | nil => simp [readTwoOfFour]
  | cons b tail =>
    rw [readTwoOfFour, ite_error_eq_ok, readLastByte_eq_ok]
    constructor
    · rintro ⟨hb, n, hn, rfl, rfl⟩
      obtain ⟨hhigh, heq⟩ := continuation_iff.mp ⟨hb, hn.symm⟩
      exact ⟨n, by omega, rfl, by rw [← heq]⟩
    · rintro ⟨n, hn, rfl, hbytes⟩
      obtain ⟨rfl, rfl⟩ := List.cons.inj hbytes
      have hhigh : n / 64 / 64 = high := by omega
      obtain ⟨hb, hadd⟩ := continuation_iff.mpr ⟨hhigh, rfl⟩
      exact ⟨hb, n, hadd.symm, rfl, rfl⟩

/-! ## Second bytes -/

/-- After the first byte of three, the second leaves out what two bytes hold and the
    surrogates. -/
theorem secondOfThree_iff {a n : Nat} {b : UInt8} (ha : 0xE0 ≤ a) (ha' : a < 0xF0) :
    isSecondOfThree a b.toNat = true ∧ addBits (a - 0xE0) b = n / 64 ↔
      (0x800 ≤ n ∧ n < 0x10000 ∧ n.isValidChar) ∧ 0xE0 + n / 4096 = a ∧
        b = continuation (n / 64) := by
  have hsecond : isSecondOfThree a b.toNat = true ↔ isContinuation b.toNat = true ∧
      (a = 0xE0 → 0xA0 ≤ b.toNat) ∧ (a = 0xED → b.toNat ≤ 0x9F) := by
    rw [isSecondOfThree, isContinuation, decide_eq_true_eq, decide_eq_true_eq]
    split <;> split <;> omega
  rw [hsecond, Nat.isValidChar]
  constructor
  · rintro ⟨⟨hb, hlong, hsurrogate⟩, hadd⟩
    obtain ⟨hhigh, rfl⟩ := continuation_iff.mp ⟨hb, hadd⟩
    rw [toNat_continuation] at hlong hsurrogate
    have hfirst : 0xE0 + n / 4096 = a := by omega
    have hsmall : n < 0x10000 := by omega
    have hlow : 0x800 ≤ n := by omega
    have hvalid : n < 0xD800 ∨ 0xDFFF < n ∧ n < 0x110000 := by omega
    exact ⟨⟨hlow, hsmall, hvalid⟩, hfirst, rfl⟩
  · rintro ⟨⟨hlow, hsmall, hvalid⟩, rfl, rfl⟩
    have hhigh : n / 64 / 64 = 0xE0 + n / 4096 - 0xE0 := by omega
    obtain ⟨hb, hadd⟩ := continuation_iff.mpr ⟨hhigh, rfl⟩
    rw [toNat_continuation]
    rw [toNat_continuation] at hb
    refine ⟨⟨hb, ?_, ?_⟩, hadd⟩ <;> omega

/-- After the first byte of four, the second leaves out what three bytes hold and what is beyond
    the last character. -/
theorem secondOfFour_iff {a n : Nat} {b : UInt8} (ha : 0xF0 ≤ a) (ha' : a < 0xF5) :
    isSecondOfFour a b.toNat = true ∧ addBits (a - 0xF0) b = n / 4096 ↔
      (0x10000 ≤ n ∧ n.isValidChar) ∧ 0xF0 + n / 262144 = a ∧ b = continuation (n / 4096) := by
  have hsecond : isSecondOfFour a b.toNat = true ↔ isContinuation b.toNat = true ∧
      (a = 0xF0 → 0x90 ≤ b.toNat) ∧ (a = 0xF4 → b.toNat ≤ 0x8F) := by
    rw [isSecondOfFour, isContinuation, decide_eq_true_eq, decide_eq_true_eq]
    split <;> split <;> omega
  rw [hsecond, Nat.isValidChar]
  constructor
  · rintro ⟨⟨hb, hlong, hlast⟩, hadd⟩
    obtain ⟨hhigh, rfl⟩ := continuation_iff.mp ⟨hb, hadd⟩
    rw [toNat_continuation] at hlong hlast
    have hfirst : 0xF0 + n / 262144 = a := by omega
    have hlow : 0x10000 ≤ n := by omega
    have hvalid : n < 0xD800 ∨ 0xDFFF < n ∧ n < 0x110000 := by omega
    exact ⟨⟨hlow, hvalid⟩, hfirst, rfl⟩
  · rintro ⟨⟨hlow, hvalid⟩, rfl, rfl⟩
    have hhigh : n / 4096 / 64 = 0xF0 + n / 262144 - 0xF0 := by omega
    obtain ⟨hb, hadd⟩ := continuation_iff.mpr ⟨hhigh, rfl⟩
    rw [toNat_continuation]
    rw [toNat_continuation] at hb
    refine ⟨⟨hb, ?_, ?_⟩, hadd⟩ <;> omega

theorem readTwoOfThree_eq_ok {a : Nat} (ha : 0xE0 ≤ a) (ha' : a < 0xF0) :
    readTwoOfThree a bytes = .ok (c, rest) ↔
      ∃ n, (0x800 ≤ n ∧ n < 0x10000 ∧ n.isValidChar) ∧ 0xE0 + n / 4096 = a ∧ c = Char.ofNat n ∧
        bytes = continuation (n / 64) :: continuation n :: rest := by
  cases bytes with
  | nil => simp [readTwoOfThree]
  | cons b tail =>
    rw [readTwoOfThree, ite_error_eq_ok, readLastByte_eq_ok]
    constructor
    · rintro ⟨hb, n, hn, rfl, rfl⟩
      obtain ⟨hrange, hfirst, heq⟩ := (secondOfThree_iff ha ha').mp ⟨hb, hn.symm⟩
      exact ⟨n, hrange, hfirst, rfl, by rw [← heq]⟩
    · rintro ⟨n, hrange, hfirst, rfl, hbytes⟩
      obtain ⟨rfl, rfl⟩ := List.cons.inj hbytes
      obtain ⟨hb, hadd⟩ := (secondOfThree_iff ha ha').mpr ⟨hrange, hfirst, rfl⟩
      exact ⟨hb, n, hadd.symm, rfl, rfl⟩

theorem readThreeOfFour_eq_ok {a : Nat} (ha : 0xF0 ≤ a) (ha' : a < 0xF5) :
    readThreeOfFour a bytes = .ok (c, rest) ↔
      ∃ n, (0x10000 ≤ n ∧ n.isValidChar) ∧ 0xF0 + n / 262144 = a ∧ c = Char.ofNat n ∧
        bytes = continuation (n / 4096) :: continuation (n / 64) :: continuation n :: rest := by
  cases bytes with
  | nil => simp [readThreeOfFour]
  | cons b tail =>
    rw [readThreeOfFour, ite_error_eq_ok, readTwoOfFour_eq_ok]
    constructor
    · rintro ⟨hb, n, hn, rfl, rfl⟩
      obtain ⟨hrange, hfirst, heq⟩ := (secondOfFour_iff ha ha').mp ⟨hb, hn.symm⟩
      exact ⟨n, hrange, hfirst, rfl, by rw [← heq]⟩
    · rintro ⟨n, hrange, hfirst, rfl, hbytes⟩
      obtain ⟨rfl, rfl⟩ := List.cons.inj hbytes
      obtain ⟨hb, hadd⟩ := (secondOfFour_iff ha ha').mpr ⟨hrange, hfirst, rfl⟩
      exact ⟨hb, n, hadd.symm, rfl, rfl⟩

/-! ## Characters -/

theorem toNat_ofNat_of_valid {n : Nat} (h : n.isValidChar) : (Char.ofNat n).toNat = n := by
  rw [Char.ofNat, dif_pos h]
  rfl

/-- A first byte is the byte of its number. -/
theorem eq_ofNat_of_toNat {b : UInt8} {n : Nat} (h : n = b.toNat) : b = UInt8.ofNat n := by
  rw [h, UInt8.ofNat_toNat]

/-- The bytes that are read as a character are the bytes of that character. -/
theorem utf8Char_of_readUtf8Char {first : UInt8} (h : readUtf8Char first bytes = .ok (c, rest)) :
    first :: bytes = utf8Char c ++ rest := by
  unfold readUtf8Char at h
  dsimp only at h
  split at h
  · next hone =>
    cases h
    have hvalid : first.toNat.isValidChar := Or.inl (by omega)
    rw [utf8Char, toNat_ofNat_of_valid hvalid, if_pos hone, UInt8.ofNat_toNat]
    rfl
  split at h
  · cases h
  split at h
  · next htwo =>
    obtain ⟨n, hn, rfl, rfl⟩ := readLastByte_eq_ok.mp h
    have hvalid : n.isValidChar := Or.inl (by omega)
    have hfirst : first = UInt8.ofNat (0xC0 + n / 64) := eq_ofNat_of_toNat (by omega)
    rw [utf8Char, toNat_ofNat_of_valid hvalid, if_neg (by omega), if_pos (by omega), hfirst]
    rfl
  split at h
  · next hthree =>
    obtain ⟨n, ⟨hlow, hsmall, hvalid⟩, hn, rfl, rfl⟩ :=
      (readTwoOfThree_eq_ok (by omega) hthree).mp h
    have hfirst : first = UInt8.ofNat (0xE0 + n / 4096) := eq_ofNat_of_toNat hn
    rw [utf8Char, toNat_ofNat_of_valid hvalid, if_neg (by omega), if_neg (by omega),
      if_pos hsmall, hfirst]
    rfl
  split at h
  · next hfour =>
    obtain ⟨n, ⟨hlow, hvalid⟩, hn, rfl, rfl⟩ :=
      (readThreeOfFour_eq_ok (by omega) hfour).mp h
    have hfirst : first = UInt8.ofNat (0xF0 + n / 262144) := eq_ofNat_of_toNat hn
    rw [utf8Char, toNat_ofNat_of_valid hvalid, if_neg (by omega), if_neg (by omega),
      if_neg (by omega), hfirst]
    rfl
  · cases h

end

/-- Written as bytes, a character has a first byte. -/
theorem utf8Char_ne_nil (c : Char) : utf8Char c ≠ [] := by
  unfold utf8Char
  dsimp only
  split
  · exact List.cons_ne_nil _ _
  split
  · exact List.cons_ne_nil _ _
  split
  · exact List.cons_ne_nil _ _
  · exact List.cons_ne_nil _ _

/-- The bytes of a character are read back, whatever follows them. -/
theorem readUtf8Char_utf8Char {c : Char} {first : UInt8} {bytes rest : List UInt8}
    (h : first :: bytes = utf8Char c ++ rest) : readUtf8Char first bytes = .ok (c, rest) := by
  have hvalid : c.toNat.isValidChar := c.valid
  have hc : c = Char.ofNat c.toNat := (Char.ofNat_toNat c).symm
  have hlast : c.toNat < 0x110000 := by
    rw [Nat.isValidChar] at hvalid
    omega
  -- one case for each number of bytes; the first byte alone tells which it is
  unfold utf8Char at h
  dsimp only at h
  unfold readUtf8Char
  dsimp only
  split at h
  · next hone =>
    obtain ⟨rfl, rfl⟩ := List.cons.inj h
    have hfirst : (UInt8.ofNat c.toNat).toNat = c.toNat := toNat_byte (by omega)
    rw [hfirst, if_pos hone, Char.ofNat_toNat]
  split at h
  · next htwo =>
    obtain ⟨rfl, rfl⟩ := List.cons.inj h
    have hfirst : (UInt8.ofNat (0xC0 + c.toNat / 64)).toNat = 0xC0 + c.toNat / 64 :=
      toNat_byte (by omega)
    rw [hfirst, if_neg (by omega), if_neg (by omega), if_pos (by omega)]
    exact readLastByte_eq_ok.mpr ⟨c.toNat, by omega, hc, rfl⟩
  split at h
  · next hthree =>
    obtain ⟨rfl, rfl⟩ := List.cons.inj h
    have hfirst : (UInt8.ofNat (0xE0 + c.toNat / 4096)).toNat = 0xE0 + c.toNat / 4096 :=
      toNat_byte (by omega)
    rw [hfirst, if_neg (by omega), if_neg (by omega), if_neg (by omega), if_pos (by omega)]
    exact (readTwoOfThree_eq_ok (by omega) (by omega)).mpr
      ⟨c.toNat, ⟨by omega, hthree, hvalid⟩, rfl, hc, rfl⟩
  · next hfour =>
    obtain ⟨rfl, rfl⟩ := List.cons.inj h
    have hfirst : (UInt8.ofNat (0xF0 + c.toNat / 262144)).toNat = 0xF0 + c.toNat / 262144 :=
      toNat_byte (by omega)
    rw [hfirst, if_neg (by omega), if_neg (by omega), if_neg (by omega), if_neg (by omega),
      if_pos (by omega)]
    exact (readThreeOfFour_eq_ok (by omega) (by omega)).mpr
      ⟨c.toNat, ⟨by omega, hvalid⟩, rfl, hc, rfl⟩

/-! ## Texts -/

/-- Reading goes on from what has been read to the end, or finds bytes that are no text. -/
theorem readUtf8_eq_ok {valid : Nat} {read : List Char} {bytes : List UInt8} {text : String} :
    readUtf8 valid read bytes = .ok text ↔
      ∃ chars, bytes = chars.flatMap utf8Char ∧ text = String.ofList (read.reverse ++ chars) := by
  fun_induction readUtf8 valid read bytes with
  | case1 valid read =>
    constructor
    · intro h
      cases h
      exact ⟨[], rfl, by rw [List.append_nil]⟩
    · rintro ⟨chars, hchars, rfl⟩
      cases chars with
      | nil => rw [List.append_nil]
      | cons c chars =>
        have hnil := List.append_eq_nil_iff.mp hchars.symm
        exact absurd hnil.1 (utf8Char_ne_nil c)
  | case2 valid read first rest badLength hchar =>
    constructor
    · intro h
      cases h
    · rintro ⟨chars, hchars, -⟩
      cases chars with
      | nil => cases hchars
      | cons c chars =>
        rw [readUtf8Char_utf8Char hchars] at hchar
        cases hchar
  | case3 valid read first rest c rest' hchar hlength ih =>
    rw [ih]
    constructor
    · rintro ⟨chars, hchars, rfl⟩
      refine ⟨c :: chars, ?_, ?_⟩
      · rw [utf8Char_of_readUtf8Char hchar, List.flatMap_cons, hchars]
      · rw [List.reverse_cons, List.append_assoc, List.singleton_append]
    · rintro ⟨chars, hchars, rfl⟩
      cases chars with
      | nil => cases hchars
      | cons c' chars =>
        -- the bytes start with those of one character only
        rw [readUtf8Char_utf8Char hchars] at hchar
        cases hchar
        refine ⟨chars, rfl, ?_⟩
        rw [List.reverse_cons, List.append_assoc, List.singleton_append]

/-- The bytes of a text, and no others, are read as that text. -/
theorem ofUtf8_eq_ok {bytes : List UInt8} {text : String} :
    ofUtf8 bytes = .ok text ↔ bytes = utf8Bytes text := by
  rw [ofUtf8, readUtf8_eq_ok, List.reverse_nil]
  constructor
  · rintro ⟨chars, rfl, rfl⟩
    rw [utf8Bytes, List.nil_append, String.toList_ofList]
  · intro h
    refine ⟨text.toList, h, ?_⟩
    rw [List.nil_append, String.ofList_toList]

/-! ## Lengths -/

/-- The bytes of a character are the usual ones. -/
theorem utf8Char_eq (c : Char) : utf8Char c = String.utf8EncodeChar c := by
  have hvalid : c.toNat.isValidChar := c.valid
  have hlast : c.toNat < 0x110000 := by
    rw [Nat.isValidChar] at hvalid
    omega
  have hval : c.val.toNat = c.toNat := rfl
  unfold utf8Char String.utf8EncodeChar
  dsimp only
  rw [hval]
  split
  · rw [if_pos (by omega)]
  split
  · have hfirst : c.toNat / 64 % 32 + 192 = 0xC0 + c.toNat / 64 := by omega
    rw [if_neg (by omega), if_pos (by omega), hfirst, Nat.add_comm 0x80]
  split
  · have hfirst : c.toNat / 4096 % 16 + 224 = 0xE0 + c.toNat / 4096 := by omega
    rw [if_neg (by omega), if_neg (by omega), if_pos (by omega), hfirst,
      Nat.add_comm 0x80 (c.toNat / 64 % 64), Nat.add_comm 0x80 (c.toNat % 64)]
  · have hfirst : c.toNat / 262144 % 8 + 240 = 0xF0 + c.toNat / 262144 := by omega
    rw [if_neg (by omega), if_neg (by omega), if_neg (by omega), hfirst,
      Nat.add_comm 0x80 (c.toNat / 4096 % 64), Nat.add_comm 0x80 (c.toNat / 64 % 64),
      Nat.add_comm 0x80 (c.toNat % 64)]

theorem length_utf8Bytes (text : String) : (utf8Bytes text).length = text.utf8ByteSize := by
  have hencode : utf8Char = String.utf8EncodeChar := funext utf8Char_eq
  rw [String.utf8ByteSize, ← String.utf8Encode_toList, List.utf8Encode, List.size_toByteArray,
    utf8Bytes, hencode]

end Flowchart.Text
