/-
  Flowchart.Proofs.JsonScalar

  How strings and numbers are written in a JSON text, and that each is read to its
  end.  A string is a body between quotes.  `IsBody` says which bodies there are,
  `Spelling` what characters a body stands for; a body with half of a surrogate
  pair stands for none.  A string that is asked for is read as the characters of
  its body, if it has any (`readString_body`, `readString_text`), and one that
  nobody asks for is passed over (`skipString_body`).

  A number is read as a numeral that depends on its text alone, whatever follows
  it (`IsNumeral.read`).
-/

import Flowchart.Proofs.JsonValue

namespace Flowchart.Json

/-! ## Blanks -/

/-- The characters that may stand between the tokens of a text. -/
def blanks : List Char :=
  [' ', '\t', '\n', '\r']

/-- Blanks alone. -/
def Blank (space : List Char) : Prop :=
  ∀ c ∈ space, c ∈ blanks

theorem isSpace_iff (c : Char) : isSpace c = true ↔ c ∈ blanks := by
  simp [isSpace, blanks]

theorem blank_nil : Blank [] :=
  fun _ hc => absurd hc List.not_mem_nil

theorem Blank.isSpace {space : List Char} (h : Blank space) : ∀ c ∈ space, isSpace c = true :=
  fun c hc => (isSpace_iff c).mpr (h c hc)

theorem blank_of_all {space : List Char} (h : space.all (· ∈ blanks) = true) : Blank space := by
  simpa [Blank] using h

theorem skipSpace_append {space : List Char} (h : Blank space) (rest : List Char) :
    skipSpace (space ++ rest) = skipSpace rest := by
  rw [skipSpace, List.dropWhile_append_of_pos h.isSpace]
  rfl

theorem skipSpace_blank {space : List Char} (h : Blank space) {c : Char} (hc : isSpace c = false)
    (rest : List Char) : skipSpace (space ++ c :: rest) = c :: rest := by
  rw [skipSpace_append h, skipSpace_cons hc]

/-- What may stand behind a value may do so with blanks in between. -/
theorem closes_append {space : List Char} (h : Blank space) {rest : List Char}
    (hrest : Closes rest) : Closes (space ++ rest) := by
  cases space with
  | nil => exact hrest
  | cons c space =>
    intro d hd
    rw [List.cons_append, List.head?_cons, Option.some.injEq] at hd
    exact .inl (hd ▸ h.isSpace c List.mem_cons_self)

theorem Blank.closes {space : List Char} (h : Blank space) : Closes space := by
  have hcloses := closes_append h closes_nil
  rwa [List.append_nil] at hcloses

/-! ## Strings -/

/-- What stands between the quotes of a string. -/
inductive IsBody : List Char → Prop where
  | nil : IsBody []
  | plain {c : Char} {body : List Char} (hquote : c ≠ '"') (hslash : c ≠ '\\')
      (hcontrol : 0x20 ≤ c.toNat) (h : IsBody body) : IsBody (c :: body)
  | escape {c value : Char} {body : List Char} (hc : plainEscape? c = some value)
      (h : IsBody body) : IsBody ('\\' :: c :: body)
  | unicode {a b c d : Char} {unit : Nat} {body : List Char}
      (hunit : hexValue? a b c d = some unit) (h : IsBody body) :
      IsBody ('\\' :: 'u' :: a :: b :: c :: d :: body)

/-- The characters that a body stands for.  A character may be written as it is, by its escape, or
    by its number, which takes two escapes if it does not fit 16 bits. -/
inductive Spelling : List Char → List Char → Prop where
  | nil : Spelling [] []
  | plain {c : Char} {body chars : List Char} (hquote : c ≠ '"') (hslash : c ≠ '\\')
      (hcontrol : 0x20 ≤ c.toNat) (h : Spelling body chars) : Spelling (c :: body) (c :: chars)
  | escape {c value : Char} {body chars : List Char} (hc : plainEscape? c = some value)
      (h : Spelling body chars) : Spelling ('\\' :: c :: body) (value :: chars)
  | unicode {a b c d : Char} {unit : Nat} {body chars : List Char}
      (hunit : hexValue? a b c d = some unit) (hwhole : unit < 0xD800 ∨ 0xDFFF < unit)
      (h : Spelling body chars) :
      Spelling ('\\' :: 'u' :: a :: b :: c :: d :: body) (Char.ofNat unit :: chars)
  | pair {a b c d a' b' c' d' : Char} {high low : Nat} {body chars : List Char}
      (hhigh : hexValue? a b c d = some high) (hhigh' : 0xD800 ≤ high ∧ high ≤ 0xDBFF)
      (hlow : hexValue? a' b' c' d' = some low) (hlow' : 0xDC00 ≤ low ∧ low ≤ 0xDFFF)
      (h : Spelling body chars) :
      Spelling
        ('\\' :: 'u' :: a :: b :: c :: d :: '\\' :: 'u' :: a' :: b' :: c' :: d' :: body)
        (joinSurrogates high low :: chars)

theorem Spelling.isBody {body chars : List Char} (h : Spelling body chars) : IsBody body := by
  induction h with
  | nil => exact .nil
  | plain hquote hslash hcontrol _ ih => exact .plain hquote hslash hcontrol ih
  | escape hc _ ih => exact .escape hc ih
  | unicode hunit _ _ ih => exact .unicode hunit ih
  | pair hhigh _ hlow _ _ ih => exact .unicode hhigh (.unicode hlow ih)

/-- A string with its quotes. -/
def quoted (body : List Char) : List Char :=
  '"' :: (body ++ ['"'])

theorem quoted_append (body rest : List Char) :
    quoted body ++ rest = '"' :: (body ++ '"' :: rest) := by
  rw [quoted, List.cons_append, List.append_assoc, List.singleton_append]

theorem readHex_spelled {a b c d : Char} {unit : Nat} (h : hexValue? a b c d = some unit)
    (rest : List Char) : readHex (a :: b :: c :: d :: rest) = .ok (unit, rest) := by
  rw [readHex, h]

theorem skipEscape_plain {c value : Char} (h : plainEscape? c = some value) (rest : List Char) :
    skipEscape (c :: rest) = .ok rest := by
  unfold skipEscape
  split
  · next hnil => cases hnil
  · next text htext => exact absurd (List.cons.inj htext).1 (plainEscape?_ne_u h)
  · next c' text _ htext =>
    obtain ⟨rfl, rfl⟩ := List.cons.inj htext
    rw [h]

theorem readString_plain {c : Char} (hquote : c ≠ '"') (hslash : c ≠ '\\')
    (hcontrol : 0x20 ≤ c.toNat) (read text : List Char) :
    readString read (c :: text) = readString (c :: read) text := by
  rw [readString, if_neg hquote, if_neg hslash, if_neg (by omega)]

/-- A string is read as the characters that its body stands for. -/
theorem readString_spelling {body chars : List Char} (h : Spelling body chars)
    (read rest : List Char) :
    readString read (body ++ '"' :: rest)
      = .ok (String.ofList (read.reverse ++ chars), rest) := by
  -- for every `read`, since each step puts one more character there, in reverse
  have hnext : ∀ (c : Char) (chars read : List Char),
      (c :: read).reverse ++ chars = read.reverse ++ c :: chars := by
    intro c chars read
    rw [List.reverse_cons, List.append_assoc, List.singleton_append]
  induction h generalizing read with
  | nil => rw [List.nil_append, readString, if_pos rfl, List.append_nil]
  | plain hquote hslash hcontrol _ ih =>
    rw [List.cons_append, readString_plain hquote hslash hcontrol, ih, hnext]
  | escape hc _ ih =>
    rw [List.cons_append, List.cons_append, readString_backslash (readEscape_plain hc _), ih,
      hnext]
  | @unicode a b c d unit body chars hunit hwhole _ ih =>
    have hread : readEscape ('u' :: a :: b :: c :: d :: (body ++ '"' :: rest))
        = .ok (Char.ofNat unit, body ++ '"' :: rest) := by
      show readUnicode _ = _
      rw [readUnicode, readHex_spelled hunit]
      show (if _ then _ else _) = _
      rw [if_neg (by omega), if_neg (by omega)]
    simp only [List.cons_append]
    rw [readString_backslash hread, ih, hnext]
  | @pair a b c d a' b' c' d' high low body chars hhigh hhigh' hlow hlow' _ ih =>
    have hread : readEscape ('u' :: a :: b :: c :: d ::
          '\\' :: 'u' :: a' :: b' :: c' :: d' :: (body ++ '"' :: rest))
        = .ok (joinSurrogates high low, body ++ '"' :: rest) := by
      show readUnicode _ = _
      rw [readUnicode, readHex_spelled hhigh]
      show (if _ then _ else _) = _
      rw [if_neg (by omega), if_pos hhigh']
      show (readHex _ >>= _) = _
      rw [readHex_spelled hlow]
      show (if _ then _ else _) = _
      rw [if_pos hlow']
    simp only [List.cons_append]
    rw [readString_backslash hread, ih, hnext]

/-- A body stands for one list of characters at most. -/
theorem Spelling.unique {body chars chars' : List Char} (h : Spelling body chars)
    (h' : Spelling body chars') : chars' = chars := by
  have hread := (readString_spelling h' [] []).symm.trans (readString_spelling h [] [])
  rw [Except.ok.injEq, Prod.mk.injEq] at hread
  exact String.ofList_injective hread.1

/-! ### Bodies that are read -/

theorem readString_backslash_ok {read text : List Char} {outcome : String × List Char}
    (h : readString read ('\\' :: text) = .ok outcome) :
    ∃ c rest, readEscape text = .ok (c, rest) ∧ readString (c :: read) rest = .ok outcome := by
  cases hescape : readEscape text with
  | error fault =>
    rw [readString, if_neg (by decide), if_pos rfl] at h
    split at h
    · cases h
    · next c rest hok =>
      rw [hescape] at hok
      cases hok
  | ok first =>
    rw [readString_backslash hescape] at h
    exact ⟨first.1, first.2, rfl, h⟩

theorem readHex_eq_ok {text rest : List Char} {unit : Nat} (h : readHex text = .ok (unit, rest)) :
    ∃ a b c d, text = a :: b :: c :: d :: rest ∧ hexValue? a b c d = some unit := by
  unfold readHex at h
  split at h
  · next a b c d rest' =>
    split at h
    · next value hvalue =>
      cases h
      exact ⟨a, b, c, d, rfl, hvalue⟩
    · cases h
  · cases h

theorem readLowSurrogate_eq_ok {high : Nat} {text rest : List Char} {value : Char}
    (h : readLowSurrogate high text = .ok (value, rest)) :
    ∃ a b c d low, text = '\\' :: 'u' :: a :: b :: c :: d :: rest ∧
      hexValue? a b c d = some low ∧ (0xDC00 ≤ low ∧ low ≤ 0xDFFF) := by
  unfold readLowSurrogate at h
  split at h
  · cases h
  · cases h
  · next text =>
    cases hhex : readHex text with
    | error fault =>
      rw [hhex] at h
      cases h
    | ok first =>
      obtain ⟨low, rest'⟩ := first
      rw [hhex] at h
      change (if _ then _ else _) = _ at h
      by_cases hlow : 0xDC00 ≤ low ∧ low ≤ 0xDFFF
      · rw [if_pos hlow, Except.ok.injEq, Prod.mk.injEq] at h
        rw [h.2] at hhex
        obtain ⟨a, b, c, d, rfl, hvalue⟩ := readHex_eq_ok hhex
        exact ⟨a, b, c, d, low, rfl, hvalue, hlow⟩
      · rw [if_neg hlow] at h
        cases h
  · cases h

/-- A body goes on with an escape by number only if that is how it starts. -/
theorem IsBody.unicode_inv {body rest rest' : List Char} {a b c d : Char} (h : IsBody body)
    (htext : body ++ '"' :: rest = '\\' :: 'u' :: a :: b :: c :: d :: rest') :
    ∃ body', IsBody body' ∧ body = '\\' :: 'u' :: a :: b :: c :: d :: body' ∧
      rest' = body' ++ '"' :: rest := by
  cases h with
  | nil =>
    rw [List.nil_append, List.cons.injEq] at htext
    exact absurd htext.1 (by decide)
  | plain hquote hslash hcontrol h =>
    rw [List.cons_append, List.cons.injEq] at htext
    exact absurd htext.1 hslash
  | escape hc h =>
    rw [List.cons_append, List.cons_append, List.cons.injEq, List.cons.injEq] at htext
    exact absurd htext.2.1 (plainEscape?_ne_u hc)
  | unicode hunit h =>
    simp only [List.cons_append, List.cons.injEq] at htext
    obtain ⟨-, -, rfl, rfl, rfl, rfl, rfl⟩ := htext
    exact ⟨_, h, rfl, rfl⟩

/-- A body that can be read stands for characters. -/
theorem IsBody.exists_spelling {body read rest : List Char} {outcome : String × List Char}
    (h : IsBody body) (hread : readString read (body ++ '"' :: rest) = .ok outcome) :
    ∃ chars, Spelling body chars := by
  -- a surrogate pair takes two escapes at once, so the induction is on the length
  induction hlen : body.length using Nat.strongRecOn generalizing body read with
  | ind n ih =>
    subst hlen
    cases h with
    | nil => exact ⟨[], .nil⟩
    | plain hquote hslash hcontrol h =>
      rw [List.cons_append, readString_plain hquote hslash hcontrol] at hread
      obtain ⟨chars, hspell⟩ := ih _ (Nat.lt_succ_self _) h hread rfl
      exact ⟨_, .plain hquote hslash hcontrol hspell⟩
    | escape hc h =>
      rw [List.cons_append, List.cons_append,
        readString_backslash (readEscape_plain hc _)] at hread
      obtain ⟨chars, hspell⟩ := ih _ (by simp only [List.length_cons]; omega) h hread rfl
      exact ⟨_, .escape hc hspell⟩
    | @unicode a b c d unit body hunit h =>
      simp only [List.cons_append] at hread
      obtain ⟨value, rest', hescape, hread⟩ := readString_backslash_ok hread
      change readUnicode _ = _ at hescape
      rw [readUnicode, readHex_spelled hunit] at hescape
      change (if _ then _ else if _ then _ else _) = _ at hescape
      by_cases hlow : 0xDC00 ≤ unit ∧ unit ≤ 0xDFFF
      · rw [if_pos hlow] at hescape
        cases hescape
      rw [if_neg hlow] at hescape
      by_cases hhigh : 0xD800 ≤ unit ∧ unit ≤ 0xDBFF
      · -- the other half has to follow, and the rest is behind it
        rw [if_pos hhigh] at hescape
        obtain ⟨a', b', c', d', low, htext, hlow, hlow'⟩ := readLowSurrogate_eq_ok hescape
        obtain ⟨body', h', rfl, rfl⟩ := h.unicode_inv htext
        obtain ⟨chars, hspell⟩ := ih _ (by simp only [List.length_cons]; omega) h' hread rfl
        exact ⟨_, .pair hunit hhigh hlow hlow' hspell⟩
      · rw [if_neg hhigh] at hescape
        cases hescape
        obtain ⟨chars, hspell⟩ := ih _ (by simp only [List.length_cons]; omega) h hread rfl
        exact ⟨_, .unicode hunit (by omega) hspell⟩

/-- What is read of a string is what its body stands for. -/
theorem readString_body {body rest rest' : List Char} {value : String} (h : IsBody body)
    (hread : readString [] (body ++ '"' :: rest) = .ok (value, rest')) :
    Spelling body value.toList ∧ rest' = rest := by
  obtain ⟨chars, hspell⟩ := h.exists_spelling hread
  rw [readString_spelling hspell, Except.ok.injEq, Prod.mk.injEq] at hread
  rw [← hread.1, List.reverse_nil, List.nil_append, String.toList_ofList]
  exact ⟨hspell, hread.2.symm⟩

theorem readString_text {body : List Char} {value : String} (h : Spelling body value.toList)
    (rest : List Char) : readString [] (body ++ '"' :: rest) = .ok (value, rest) := by
  rw [readString_spelling h, List.reverse_nil, List.nil_append, String.ofList_toList]

/-! ### Strings that are passed over -/

theorem skipString_backslash {text rest : List Char} (h : skipEscape text = .ok rest) :
    skipString ('\\' :: text) = skipString rest := by
  rw [skipString, if_neg (by decide), if_pos rfl]
  split
  · next fault hfault =>
    rw [h] at hfault
    cases hfault
  · next rest' hrest =>
    rw [h] at hrest
    cases hrest
    rfl

/-- A string is passed over to its closing quote, also one with half of a surrogate pair. -/
theorem skipString_body {body : List Char} (h : IsBody body) (rest : List Char) :
    skipString (body ++ '"' :: rest) = .ok rest := by
  induction h with
  | nil => rw [List.nil_append, skipString, if_pos rfl]
  | plain hquote hslash hcontrol _ ih =>
    rw [List.cons_append, skipString, if_neg hquote, if_neg hslash, if_neg (by omega), ih]
  | escape hc _ ih =>
    rw [List.cons_append, List.cons_append, skipString_backslash (skipEscape_plain hc _), ih]
  | @unicode a b c d unit body hunit _ ih =>
    have hskip : skipEscape ('u' :: a :: b :: c :: d :: (body ++ '"' :: rest))
        = .ok (body ++ '"' :: rest) := by
      show (readHex _ >>= _) = _
      rw [readHex_spelled hunit]
      rfl
    simp only [List.cons_append]
    rw [skipString_backslash hskip, ih]

/-! ## Numbers -/

/-- One digit or more. -/
structure IsDigits (text : List Char) : Prop where
  nonempty : text ≠ []
  digits : ∀ c ∈ text, c.isDigit = true

/-- The digits before the point, where a zero stands alone. -/
structure IsWhole (text : List Char) : Prop extends IsDigits text where
  zero : text.head? = some '0' → text = ['0']

/-- The point and the digits after it, or nothing. -/
inductive IsFraction : List Char → Prop where
  | absent : IsFraction []
  | present {digits : List Char} (h : IsDigits digits) : IsFraction ('.' :: digits)

/-- The mark, the sign and the digits of an exponent, or nothing. -/
inductive IsExponent : List Char → Prop where
  | absent : IsExponent []
  | present {mark : Char} {sign digits : List Char} (hmark : mark = 'e' ∨ mark = 'E')
      (hsign : sign = [] ∨ sign = ['+'] ∨ sign = ['-']) (h : IsDigits digits) :
      IsExponent (mark :: (sign ++ digits))

/-- A number after its sign. -/
inductive IsNumeral : List Char → Prop where
  | parts {whole fraction exponent : List Char} (hwhole : IsWhole whole)
      (hfraction : IsFraction fraction) (hexponent : IsExponent exponent) :
      IsNumeral (whole ++ (fraction ++ exponent))

/-- A number. -/
inductive IsNumber : List Char → Prop where
  | positive {text : List Char} (h : IsNumeral text) : IsNumber text
  | negative {text : List Char} (h : IsNumeral text) : IsNumber ('-' :: text)

theorem IsDigits.readPower {digits : List Char} (h : IsDigits digits) (sign : Int) :
    ∃ power, ∀ atEnd rest, Closes rest →
      readPower atEnd sign (digits ++ rest) = .ok (power, rest) := by
  refine ⟨some (sign * ofDigits (digits.map fun c => c.toNat - 48)), fun atEnd rest hrest => ?_⟩
  rw [Json.readPower, readDigits_append atEnd h.nonempty h.digits hrest.noDigit]
  rfl

/-- The exponent is read as a number that depends on it alone. -/
theorem IsExponent.read {exponent : List Char} (h : IsExponent exponent) :
    ∃ power, ∀ atEnd rest, Closes rest →
      readExponent atEnd (exponent ++ rest) = .ok (power, rest) := by
  cases h with
  | absent => exact ⟨none, fun atEnd rest hrest => readExponent_closes atEnd hrest⟩
  | @present mark sign digits hmark hsign h =>
    rcases hsign with rfl | rfl | rfl
    · obtain ⟨power, hpower⟩ := h.readPower 1
      refine ⟨power, fun atEnd rest hrest => ?_⟩
      rw [← hpower atEnd rest hrest, List.nil_append, List.cons_append]
      obtain ⟨c, digits', rfl⟩ := List.exists_cons_of_ne_nil h.nonempty
      have hdigit := h.digits c List.mem_cons_self
      unfold readExponent
      dsimp only
      rw [if_pos hmark]
      -- a digit is no sign
      split
      · next text htext =>
        rw [(List.cons.inj htext).1] at hdigit
        exact absurd hdigit (by decide)
      · next text htext =>
        rw [(List.cons.inj htext).1] at hdigit
        exact absurd hdigit (by decide)
      · rfl
    · obtain ⟨power, hpower⟩ := h.readPower 1
      refine ⟨power, fun atEnd rest hrest => ?_⟩
      rw [← hpower atEnd rest hrest]
      unfold readExponent
      dsimp only [List.cons_append]
      rw [if_pos hmark]
      rfl
    · obtain ⟨power, hpower⟩ := h.readPower (-1)
      refine ⟨power, fun atEnd rest hrest => ?_⟩
      rw [← hpower atEnd rest hrest]
      unfold readExponent
      dsimp only [List.cons_append]
      rw [if_pos hmark]
      rfl

/-- Behind the digits before the point stands no digit. -/
theorem noDigit_tail {fraction exponent rest : List Char} (hfraction : IsFraction fraction)
    (hexponent : IsExponent exponent) (hrest : Closes rest) :
    NoDigit (fraction ++ (exponent ++ rest)) := by
  intro c hc
  cases hfraction with
  | present _ =>
    cases hc
    decide
  | absent =>
    cases hexponent with
    | absent => exact hrest.noDigit c hc
    | present hmark _ _ =>
      cases hc
      rcases hmark with rfl | rfl <;> decide

theorem IsExponent.noPoint {exponent rest : List Char} (h : IsExponent exponent)
    (hrest : Closes rest) :
    NoDigit (exponent ++ rest) ∧ (exponent ++ rest).head? ≠ some '.' := by
  refine ⟨noDigit_tail .absent h hrest, ?_⟩
  cases h with
  | absent => exact hrest.head?_ne (by decide) (by decide)
  | present hmark _ _ =>
    intro hhead
    cases hhead
    revert hmark
    decide

theorem IsFraction.read {fraction exponent : List Char} (h : IsFraction fraction)
    (hexponent : IsExponent exponent) :
    ∃ places, ∀ atEnd rest, Closes rest →
      readFraction atEnd (fraction ++ (exponent ++ rest)) = .ok (places, exponent ++ rest) := by
  cases h with
  | absent =>
    exact ⟨none, fun atEnd rest hrest => readFraction_none atEnd (hexponent.noPoint hrest).2⟩
  | @present digits h =>
    refine ⟨some (digits.map fun c => c.toNat - 48), fun atEnd rest hrest => ?_⟩
    show (readDigits atEnd (digits ++ (exponent ++ rest)) >>= _) = _
    rw [readDigits_append atEnd h.nonempty h.digits (hexponent.noPoint hrest).1]
    rfl

/-- A number is read to its end, as a numeral that depends on it alone. -/
theorem IsNumeral.read {text : List Char} (h : IsNumeral text) (negative : Bool) :
    ∃ numeral, ∀ atEnd rest, Closes rest →
      readNumeral atEnd negative (text ++ rest) = .ok (numeral, rest) := by
  obtain @⟨whole, fraction, exponent, hwhole, hfraction, hexponent⟩ := h
  obtain ⟨places, hplaces⟩ := hfraction.read hexponent
  obtain ⟨power, hpower⟩ := hexponent.read
  refine ⟨{ negative, whole := whole.map fun c => c.toNat - 48, fraction := places,
            exponent := power }, fun atEnd rest hrest => ?_⟩
  rw [List.append_assoc, List.append_assoc, readNumeral,
    readWhole_append atEnd hwhole.nonempty hwhole.digits hwhole.zero
      (noDigit_tail hfraction hexponent hrest)]
  show (readFraction atEnd _ >>= _) = _
  rw [hplaces atEnd rest hrest]
  show (readExponent atEnd _ >>= _) = _
  rw [hpower atEnd rest hrest]
  rfl

theorem IsNumeral.starts {text : List Char} (h : IsNumeral text) :
    ∃ c rest, text = c :: rest ∧ c.isDigit = true := by
  obtain @⟨whole, fraction, exponent, hwhole, -, -⟩ := h
  obtain ⟨c, whole, rfl⟩ := List.exists_cons_of_ne_nil hwhole.nonempty
  exact ⟨c, _, rfl, hwhole.digits c List.mem_cons_self⟩

end Flowchart.Json
