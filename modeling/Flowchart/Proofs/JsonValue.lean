/-
  Flowchart.Proofs.JsonValue

  Written values are read back.  `Reader.Reads` says that a reader takes a text
  for a value whatever follows it, as long as what follows may stand behind a
  value; there is one lemma for each sort of value that is written (strings,
  numbers, words, values that may be null, lists).

  In a string every character that is escaped is one that the reader would not
  take by itself, and its escape is read as that character (`readString_escape`).
  A number is the one value that does not show its own end: it ends where no
  digit, point or mark of an exponent follows, and none of them can stand behind
  a value (`Closes`).
-/

import Mathlib.Data.List.Basic
import Flowchart.Json.Value
import Flowchart.Json.Writer

namespace Flowchart.Json

variable {α β : Type}

/-! ## Behind a value -/

/-- What may stand behind a value: nothing, a blank, a comma, or the bracket that closes a list
    or an object. -/
def Closes (rest : List Char) : Prop :=
  ∀ c, rest.head? = some c → isSpace c = true ∨ c = ',' ∨ c = ']' ∨ c = '\x7d'

theorem closes_nil : Closes [] := by
  intro c h
  cases h

theorem closes_cons {c : Char} (h : c = ',' ∨ c = ']' ∨ c = '\x7d') (rest : List Char) :
    Closes (c :: rest) := by
  intro d hd
  rw [List.head?_cons, Option.some.injEq] at hd
  rw [← hd]
  exact .inr h

/-- The reader takes the text for the value and leaves what follows. -/
def Reader.Reads (reader : Reader α) (text : List Char) (value : α) : Prop :=
  ∀ rest, Closes rest → reader.run (text ++ rest) = .ok (value, rest)

theorem Reader.Reads.map {reader : Reader α} {text : List Char} {value : α}
    (h : reader.Reads text value) (f : α → β) : (reader.map f).Reads text (f value) := by
  intro rest hrest
  show (reader.run (text ++ rest) >>= _) = _
  rw [h rest hrest]
  rfl

/-- A reader takes no blanks at the start of a text that starts with none. -/
theorem skipSpace_cons {c : Char} (h : isSpace c = false) (rest : List Char) :
    skipSpace (c :: rest) = c :: rest := by
  rw [skipSpace, List.dropWhile_cons_of_neg]
  rw [h]
  exact Bool.false_ne_true

theorem afterSpace_run_cons {c : Char} (h : isSpace c = false) (rest : List Char)
    (run : List Char → Except Fault (α × List Char))
    (below : ∀ text, Below text.length (run text)) :
    (afterSpace run below).run (c :: rest) = run (c :: rest) := by
  show run (skipSpace (c :: rest)) = _
  rw [skipSpace_cons h]

/-! ## Strings -/

theorem hexDigit?_hexChar {n : Nat} (h : n < 16) : hexDigit? (hexChar n) = some n := by
  have hall : ∀ n < 16, hexDigit? (hexChar n) = some n := by decide
  exact hall n h

/-- The escape of a control character spells its number. -/
theorem hexValue?_control {n : Nat} (h : n < 0x20) :
    hexValue? '0' '0' (hexChar (n / 16)) (hexChar (n % 16)) = some n := by
  have hzero : hexDigit? '0' = some 0 := by decide
  have hhigh : hexDigit? (hexChar (n / 16)) = some (n / 16) := hexDigit?_hexChar (by omega)
  have hlow : hexDigit? (hexChar (n % 16)) = some (n % 16) := hexDigit?_hexChar (by omega)
  have hvalue : ((0 * 16 + 0) * 16 + n / 16) * 16 + n % 16 = n := by omega
  rw [hexValue?, hzero, hhigh, hlow]
  show some _ = some n
  rw [hvalue]

theorem plainEscape?_ne_u {c value : Char} (h : plainEscape? c = some value) : c ≠ 'u' := by
  rintro rfl
  cases h

theorem readEscape_plain {c value : Char} (h : plainEscape? c = some value) (rest : List Char) :
    readEscape (c :: rest) = .ok (value, rest) := by
  unfold readEscape
  split
  · next hnil => cases hnil
  · next text htext => exact absurd (List.cons.inj htext).1 (plainEscape?_ne_u h)
  · next c' text _ htext =>
    obtain ⟨rfl, rfl⟩ := List.cons.inj htext
    rw [h]

theorem readEscape_control {c : Char} (h : c.toNat < 0x20) (rest : List Char) :
    readEscape (['u', '0', '0', hexChar (c.toNat / 16), hexChar (c.toNat % 16)] ++ rest)
      = .ok (c, rest) := by
  show readUnicode ('0' :: '0' :: hexChar (c.toNat / 16) :: hexChar (c.toNat % 16) :: rest) = _
  rw [readUnicode, readHex, hexValue?_control h]
  -- a number this small is no half of a surrogate pair
  show (if _ then _ else _) = _
  rw [if_neg (by omega), if_neg (by omega), Char.ofNat_toNat]

/-- A backslash and what follows it are read as one character. -/
theorem readString_backslash {read text rest : List Char} {c : Char}
    (h : readEscape text = .ok (c, rest)) :
    readString read ('\\' :: text) = readString (c :: read) rest := by
  rw [readString, if_neg (by decide), if_pos rfl]
  split
  · next fault hfault =>
    rw [h] at hfault
    cases hfault
  · next value rest' hvalue =>
    rw [h] at hvalue
    cases hvalue
    rfl

/-- A character is written behind a backslash, by the letter that stands for it or by its number,
    or as it is. -/
theorem escape_cases (c : Char) :
    (∃ letter, plainEscape? letter = some c ∧ escape c = ['\\', letter]) ∨
    (c.toNat < 0x20 ∧
      escape c = '\\' :: ['u', '0', '0', hexChar (c.toNat / 16), hexChar (c.toNat % 16)]) ∨
    ((c ≠ '"' ∧ c ≠ '\\' ∧ 0x20 ≤ c.toNat) ∧ escape c = [c]) := by
  by_cases hletter : c ∈ ['"', '\\', '\x08', '\x0c', '\n', '\r', '\t']
  · left
    simp only [List.mem_cons, List.not_mem_nil, or_false] at hletter
    rcases hletter with rfl | rfl | rfl | rfl | rfl | rfl | rfl <;> exact ⟨_, rfl, rfl⟩
  · right
    simp only [List.mem_cons, List.not_mem_nil, or_false, not_or] at hletter
    obtain ⟨hquote, hslash, hback, hfeed, hline, hreturn, htab⟩ := hletter
    rw [escape, if_neg hquote, if_neg hslash, if_neg hback, if_neg hfeed, if_neg hline,
      if_neg hreturn, if_neg htab]
    by_cases hcontrol : c.toNat < 0x20
    · rw [if_pos hcontrol]
      exact .inl ⟨hcontrol, rfl⟩
    · rw [if_neg hcontrol]
      exact .inr ⟨⟨hquote, hslash, by omega⟩, rfl⟩

/-- A character inside a written string is read as that character. -/
theorem readString_escape (read : List Char) (c : Char) (text : List Char) :
    readString read (escape c ++ text) = readString (c :: read) text := by
  rcases escape_cases c with ⟨letter, hletter, hc⟩ | ⟨hcontrol, hc⟩ | ⟨⟨hquote, hslash, hplain⟩, hc⟩
  · rw [hc]
    exact readString_backslash (readEscape_plain hletter text)
  · rw [hc]
    exact readString_backslash (readEscape_control hcontrol text)
  · rw [hc, List.singleton_append, readString, if_neg hquote, if_neg hslash, if_neg (by omega)]

theorem readString_escapes (read chars rest : List Char) :
    readString read (chars.flatMap escape ++ '"' :: rest)
      = .ok (String.ofList (read.reverse ++ chars), rest) := by
  -- for every `read`, since each step puts one more character there, in reverse
  induction chars generalizing read with
  | nil =>
    rw [List.flatMap_nil, List.nil_append, readString, if_pos rfl, List.append_nil]
  | cons c chars ih =>
    rw [List.flatMap_cons, List.append_assoc, readString_escape, ih, List.reverse_cons,
      List.append_assoc, List.singleton_append]

/-- A written string is read back after its opening quote. -/
theorem readString_writeString (text : String) (rest : List Char) :
    ∃ written, writeString text ++ rest = '"' :: written ∧
      readString [] written = .ok (text, rest) := by
  refine ⟨text.toList.flatMap escape ++ '"' :: rest, ?_, ?_⟩
  · rw [writeString, List.append_assoc, List.append_assoc]
    rfl
  · rw [readString_escapes, List.reverse_nil, List.nil_append, String.ofList_toList]

theorem reads_string (text : String) : string.Reads (writeString text) text := by
  intro rest _
  obtain ⟨written, hwritten, hread⟩ := readString_writeString text rest
  rw [hwritten, string, afterSpace_run_cons (by decide)]
  exact hread

/-! ## Numbers -/

/-- The text does not go on with a digit. -/
def NoDigit (rest : List Char) : Prop :=
  ∀ c, rest.head? = some c → c.isDigit = false

theorem isSpace_of_isDigit {c : Char} (h : c.isDigit = true) : isSpace c = false := by
  rw [isSpace, decide_eq_false_iff_not]
  rintro (rfl | rfl | rfl | rfl) <;> revert h <;> decide

theorem Closes.noDigit {rest : List Char} (h : Closes rest) : NoDigit rest := by
  intro c hc
  by_contra hdigit
  rw [Bool.not_eq_false] at hdigit
  rcases h c hc with hspace | rfl | rfl | rfl
  · rw [isSpace_of_isDigit hdigit] at hspace
    cases hspace
  all_goals
    revert hdigit
    decide

theorem takeWhile_noDigit {rest : List Char} (h : NoDigit rest) :
    rest.takeWhile Char.isDigit = [] ∧ rest.dropWhile Char.isDigit = rest := by
  cases rest with
  | nil => exact ⟨rfl, rfl⟩
  | cons c rest =>
    have hc : ¬ c.isDigit = true := by
      rw [h c rfl]
      exact Bool.false_ne_true
    exact ⟨List.takeWhile_cons_of_neg hc, List.dropWhile_cons_of_neg hc⟩

theorem leadingDigits_append {digits rest : List Char} (hdigits : ∀ c ∈ digits, c.isDigit = true)
    (hrest : NoDigit rest) :
    leadingDigits (digits ++ rest) = digits.map fun c => c.toNat - 48 := by
  rw [leadingDigits, List.takeWhile_append_of_pos hdigits, (takeWhile_noDigit hrest).1,
    List.append_nil]

theorem afterDigits_append {digits rest : List Char} (hdigits : ∀ c ∈ digits, c.isDigit = true)
    (hrest : NoDigit rest) : afterDigits (digits ++ rest) = rest := by
  rw [afterDigits, List.dropWhile_append_of_pos hdigits, (takeWhile_noDigit hrest).2]

/-- Digits are read to the last. -/
theorem readDigits_append {digits rest : List Char} (atEnd : Fault) (hne : digits ≠ [])
    (hdigits : ∀ c ∈ digits, c.isDigit = true) (hrest : NoDigit rest) :
    readDigits atEnd (digits ++ rest) = .ok (digits.map fun c => c.toNat - 48, rest) := by
  obtain ⟨c, digits, rfl⟩ := List.exists_cons_of_ne_nil hne
  rw [← leadingDigits_append hdigits hrest]
  rw [List.cons_append, readDigits, if_pos (hdigits c List.mem_cons_self), ← List.cons_append,
    afterDigits_append hdigits hrest]

/-- So are those before the point, unless a zero stands before others. -/
theorem readWhole_append {digits rest : List Char} (atEnd : Fault) (hne : digits ≠ [])
    (hdigits : ∀ c ∈ digits, c.isDigit = true) (hzero : digits.head? = some '0' → digits = ['0'])
    (hrest : NoDigit rest) :
    readWhole atEnd (digits ++ rest) = .ok (digits.map fun c => c.toNat - 48, rest) := by
  have hread := readDigits_append atEnd hne hdigits hrest
  obtain ⟨c, digits, rfl⟩ := List.exists_cons_of_ne_nil hne
  unfold readWhole
  split
  · next d rest' htext =>
    -- behind a zero stands nothing but what follows the value
    rw [List.cons_append] at htext
    obtain ⟨rfl, htail⟩ := List.cons.inj htext
    obtain ⟨-, rfl⟩ := List.cons.inj (hzero rfl)
    rw [List.nil_append] at htail
    subst htail
    rw [hrest d rfl, if_neg Bool.false_ne_true]
    rfl
  · exact hread

theorem readFraction_none {rest : List Char} (atEnd : Fault) (hpoint : rest.head? ≠ some '.') :
    readFraction atEnd rest = .ok (none, rest) := by
  rw [readFraction]
  intro text htext
  exact hpoint (by rw [htext, List.head?_cons])

theorem Closes.head?_ne {rest : List Char} (h : Closes rest) {c : Char} (hspace : isSpace c = false)
    (hc : ¬ (c = ',' ∨ c = ']' ∨ c = '\x7d')) : rest.head? ≠ some c := by
  intro hhead
  rcases h c hhead with hblank | hclose
  · rw [hspace] at hblank
    cases hblank
  · exact hc hclose

theorem readFraction_closes {rest : List Char} (atEnd : Fault) (hrest : Closes rest) :
    readFraction atEnd rest = .ok (none, rest) :=
  readFraction_none atEnd (hrest.head?_ne (by decide) (by decide))

theorem readExponent_closes {rest : List Char} (atEnd : Fault) (hrest : Closes rest) :
    readExponent atEnd rest = .ok (none, rest) := by
  cases rest with
  | nil => rfl
  | cons c rest =>
    have hmark : ¬(c = 'e' ∨ c = 'E') := by
      rintro (rfl | rfl)
      · exact hrest.head?_ne (by decide) (by decide) rfl
      · exact hrest.head?_ne (by decide) (by decide) rfl
    unfold readExponent
    dsimp only
    rw [if_neg hmark]

theorem le_foldl_digits (n : Nat) (digits : List Nat) :
    n ≤ digits.foldl (fun n d => n * 10 + d) n := by
  induction digits generalizing n with
  | nil => exact Nat.le_refl n
  | cons d digits ih =>
    have hstep : n ≤ n * 10 + d := by omega
    exact Nat.le_trans hstep (ih (n * 10 + d))

/-- Digits whose number fits 64 bits are all used. -/
theorem appendDigits_of_lt (n : Nat) (digits : List Nat)
    (h : digits.foldl (fun n d => n * 10 + d) n < UInt64.size) :
    appendDigits n digits = (digits.foldl (fun n d => n * 10 + d) n, []) := by
  induction digits generalizing n with
  | nil => rfl
  | cons d digits ih =>
    rw [List.foldl_cons] at h
    have hfits : n * 10 + d < UInt64.size := Nat.lt_of_le_of_lt (le_foldl_digits _ digits) h
    rw [appendDigits, if_pos hfits, ih _ h, List.foldl_cons]

/-- The digits of a number, the highest first. -/
def digitsOf (n : Nat) : List Nat :=
  (Nat.toDigits 10 n).map fun c => c.toNat - 48

/-- The digits of a number spell it. -/
theorem foldl_digitsOf (n : Nat) : (digitsOf n).foldl (fun n d => n * 10 + d) 0 = n := by
  have hspell : Nat.ofDigitChars 10 (Nat.toDigits 10 n) 0 = n := Nat.ofDigitChars_ten_toDigits
  rw [Nat.ofDigitChars_eq_foldl] at hspell
  rw [digitsOf, List.foldl_map]
  simp only [Nat.mul_comm _ 10]
  exact hspell

/-- Zero is the one number whose digits start with a zero. -/
theorem head?_toDigits_ne_zero {n : Nat} (h : 0 < n) : (Nat.toDigits 10 n).head? ≠ some '0' := by
  induction n using Nat.strongRecOn with
  | ind n ih =>
    by_cases hsmall : n < 10
    · have hall : ∀ d < 10, 0 < d → [Nat.digitChar d].head? ≠ some '0' := by decide
      rw [Nat.toDigits_of_lt_base hsmall]
      exact hall n hsmall h
    · -- the last digit comes off the end, so the first one is that of a tenth of the number
      have hhead : (Nat.toDigits 10 (n / 10)).head? ≠ some '0' := ih (n / 10) (by omega) (by omega)
      rw [Nat.toDigits_of_base_le (by decide) (by omega)]
      rw [List.head?_append_of_ne_nil _ Nat.toDigits_ne_nil]
      exact hhead

theorem readNumeral_toDigits (n : Nat) {rest : List Char} (atEnd : Fault) (hrest : Closes rest) :
    readNumeral atEnd false (Nat.toDigits 10 n ++ rest)
      = .ok ({ negative := false, whole := digitsOf n, fraction := none, exponent := none },
          rest) := by
  have hdigits : ∀ c ∈ Nat.toDigits 10 n, c.isDigit = true := by
    intro c hc
    exact Nat.isDigit_of_mem_toDigits (by decide) (by decide) hc
  have hzero : (Nat.toDigits 10 n).head? = some '0' → Nat.toDigits 10 n = ['0'] := by
    intro hhead
    by_cases hn : 0 < n
    · exact absurd hhead (head?_toDigits_ne_zero hn)
    · have hn : n = 0 := by omega
      rw [hn]
      rfl
  rw [readNumeral, readWhole_append atEnd Nat.toDigits_ne_nil hdigits hzero hrest.noDigit]
  show (readFraction atEnd rest >>= _) = _
  rw [readFraction_closes atEnd hrest]
  show (readExponent atEnd rest >>= _) = _
  rw [readExponent_closes atEnd hrest]
  rfl

/-- Digits alone stand for the integer they spell, if it fits 64 bits. -/
theorem value_digitsOf {n : Nat} (h : n < UInt64.size) :
    Numeral.value { negative := false, whole := digitsOf n, fraction := none, exponent := none }
      = .ok (.integer n) := by
  have happend : appendDigits 0 (digitsOf n) = (n, []) := by
    rw [appendDigits_of_lt 0 (digitsOf n) (by rw [foldl_digitsOf]; exact h), foldl_digitsOf]
  rw [Numeral.value]
  dsimp only
  rw [happend]
  rfl

theorem readNumber_toDigits {n : Nat} {rest : List Char} (h : n < UInt64.size)
    (hrest : Closes rest) :
    readNumber false (Nat.toDigits 10 n ++ rest) = .ok (.integer n, rest) := by
  rw [readNumber, readNumeral_toDigits n .endInValue hrest]
  dsimp only
  rw [value_digitsOf h]

theorem word32_toNat (n : UInt32) : word32 (.integer n.toNat) = .ok n := by
  have hrange : (0 : Int) ≤ n.toNat ∧ (n.toNat : Int) < UInt32.size :=
    ⟨Int.natCast_nonneg _, Int.ofNat_lt.mpr n.toNat_lt_size⟩
  rw [word32, if_pos hrange, Int.toNat_natCast, UInt32.ofNat_toNat]

theorem readWord32_of_ok {negative : Bool} {text rest : List Char} {found : Found} {n : UInt32}
    (hnumber : readNumber negative text = .ok (found, rest)) (hword : word32 found = .ok n) :
    readWord32 negative text = .ok (n, rest) := by
  rw [readWord32, hnumber]
  dsimp only
  rw [hword]

theorem reads_natural32 (n : UInt32) : natural32.Reads (Nat.repr n.toNat).toList n := by
  intro rest hrest
  have hfits : n.toNat < UInt64.size := Nat.lt_trans n.toNat_lt_size (by decide)
  have hread := readWord32_of_ok (readNumber_toDigits hfits hrest) (word32_toNat n)
  have hne : Nat.toDigits 10 n.toNat ≠ [] := Nat.toDigits_ne_nil
  obtain ⟨c, digits, hdigits⟩ := List.exists_cons_of_ne_nil hne
  have hmem : c ∈ Nat.toDigits 10 n.toNat := by
    rw [hdigits]
    exact List.mem_cons_self
  have hdigit : c.isDigit = true := Nat.isDigit_of_mem_toDigits (by decide) (by decide) hmem
  have hminus : c ≠ '-' := by
    rintro rfl
    revert hdigit
    decide
  rw [hdigits, List.cons_append] at hread
  rw [Nat.toList_repr, hdigits, List.cons_append, natural32,
    afterSpace_run_cons (isSpace_of_isDigit hdigit)]
  dsimp only
  rw [if_neg hminus, if_pos hdigit, hread]

/-! ## Words and null -/

theorem reads_word {words : Words α} {word : String} {value : α}
    (h : words.value word = .ok value) : words.reader.Reads (writeString word) value := by
  intro rest _
  obtain ⟨written, hwritten, hread⟩ := readString_writeString word rest
  rw [hwritten, Words.reader, afterSpace_run_cons (by decide)]
  dsimp only
  rw [if_pos rfl, Words.read, hread]
  dsimp only
  rw [h]

/-- The text opens with a quote or a brace, which neither `null` nor the end of a list does. -/
def Opens (text : List Char) : Prop :=
  ∃ c rest, text = c :: rest ∧ (c = '"' ∨ c = '\x7b')

theorem opens_writeString (text : String) : Opens (writeString text) :=
  ⟨'"', _, rfl, .inl rfl⟩

theorem opens_writeObject (members : List (String × List Char)) : Opens (writeObject members) :=
  ⟨'\x7b', _, rfl, .inr rfl⟩

theorem reads_nullable {reader : Reader α} {write : α → List Char}
    (hopens : ∀ value, Opens (write value)) (hreads : ∀ value, reader.Reads (write value) value)
    (value : Option α) : (nullable reader).Reads (writeNullable write value) value := by
  intro rest hrest
  cases value with
  | none => rfl
  | some value =>
    obtain ⟨c, text, htext, hc⟩ := hopens value
    have hread := (hreads value).map some rest hrest
    -- the first character of the value alone keeps it from being taken for `null`
    have hspace : isSpace c = false := by
      rcases hc with rfl | rfl <;> decide
    have hnull : c ≠ 'n' := by
      rcases hc with rfl | rfl <;> decide
    rw [writeNullable]
    rw [htext, List.cons_append] at hread ⊢
    rw [nullable, afterSpace_run_cons hspace]
    split
    · next rest' hcons =>
      exact absurd (List.cons.inj hcons).1 hnull
    · exact hread

/-! ## Lists -/

theorem joinWith_cons (separator part : List Char) (parts : List (List Char)) :
    joinWith separator (part :: parts) = part ++ parts.flatMap (separator ++ ·) := by
  induction parts generalizing part with
  | nil => rw [joinWith, List.flatMap_nil, List.append_nil]
  | cons next parts ih =>
    rw [joinWith, ih, List.flatMap_cons, List.append_assoc, List.append_assoc]
    intro h
    cases h

theorem joinWith_comma (part : List Char) (parts : List (List Char)) :
    joinWith [','] (part :: parts) = part ++ parts.flatMap (',' :: ·) :=
  joinWith_cons [','] part parts

/-- What follows an item: the further items, each after a comma, and the closing bracket. -/
theorem closes_flatMap {c : Char} (hc : c = ']' ∨ c = '\x7d') (parts : List (List Char))
    (rest : List Char) : Closes (parts.flatMap (',' :: ·) ++ c :: rest) := by
  cases parts with
  | nil => exact closes_cons (.inr hc) rest
  | cons part parts => exact closes_cons (.inl rfl) _

theorem readItems_bracket (item : Reader α) (first : Bool) (read : List α) (rest : List Char) :
    readItems item first read (']' :: rest) = .ok (read.reverse, rest) := by
  have hnext : nextItem first (']' :: rest) = .ok none := rfl
  have hend : endList (']' :: rest) = .ok rest := rfl
  rw [readItems]
  split
  · next fault h =>
    rw [hnext] at h
    cases h
  · rw [hend]
  · next text h =>
    rw [hnext] at h
    cases h

/-- One item is read. -/
theorem readItems_step {item : Reader α} {first : Bool} {text text' rest : List Char} {value : α}
    (read : List α) (hnext : nextItem first text = .ok (some text'))
    (hitem : item.run text' = .ok (value, rest)) :
    readItems item first read text = readItems item false (value :: read) rest := by
  rw [readItems]
  split
  · next fault h =>
    rw [hnext] at h
    cases h
  · next h =>
    rw [hnext] at h
    cases h
  · next text h =>
    rw [hnext] at h
    cases h
    split
    · next fault h =>
      rw [hitem] at h
      cases h
    · next value' rest' h =>
      rw [hitem] at h
      cases h
      rfl

theorem nextItem_first {text : List Char} (h : Opens text) (rest : List Char) :
    nextItem true (text ++ rest) = .ok (some (text ++ rest)) := by
  obtain ⟨c, text, rfl, rfl | rfl⟩ := h <;> rfl

theorem nextItem_comma {text : List Char} (h : Opens text) (rest : List Char) :
    nextItem false (',' :: (text ++ rest)) = .ok (some (text ++ rest)) := by
  obtain ⟨c, text, rfl, rfl | rfl⟩ := h <;> rfl

/-- The items after the first are read, each behind its comma. -/
theorem readItems_rest {item : Reader α} {write : α → List Char}
    (hopens : ∀ value, Opens (write value)) (hreads : ∀ value, item.Reads (write value) value)
    (read values : List α) (rest : List Char) :
    readItems item false read ((values.map write).flatMap (',' :: ·) ++ ']' :: rest)
      = .ok (read.reverse ++ values, rest) := by
  induction values generalizing read with
  | nil =>
    rw [List.append_nil]
    exact readItems_bracket item false read rest
  | cons value values ih =>
    rw [List.map_cons, List.flatMap_cons, List.cons_append, List.cons_append, List.append_assoc]
    rw [readItems_step read (nextItem_comma (hopens value) _)
      (hreads value _ (closes_flatMap (.inl rfl) _ rest)), ih, List.reverse_cons,
      List.append_assoc, List.singleton_append]

theorem reads_list {item : Reader α} {write : α → List Char}
    (hopens : ∀ value, Opens (write value)) (hreads : ∀ value, item.Reads (write value) value)
    (values : List α) : (list item).Reads (writeList (values.map write)) values := by
  intro rest _
  rw [writeList, List.append_assoc, List.append_assoc, List.singleton_append,
    List.singleton_append, list, afterSpace_run_cons (by decide)]
  show readItems item true [] _ = _
  -- no comma stands before the first item
  cases values with
  | nil => exact readItems_bracket item true [] rest
  | cons value values =>
    rw [List.map_cons, joinWith_comma, List.append_assoc]
    rw [readItems_step [] (nextItem_first (hopens value) _)
      (hreads value _ (closes_flatMap (.inl rfl) _ rest))]
    exact readItems_rest hopens hreads [value] values rest

end Flowchart.Json
