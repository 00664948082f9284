/-
  Flowchart.Proofs.JsonTree

  The grammar of JSON texts.  A `Tree` is what a text holds when blanks are left
  out: strings and numbers stand in it as they are written, lists and objects
  keep their order, and a key may come twice.  `Spells` says which texts a tree
  has.  What stands behind an opening bracket is described from left to right,
  item by item, which is also how it is read: before the first item stands
  nothing, before any other a comma.

  A value that nobody asks for is passed over to its end, whatever it is and
  however deep it goes (`skipValue_spelled`).
-/

import Flowchart.Json.Skip
import Flowchart.Proofs.JsonScalar

namespace Flowchart.Json

/-! ## Trees and their texts -/

/-- What a JSON text holds. -/
inductive Tree where
  | null
  | boolean (value : Bool)
  | number (text : List Char)
  | string (body : List Char)
  | list (items : List Tree)
  | object (members : List (List Char × Tree))

/-- What a stretch of text may hold: a value, or what is left of a list or of an object up to its
    closing bracket.  `first` tells that the bracket before it is the opening one. -/
inductive Part where
  | value (tree : Tree)
  | items (first : Bool) (items : List Tree)
  | members (first : Bool) (members : List (List Char × Tree))

/-- What stands before an item: nothing before the first, a comma before any other. -/
inductive Separates : Bool → List Char → Prop where
  | first : Separates true []
  | comma {space : List Char} (h : Blank space) : Separates false (space ++ [','])

theorem exists_separates (first : Bool) : ∃ separator, Separates first separator := by
  cases first with
  | true => exact ⟨_, .first⟩
  | false => exact ⟨_, .comma blank_nil⟩

/-- The text spells the part. -/
inductive Spells : Part → List Char → Prop where
  | null : Spells (.value .null) ['n', 'u', 'l', 'l']
  | isTrue : Spells (.value (.boolean true)) ['t', 'r', 'u', 'e']
  | isFalse : Spells (.value (.boolean false)) ['f', 'a', 'l', 's', 'e']
  | number {text : List Char} (h : IsNumber text) : Spells (.value (.number text)) text
  | string {body : List Char} (h : IsBody body) : Spells (.value (.string body)) (quoted body)
  | list {items : List Tree} {text : List Char} (h : Spells (.items true items) text) :
      Spells (.value (.list items)) ('[' :: text)
  | object {members : List (List Char × Tree)} {text : List Char}
      (h : Spells (.members true members) text) :
      Spells (.value (.object members)) ('\x7b' :: text)
  | endList {first : Bool} {space : List Char} (hspace : Blank space) :
      Spells (.items first []) (space ++ [']'])
  | item {first : Bool} {separator space text rest : List Char} {tree : Tree} {items : List Tree}
      (hseparator : Separates first separator) (hspace : Blank space)
      (hvalue : Spells (.value tree) text) (hrest : Spells (.items false items) rest) :
      Spells (.items first (tree :: items)) (separator ++ (space ++ (text ++ rest)))
  | endObject {first : Bool} {space : List Char} (hspace : Blank space) :
      Spells (.members first []) (space ++ ['\x7d'])
  | member {first : Bool} {separator space key before after text rest : List Char} {tree : Tree}
      {members : List (List Char × Tree)} (hseparator : Separates first separator)
      (hspace : Blank space) (hkey : IsBody key) (hbefore : Blank before) (hafter : Blank after)
      (hvalue : Spells (.value tree) text) (hrest : Spells (.members false members) rest) :
      Spells (.members first ((key, tree) :: members))
        (separator ++ (space ++ (quoted key ++ (before ++ ':' :: (after ++ (text ++ rest))))))

/-- The text spells the tree, with blanks around it. -/
def Tree.SpelledBy (tree : Tree) (text : List Char) : Prop :=
  ∃ before value after, Blank before ∧ Spells (.value tree) value ∧ Blank after ∧
    text = before ++ (value ++ after)

/-- What a value of this sort may start with. -/
def Tree.Starts : Tree → Char → Prop
  | .null, c => c = 'n'
  | .boolean value, c => c = if value then 't' else 'f'
  | .number _, c => c = '-' ∨ c.isDigit = true
  | .string _, c => c = '"'
  | .list _, c => c = '['
  | .object _, c => c = '\x7b'

/-- A number starts like no other value. -/
theorem ne_of_numeric {c d : Char} (hc : c = '-' ∨ c.isDigit = true)
    (hd : d ≠ '-' ∧ d.isDigit = false) : c ≠ d := by
  rintro rfl
  rcases hc with hc | hc
  · exact hd.1 hc
  · rw [hd.2] at hc
    cases hc

theorem Spells.starts {tree : Tree} {text : List Char} (h : Spells (.value tree) text) :
    ∃ c rest, text = c :: rest ∧ tree.Starts c := by
  cases h with
  | null => exact ⟨_, _, rfl, rfl⟩
  | isTrue => exact ⟨_, _, rfl, rfl⟩
  | isFalse => exact ⟨_, _, rfl, rfl⟩
  | number h =>
    cases h with
    | positive h =>
      obtain ⟨c, rest, rfl, hdigit⟩ := h.starts
      exact ⟨c, rest, rfl, .inr hdigit⟩
    | negative _ => exact ⟨_, _, rfl, .inl rfl⟩
  | string _ => exact ⟨_, _, rfl, rfl⟩
  | list _ => exact ⟨_, _, rfl, rfl⟩
  | object _ => exact ⟨_, _, rfl, rfl⟩

theorem Spells.null_inv {text : List Char} (h : Spells (.value .null) text) :
    text = ['n', 'u', 'l', 'l'] := by
  cases h
  rfl

theorem Spells.number_inv {number text : List Char} (h : Spells (.value (.number number)) text) :
    IsNumber number ∧ text = number := by
  cases h with
  | number h => exact ⟨h, rfl⟩

theorem Spells.string_inv {body text : List Char} (h : Spells (.value (.string body)) text) :
    IsBody body ∧ text = quoted body := by
  cases h with
  | string h => exact ⟨h, rfl⟩

theorem Spells.list_inv {items : List Tree} {text : List Char}
    (h : Spells (.value (.list items)) text) :
    ∃ inner, text = '[' :: inner ∧ Spells (.items true items) inner := by
  cases h with
  | list h => exact ⟨_, rfl, h⟩

theorem Spells.object_inv {members : List (List Char × Tree)} {text : List Char}
    (h : Spells (.value (.object members)) text) :
    ∃ inner, text = '\x7b' :: inner ∧ Spells (.members true members) inner := by
  cases h with
  | object h => exact ⟨_, rfl, h⟩

/-- A value starts with no blank, no comma and no closing bracket. -/
theorem Tree.Starts.plain {tree : Tree} {c : Char} (h : tree.Starts c) :
    isSpace c = false ∧ c ≠ ',' ∧ c ≠ ']' ∧ c ≠ '\x7d' := by
  cases tree with
  | null => rw [show c = 'n' from h]; decide
  | boolean value => cases value <;> rw [show c = _ from h] <;> decide
  | number text =>
    refine ⟨?_, ne_of_numeric h (by decide), ne_of_numeric h (by decide),
      ne_of_numeric h (by decide)⟩
    rcases h with rfl | hdigit
    · decide
    · exact isSpace_of_isDigit hdigit
  | string body => rw [show c = '"' from h]; decide
  | list items => rw [show c = '[' from h]; decide
  | object members => rw [show c = '\x7b' from h]; decide

/-- Behind an item stands what may stand behind a value. -/
theorem Spells.closes_items {items : List Tree} {text : List Char}
    (h : Spells (.items false items) text) (rest : List Char) : Closes (text ++ rest) := by
  cases h with
  | endList hspace =>
    rw [List.append_assoc]
    exact closes_append hspace (closes_cons (.inr (.inl rfl)) rest)
  | item hseparator _ _ _ =>
    cases hseparator with
    | comma hspace =>
      rw [List.append_assoc, List.append_assoc]
      exact closes_append hspace (closes_cons (.inl rfl) _)

theorem Spells.closes_members {members : List (List Char × Tree)} {text : List Char}
    (h : Spells (.members false members) text) (rest : List Char) : Closes (text ++ rest) := by
  cases h with
  | endObject hspace =>
    rw [List.append_assoc]
    exact closes_append hspace (closes_cons (.inr (.inr rfl)) rest)
  | member hseparator _ _ _ _ _ _ =>
    cases hseparator with
    | comma hspace =>
      rw [List.append_assoc, List.append_assoc]
      exact closes_append hspace (closes_cons (.inl rfl) _)

/-! ## Steps over a value -/

section Skip

variable {frame : Frame} {frames : List Frame} {text rest rest' : List Char} {c : Char}

theorem skipFrom_value (frames : List Frame) (text : List Char) :
    skipFrom .value frames text
      = match skipSpace text with
        | [] => .error .endInValue
        | c :: rest =>
            if c = '[' then skipFrom (.opened .list) frames rest
            else if c = '\x7b' then skipFrom (.opened .object) frames rest
            else skipScalar (c :: rest) >>= skipFrom .after frames := by
  rw [skipFrom]
  split
  · next hstart => rw [hstart]
  · next c rest hstart =>
    conv_rhs => rw [hstart]
    dsimp only
    split
    · rfl
    split
    · rfl
    split
    · next hscalar => rw [hscalar]; rfl
    · next hscalar => rw [hscalar]; rfl

theorem skipFrom_opened (frame : Frame) (frames : List Frame) (text : List Char) :
    skipFrom (.opened frame) frames text
      = match skipSpace text with
        | [] => .error frame.atEnd
        | c :: rest =>
            if c = frame.closer then skipFrom .after frames rest
            else skipToValue frame (c :: rest) >>= skipFrom .value (frame :: frames) := by
  rw [skipFrom]
  split
  · next hstart => rw [hstart]
  · next c rest hstart =>
    conv_rhs => rw [hstart]
    dsimp only
    split
    · rfl
    split
    · next hvalue => rw [hvalue]; rfl
    · next hvalue => rw [hvalue]; rfl

theorem skipFrom_after (frame : Frame) (frames : List Frame) (text : List Char) :
    skipFrom .after (frame :: frames) text
      = match skipSpace text with
        | [] => .error frame.atEnd
        | c :: rest =>
            if c = ',' then skipToValue frame rest >>= skipFrom .value (frame :: frames)
            else if c = frame.closer then skipFrom .after frames rest
            else .error frame.expected := by
  rw [skipFrom]
  split
  · next hstart => rw [hstart]
  · next c rest hstart =>
    conv_rhs => rw [hstart]
    dsimp only
    split
    · split
      · next hvalue => rw [hvalue]; rfl
      · next hvalue => rw [hvalue]; rfl
    · rfl

theorem skipFrom_scalar (hstart : skipSpace text = c :: rest) (hlist : c ≠ '[')
    (hobject : c ≠ '\x7b') (hscalar : skipScalar (c :: rest) = .ok rest') :
    skipFrom .value frames text = skipFrom .after frames rest' := by
  rw [skipFrom_value, hstart]
  dsimp only
  rw [if_neg hlist, if_neg hobject, hscalar]
  rfl

/-- What is left inside of an open list or object is passed over from here. -/
def skipWithin (first : Bool) (frame : Frame) (frames : List Frame) (text : List Char) :
    Except Fault (List Char) :=
  if first then skipFrom (.opened frame) frames text else skipFrom .after (frame :: frames) text

theorem skipWithin_close {first : Bool} (hstart : skipSpace text = frame.closer :: rest) :
    skipWithin first frame frames text = skipFrom .after frames rest := by
  have hcomma : frame.closer ≠ ',' := by cases frame <;> decide
  cases first with
  | true =>
    rw [skipWithin, if_pos rfl, skipFrom_opened, hstart]
    exact if_pos rfl
  | false =>
    rw [skipWithin, if_neg Bool.false_ne_true, skipFrom_after, hstart]
    dsimp only
    rw [if_neg hcomma, if_pos rfl]

theorem skipWithin_first (hstart : skipSpace text = c :: rest) (hc : c ≠ frame.closer) :
    skipWithin true frame frames text
      = skipToValue frame (c :: rest) >>= skipFrom .value (frame :: frames) := by
  rw [skipWithin, if_pos rfl, skipFrom_opened, hstart]
  exact if_neg hc

theorem skipWithin_comma {space : List Char} (hspace : Blank space) :
    skipWithin false frame frames (space ++ ',' :: rest)
      = skipToValue frame rest >>= skipFrom .value (frame :: frames) := by
  rw [skipWithin, if_neg Bool.false_ne_true, skipFrom_after, skipSpace_blank hspace (by decide)]
  exact if_pos rfl

/-- The next item of a list is passed over. -/
theorem skipWithin_item {first : Bool} {separator space : List Char}
    (hseparator : Separates first separator) (hspace : Blank space) (hblank : isSpace c = false)
    (hc : c ≠ ']') :
    ∃ space', Blank space' ∧
      skipWithin first .list frames (separator ++ (space ++ c :: rest))
        = skipFrom .value (.list :: frames) (space' ++ c :: rest) := by
  cases hseparator with
  | first =>
    exact ⟨[], blank_nil, skipWithin_first (skipSpace_blank hspace hblank rest) hc⟩
  | @comma before hbefore =>
    refine ⟨space, hspace, ?_⟩
    rw [List.append_assoc]
    exact skipWithin_comma hbefore

theorem readColon_spelled {space : List Char} (h : Blank space) (rest : List Char) :
    readColon (space ++ ':' :: rest) = .ok rest := by
  rw [readColon, skipSpace_blank h (by decide)]
  rfl

theorem skipKey_spelled {space before key : List Char} (hspace : Blank space) (hkey : IsBody key)
    (hbefore : Blank before) (rest : List Char) :
    skipKey (space ++ (quoted key ++ (before ++ ':' :: rest))) = .ok rest := by
  rw [skipKey, quoted_append, skipSpace_blank hspace (by decide)]
  dsimp only
  rw [if_pos rfl, skipString_body hkey]
  exact readColon_spelled hbefore rest

/-- The next key of an object is passed over, and the colon behind it. -/
theorem skipWithin_member {first : Bool} {separator space before key : List Char}
    (hseparator : Separates first separator) (hspace : Blank space) (hkey : IsBody key)
    (hbefore : Blank before) :
    skipWithin first .object frames
        (separator ++ (space ++ (quoted key ++ (before ++ ':' :: rest))))
      = skipFrom .value (.object :: frames) rest := by
  cases hseparator with
  | first =>
    have hskip := skipKey_spelled blank_nil hkey hbefore rest
    rw [List.nil_append, quoted_append] at hskip
    rw [List.nil_append, quoted_append,
      skipWithin_first (skipSpace_blank hspace (by decide) _) (by decide), skipToValue, hskip]
    rfl
  | @comma space' hspace' =>
    rw [List.append_assoc, List.singleton_append, skipWithin_comma hspace', skipToValue,
      skipKey_spelled hspace hkey hbefore rest]
    rfl

end Skip

/-! ## Values that are passed over -/

theorem skipNumeral_spelled {text rest : List Char} (h : IsNumeral text) (negative : Bool)
    (hrest : Closes rest) : skipNumeral negative (text ++ rest) = .ok rest := by
  obtain ⟨numeral, hread⟩ := h.read negative
  rw [skipNumeral, hread _ rest hrest]

theorem skipScalar_number {text rest : List Char} (h : IsNumber text) (hrest : Closes rest) :
    skipScalar (text ++ rest) = .ok rest := by
  cases h with
  | positive h =>
    have hskip := skipNumeral_spelled h false hrest
    obtain ⟨c, text, rfl, hdigit⟩ := h.starts
    have hminus : c ≠ '-' := by
      rintro rfl
      exact absurd hdigit (by decide)
    rw [List.cons_append] at hskip ⊢
    rw [skipScalar, if_neg (ne_of_numeric (.inr hdigit) (by decide)),
      if_neg (ne_of_numeric (.inr hdigit) (by decide)),
      if_neg (ne_of_numeric (.inr hdigit) (by decide)), if_neg hminus, if_pos hdigit]
    exact hskip
  | negative h =>
    rw [List.cons_append, skipScalar]
    exact skipNumeral_spelled h true hrest

/-- Where a part that is spelled ends. -/
def Skipped : Part → List Char → Prop
  | .value _, text => ∀ space frames rest, Blank space → Closes rest →
      skipFrom .value frames (space ++ (text ++ rest)) = skipFrom .after frames rest
  | .items first _, text => ∀ frames rest,
      skipWithin first .list frames (text ++ rest) = skipFrom .after frames rest
  | .members first _, text => ∀ frames rest,
      skipWithin first .object frames (text ++ rest) = skipFrom .after frames rest

/-- Whatever is spelled is passed over to its end. -/
theorem Spells.skipped {part : Part} {text : List Char} (h : Spells part text) :
    Skipped part text := by
  induction h with
  | null =>
    intro space frames rest hspace _
    exact skipFrom_scalar (skipSpace_blank hspace (by decide) _) (by decide) (by decide) rfl
  | isTrue =>
    intro space frames rest hspace _
    exact skipFrom_scalar (skipSpace_blank hspace (by decide) _) (by decide) (by decide) rfl
  | isFalse =>
    intro space frames rest hspace _
    exact skipFrom_scalar (skipSpace_blank hspace (by decide) _) (by decide) (by decide) rfl
  | @number text h =>
    intro space frames rest hspace hrest
    have hskip := skipScalar_number h hrest
    obtain ⟨c, text, rfl, hc⟩ := (Spells.number h).starts
    exact skipFrom_scalar (skipSpace_blank hspace hc.plain.1 _) (ne_of_numeric hc (by decide))
      (ne_of_numeric hc (by decide)) hskip
  | @string body h =>
    intro space frames rest hspace _
    rw [quoted_append]
    exact skipFrom_scalar (skipSpace_blank hspace (by decide) _) (by decide) (by decide)
      (skipString_body h rest)
  | list _ ih =>
    intro space frames rest hspace _
    rw [List.cons_append, skipFrom_value, skipSpace_blank hspace (by decide)]
    exact ih frames rest
  | object _ ih =>
    intro space frames rest hspace _
    rw [List.cons_append, skipFrom_value, skipSpace_blank hspace (by decide)]
    exact ih frames rest
  | endList hspace =>
    intro frames rest
    rw [List.append_assoc]
    exact skipWithin_close (skipSpace_blank hspace (by decide) rest)
  | item hseparator hspace hvalue hrest ihvalue ihrest =>
    intro frames rest
    obtain ⟨c, text, rfl, hc⟩ := hvalue.starts
    obtain ⟨hblank, -, hbracket, -⟩ := hc.plain
    simp only [List.append_assoc, List.cons_append]
    obtain ⟨space', hspace', hskip⟩ := skipWithin_item hseparator hspace hblank hbracket
    rw [hskip, ← List.cons_append, ihvalue space' _ _ hspace' (hrest.closes_items rest)]
    exact ihrest frames rest
  | endObject hspace =>
    intro frames rest
    rw [List.append_assoc]
    exact skipWithin_close (skipSpace_blank hspace (by decide) rest)
  | member hseparator hspace hkey hbefore hafter hvalue hrest ihvalue ihrest =>
    intro frames rest
    simp only [List.append_assoc, List.cons_append]
    rw [skipWithin_member hseparator hspace hkey hbefore,
      ihvalue _ _ _ hafter (hrest.closes_members rest)]
    exact ihrest frames rest

/-- A value is passed over to its end, with the blanks before it. -/
theorem skipValue_spelled {tree : Tree} {space text rest : List Char}
    (h : Spells (.value tree) text) (hspace : Blank space) (hrest : Closes rest) :
    skipValue.run (space ++ (text ++ rest)) = .ok ((), rest) := by
  have hskip := h.skipped space [] rest hspace hrest
  have hdone : skipFrom .after [] rest = .ok rest := by rw [skipFrom]
  dsimp only [skipValue]
  rw [hskip, hdone]

end Flowchart.Json
