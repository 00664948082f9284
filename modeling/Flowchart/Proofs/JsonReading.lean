/-
  Flowchart.Proofs.JsonReading

  What a reader makes of a tree.  `Reader.Means` says that a reader takes every text
  of a tree for a value, and a reader is `Steady` if it takes all texts of a tree
  for the value that it takes one of them for: blanks do not matter to it.  Every
  reader of values is steady, and what it makes of a list or of an object is
  told by what it makes of the parts.
-/

import Mathlib.Data.List.Forall2
import Flowchart.Json.Record
import Flowchart.Proofs.Change
import Flowchart.Proofs.JsonTree

namespace Flowchart.Json

variable {α β σ : Type}

/-! ## Readers and trees -/

/-- The tree is that of some text. -/
def Tree.Spelled (tree : Tree) : Prop :=
  ∃ text, Spells (.value tree) text

/-- The reader takes every text of the tree for the value, and there is one. -/
structure Reader.Means (reader : Reader α) (tree : Tree) (value : α) : Prop where
  spelled : tree.Spelled
  reads : ∀ text, Spells (.value tree) text → ∀ space rest, Blank space → Closes rest →
    reader.run (space ++ (text ++ rest)) = .ok (value, rest)

/-- If the reader takes one text of a tree for a value, it takes all of them for it, and it reads
    them to their end. -/
def Reader.Steady (reader : Reader α) : Prop :=
  ∀ ⦃tree : Tree⦄ ⦃text space rest rest' : List Char⦄ ⦃value : α⦄,
    Spells (.value tree) text → Blank space → Closes rest →
    reader.run (space ++ (text ++ rest)) = .ok (value, rest') →
    reader.Means tree value ∧ rest' = rest

theorem Reader.Means.run {reader : Reader α} {tree : Tree} {value : α}
    (h : reader.Means tree value) {text rest : List Char} (htext : Spells (.value tree) text)
    (hrest : Closes rest) : reader.run (text ++ rest) = .ok (value, rest) :=
  h.reads text htext [] rest blank_nil hrest

/-- A tree means one value at most. -/
theorem Reader.Means.unique {reader : Reader α} {tree : Tree} {value value' : α}
    (h : reader.Means tree value) (h' : reader.Means tree value') : value' = value := by
  obtain ⟨text, htext⟩ := h.spelled
  have heq := (h'.run htext closes_nil).symm.trans (h.run htext closes_nil)
  rw [Except.ok.injEq, Prod.mk.injEq] at heq
  exact heq.1

theorem Reader.run_map {reader : Reader α} {f : α → β} {text rest : List Char} {value : β} :
    (reader.map f).run text = .ok (value, rest) ↔
      ∃ part, reader.run text = .ok (part, rest) ∧ value = f part := by
  rw [Reader.map, bind_eq_ok]
  constructor
  · rintro ⟨⟨part, rest'⟩, hread, heq⟩
    cases heq
    exact ⟨part, hread, rfl⟩
  · rintro ⟨part, hread, rfl⟩
    exact ⟨(part, rest), hread, rfl⟩

theorem Reader.Means.map {reader : Reader α} {tree : Tree} {value : α}
    (h : reader.Means tree value) (f : α → β) : (reader.map f).Means tree (f value) where
  spelled := h.spelled
  reads text htext space rest hspace hrest :=
    Reader.run_map.mpr ⟨value, h.reads text htext space rest hspace hrest, rfl⟩

theorem Reader.Steady.map {reader : Reader α} (h : reader.Steady) (f : α → β) :
    (reader.map f).Steady := by
  intro tree text space rest rest' value htext hspace hrest hread
  obtain ⟨part, hpart, rfl⟩ := Reader.run_map.mp hread
  obtain ⟨hmeans, rfl⟩ := h htext hspace hrest hpart
  exact ⟨hmeans.map f, rfl⟩

theorem Reader.Steady.means_map {reader : Reader α} (h : reader.Steady) {f : α → β} {tree : Tree}
    {value : β} (hmeans : (reader.map f).Means tree value) :
    ∃ part, reader.Means tree part ∧ value = f part := by
  obtain ⟨text, htext⟩ := hmeans.spelled
  obtain ⟨part, hpart, rfl⟩ :=
    Reader.run_map.mp (hmeans.reads text htext [] [] blank_nil closes_nil)
  exact ⟨part, (h htext blank_nil closes_nil hpart).1, rfl⟩

section AfterSpace

variable {run : List Char → Except Fault (α × List Char)}
  {below : ∀ text, Below text.length (run text)} {tree : Tree} {value : α}

theorem afterSpace_run_spelled {text space : List Char} (h : Spells (.value tree) text)
    (hspace : Blank space) (rest : List Char) :
    (afterSpace run below).run (space ++ (text ++ rest)) = run (text ++ rest) := by
  obtain ⟨c, text, rfl, hc⟩ := h.starts
  show run (skipSpace _) = _
  rw [List.cons_append, skipSpace_blank hspace hc.plain.1]

theorem means_afterSpace (hspelled : tree.Spelled)
    (hrun : ∀ text rest, Spells (.value tree) text → Closes rest →
      run (text ++ rest) = .ok (value, rest)) : (afterSpace run below).Means tree value where
  spelled := hspelled
  reads text htext space rest hspace hrest := by
    rw [afterSpace_run_spelled htext hspace]
    exact hrun text rest htext hrest

/-- A reader that passes over blanks first is steady if it is behind them. -/
theorem steady_afterSpace
    (hrun : ∀ {tree : Tree} {text rest rest' : List Char} {value : α},
      Spells (.value tree) text → Closes rest → run (text ++ rest) = .ok (value, rest') →
      (afterSpace run below).Means tree value ∧ rest' = rest) : (afterSpace run below).Steady := by
  intro tree text space rest rest' value htext hspace hrest hread
  rw [afterSpace_run_spelled htext hspace] at hread
  exact hrun htext hrest hread

end AfterSpace

/-! ## Sorts of trees -/

namespace Tree.Starts

variable {tree : Tree}

theorem null (h : tree.Starts 'n') : tree = .null := by
  cases tree with
  | null => rfl
  | boolean value => cases value <;> simp [Starts] at h
  | number | string | list | object => simp [Starts] at h

theorem string (h : tree.Starts '"') : ∃ body, tree = .string body := by
  cases tree with
  | string body => exact ⟨body, rfl⟩
  | boolean value => cases value <;> simp [Starts] at h
  | null | number | list | object => simp [Starts] at h

theorem list (h : tree.Starts '[') : ∃ items, tree = .list items := by
  cases tree with
  | list items => exact ⟨items, rfl⟩
  | boolean value => cases value <;> simp [Starts] at h
  | null | number | string | object => simp [Starts] at h

theorem object (h : tree.Starts '\x7b') : ∃ members, tree = .object members := by
  cases tree with
  | object members => exact ⟨members, rfl⟩
  | boolean value => cases value <;> simp [Starts] at h
  | null | number | string | list => simp [Starts] at h

theorem number {c : Char} (h : tree.Starts c) (hc : c = '-' ∨ c.isDigit = true) :
    ∃ text, tree = .number text := by
  cases tree with
  | number text => exact ⟨text, rfl⟩
  | null => exact absurd h (ne_of_numeric hc (by decide))
  | boolean value => cases value <;> exact absurd h (ne_of_numeric hc (by decide))
  | string body => exact absurd h (ne_of_numeric hc (by decide))
  | list items => exact absurd h (ne_of_numeric hc (by decide))
  | object members => exact absurd h (ne_of_numeric hc (by decide))

end Tree.Starts

/-! ## Strings -/

theorem means_string {body : List Char} {value : String} (hbody : IsBody body)
    (h : Spelling body value.toList) : string.Means (.string body) value := by
  refine means_afterSpace ⟨_, .string hbody⟩ fun text rest htext _ => ?_
  rw [htext.string_inv.2, quoted_append]
  exact readString_text h rest

theorem steady_string : string.Steady := by
  refine steady_afterSpace fun {tree text rest rest' value} htext hrest hread => ?_
  obtain ⟨c, tail, hcons, hc⟩ := htext.starts
  have hfirst := hread
  rw [hcons, List.cons_append] at hfirst
  split at hfirst
  · next text' hquote =>
    obtain ⟨rfl, -⟩ := List.cons.inj hquote
    obtain ⟨body, rfl⟩ := hc.string
    obtain ⟨hbody, rfl⟩ := htext.string_inv
    rw [quoted_append] at hread
    obtain ⟨hspell, rfl⟩ := readString_body hbody hread
    exact ⟨means_string hbody hspell, rfl⟩
  · cases hfirst

/-! ## Numbers -/

/-- What is made of a number does not depend on what stands behind it. -/
theorem readWord32_numeral {text : List Char} (h : IsNumeral text) (negative : Bool) :
    ∃ outcome : Except Fault UInt32, ∀ rest, Closes rest →
      readWord32 negative (text ++ rest) = outcome >>= fun value => .ok (value, rest) := by
  obtain ⟨numeral, hread⟩ := h.read negative
  refine ⟨numeral.value >>= word32, fun rest hrest => ?_⟩
  rw [readWord32, readNumber, hread _ rest hrest]
  dsimp only
  cases numeral.value with
  | error fault => rfl
  | ok found =>
    dsimp only [bind, Except.bind]
    cases word32 found with
    | error fault => rfl
    | ok value => rfl

theorem natural32_run_number {text : List Char} (h : IsNumber text) :
    ∃ outcome : Except Fault UInt32, ∀ space rest, Blank space → Closes rest →
      natural32.run (space ++ (text ++ rest)) = outcome >>= fun value => .ok (value, rest) := by
  have hspelled := Spells.number h
  cases h with
  | positive h =>
    obtain ⟨outcome, hread⟩ := readWord32_numeral h false
    refine ⟨outcome, fun space rest hspace hrest => ?_⟩
    rw [natural32, afterSpace_run_spelled hspelled hspace, ← hread rest hrest]
    obtain ⟨c, text, rfl, hdigit⟩ := h.starts
    have hminus : c ≠ '-' := by
      rintro rfl
      exact absurd hdigit (by decide)
    rw [List.cons_append]
    dsimp only
    rw [if_neg hminus, if_pos hdigit]
  | negative h =>
    obtain ⟨outcome, hread⟩ := readWord32_numeral h true
    refine ⟨outcome, fun space rest hspace hrest => ?_⟩
    rw [natural32, afterSpace_run_spelled hspelled hspace, ← hread rest hrest]
    rfl

theorem steady_natural32 : natural32.Steady := by
  intro tree text space rest rest' value htext hspace hrest hread
  obtain ⟨c, tail, hcons, hc⟩ := htext.starts
  have hsort : c = '-' ∨ c.isDigit = true := by
    by_contra hnot
    rw [not_or] at hnot
    rw [natural32, afterSpace_run_spelled htext hspace, hcons, List.cons_append] at hread
    dsimp only at hread
    rw [if_neg hnot.1, if_neg hnot.2] at hread
    cases hread
  obtain ⟨number, rfl⟩ := hc.number hsort
  obtain ⟨hnumber, rfl⟩ := htext.number_inv
  obtain ⟨outcome, hrun⟩ := natural32_run_number hnumber
  rw [hrun space rest hspace hrest, bind_eq_ok] at hread
  obtain ⟨found, rfl, hfound⟩ := hread
  cases hfound
  refine ⟨⟨⟨_, htext⟩, fun text' htext' space' rest'' hspace' hrest'' => ?_⟩, rfl⟩
  rw [htext'.number_inv.2]
  exact hrun space' rest'' hspace' hrest''

/-! ## Null -/

theorem means_null (reader : Reader α) : (nullable reader).Means .null none := by
  refine means_afterSpace ⟨_, .null⟩ fun text rest htext _ => ?_
  rw [htext.null_inv]
  rfl

theorem nullable_run {tree : Tree} {text : List Char} (reader : Reader α)
    (htext : Spells (.value tree) text) (hnull : tree ≠ .null) {space : List Char}
    (hspace : Blank space) (rest : List Char) :
    (nullable reader).run (space ++ (text ++ rest)) = (reader.map some).run (text ++ rest) := by
  rw [nullable, afterSpace_run_spelled htext hspace]
  obtain ⟨c, tail, rfl, hc⟩ := htext.starts
  rw [List.cons_append]
  split
  · next rest' hcons =>
    obtain ⟨rfl, -⟩ := List.cons.inj hcons
    exact absurd hc.null hnull
  · rfl

theorem Reader.Means.nullable {reader : Reader α} {tree : Tree} {value : α}
    (h : reader.Means tree value) (hnull : tree ≠ .null) :
    (nullable reader).Means tree (some value) where
  spelled := h.spelled
  reads text htext space rest hspace hrest := by
    rw [nullable_run reader htext hnull hspace]
    exact (h.map some).run htext hrest

theorem Reader.Steady.nullable {reader : Reader α} (h : reader.Steady) :
    (nullable reader).Steady := by
  intro tree text space rest rest' value htext hspace hrest hread
  by_cases hnull : tree = .null
  · subst hnull
    have hnone := (means_null reader).reads text htext space rest hspace hrest
    rw [hread] at hnone
    cases hnone
    exact ⟨means_null reader, rfl⟩
  · rw [nullable_run reader htext hnull hspace] at hread
    obtain ⟨part, hpart, rfl⟩ := Reader.run_map.mp hread
    obtain ⟨hmeans, rfl⟩ := h htext blank_nil hrest hpart
    exact ⟨hmeans.nullable hnull, rfl⟩

/-! ## Words -/

theorem Words.read_eq_ok {words : Words α} {text rest : List Char} {value : α} :
    words.read text = .ok (value, rest) ↔
      ∃ word, readString [] text = .ok (word, rest) ∧ words.value word = .ok value := by
  rw [Words.read]
  cases hread : readString [] text with
  | error fault => simp
  | ok first =>
    obtain ⟨word, rest'⟩ := first
    dsimp only
    cases hvalue : words.value word with
    | error fault =>
      constructor
      · intro h
        cases h
      · rintro ⟨other, heq, hother⟩
        cases heq
        rw [hvalue] at hother
        cases hother
    | ok found =>
      constructor
      · intro h
        cases h
        exact ⟨word, rfl, hvalue⟩
      · rintro ⟨other, heq, hother⟩
        cases heq
        rw [hvalue] at hother
        cases hother
        rfl

theorem Words.read_body {words : Words α} {body rest rest' : List Char} {value : α}
    (hbody : IsBody body) (hread : words.read (body ++ '"' :: rest) = .ok (value, rest')) :
    (∀ rest, words.read (body ++ '"' :: rest) = .ok (value, rest)) ∧ rest' = rest := by
  obtain ⟨word, hword, hvalue⟩ := Words.read_eq_ok.mp hread
  obtain ⟨hspell, rfl⟩ := readString_body hbody hword
  exact ⟨fun rest => Words.read_eq_ok.mpr ⟨word, readString_text hspell rest, hvalue⟩, rfl⟩

theorem readNull_spelled {tree : Tree} {text space rest rest' : List Char}
    (htext : Spells (.value tree) text) (hspace : Blank space) :
    readNull (space ++ (text ++ rest)) = .ok rest' ↔ tree = .null ∧ rest' = rest := by
  obtain ⟨c, tail, hcons, hc⟩ := htext.starts
  rw [readNull, hcons, List.cons_append, skipSpace_blank hspace hc.plain.1, ← List.cons_append,
    ← hcons]
  constructor
  · intro h
    have hfirst := h
    rw [hcons, List.cons_append] at hfirst
    split at hfirst
    · next text' hn =>
      obtain ⟨rfl, -⟩ := List.cons.inj hn
      obtain rfl := hc.null
      rw [htext.null_inv] at h
      exact ⟨rfl, (Except.ok.inj h).symm⟩
    · cases hfirst
  · rintro ⟨rfl, rfl⟩
    rw [htext.null_inv]
    rfl

theorem readBrace_spelled {members : List (List Char × Tree)} {text rest rest' : List Char}
    (htext : Spells (.members false members) text) :
    readBrace (text ++ rest) = .ok rest' ↔ members = [] ∧ rest' = rest := by
  cases htext with
  | endObject hspace =>
    rw [readBrace, List.append_assoc, List.singleton_append, skipSpace_blank hspace (by decide)]
    simp [eq_comm]
  | member hseparator _ _ _ _ _ _ =>
    cases hseparator with
    | comma hspace =>
      rw [readBrace, List.append_assoc, List.append_assoc, List.singleton_append,
        skipSpace_blank hspace (by decide)]
      simp

/-- Behind a word as a key stands null, and nothing else. -/
theorem readWordEnd_spelled {tree : Tree} {members : List (List Char × Tree)}
    {before after text inner rest rest' : List Char} (hbefore : Blank before)
    (hafter : Blank after) (hvalue : Spells (.value tree) text)
    (hmembers : Spells (.members false members) inner) :
    readWordEnd (before ++ ':' :: (after ++ (text ++ (inner ++ rest)))) = .ok rest' ↔
      tree = .null ∧ members = [] ∧ rest' = rest := by
  rw [readWordEnd, readColon_spelled hbefore]
  change (readNull _ >>= readBrace) = _ ↔ _
  rw [bind_eq_ok]
  constructor
  · rintro ⟨tail, hnull, hbrace⟩
    obtain ⟨rfl, rfl⟩ := (readNull_spelled hvalue hafter).mp hnull
    exact ⟨rfl, (readBrace_spelled hmembers).mp hbrace⟩
  · rintro ⟨rfl, hend⟩
    exact ⟨_, (readNull_spelled hvalue hafter).mpr ⟨rfl, rfl⟩,
      (readBrace_spelled hmembers).mpr hend⟩

/-- A word as the key of an object of one member is read just when this member is null. -/
theorem Words.readKey_spelled {words : Words α} {members : List (List Char × Tree)}
    {text rest rest' : List Char} {value : α} (htext : Spells (.members true members) text)
    (hread : words.readKey (text ++ rest) = .ok (value, rest')) :
    (∃ key, members = [(key, .null)] ∧
        ∀ rest, words.read (key ++ '"' :: rest) = .ok (value, rest)) ∧
      rest' = rest := by
  cases htext with
  | endObject hspace =>
    rw [Words.readKey, List.append_assoc, List.singleton_append,
      skipSpace_blank hspace (by decide)] at hread
    dsimp only at hread
    rw [if_neg (by decide), if_pos rfl] at hread
    cases hread
  | member hseparator hspace hkey hbefore hafter hvalue hrest =>
    cases hseparator
    simp only [List.nil_append, List.append_assoc, List.cons_append, quoted_append] at hread
    rw [Words.readKey, skipSpace_blank hspace (by decide)] at hread
    dsimp only at hread
    rw [if_pos rfl] at hread
    split at hread
    · cases hread
    · next found tail hword =>
      obtain ⟨hfound, rfl⟩ := Words.read_body hkey hword
      split at hread
      · cases hread
      · next rest'' hend =>
        cases hread
        obtain ⟨rfl, rfl, rfl⟩ := (readWordEnd_spelled hbefore hafter hvalue hrest).mp hend
        exact ⟨⟨_, rfl, hfound⟩, rfl⟩

theorem Words.readKey_of_read {words : Words α} {key text : List Char} {value : α}
    (htext : Spells (.members true [(key, .null)]) text)
    (hread : ∀ rest, words.read (key ++ '"' :: rest) = .ok (value, rest)) (rest : List Char) :
    words.readKey (text ++ rest) = .ok (value, rest) := by
  cases htext with
  | member hseparator hspace hkey hbefore hafter hvalue hrest =>
    cases hseparator
    simp only [List.nil_append, List.append_assoc, List.cons_append, quoted_append]
    rw [Words.readKey, skipSpace_blank hspace (by decide)]
    dsimp only
    rw [if_pos rfl, hread]
    dsimp only
    rw [(readWordEnd_spelled hbefore hafter hvalue hrest).mpr ⟨rfl, rfl, rfl⟩]

theorem Words.steady_reader (words : Words α) : words.reader.Steady := by
  refine steady_afterSpace fun {tree text rest rest' value} htext hrest hread => ?_
  obtain ⟨c, tail, hcons, hc⟩ := htext.starts
  have hfirst := hread
  rw [hcons, List.cons_append] at hfirst
  dsimp only at hfirst
  by_cases hquote : c = '"'
  · subst hquote
    obtain ⟨body, rfl⟩ := hc.string
    obtain ⟨hbody, rfl⟩ := htext.string_inv
    rw [quoted_append] at hread
    obtain ⟨hall, rfl⟩ := Words.read_body hbody hread
    refine ⟨means_afterSpace ⟨_, htext⟩ fun text' rest'' htext' _ => ?_, rfl⟩
    rw [htext'.string_inv.2, quoted_append]
    exact hall rest''
  rw [if_neg hquote] at hfirst
  by_cases hbrace : c = '\x7b'
  · subst hbrace
    obtain ⟨members, rfl⟩ := hc.object
    obtain ⟨inner, rfl, hinner⟩ := htext.object_inv
    obtain ⟨⟨key, rfl, hall⟩, rfl⟩ := Words.readKey_spelled hinner hread
    refine ⟨means_afterSpace ⟨_, htext⟩ fun text' rest'' htext' _ => ?_, rfl⟩
    obtain ⟨inner', rfl, hinner'⟩ := htext'.object_inv
    exact Words.readKey_of_read hinner' hall rest''
  · rw [if_neg hbrace] at hfirst
    cases hfirst

/-! ## Lists -/

theorem readItems_eq (item : Reader α) (first : Bool) (read : List α) (text : List Char) :
    readItems item first read text
      = nextItem first text >>= fun
        | none => endList text >>= fun rest => .ok (read.reverse, rest)
        | some text' => item.run text' >>= fun outcome =>
            readItems item false (outcome.1 :: read) outcome.2 := by
  conv_lhs => rw [readItems]
  split
  · next hnext => rw [hnext]; rfl
  · next hnext =>
    rw [hnext]
    show _ = endList text >>= _
    cases endList text with
    | error fault => rfl
    | ok rest => rfl
  · next text' hnext =>
    conv_rhs => rw [hnext]
    split
    · next hitem =>
      show _ = item.run text' >>= _
      rw [hitem]
      rfl
    · next hitem =>
      show _ = item.run text' >>= _
      rw [hitem]
      rfl

/-- The end of a list is seen, and so is the next item. -/
theorem nextItem_end {space : List Char} (hspace : Blank space) (first : Bool)
    (rest : List Char) :
    nextItem first (space ++ ']' :: rest) = .ok none ∧
      endList (space ++ ']' :: rest) = .ok rest := by
  rw [nextItem, endList, skipSpace_blank hspace (by decide)]
  exact ⟨rfl, rfl⟩

theorem nextItem_item {first : Bool} {separator space text : List Char} {tree : Tree}
    (hseparator : Separates first separator) (hspace : Blank space)
    (htext : Spells (.value tree) text) (rest : List Char) :
    nextItem first (separator ++ (space ++ (text ++ rest))) = .ok (some (text ++ rest)) := by
  obtain ⟨c, text, rfl, hc⟩ := htext.starts
  obtain ⟨hblank, -, hbracket, -⟩ := hc.plain
  rw [List.cons_append]
  cases hseparator with
  | first =>
    rw [List.nil_append, nextItem, skipSpace_blank hspace hblank]
    dsimp only
    rw [if_neg hbracket, if_pos rfl]
  | comma hbefore =>
    rw [List.append_assoc, List.singleton_append, nextItem, skipSpace_blank hbefore (by decide)]
    dsimp only
    rw [if_neg (by decide), if_neg Bool.false_ne_true, if_pos rfl, skipSpace_blank hspace hblank]
    dsimp only
    rw [if_neg hbracket]

/-- The items of a list are read for what they mean. -/
theorem readItems_means {item : Reader α} {items : List Tree} {values : List α}
    (h : List.Forall₂ item.Means items values) {first : Bool} {text : List Char}
    (htext : Spells (.items first items) text) (read : List α) (rest : List Char) :
    readItems item first read (text ++ rest) = .ok (read.reverse ++ values, rest) := by
  induction h generalizing first text read with
  | nil =>
    cases htext with
    | endList hspace =>
      obtain ⟨hnext, hend⟩ := nextItem_end hspace first rest
      rw [List.append_assoc, List.singleton_append, readItems_eq, hnext, List.append_nil]
      show (endList _ >>= _) = _
      rw [hend]
      rfl
  | cons hitem _ ih =>
    cases htext with
    | item hseparator hspace hvalue hrest =>
      simp only [List.append_assoc]
      rw [readItems_eq, nextItem_item hseparator hspace hvalue]
      show (item.run _ >>= _) = _
      rw [hitem.run hvalue (hrest.closes_items rest)]
      show readItems item false _ _ = _
      rw [ih hrest, List.reverse_cons, List.append_assoc, List.singleton_append]

/-- What is read of a list is what its items mean. -/
theorem readItems_steady {item : Reader α} (hitem : item.Steady) {items : List Tree} {first : Bool}
    {text : List Char} (htext : Spells (.items first items) text) {read values : List α}
    {rest rest' : List Char}
    (hread : readItems item first read (text ++ rest) = .ok (values, rest')) :
    (∃ parts, List.Forall₂ item.Means items parts ∧ values = read.reverse ++ parts) ∧
      rest' = rest := by
  induction items generalizing first text read with
  | nil =>
    cases htext with
    | endList hspace =>
      obtain ⟨hnext, hend⟩ := nextItem_end hspace first rest
      rw [List.append_assoc, List.singleton_append, readItems_eq, hnext] at hread
      change (endList _ >>= _) = _ at hread
      rw [hend] at hread
      cases hread
      exact ⟨⟨[], .nil, (List.append_nil _).symm⟩, rfl⟩
  | cons tree items ih =>
    cases htext with
    | item hseparator hspace hvalue hrest =>
      simp only [List.append_assoc] at hread
      rw [readItems_eq, nextItem_item hseparator hspace hvalue] at hread
      change (item.run _ >>= _) = _ at hread
      obtain ⟨⟨part, tail⟩, hpart, hread⟩ := bind_eq_ok.mp hread
      obtain ⟨hmeans, rfl⟩ := hitem hvalue blank_nil (hrest.closes_items rest) hpart
      obtain ⟨⟨parts, hparts, rfl⟩, rfl⟩ := ih hrest hread
      refine ⟨⟨part :: parts, .cons hmeans hparts, ?_⟩, rfl⟩
      rw [List.reverse_cons, List.append_assoc, List.singleton_append]

theorem items_spelled {items : List Tree} (h : ∀ tree ∈ items, tree.Spelled) (first : Bool) :
    ∃ text, Spells (.items first items) text := by
  obtain ⟨separator, hseparator⟩ := exists_separates first
  induction items generalizing first separator with
  | nil => exact ⟨_, .endList blank_nil⟩
  | cons tree items ih =>
    obtain ⟨text, htext⟩ := h tree List.mem_cons_self
    obtain ⟨rest, hrest⟩ :=
      ih (fun other hother => h other (List.mem_cons_of_mem _ hother)) false _ (.comma blank_nil)
    exact ⟨_, .item hseparator blank_nil htext hrest⟩

theorem means_list {item : Reader α} {items : List Tree} {values : List α}
    (h : List.Forall₂ item.Means items values) : (list item).Means (.list items) values := by
  have hspelled : ∀ tree ∈ items, tree.Spelled := by
    intro tree htree
    induction h with
    | nil => exact absurd htree List.not_mem_nil
    | cons hitem _ ih =>
      rcases List.mem_cons.mp htree with rfl | htree
      · exact hitem.spelled
      · exact ih htree
  obtain ⟨inner, hinner⟩ := items_spelled hspelled true
  refine means_afterSpace ⟨_, .list hinner⟩ fun text rest htext _ => ?_
  obtain ⟨inner, rfl, hinner⟩ := htext.list_inv
  exact readItems_means h hinner [] rest

/-- A list is read just for what its items mean. -/
theorem list_run_ok {item : Reader α} (hitem : item.Steady) {tree : Tree}
    {text space rest rest' : List Char} {values : List α} (htext : Spells (.value tree) text)
    (hspace : Blank space)
    (hread : (list item).run (space ++ (text ++ rest)) = .ok (values, rest')) :
    (∃ items, tree = .list items ∧ List.Forall₂ item.Means items values) ∧ rest' = rest := by
  rw [list, afterSpace_run_spelled htext hspace] at hread
  obtain ⟨c, tail, hcons, hc⟩ := htext.starts
  have hfirst := hread
  rw [hcons, List.cons_append] at hfirst
  split at hfirst
  · next text' hbracket =>
    obtain ⟨rfl, -⟩ := List.cons.inj hbracket
    obtain ⟨items, rfl⟩ := hc.list
    obtain ⟨inner, rfl, hinner⟩ := htext.list_inv
    obtain ⟨⟨parts, hparts, rfl⟩, rfl⟩ := readItems_steady hitem hinner hread
    exact ⟨⟨items, rfl, hparts⟩, rfl⟩
  · cases hfirst

theorem Reader.Steady.list {item : Reader α} (h : item.Steady) : (list item).Steady := by
  intro tree text space rest rest' values htext hspace hrest hread
  obtain ⟨⟨items, rfl, hitems⟩, rfl⟩ := list_run_ok h htext hspace hread
  exact ⟨means_list hitems, rfl⟩

theorem Reader.Steady.means_list_inv {item : Reader α} (h : item.Steady) {tree : Tree}
    {values : List α} (hmeans : (Json.list item).Means tree values) :
    ∃ items, tree = .list items ∧ List.Forall₂ item.Means items values := by
  obtain ⟨text, htext⟩ := hmeans.spelled
  exact (list_run_ok h htext blank_nil
    (hmeans.reads text htext [] [] blank_nil closes_nil)).1

end Flowchart.Json
