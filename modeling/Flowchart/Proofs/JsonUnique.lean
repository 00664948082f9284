/-
  Flowchart.Proofs.JsonUnique

  A JSON text spells one tree.  Where a value ends is told by passing over it, and
  what is left is the same however the value is taken (`Spells.eq_of_append_eq`).  So
  two ways to take a text apart agree on each part of it, from left to right, and the
  trees agree by induction over the first of the two ways (`Spells.unique`).
-/

import Flowchart.Proofs.JsonReading

namespace Flowchart.Json

/-! ## Where a value ends -/

/-- Two values that start at one place of a text end at one place. -/
theorem Spells.eq_of_append_eq {tree tree' : Tree} {text text' rest rest' : List Char}
    (h : Spells (.value tree) text) (h' : Spells (.value tree') text') (hrest : Closes rest)
    (hrest' : Closes rest') (heq : text ++ rest = text' ++ rest') :
    text' = text ∧ rest' = rest := by
  have hskip := skipValue_spelled h blank_nil hrest
  have hskip' := skipValue_spelled h' blank_nil hrest'
  rw [← heq, hskip, Except.ok.injEq, Prod.mk.injEq] at hskip'
  obtain ⟨-, rfl⟩ := hskip'
  exact ⟨(List.append_cancel_right heq).symm, rfl⟩

theorem eq_of_quoted_append {key key' rest rest' : List Char} (hkey : IsBody key)
    (hkey' : IsBody key') (heq : quoted key ++ rest = quoted key' ++ rest') :
    key' = key ∧ rest' = rest := by
  rw [quoted_append, quoted_append, List.cons.injEq] at heq
  have hskip := skipString_body hkey rest
  rw [heq.2, skipString_body hkey' rest', Except.ok.injEq] at hskip
  subst hskip
  exact ⟨(List.append_cancel_right heq.2).symm, rfl⟩

/-! ## Where a value starts -/

theorem Spells.starts_cons {tree : Tree} {c : Char} {text : List Char}
    (h : Spells (.value tree) (c :: text)) : tree.Starts c := by
  obtain ⟨first, rest, hcons, hc⟩ := h.starts
  obtain ⟨rfl, -⟩ := List.cons.inj hcons
  exact hc

theorem Tree.Starts.boolean {tree : Tree} {value : Bool}
    (h : tree.Starts (if value then 't' else 'f')) : tree = .boolean value := by
  cases tree with
  | boolean other => cases other <;> cases value <;> simp [Starts] at h ⊢
  | null | number | string | list | object => cases value <;> simp [Starts] at h

section Between

variable {first : Bool} {separator separator' space space' text text' rest rest' : List Char}
  {tree tree' : Tree}

theorem eq_of_blank_append {c c' : Char} (hspace : Blank space) (hspace' : Blank space')
    (hc : isSpace c = false) (hc' : isSpace c' = false)
    (heq : space ++ c :: rest = space' ++ c' :: rest') : c' :: rest' = c :: rest := by
  have hskip := congrArg skipSpace heq
  rw [skipSpace_blank hspace hc, skipSpace_blank hspace' hc'] at hskip
  exact hskip.symm

/-- Two values that come next in a text start at one place. -/
theorem Spells.eq_of_separated (h : Spells (.value tree) text) (h' : Spells (.value tree') text')
    (hseparator : Separates first separator) (hseparator' : Separates first separator')
    (hspace : Blank space) (hspace' : Blank space')
    (heq : separator ++ (space ++ (text ++ rest)) = separator' ++ (space' ++ (text' ++ rest'))) :
    text ++ rest = text' ++ rest' := by
  obtain ⟨c, tail, rfl, hc⟩ := h.starts
  obtain ⟨c', tail', rfl, hc'⟩ := h'.starts
  rw [List.cons_append, List.cons_append] at heq ⊢
  cases hseparator with
  | first =>
    cases hseparator' with
    | first => exact (eq_of_blank_append hspace hspace' hc.plain.1 hc'.plain.1 heq).symm
  | comma hbefore =>
    cases hseparator' with
    | comma hbefore' =>
      rw [List.append_assoc, List.append_assoc] at heq
      have hcomma := eq_of_blank_append hbefore hbefore' (by decide) (by decide) heq
      have hbehind := (List.cons.inj hcomma).2.symm
      exact (eq_of_blank_append hspace hspace' hc.plain.1 hc'.plain.1 hbehind).symm

/-- Where a bracket closes, no value comes next. -/
theorem Spells.ne_close {bracket : Char} (h : Spells (.value tree) text)
    (hseparator : Separates first separator) (hspace : Blank space) (hspace' : Blank space')
    (hbracket : bracket = ']' ∨ bracket = '\x7d') :
    separator ++ (space ++ (text ++ rest)) ≠ space' ++ [bracket] := by
  intro heq
  have hsolid : isSpace bracket = false ∧ bracket ≠ ',' := by
    rcases hbracket with rfl | rfl <;> decide
  obtain ⟨c, tail, rfl, hc⟩ := h.starts
  obtain ⟨hblank, -, hlist, hobject⟩ := hc.plain
  rw [List.cons_append] at heq
  cases hseparator with
  | first =>
    have hsame := eq_of_blank_append hspace hspace' hblank hsolid.1 heq
    rcases hbracket with rfl | rfl
    · exact hlist (List.cons.inj hsame).1.symm
    · exact hobject (List.cons.inj hsame).1.symm
  | comma hbefore =>
    rw [List.append_assoc] at heq
    have hsame := eq_of_blank_append hbefore hspace' (by decide) hsolid.1 heq
    exact hsolid.2 (List.cons.inj hsame).1

/-- Two items that come next in a list are one stretch of its text. -/
theorem Spells.eq_of_item {items items' : List Tree} (h : Spells (.value tree) text)
    (h' : Spells (.value tree') text') (hrest : Spells (.items false items) rest)
    (hrest' : Spells (.items false items') rest') (hseparator : Separates first separator)
    (hseparator' : Separates first separator') (hspace : Blank space) (hspace' : Blank space')
    (heq : separator ++ (space ++ (text ++ rest)) = separator' ++ (space' ++ (text' ++ rest'))) :
    text' = text ∧ rest' = rest := by
  have hcloses : Closes rest := by simpa using hrest.closes_items []
  have hcloses' : Closes rest' := by simpa using hrest'.closes_items []
  have hstart := h.eq_of_separated h' hseparator hseparator' hspace hspace' heq
  exact h.eq_of_append_eq h' hcloses hcloses' hstart

/-- Two members that come next in an object have one key and one stretch of its text. -/
theorem Spells.eq_of_member {key key' before before' after after' : List Char}
    {members members' : List (List Char × Tree)} (h : Spells (.value tree) text)
    (h' : Spells (.value tree') text') (hkey : IsBody key) (hkey' : IsBody key')
    (hrest : Spells (.members false members) rest)
    (hrest' : Spells (.members false members') rest') (hseparator : Separates first separator)
    (hseparator' : Separates first separator') (hspace : Blank space) (hspace' : Blank space')
    (hbefore : Blank before) (hbefore' : Blank before') (hafter : Blank after)
    (hafter' : Blank after')
    (heq : separator ++ (space ++ (quoted key ++ (before ++ ':' :: (after ++ (text ++ rest)))))
      = separator' ++ (space' ++ (quoted key'
        ++ (before' ++ ':' :: (after' ++ (text' ++ rest')))))) :
    key' = key ∧ text' = text ∧ rest' = rest := by
  have hcloses : Closes rest := by simpa using hrest.closes_members []
  have hcloses' : Closes rest' := by simpa using hrest'.closes_members []
  -- the key shows its end by a quote, and behind it come a colon and the value
  have hquote := (Spells.string hkey).eq_of_separated (.string hkey') hseparator hseparator'
    hspace hspace' heq
  obtain ⟨rfl, hbehind⟩ := eq_of_quoted_append hkey hkey' hquote
  have hcolon := eq_of_blank_append hbefore' hbefore (by decide) (by decide) hbehind
  have hstart := h.eq_of_separated h' .first .first hafter hafter' (List.cons.inj hcolon).2
  exact ⟨rfl, h.eq_of_append_eq h' hcloses hcloses' hstart⟩

end Between

/-! ## One tree -/

/-- The part is the only one of its sort that the text spells. -/
def Part.Only : Part → List Char → Prop
  | .value tree, text => ∀ tree', Spells (.value tree') text → tree' = tree
  | .items first held, text => ∀ held', Spells (.items first held') text → held' = held
  | .members first held, text => ∀ held', Spells (.members first held') text → held' = held

/-- What a text spells is the only thing of its sort that it spells. -/
theorem Spells.only {part : Part} {text : List Char} (h : Spells part text) : part.Only text := by
  -- the first character tells the sort of a value, and the values in it come one by one
  induction h with
  | null => exact fun tree' h' => h'.starts_cons.null
  | isTrue => exact fun tree' h' => Tree.Starts.boolean h'.starts_cons
  | isFalse => exact fun tree' h' => Tree.Starts.boolean h'.starts_cons
  | @number text h =>
    intro tree' h'
    obtain ⟨c, rest, rfl, hnumeric⟩ := (Spells.number h).starts
    obtain ⟨other, rfl⟩ := h'.starts_cons.number hnumeric
    rw [h'.number_inv.2]
  | @string body h =>
    intro tree' h'
    obtain ⟨other, rfl⟩ := Tree.Starts.string h'.starts_cons
    have hsame := h'.string_inv.2
    rw [quoted, quoted, List.cons.injEq] at hsame
    rw [List.append_cancel_right hsame.2]
  | list _ ih =>
    intro tree' h'
    obtain ⟨other, rfl⟩ := h'.starts_cons.list
    obtain ⟨inner, htext, hinner⟩ := h'.list_inv
    obtain ⟨-, rfl⟩ := List.cons.inj htext
    rw [ih other hinner]
  | object _ ih =>
    intro tree' h'
    obtain ⟨other, rfl⟩ := h'.starts_cons.object
    obtain ⟨inner, htext, hinner⟩ := h'.object_inv
    obtain ⟨-, rfl⟩ := List.cons.inj htext
    rw [ih other hinner]
  | @endList first space hspace =>
    intro held' h'
    generalize htext : space ++ [']'] = text at h'
    cases h' with
    | endList _ => rfl
    | item hseparator' hspace' hvalue' _ =>
      exact absurd htext.symm (hvalue'.ne_close hseparator' hspace' hspace (.inl rfl))
  | @item first separator space text rest tree items hseparator hspace hvalue hrest
      ihvalue ihrest =>
    intro held' h'
    generalize htext : separator ++ (space ++ (text ++ rest)) = whole at h'
    cases h' with
    | endList hspace' =>
      exact absurd htext (hvalue.ne_close hseparator hspace hspace' (.inl rfl))
    | item hseparator' hspace' hvalue' hrest' =>
      obtain ⟨rfl, rfl⟩ := hvalue.eq_of_item hvalue' hrest hrest' hseparator hseparator' hspace
        hspace' htext
      rw [ihvalue _ hvalue', ihrest _ hrest']
  | @endObject first space hspace =>
    intro held' h'
    generalize htext : space ++ ['\x7d'] = text at h'
    cases h' with
    | endObject _ => rfl
    | member hseparator' hspace' hkey' _ _ _ _ =>
      exact absurd htext.symm
        ((Spells.string hkey').ne_close hseparator' hspace' hspace (.inr rfl))
  | @member first separator space key before after text rest tree members hseparator hspace hkey
      hbefore hafter hvalue hrest ihvalue ihrest =>
    intro held' h'
    generalize htext : separator ++ (space ++ (quoted key
      ++ (before ++ ':' :: (after ++ (text ++ rest))))) = whole at h'
    cases h' with
    | endObject hspace' =>
      exact absurd htext ((Spells.string hkey).ne_close hseparator hspace hspace' (.inr rfl))
    | member hseparator' hspace' hkey' hbefore' hafter' hvalue' hrest' =>
      obtain ⟨rfl, rfl, rfl⟩ := hvalue.eq_of_member hvalue' hkey hkey' hrest hrest' hseparator
        hseparator' hspace hspace' hbefore hbefore' hafter hafter' htext
      rw [ihvalue _ hvalue', ihrest _ hrest']

/-- A text spells one tree. -/
theorem Tree.SpelledBy.unique {tree tree' : Tree} {text : List Char} (h : tree.SpelledBy text)
    (h' : tree'.SpelledBy text) : tree' = tree := by
  obtain ⟨before, value, after, hbefore, hvalue, hafter, rfl⟩ := h
  obtain ⟨before', value', after', hbefore', hvalue', hafter', heq⟩ := h'
  have hstart := hvalue.eq_of_separated hvalue' .first .first hbefore hbefore' heq
  obtain ⟨rfl, -⟩ := hvalue.eq_of_append_eq hvalue' hafter.closes hafter'.closes hstart
  exact hvalue.only tree' hvalue'

end Flowchart.Json
