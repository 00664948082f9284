/-
  Flowchart.Proofs.JsonRecord

  What the reader of a record makes of a tree.  From an object it takes the
  members whose keys name fields, and passes over the others; `Record.Sets` says
  which fields are set so and how.  The object is a record if no field is set
  twice and those that have to be there are (`Record.Complete`), and the record is
  the blank one with all these fields set, one after the other
  (`Record.setAll`).  From a list it takes the fields in their order
  (`Record.Lists`).  A reader of records is steady if the readers of its fields
  are (`Record.steady_reader`).
-/

import Flowchart.Proofs.JsonReading

namespace Flowchart.Json

variable {σ : Type} {record : Record σ}

namespace Record

/-! ## Members of an object -/

/-- The fields that the members set, in their order, each with how it is set.  A member whose key
    is no name of a field sets nothing. -/
inductive Sets (record : Record σ) : List (List Char × Tree) → List (String × (σ → σ)) → Prop where
  | nil : record.Sets [] []
  | known {key : List Char} {name : String} {field : Field σ} {tree : Tree} {set : σ → σ}
      {members : List (List Char × Tree)} {settings : List (String × (σ → σ))}
      (hkey : Spelling key name.toList)
      (hfield : record.fields.find? (fun field => field.name = name) = some field)
      (hset : field.reader.Means tree set) (hrest : record.Sets members settings) :
      record.Sets ((key, tree) :: members) ((name, set) :: settings)
  | unknown {key : List Char} {name : String} {tree : Tree} {members : List (List Char × Tree)}
      {settings : List (String × (σ → σ))} (hkey : Spelling key name.toList)
      (hnone : record.fields.find? (fun field => field.name = name) = none)
      (htree : tree.Spelled) (hrest : record.Sets members settings) :
      record.Sets ((key, tree) :: members) settings

/-- No field is set twice, and those that have to be set are. -/
structure Complete (record : Record σ) (settings : List (String × (σ → σ))) : Prop where
  nodup : (settings.map Prod.fst).Nodup
  required : ∀ field ∈ record.fields, field.required = true → field.name ∈ settings.map Prod.fst

/-- The record after the settings. -/
def setAll (settings : List (String × (σ → σ))) (value : σ) : σ :=
  settings.foldl (fun value setting => setting.2 value) value

/-- The object with these members is the record. -/
def Fits (record : Record σ) (members : List (List Char × Tree)) (value : σ) : Prop :=
  ∃ settings, record.Sets members settings ∧ record.Complete settings ∧
    value = setAll settings record.blank

theorem Sets.spelled {members : List (List Char × Tree)} {settings : List (String × (σ → σ))}
    (h : record.Sets members settings) (first : Bool) :
    ∃ text, Spells (.members first members) text := by
  obtain ⟨separator, hseparator⟩ := exists_separates first
  induction h generalizing first separator with
  | nil => exact ⟨_, .endObject blank_nil⟩
  | known hkey _ hset _ ih =>
    obtain ⟨text, htext⟩ := hset.spelled
    obtain ⟨rest, hrest⟩ := ih false _ (.comma blank_nil)
    exact ⟨_, .member hseparator blank_nil hkey.isBody blank_nil blank_nil htext hrest⟩
  | unknown hkey _ htree _ ih =>
    obtain ⟨text, htext⟩ := htree
    obtain ⟨rest, hrest⟩ := ih false _ (.comma blank_nil)
    exact ⟨_, .member hseparator blank_nil hkey.isBody blank_nil blank_nil htext hrest⟩

theorem nextMember_end {space : List Char} (hspace : Blank space) (first : Bool)
    (rest : List Char) : nextMember first (space ++ '\x7d' :: rest) = .ok (none, rest) := by
  rw [nextMember, skipSpace_blank hspace (by decide)]
  rfl

theorem nextMember_key {first : Bool} {separator space : List Char}
    (hseparator : Separates first separator) (hspace : Blank space) (key rest : List Char) :
    nextMember first (separator ++ (space ++ (quoted key ++ rest)))
      = readKey (key ++ '"' :: rest) := by
  rw [quoted_append]
  cases hseparator with
  | first =>
    rw [List.nil_append, nextMember, skipSpace_blank hspace (by decide)]
    rfl
  | comma hbefore =>
    rw [List.append_assoc, List.singleton_append, nextMember, skipSpace_blank hbefore (by decide)]
    dsimp only
    rw [if_neg (by decide), if_neg Bool.false_ne_true, if_pos rfl,
      skipSpace_blank hspace (by decide)]
    rfl

theorem readKey_spelling {key : List Char} {name : String} (h : Spelling key name.toList)
    (rest : List Char) : readKey (key ++ '"' :: rest) = .ok (some name, rest) := by
  rw [readKey, readString_text h]

theorem readKey_body {key rest rest' : List Char} {found : Option String} (hkey : IsBody key)
    (hread : readKey (key ++ '"' :: rest) = .ok (found, rest')) :
    ∃ name, found = some name ∧ Spelling key name.toList ∧ rest' = rest := by
  rw [readKey] at hread
  split at hread
  · cases hread
  · next name rest'' hstring =>
    cases hread
    obtain ⟨hspell, rfl⟩ := readString_body hkey hstring
    exact ⟨name, rfl, hspell, rfl⟩

section Member

variable {seen : List String} {value : σ} {name : String} {before after text rest : List Char}
  {tree : Tree}

theorem readMember_unknown (hnone : record.fields.find? (fun field => field.name = name) = none)
    (hbefore : Blank before) (hafter : Blank after) (htext : Spells (.value tree) text)
    (hrest : Closes rest) :
    record.readMember seen value name (before ++ ':' :: (after ++ (text ++ rest)))
      = .ok ((seen, value), rest) := by
  rw [readMember, hnone]
  dsimp only
  rw [readColon_spelled hbefore]
  show (skipValue.run _ >>= _) = _
  rw [skipValue_spelled htext hafter hrest]
  rfl

theorem readMember_known {field : Field σ}
    (hfield : record.fields.find? (fun field => field.name = name) = some field)
    (hbefore : Blank before) :
    record.readMember seen value name (before ++ ':' :: text)
      = if name ∈ seen then .error (.duplicateField name)
        else field.reader.run text >>= fun outcome =>
          .ok ((name :: seen, outcome.1 value), outcome.2) := by
  rw [readMember, hfield]
  dsimp only
  rw [readColon_spelled hbefore]
  rfl

/-- One member is read: it sets a field that has not been set, or it is passed over. -/
theorem readMember_ok (hfields : ∀ field ∈ record.fields, field.reader.Steady)
    (hbefore : Blank before) (hafter : Blank after) (htext : Spells (.value tree) text)
    (hrest : Closes rest) {seen' : List String} {value' : σ} {rest' : List Char}
    (hread : record.readMember seen value name (before ++ ':' :: (after ++ (text ++ rest)))
      = .ok ((seen', value'), rest')) :
    ((∃ field set, record.fields.find? (fun field => field.name = name) = some field ∧
        field.reader.Means tree set ∧ name ∉ seen ∧ seen' = name :: seen ∧ value' = set value) ∨
      record.fields.find? (fun field => field.name = name) = none ∧ seen' = seen ∧
        value' = value) ∧ rest' = rest := by
  cases hfield : record.fields.find? fun field => field.name = name with
  | none =>
    rw [readMember_unknown hfield hbefore hafter htext hrest] at hread
    cases hread
    exact ⟨.inr ⟨rfl, rfl, rfl⟩, rfl⟩
  | some field =>
    rw [readMember_known hfield hbefore] at hread
    by_cases hseen : name ∈ seen
    · rw [if_pos hseen] at hread
      cases hread
    · rw [if_neg hseen] at hread
      obtain ⟨⟨set, tail⟩, hset, heq⟩ := bind_eq_ok.mp hread
      cases heq
      have hsteady := hfields field (List.mem_of_find?_eq_some hfield)
      obtain ⟨hmeans, rfl⟩ := hsteady htext hafter hrest hset
      exact ⟨.inl ⟨field, set, rfl, hmeans, hseen, rfl, rfl⟩, rfl⟩

end Member

theorem readMembers_eq (record : Record σ) (first : Bool) (seen : List String) (value : σ)
    (text : List Char) :
    record.readMembers first seen value text
      = nextMember first text >>= fun next =>
        match next.1 with
        | none => .ok ((seen, value), next.2)
        | some key => record.readMember seen value key next.2 >>= fun outcome =>
            record.readMembers false outcome.1.1 outcome.1.2 outcome.2 := by
  conv_lhs => rw [readMembers]
  split
  · next hnext => rw [hnext]; rfl
  · next hnext => rw [hnext]; rfl
  · next key rest hnext =>
    conv_rhs => rw [hnext]
    show _ = record.readMember seen value key rest >>= _
    split
    · next hmember =>
      conv_rhs => rw [hmember]
      rfl
    · next hmember =>
      conv_rhs => rw [hmember]
      rfl

/-- The members of an object are read, and set what they set. -/
theorem Sets.readMembers {members : List (List Char × Tree)} {settings : List (String × (σ → σ))}
    (h : record.Sets members settings) {first : Bool} {text : List Char}
    (htext : Spells (.members first members) text) {seen : List String}
    (hnodup : (settings.map Prod.fst).Nodup) (hseen : ∀ name ∈ settings.map Prod.fst, name ∉ seen)
    (value : σ) (rest : List Char) :
    record.readMembers first seen value (text ++ rest)
      = .ok (((settings.map Prod.fst).reverse ++ seen, setAll settings value), rest) := by
  induction h generalizing first text seen value with
  | nil =>
    cases htext with
    | endObject hspace =>
      rw [List.append_assoc, List.singleton_append, readMembers_eq, nextMember_end hspace]
      rfl
  | @known key name field tree set members settings hkey hfield hset _ ih =>
    cases htext with
    | member hseparator hspace _ hbefore hafter hvalue hrest =>
      rw [List.map_cons, List.nodup_cons] at hnodup
      -- a field that has been set is not set again
      have hseen' : ∀ other ∈ settings.map Prod.fst, other ∉ name :: seen := by
        intro other hother hmem
        rcases List.mem_cons.mp hmem with rfl | hmem
        · exact hnodup.1 hother
        · exact hseen other (List.mem_cons_of_mem _ hother) hmem
      have hread := hset.reads _ hvalue _ _ hafter (hrest.closes_members rest)
      simp only [List.append_assoc, List.cons_append]
      rw [readMembers_eq, nextMember_key hseparator hspace, readKey_spelling hkey]
      show (record.readMember seen value name _ >>= _) = _
      rw [readMember_known hfield hbefore, if_neg (hseen name List.mem_cons_self), hread]
      show record.readMembers false (name :: seen) (set value) _ = _
      rw [ih hrest hnodup.2 hseen', List.map_cons, List.reverse_cons, List.append_assoc,
        List.singleton_append]
      rfl
  | unknown hkey hnone _ _ ih =>
    cases htext with
    | member hseparator hspace _ hbefore hafter hvalue hrest =>
      simp only [List.append_assoc, List.cons_append]
      rw [readMembers_eq, nextMember_key hseparator hspace, readKey_spelling hkey]
      show (record.readMember seen value _ _ >>= _) = _
      rw [readMember_unknown hnone hbefore hafter hvalue (hrest.closes_members rest)]
      exact ih hrest hnodup hseen value

/-- What is read of an object is what its members set. -/
theorem readMembers_steady (hfields : ∀ field ∈ record.fields, field.reader.Steady)
    {members : List (List Char × Tree)} {first : Bool} {text : List Char}
    (htext : Spells (.members first members) text) {seen seen' : List String} {value value' : σ}
    {rest rest' : List Char}
    (hread : record.readMembers first seen value (text ++ rest) = .ok ((seen', value'), rest')) :
    (∃ settings, record.Sets members settings ∧ (settings.map Prod.fst).Nodup ∧
      (∀ name ∈ settings.map Prod.fst, name ∉ seen) ∧
      seen' = (settings.map Prod.fst).reverse ++ seen ∧ value' = setAll settings value) ∧
      rest' = rest := by
  induction members generalizing first text seen value with
  | nil =>
    cases htext with
    | endObject hspace =>
      rw [List.append_assoc, List.singleton_append, readMembers_eq, nextMember_end hspace] at hread
      cases hread
      exact ⟨⟨[], .nil, List.nodup_nil, fun _ h => absurd h List.not_mem_nil, rfl, rfl⟩, rfl⟩
  | cons member members ih =>
    cases htext with
    | member hseparator hspace hkey hbefore hafter hvalue hrest =>
      simp only [List.append_assoc, List.cons_append] at hread
      rw [readMembers_eq, nextMember_key hseparator hspace] at hread
      obtain ⟨⟨found, tail⟩, hfound, hread⟩ := bind_eq_ok.mp hread
      obtain ⟨name, rfl, hname, rfl⟩ := readKey_body hkey hfound
      dsimp only at hread
      obtain ⟨⟨⟨seen₁, value₁⟩, tail⟩, hmember, hread⟩ := bind_eq_ok.mp hread
      obtain ⟨hset, rfl⟩ :=
        readMember_ok hfields hbefore hafter hvalue (hrest.closes_members rest) hmember
      obtain ⟨⟨settings, hsets, hnodup, hnew, rfl, rfl⟩, rfl⟩ := ih hrest hread
      rcases hset with ⟨field, set, hfield, hmeans, hseen, rfl, rfl⟩ | ⟨hnone, rfl, rfl⟩
      · refine ⟨⟨(name, set) :: settings, .known hname hfield hmeans hsets, ?_, ?_, ?_, rfl⟩, rfl⟩
        · rw [List.map_cons, List.nodup_cons]
          exact ⟨fun hmem => hnew name hmem List.mem_cons_self, hnodup⟩
        · intro other hother hmem
          rcases List.mem_cons.mp hother with rfl | hother
          · exact hseen hmem
          · exact hnew other hother (List.mem_cons_of_mem _ hmem)
        · rw [List.map_cons, List.reverse_cons, List.append_assoc, List.singleton_append]
      · exact ⟨⟨settings, .unknown hname hnone ⟨_, hvalue⟩ hsets, hnodup, hnew, rfl, rfl⟩, rfl⟩

/-! ## Objects -/

theorem missing?_eq_none_iff {seen : List String} :
    record.missing? seen = none ↔
      ∀ field ∈ record.fields, field.required = true → field.name ∈ seen := by
  rw [missing?, List.find?_eq_none]
  refine forall₂_congr fun field _ => ?_
  rw [decide_eq_true_iff, not_and, not_not]

theorem Fits.readObject {members : List (List Char × Tree)} {value : σ}
    (h : record.Fits members value) {text : List Char}
    (htext : Spells (.members true members) text) (rest : List Char) :
    record.readObject (text ++ rest) = .ok (value, rest) := by
  obtain ⟨settings, hsets, hcomplete, rfl⟩ := h
  have hunseen : ∀ name ∈ settings.map Prod.fst, name ∉ ([] : List String) :=
    fun _ _ => List.not_mem_nil
  have hread := hsets.readMembers htext hcomplete.nodup hunseen record.blank rest
  have hnone : record.missing? ((settings.map Prod.fst).reverse ++ []) = none := by
    rw [missing?_eq_none_iff]
    intro field hfield hrequired
    rw [List.append_nil, List.mem_reverse]
    exact hcomplete.required field hfield hrequired
  rw [Record.readObject, hread]
  dsimp only
  rw [hnone]

theorem fits_of_readObject (hfields : ∀ field ∈ record.fields, field.reader.Steady)
    {members : List (List Char × Tree)} {text rest rest' : List Char} {value : σ}
    (htext : Spells (.members true members) text)
    (hread : record.readObject (text ++ rest) = .ok (value, rest')) :
    record.Fits members value ∧ rest' = rest := by
  rw [readObject] at hread
  split at hread
  · cases hread
  · next seen' value' rest'' hmembers =>
    obtain ⟨⟨settings, hsets, hnodup, -, rfl, rfl⟩, rfl⟩ :=
      readMembers_steady hfields htext hmembers
    split at hread
    · cases hread
    · next hnone =>
      cases hread
      refine ⟨⟨settings, hsets, ⟨hnodup, fun field hfield hrequired => ?_⟩, rfl⟩, rfl⟩
      have hmem := missing?_eq_none_iff.mp hnone field hfield hrequired
      rwa [List.append_nil, List.mem_reverse] at hmem

/-! ## Lists of fields -/

/-- The items set the fields in their order, and fields that are left out at the end do not have
    to be there. -/
inductive Lists : List (Field σ) → List Tree → σ → σ → Prop where
  | nil (value : σ) : Lists [] [] value value
  | item {field : Field σ} {fields : List (Field σ)} {tree : Tree} {items : List Tree}
      {set : σ → σ} {value value' : σ} (hset : field.reader.Means tree set)
      (hrest : Lists fields items (set value) value') :
      Lists (field :: fields) (tree :: items) value value'
  | absent {field : Field σ} {fields : List (Field σ)} {value value' : σ}
      (hoptional : field.required = false) (hrest : Lists fields [] value value') :
      Lists (field :: fields) [] value value'

theorem Lists.spelled {fields : List (Field σ)} {items : List Tree} {value value' : σ}
    (h : Lists fields items value value') : ∀ tree ∈ items, tree.Spelled := by
  intro tree htree
  induction h with
  | nil => exact absurd htree List.not_mem_nil
  | item hset _ ih =>
    rcases List.mem_cons.mp htree with rfl | htree
    · exact hset.spelled
    · exact ih htree
  | absent _ _ _ => exact absurd htree List.not_mem_nil

/-- A list with an item to come is not at its end. -/
theorem endList_item {first : Bool} {separator space text : List Char} {tree : Tree}
    (hseparator : Separates first separator) (hspace : Blank space)
    (htext : Spells (.value tree) text) (rest rest' : List Char) :
    endList (separator ++ (space ++ (text ++ rest))) ≠ .ok rest' := by
  obtain ⟨c, text, rfl, hc⟩ := htext.starts
  obtain ⟨hblank, hcomma, hbracket, -⟩ := hc.plain
  rw [List.cons_append]
  intro hend
  cases hseparator with
  | first =>
    rw [List.nil_append, endList, skipSpace_blank hspace hblank] at hend
    dsimp only at hend
    rw [if_neg hbracket, if_neg hcomma] at hend
    cases hend
  | comma hbefore =>
    rw [List.append_assoc, List.singleton_append, endList, skipSpace_blank hbefore (by decide)]
      at hend
    dsimp only at hend
    rw [if_neg (by decide), if_pos rfl] at hend
    split at hend
    · cases hend
    · cases hend

theorem Lists.readFields {fields : List (Field σ)} {items : List Tree} {value value' : σ}
    (h : Lists fields items value value') {first : Bool} {text : List Char}
    (htext : Spells (.items first items) text) (index : Nat) (rest : List Char) :
    record.readFields fields index first value (text ++ rest) = .ok (value', rest) := by
  induction h generalizing first text index with
  | nil value =>
    cases htext with
    | endList hspace =>
      rw [List.append_assoc, List.singleton_append, Record.readFields,
        (nextItem_end hspace first rest).2]
  | item hset _ ih =>
    cases htext with
    | item hseparator hspace hvalue hrest =>
      simp only [List.append_assoc]
      rw [Record.readFields, nextItem_item hseparator hspace hvalue]
      dsimp only
      rw [hset.run hvalue (hrest.closes_items rest)]
      exact ih hrest (index + 1)
  | absent hoptional _ ih =>
    have hlist := ih htext (index + 1)
    cases htext with
    | endList hspace =>
      rw [List.append_assoc, List.singleton_append] at hlist ⊢
      rw [Record.readFields, (nextItem_end hspace first rest).1]
      dsimp only
      rw [hoptional, if_neg Bool.false_ne_true]
      exact hlist

theorem lists_of_readFields {fields : List (Field σ)}
    (hfields : ∀ field ∈ fields, field.reader.Steady) {items : List Tree} {first : Bool}
    {text : List Char} (htext : Spells (.items first items) text) {index : Nat} {value value' : σ}
    {rest rest' : List Char}
    (hread : record.readFields fields index first value (text ++ rest) = .ok (value', rest')) :
    Lists fields items value value' ∧ rest' = rest := by
  induction fields generalizing items first text index value with
  | nil =>
    rw [readFields] at hread
    cases htext with
    | endList hspace =>
      rw [List.append_assoc, List.singleton_append, (nextItem_end hspace first rest).2] at hread
      cases hread
      exact ⟨.nil _, rfl⟩
    | item hseparator hspace hvalue hrest =>
      simp only [List.append_assoc] at hread
      split at hread
      · cases hread
      · next hend => exact absurd hend (endList_item hseparator hspace hvalue _ _)
  | cons field fields ih =>
    have hrest_fields : ∀ other ∈ fields, other.reader.Steady :=
      fun other hother => hfields other (List.mem_cons_of_mem _ hother)
    cases items with
    | nil =>
      have htail := htext
      cases htext with
      | endList hspace =>
        rw [List.append_assoc, List.singleton_append] at hread
        rw [readFields, (nextItem_end hspace first rest).1] at hread
        dsimp only at hread
        by_cases hrequired : field.required = true
        · rw [if_pos hrequired] at hread
          cases hread
        · rw [if_neg hrequired] at hread
          rw [← List.singleton_append, ← List.append_assoc] at hread
          obtain ⟨hlists, rfl⟩ := ih hrest_fields htail hread
          exact ⟨.absent (Bool.eq_false_iff.mpr hrequired) hlists, rfl⟩
    | cons tree items =>
      cases htext with
      | item hseparator hspace hvalue hrest =>
        simp only [List.append_assoc] at hread
        rw [readFields, nextItem_item hseparator hspace hvalue] at hread
        dsimp only at hread
        split at hread
        · cases hread
        · next set tail hset =>
          obtain ⟨hmeans, rfl⟩ :=
            hfields field List.mem_cons_self hvalue blank_nil (hrest.closes_items rest) hset
          obtain ⟨hlists, rfl⟩ := ih hrest_fields hrest hread
          exact ⟨.item hmeans hlists, rfl⟩

/-! ## Either form -/

theorem Fits.means {members : List (List Char × Tree)} {value : σ}
    (h : record.Fits members value) : record.reader.Means (.object members) value := by
  have hspelled : Tree.Spelled (.object members) := by
    obtain ⟨settings, hsets, -⟩ := h
    obtain ⟨text, htext⟩ := hsets.spelled true
    exact ⟨_, .object htext⟩
  refine means_afterSpace hspelled fun text rest htext _ => ?_
  obtain ⟨inner, rfl, hinner⟩ := htext.object_inv
  exact h.readObject hinner rest

theorem Lists.means {items : List Tree} {value : σ}
    (h : Lists record.fields items record.blank value) :
    record.reader.Means (.list items) value := by
  obtain ⟨text, htext⟩ := items_spelled h.spelled true
  refine means_afterSpace ⟨_, .list htext⟩ fun text rest htext _ => ?_
  obtain ⟨inner, rfl, hinner⟩ := htext.list_inv
  exact h.readFields hinner 0 rest

/-- A record is read just from an object that fits it or from a list of its fields. -/
theorem run_ok (hfields : ∀ field ∈ record.fields, field.reader.Steady) {tree : Tree}
    {text space rest rest' : List Char} {value : σ} (htext : Spells (.value tree) text)
    (hspace : Blank space)
    (hread : record.reader.run (space ++ (text ++ rest)) = .ok (value, rest')) :
    ((∃ members, tree = .object members ∧ record.Fits members value) ∨
      ∃ items, tree = .list items ∧ Lists record.fields items record.blank value) ∧
      rest' = rest := by
  rw [reader, afterSpace_run_spelled htext hspace] at hread
  obtain ⟨c, tail, hcons, hc⟩ := htext.starts
  have hfirst := hread
  rw [hcons, List.cons_append] at hfirst
  dsimp only at hfirst
  by_cases hbracket : c = '['
  · subst hbracket
    obtain ⟨items, rfl⟩ := hc.list
    obtain ⟨inner, rfl, hinner⟩ := htext.list_inv
    obtain ⟨hlists, rfl⟩ := lists_of_readFields hfields hinner hread
    exact ⟨.inr ⟨items, rfl, hlists⟩, rfl⟩
  rw [if_neg hbracket] at hfirst
  by_cases hbrace : c = '\x7b'
  · subst hbrace
    obtain ⟨members, rfl⟩ := hc.object
    obtain ⟨inner, rfl, hinner⟩ := htext.object_inv
    obtain ⟨hfits, rfl⟩ := fits_of_readObject hfields hinner hread
    exact ⟨.inl ⟨members, rfl, hfits⟩, rfl⟩
  · rw [if_neg hbrace] at hfirst
    cases hfirst

theorem steady_reader (hfields : ∀ field ∈ record.fields, field.reader.Steady) :
    record.reader.Steady := by
  intro tree text space rest rest' value htext hspace hrest hread
  obtain ⟨hform, rfl⟩ := run_ok hfields htext hspace hread
  rcases hform with ⟨members, rfl, hfits⟩ | ⟨items, rfl, hlists⟩
  · exact ⟨hfits.means, rfl⟩
  · exact ⟨hlists.means, rfl⟩

/-- An object means the record that it fits. -/
theorem fits_of_means (hfields : ∀ field ∈ record.fields, field.reader.Steady)
    {members : List (List Char × Tree)} {value : σ}
    (h : record.reader.Means (.object members) value) : record.Fits members value := by
  obtain ⟨text, htext⟩ := h.spelled
  obtain ⟨hform, -⟩ :=
    run_ok hfields htext blank_nil (h.reads text htext [] [] blank_nil closes_nil)
  rcases hform with ⟨members', heq, hfits⟩ | ⟨items, heq, -⟩
  · cases heq
    exact hfits
  · cases heq

end Record

/-! ## Whole texts -/

theorem readAll_of_means {α : Type} {reader : Reader α} {tree : Tree} {value : α}
    (h : reader.Means tree value) {text : List Char} (htext : tree.SpelledBy text) :
    readAll reader text = .ok value := by
  obtain ⟨before, inner, after, hbefore, hinner, hafter, rfl⟩ := htext
  have hend : skipSpace after = [] := by
    have hskip := skipSpace_append hafter []
    rw [List.append_nil] at hskip
    exact hskip
  rw [readAll, h.reads inner hinner before after hbefore hafter.closes]
  dsimp only
  rw [hend]

theorem means_of_readAll {α : Type} {reader : Reader α} (hsteady : reader.Steady) {tree : Tree}
    {text : List Char} {value : α} (htext : tree.SpelledBy text)
    (hread : readAll reader text = .ok value) : reader.Means tree value := by
  obtain ⟨before, inner, after, hbefore, hinner, hafter, rfl⟩ := htext
  rw [readAll] at hread
  split at hread
  · cases hread
  · next found rest hrun =>
    obtain ⟨hmeans, rfl⟩ := hsteady hinner hbefore hafter.closes hrun
    split at hread
    · cases hread
      exact hmeans
    · cases hread

end Flowchart.Json
