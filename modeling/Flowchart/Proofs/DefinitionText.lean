/-
  Flowchart.Proofs.DefinitionText

  A definition that is written as text and read again is the same definition.

  `Record.Fills` says what members do to a record when they are read one after
  the other.  The reader of the record takes a written object for the record
  that its members fill from the blank one, if every field is written once
  (`Record.reads_writeObject`).  The text of a definition writes every field,
  those that may be left out included, so its members fill the record that was
  written, whatever the blank one holds.
-/

import Flowchart.Definition.Json
import Flowchart.Proofs.JsonValue

namespace Flowchart

namespace Json

variable {σ : Type}

/-! ## Members of an object -/

/-- Read one after the other, the members turn the first record into the second. -/
inductive Record.Fills (record : Record σ) : List (String × List Char) → σ → σ → Prop where
  | nil (value : σ) : record.Fills [] value value
  | cons {α : Type} {name : String} {required : Bool} {reader : Reader α} {set : α → σ → σ}
      {text : List Char} {part : α} {members : List (String × List Char)} {value value' : σ}
      (hfield : record.fields.find? (fun field => field.name = name)
        = some { name, required, reader := reader.map set })
      (hreads : reader.Reads text part)
      (hrest : record.Fills members (set part value) value') :
      record.Fills ((name, text) :: members) value value'

/-- A member as it stands in an object. -/
def writeMember (member : String × List Char) : List Char :=
  writeString member.1 ++ [':'] ++ member.2

theorem readKey_writeString (name : String) (rest : List Char) :
    ∃ written, writeString name ++ rest = '"' :: written ∧
      readKey written = .ok (some name, rest) := by
  obtain ⟨written, hwritten, hread⟩ := readString_writeString name rest
  refine ⟨written, hwritten, ?_⟩
  rw [readKey, hread]

theorem nextMember_first (name : String) (rest : List Char) :
    nextMember true (writeString name ++ rest) = .ok (some name, rest) := by
  obtain ⟨written, hwritten, hread⟩ := readKey_writeString name rest
  rw [hwritten]
  exact hread

theorem nextMember_comma (name : String) (rest : List Char) :
    nextMember false (',' :: (writeString name ++ rest)) = .ok (some name, rest) := by
  obtain ⟨written, hwritten, hread⟩ := readKey_writeString name rest
  rw [hwritten]
  exact hread

theorem Record.readMember_of_reads {record : Record σ} {seen : List String} {name : String}
    {text rest : List Char} {set : σ → σ} {field : Field σ} (value : σ)
    (hfield : record.fields.find? (fun field => field.name = name) = some field)
    (hreads : field.reader.Reads text set) (hseen : name ∉ seen) (hrest : Closes rest) :
    record.readMember seen value name (':' :: (text ++ rest))
      = .ok ((name :: seen, set value), rest) := by
  rw [Record.readMember, hfield]
  dsimp only
  rw [if_neg hseen]
  show (field.reader.run (text ++ rest) >>= _) = _
  rw [hreads rest hrest]
  rfl

theorem Record.readMembers_brace (record : Record σ) (first : Bool) (seen : List String)
    (value : σ) (rest : List Char) :
    record.readMembers first seen value ('\x7d' :: rest) = .ok ((seen, value), rest) := by
  have hnext : nextMember first ('\x7d' :: rest) = .ok (none, rest) := rfl
  rw [Record.readMembers]
  split
  · next fault h =>
    rw [hnext] at h
    cases h
  · next rest' h =>
    rw [hnext] at h
    cases h
    rfl
  · next key rest' h =>
    rw [hnext] at h
    cases h

/-- One member is read. -/
theorem Record.readMembers_step {record : Record σ} {first : Bool} {seen seen' : List String}
    {value value' : σ} {key : String} {text rest rest' : List Char}
    (hnext : nextMember first text = .ok (some key, rest))
    (hmember : record.readMember seen value key rest = .ok ((seen', value'), rest')) :
    record.readMembers first seen value text = record.readMembers false seen' value' rest' := by
  rw [Record.readMembers]
  split
  · next fault h =>
    rw [hnext] at h
    cases h
  · next h =>
    rw [hnext] at h
    cases h
  · next key' text' h =>
    rw [hnext] at h
    cases h
    split
    · next fault h =>
      rw [hmember] at h
      cases h
    · next seen₁ value₁ rest₁ h =>
      rw [hmember] at h
      cases h
      rfl

/-- The members after the first are read, each behind its comma. -/
theorem Record.Fills.readMembers_rest {record : Record σ} {members : List (String × List Char)}
    {value value' : σ} (h : record.Fills members value value') {seen : List String}
    (hnodup : (members.map Prod.fst).Nodup) (hseen : ∀ name ∈ members.map Prod.fst, name ∉ seen)
    (rest : List Char) :
    record.readMembers false seen value
        ((members.map writeMember).flatMap (',' :: ·) ++ '\x7d' :: rest)
      = .ok (((members.map Prod.fst).reverse ++ seen, value'), rest) := by
  induction h generalizing seen with
  | nil value => exact record.readMembers_brace false seen value rest
  | @cons α name required reader set text part members value value' hfield hreads hrest ih =>
    rw [List.map_cons, List.nodup_cons] at hnodup
    -- a name that has been read does not come again
    have hname : name ∉ seen := hseen name List.mem_cons_self
    have hseen' : ∀ other ∈ members.map Prod.fst, other ∉ name :: seen := by
      intro other hother hmem
      rcases List.mem_cons.mp hmem with rfl | hmem
      · exact hnodup.1 hother
      · exact hseen other (List.mem_cons_of_mem _ hother) hmem
    have hmember := Record.readMember_of_reads value hfield (hreads.map set) hname
      (closes_flatMap (.inr rfl) (members.map writeMember) rest)
    rw [List.map_cons, List.flatMap_cons, List.cons_append, List.cons_append, List.append_assoc,
      writeMember, List.append_assoc, List.append_assoc, List.singleton_append]
    rw [Record.readMembers_step (nextMember_comma name _) hmember, ih hnodup.2 hseen']
    rw [List.map_cons, List.reverse_cons, List.append_assoc, List.singleton_append]

/-- All members of an object are read, up to the closing brace. -/
theorem Record.Fills.readMembers {record : Record σ} {members : List (String × List Char)}
    {value value' : σ} (h : record.Fills members value value')
    (hnodup : (members.map Prod.fst).Nodup) (rest : List Char) :
    record.readMembers true [] value
        (joinWith [','] (members.map writeMember) ++ '\x7d' :: rest)
      = .ok (((members.map Prod.fst).reverse, value'), rest) := by
  cases h with
  | nil => exact record.readMembers_brace true [] value rest
  | @cons α name required reader set text part members _ _ hfield hreads hrest =>
    rw [List.map_cons, List.nodup_cons] at hnodup
    have hseen : ∀ other ∈ members.map Prod.fst, other ∉ [name] := by
      intro other hother hmem
      rw [List.mem_singleton] at hmem
      rw [hmem] at hother
      exact hnodup.1 hother
    have hmember := Record.readMember_of_reads value hfield (hreads.map set) List.not_mem_nil
      (closes_flatMap (.inr rfl) (members.map writeMember) rest)
    rw [List.map_cons, joinWith_comma, List.append_assoc, writeMember, List.append_assoc,
      List.append_assoc, List.singleton_append]
    rw [Record.readMembers_step (nextMember_first name _) hmember]
    rw [hrest.readMembers_rest hnodup.2 hseen, List.map_cons, List.reverse_cons]

theorem Record.missing?_eq_none {record : Record σ} {seen : List String}
    (h : ∀ field ∈ record.fields, field.name ∈ seen) : record.missing? seen = none := by
  rw [Record.missing?, List.find?_eq_none]
  intro field hfield hmissing
  rw [decide_eq_true_iff] at hmissing
  exact hmissing.2 (h field hfield)

/-- An object that writes every field of a record once is read as the record that its members
    fill. -/
theorem Record.reads_writeObject {record : Record σ} {members : List (String × List Char)}
    {value : σ} (hfills : record.Fills members record.blank value)
    (hnames : members.map Prod.fst = record.fields.map Field.name)
    (hnodup : (record.fields.map Field.name).Nodup) :
    record.reader.Reads (writeObject members) value := by
  intro rest _
  have hnone : record.missing? (members.map Prod.fst).reverse = none := by
    -- every field is there, the required ones among them
    apply Record.missing?_eq_none
    intro field hfield
    rw [hnames, List.mem_reverse]
    exact List.mem_map_of_mem hfield
  rw [← hnames] at hnodup
  have hobject : record.readObject (joinWith [','] (members.map writeMember) ++ '\x7d' :: rest)
      = .ok (value, rest) := by
    rw [Record.readObject, hfills.readMembers hnodup]
    dsimp only
    rw [hnone]
  rw [writeObject, List.append_assoc, List.append_assoc, List.singleton_append,
    List.singleton_append, Record.reader, afterSpace_run_cons (by decide)]
  dsimp only
  rw [if_neg (by decide), if_pos rfl]
  exact hobject

theorem readAll_of_reads {α : Type} {reader : Reader α} {text : List Char} {value : α}
    (h : reader.Reads text value) : readAll reader text = .ok value := by
  have hrun := h [] closes_nil
  rw [List.append_nil] at hrun
  rw [readAll, hrun]
  rfl

end Json

/-! ## Elements and arrows -/

open Json

theorem Kind.reads_words (kind : Kind) : Kind.words.reader.Reads (writeString kind.word) kind := by
  apply reads_word
  cases kind <;> rfl

theorem Label.reads_words (label : Label) :
    Label.words.reader.Reads (writeString label.word) label := by
  apply reads_word
  cases label <;> rfl

theorem ElementSpec.reads_write (spec : ElementSpec) :
    ElementSpec.record.reader.Reads spec.write spec := by
  have hscript := reads_nullable opens_writeString reads_string spec.script
  apply Record.reads_writeObject
  · apply Record.Fills.cons rfl (reads_string spec.key)
    apply Record.Fills.cons rfl (Kind.reads_words spec.kind)
    apply Record.Fills.cons rfl hscript
    exact .nil spec
  · rfl
  · decide

theorem ArrowSpec.reads_write (spec : ArrowSpec) :
    ArrowSpec.record.reader.Reads spec.write spec := by
  have hlabel := reads_nullable (fun label : Label => opens_writeString label.word)
    Label.reads_words spec.label
  apply Record.reads_writeObject
  · apply Record.Fills.cons rfl (reads_string spec.source)
    apply Record.Fills.cons rfl (reads_string spec.target)
    apply Record.Fills.cons rfl hlabel
    exact .nil spec
  · rfl
  · decide

/-! ## Definitions -/

theorem Definition.reads_write (d : Definition) : Definition.record.reader.Reads d.write d := by
  have hformer := reads_nullable opens_writeString reads_string d.formerName
  have helements := reads_list (fun spec : ElementSpec => opens_writeObject _)
    ElementSpec.reads_write d.elements
  have harrows := reads_list (fun spec : ArrowSpec => opens_writeObject _)
    ArrowSpec.reads_write d.arrows
  apply Record.reads_writeObject
  · apply Record.Fills.cons rfl (reads_string d.name)
    apply Record.Fills.cons rfl (reads_string d.description)
    apply Record.Fills.cons rfl hformer
    apply Record.Fills.cons rfl (reads_natural32 d.version)
    apply Record.Fills.cons rfl helements
    apply Record.Fills.cons rfl harrows
    exact .nil d
  · rfl
  · decide

/-- The text of a definition is read as that definition. -/
theorem Definition.ofJson_toJson (d : Definition) : Definition.ofJson d.toJson = .ok d := by
  have hread : readAll Definition.record.reader d.toJson.toList = .ok d := by
    rw [Definition.toJson, String.toList_ofList]
    exact readAll_of_reads d.reads_write
  rw [Definition.ofJson, hread]

end Flowchart
