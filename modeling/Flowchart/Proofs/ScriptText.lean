/-
  Flowchart.Proofs.ScriptText

  The JSON text of a script tells all of the script.  A written string is a body
  between quotes that stands for the string (`spelling_escapes`), and an object with
  one member to a line is spelled by its members (`spells_writeObjectLines`), so that
  the text of a script is a JSON text.  Such a text spells one tree, and a string in a
  tree is read one way, so that nothing is told twice or left open, whatever
  characters there are in the script.
-/

import Flowchart.Proofs.JsonUnique
import Flowchart.Script.Artifact

namespace Flowchart

namespace Json

/-! ## Written strings -/

theorem spelling_escape (c : Char) {body chars : List Char} (h : Spelling body chars) :
    Spelling (escape c ++ body) (c :: chars) := by
  rcases escape_cases c with ⟨letter, hletter, hc⟩ | ⟨hcontrol, hc⟩ | ⟨⟨hquote, hslash, hplain⟩, hc⟩
  · rw [hc]
    exact .escape hletter h
  · have hwhole : c.toNat < 0xD800 ∨ 0xDFFF < c.toNat := by omega
    have hspell := Spelling.unicode (hexValue?_control hcontrol) hwhole h
    rw [Char.ofNat_toNat] at hspell
    rw [hc]
    exact hspell
  · rw [hc]
    exact .plain hquote hslash hplain h

/-- What is written for a list of characters stands for them. -/
theorem spelling_escapes (chars : List Char) : Spelling (chars.flatMap escape) chars := by
  induction chars with
  | nil => exact .nil
  | cons c chars ih =>
    rw [List.flatMap_cons]
    exact spelling_escape c ih

theorem writeString_eq_quoted (text : String) :
    writeString text = quoted (text.toList.flatMap escape) := by
  rw [writeString, quoted]
  rfl

theorem spells_writeString (text : String) :
    Spells (.value (.string (text.toList.flatMap escape))) (writeString text) := by
  rw [writeString_eq_quoted]
  exact .string (spelling_escapes text.toList).isBody

/-! ## Objects with one member to a line -/

/-- The member of a tree that a string is written as. -/
def stringMember (member : String × String) : List Char × Tree :=
  (member.1.toList.flatMap escape, .string (member.2.toList.flatMap escape))

/-- A member on a line of its own, with a written value. -/
def memberLine (member : String × List Char) : List Char :=
  [' ', ' '] ++ writeString member.1 ++ [':', ' '] ++ member.2

theorem spells_memberLine {first : Bool} {separator rest : List Char}
    {others : List (List Char × Tree)} (hseparator : Separates first separator)
    (member : String × String) (hrest : Spells (.members false others) rest) :
    Spells (.members first (stringMember member :: others))
      (separator ++ ('\n' :: (memberLine (member.1, writeString member.2) ++ rest))) := by
  have hindent : Blank ['\n', ' ', ' '] := blank_of_all rfl
  have hspace : Blank [' '] := blank_of_all rfl
  have hkey := (spelling_escapes member.1.toList).isBody
  have hspells := Spells.member hseparator hindent hkey blank_nil hspace
    (spells_writeString member.2) hrest
  rw [← writeString_eq_quoted] at hspells
  simp only [memberLine, List.append_assoc]
  exact hspells

theorem spells_memberLines (members : List (String × String)) :
    Spells (.members false (members.map stringMember))
      ((members.map fun member => memberLine (member.1, writeString member.2)).flatMap
          ([',', '\n'] ++ ·) ++ ['\n', '\x7d']) := by
  induction members with
  | nil =>
    have hline : Blank ['\n'] := blank_of_all rfl
    exact .endObject hline
  | cons member members ih =>
    have hspells := spells_memberLine (.comma blank_nil) member ih
    rw [List.map_cons, List.map_cons, List.flatMap_cons, List.append_assoc, List.append_assoc]
    exact hspells

/-- An object with one member to a line is spelled by its members. -/
theorem spells_writeObjectLines (members : List (String × String)) :
    Spells (.value (.object (members.map stringMember)))
      (writeObjectLines (members.map fun member => (member.1, writeString member.2))) := by
  rw [writeObjectLines, List.map_map]
  cases members with
  | nil =>
    have hlines : Blank ['\n', '\n'] := blank_of_all rfl
    exact .object (.endObject hlines)
  | cons member members =>
    have hspells := spells_memberLine .first member (spells_memberLines members)
    rw [List.map_cons, List.map_cons, joinWith_cons, List.append_assoc, List.append_assoc]
    exact .object hspells

/-! ## What an object holds -/

/-- The part of an object is read as the name and the value of the member, a string. -/
def ReadsMember (part : List Char × Tree) (member : String × String) : Prop :=
  Spelling part.1 member.1.toList ∧ string.Means part.2 member.2

/-- The tree is an object with members of these names and values, in this order and no others. -/
def Tree.HoldsStrings (tree : Tree) (members : List (String × String)) : Prop :=
  ∃ parts, tree = .object parts ∧ List.Forall₂ ReadsMember parts members

theorem readsMember_stringMember (member : String × String) :
    ReadsMember (stringMember member) member := by
  have hvalue := spelling_escapes member.2.toList
  exact ⟨spelling_escapes member.1.toList, means_string hvalue.isBody hvalue⟩

/-- A part of an object is read as one member at most. -/
theorem readsMember_unique : Relator.RightUnique ReadsMember := by
  intro part member member' h h'
  have hname : member'.1 = member.1 := String.toList_inj.mp (h.1.unique h'.1)
  have hvalue : member'.2 = member.2 := h.2.unique h'.2
  exact (Prod.ext hname hvalue).symm

theorem holdsStrings_stringMember (members : List (String × String)) :
    (Tree.object (members.map stringMember)).HoldsStrings members := by
  have hall : List.Forall₂ (fun member => ReadsMember (stringMember member)) members members :=
    List.forall₂_same.mpr fun member _ => readsMember_stringMember member
  exact ⟨_, rfl, List.forall₂_map_left_iff.mpr hall⟩

theorem Tree.HoldsStrings.unique {tree : Tree} {members members' : List (String × String)}
    (h : tree.HoldsStrings members) (h' : tree.HoldsStrings members') : members' = members := by
  obtain ⟨parts, rfl, hparts⟩ := h
  obtain ⟨parts', heq, hparts'⟩ := h'
  obtain rfl := Tree.object.inj heq
  exact readsMember_unique.forall₂ hparts' hparts

end Json

/-! ## The text of a script -/

namespace Script

open Json

/-- What there is to tell of a script. -/
def members (s : Script) : List (String × String) :=
  [("source_text", s.source), ("name", s.name), ("kind", s.kind.word),
   ("description", s.description)]

theorem spelledBy_toJson (s : Script) :
    (Tree.object (s.members.map stringMember)).SpelledBy s.toJson.toList := by
  refine ⟨[], _, [], blank_nil, spells_writeObjectLines s.members, blank_nil, ?_⟩
  rw [toJson, String.toList_ofList, List.nil_append, List.append_nil]
  rfl

theorem members_injective {s s' : Script} (h : s'.members = s.members) : s' = s := by
  obtain ⟨source, name, kind, description⟩ := s
  obtain ⟨source', name', kind', description'⟩ := s'
  -- there is one kind
  have hkind : kind' = kind := by cases kind'; cases kind; rfl
  subst hkind
  simp only [members, List.cons.injEq, Prod.mk.injEq, true_and, and_true] at h
  obtain ⟨hsource, hname, hdescription⟩ := h
  rw [hsource, hname, hdescription]

/-- The JSON text of a script is that of one tree, an object with four members that are read as
    what the script is made of.  So two scripts with the same text are the same. -/
theorem toJson_tells_all (s : Script) :
    (∃ tree : Tree, (∀ other : Tree, other.SpelledBy s.toJson.toList ↔ other = tree) ∧
      tree.HoldsStrings [("source_text", s.source), ("name", s.name), ("kind", "Function"),
        ("description", s.description)]) ∧
    ∀ s' : Script, s'.toJson = s.toJson ↔ s' = s := by
  have htree := s.spelledBy_toJson
  refine ⟨⟨_, fun other => ?_, holdsStrings_stringMember s.members⟩, fun s' => ?_⟩
  · constructor
    · intro hother
      exact htree.unique hother
    · intro hother
      rw [hother]
      exact htree
  · constructor
    · intro htext
      have htree' := s'.spelledBy_toJson
      rw [htext] at htree'
      have hsame := htree.unique htree'
      have hholds := holdsStrings_stringMember s'.members
      rw [hsame] at hholds
      exact members_injective ((holdsStrings_stringMember s.members).unique hholds)
    · intro hsame
      rw [hsame]

end Script

end Flowchart
