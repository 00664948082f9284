/-
  Flowchart.Proofs.DefinitionForms

  The same definition in other words.  The text of a definition may be set out
  otherwise without saying anything else: the members of an object may come in any
  order, members with names of no meaning may stand among them, whatever their
  values hold, a member may be left out if its value is what holds without it, and
  blanks may stand between any two tokens.  A text so changed is read as the same
  definition (`Definition.ofJson_recast`).  A key is a text here: with half of a
  surrogate pair in it, it would name nothing, not even a member to pass over.

  Blanks are no part of a tree, so the rest are steps from tree to tree.  `Layout`
  says what the members of an object of one sort are, `Layout.Recast` which steps
  it allows.  A record follows a layout (`Record.Follows`) if its fields are set
  independently of each other and the members that may be left out set what the
  blank record has; then an object means the same record after any step
  (`Record.Follows.means_recast`).
-/

import Mathlib.Data.List.Pairwise
import Mathlib.Data.List.Perm.Basic
import Mathlib.Logic.Relation
import Flowchart.Proofs.DefinitionText
import Flowchart.Proofs.JsonRecord

namespace Flowchart

namespace Json

variable {α β σ : Type}

/-! ## Steps from tree to tree -/

/-- The members of an object of one sort: their names, those that may be left out with the values
    that they have then, and the steps from one value of a member to another. -/
structure Layout where
  names : List String
  defaults : List (String × Tree)
  steps : String → Tree → Tree → Prop

/-- One step from an object to another that says the same. -/
inductive Layout.Recast (layout : Layout) : Tree → Tree → Prop where
  | reorder {members members' : List (List Char × Tree)} (h : members.Perm members') :
      layout.Recast (.object members) (.object members')
  | insert {before after : List (List Char × Tree)} {key : List Char} {name : String} {tree : Tree}
      (hkey : Spelling key name.toList) (hname : name ∉ layout.names) (htree : tree.Spelled) :
      layout.Recast (.object (before ++ after)) (.object (before ++ (key, tree) :: after))
  | drop {before after : List (List Char × Tree)} {key : List Char} {name : String} {tree : Tree}
      (hkey : Spelling key name.toList) (hdefault : (name, tree) ∈ layout.defaults) :
      layout.Recast (.object (before ++ (key, tree) :: after)) (.object (before ++ after))
  | within {before after : List (List Char × Tree)} {key : List Char} {name : String}
      {tree tree' : Tree} (hkey : Spelling key name.toList) (h : layout.steps name tree tree') :
      layout.Recast (.object (before ++ (key, tree) :: after))
        (.object (before ++ (key, tree') :: after))

/-- One step in one item of a list. -/
inductive ItemStep (step : Tree → Tree → Prop) : Tree → Tree → Prop where
  | item {before after : List Tree} {tree tree' : Tree} (h : step tree tree') :
      ItemStep step (.list (before ++ tree :: after)) (.list (before ++ tree' :: after))

/-- The reader makes of the second tree what it makes of the first. -/
def Reader.Keeps (reader : Reader α) (tree tree' : Tree) : Prop :=
  ∀ ⦃value : α⦄, reader.Means tree value → reader.Means tree' value

theorem Reader.Keeps.map {reader : Reader α} {tree tree' : Tree} (h : reader.Keeps tree tree')
    (hsteady : reader.Steady) (f : α → β) : (reader.map f).Keeps tree tree' := by
  intro value hmeans
  obtain ⟨part, hpart, rfl⟩ := hsteady.means_map hmeans
  exact (h hpart).map f

theorem Reader.Keeps.list {item : Reader α} {step : Tree → Tree → Prop}
    (h : ∀ tree tree', step tree tree' → item.Keeps tree tree') (hsteady : item.Steady)
    {tree tree' : Tree} (hstep : ItemStep step tree tree') : (list item).Keeps tree tree' := by
  intro values hmeans
  obtain ⟨items, heq, hitems⟩ := hsteady.means_list_inv hmeans
  cases hstep with
  | @item before after tree tree' hstep =>
    cases heq
    apply means_list
    clear hmeans
    -- the items before the changed one are the same, and so are their values
    induction before generalizing values with
    | nil =>
      cases hitems with
      | cons hitem hrest => exact .cons (h tree tree' hstep hitem) hrest
    | cons other before ih =>
      cases hitems with
      | cons hitem hrest => exact .cons hitem (ih hrest)

/-! ## Records that follow a layout -/

/-- It does not matter which of the two fields is set first. -/
def Field.Independent (field field' : Field σ) : Prop :=
  ∀ ⦃tree tree' : Tree⦄ ⦃set set' : σ → σ⦄, field.reader.Means tree set →
    field'.reader.Means tree' set' → ∀ value, set (set' value) = set' (set value)

instance : Std.Symm (@Field.Independent σ) where
  symm _ _ h _ _ _ _ hset hset' value := (h hset' hset value).symm

theorem Field.independent_map {name name' : String} {required required' : Bool}
    {reader : Reader α} {reader' : Reader β} {f : α → σ → σ} {g : β → σ → σ}
    (h : ∀ a b value, f a (g b value) = g b (f a value)) :
    Field.Independent { name, required, reader := reader.map f }
      { name := name', required := required', reader := reader'.map g } := by
  intro tree tree' set set' hset hset' value
  obtain ⟨text, htext⟩ := hset.spelled
  obtain ⟨text', htext'⟩ := hset'.spelled
  obtain ⟨part, -, rfl⟩ := Reader.run_map.mp (hset.run htext closes_nil)
  obtain ⟨part', -, rfl⟩ := Reader.run_map.mp (hset'.run htext' closes_nil)
  exact h part part' value

namespace Record

variable {record : Record σ} {layout : Layout}

/-- The record is set out by the layout. -/
structure Follows (record : Record σ) (layout : Layout) : Prop where
  steady : ∀ field ∈ record.fields, field.reader.Steady
  nodup : (record.fields.map Field.name).Nodup
  names : ∀ field ∈ record.fields, field.name ∈ layout.names
  independent : record.fields.Pairwise Field.Independent
  defaults : ∀ name tree, (name, tree) ∈ layout.defaults →
    ∃ field, record.fields.find? (fun field => field.name = name) = some field ∧
      field.required = false ∧
      ∃ set, field.reader.Means tree set ∧ set record.blank = record.blank
  steps : ∀ name tree tree', layout.steps name tree tree' →
    ∃ field, record.fields.find? (fun field => field.name = name) = some field ∧
      field.reader.Keeps tree tree'

theorem exists_default {name : String} {reader : Reader α} {f : α → σ → σ} {tree : Tree} {part : α}
    (hfield : record.fields.find? (fun field => field.name = name)
      = some { name, required := false, reader := reader.map f })
    (hmeans : reader.Means tree part) (hblank : f part record.blank = record.blank) :
    ∃ field, record.fields.find? (fun field => field.name = name) = some field ∧
      field.required = false ∧
      ∃ set, field.reader.Means tree set ∧ set record.blank = record.blank :=
  ⟨_, hfield, rfl, f part, hmeans.map f, hblank⟩

theorem exists_step {name : String} {required : Bool} {reader : Reader α} {f : α → σ → σ}
    {tree tree' : Tree}
    (hfield : record.fields.find? (fun field => field.name = name)
      = some { name, required, reader := reader.map f })
    (hsteady : reader.Steady) (hkeeps : reader.Keeps tree tree') :
    ∃ field, record.fields.find? (fun field => field.name = name) = some field ∧
      field.reader.Keeps tree tree' :=
  ⟨_, hfield, hkeeps.map hsteady f⟩

theorem of_find?_name {name : String} {field : Field σ}
    (h : record.fields.find? (fun field => field.name = name) = some field) :
    field ∈ record.fields ∧ field.name = name :=
  ⟨List.mem_of_find?_eq_some h, by simpa using List.find?_some h⟩

theorem Sets.exists_field {members : List (List Char × Tree)}
    {settings : List (String × (σ → σ))} (h : record.Sets members settings)
    {setting : String × (σ → σ)} (hmem : setting ∈ settings) :
    ∃ field ∈ record.fields, field.name = setting.1 ∧
      ∃ tree, field.reader.Means tree setting.2 := by
  induction h with
  | nil => exact absurd hmem List.not_mem_nil
  | known _ hfield hset _ ih =>
    rcases List.mem_cons.mp hmem with rfl | hmem
    · obtain ⟨hmem, hname⟩ := of_find?_name hfield
      exact ⟨_, hmem, hname, _, hset⟩
    · exact ih hmem
  | unknown _ _ _ _ ih => exact ih hmem

/-- Members in another order set the same fields, in another order. -/
theorem Sets.perm {members members' : List (List Char × Tree)} (hperm : members.Perm members')
    {settings : List (String × (σ → σ))} (h : record.Sets members settings) :
    ∃ settings', record.Sets members' settings' ∧ settings.Perm settings' := by
  induction hperm generalizing settings with
  | nil => exact ⟨settings, h, .refl _⟩
  | cons member _ ih =>
    cases h with
    | known hkey hfield hset hrest =>
      obtain ⟨settings', hsets, hperm⟩ := ih hrest
      exact ⟨_, .known hkey hfield hset hsets, hperm.cons _⟩
    | unknown hkey hnone htree hrest =>
      obtain ⟨settings', hsets, hperm⟩ := ih hrest
      exact ⟨_, .unknown hkey hnone htree hsets, hperm⟩
  | swap member member' members =>
    cases h with
    | known hkey hfield hset hrest =>
      cases hrest with
      | known hkey' hfield' hset' hrest =>
        exact ⟨_, .known hkey' hfield' hset' (.known hkey hfield hset hrest), .swap _ _ _⟩
      | unknown hkey' hnone' htree' hrest =>
        exact ⟨_, .unknown hkey' hnone' htree' (.known hkey hfield hset hrest), .refl _⟩
    | unknown hkey hnone htree hrest =>
      cases hrest with
      | known hkey' hfield' hset' hrest =>
        exact ⟨_, .known hkey' hfield' hset' (.unknown hkey hnone htree hrest), .refl _⟩
      | unknown hkey' hnone' htree' hrest =>
        exact ⟨_, .unknown hkey' hnone' htree' (.unknown hkey hnone htree hrest), .refl _⟩
  | trans _ _ ih ih' =>
    obtain ⟨settings', hsets, hperm⟩ := ih h
    obtain ⟨settings'', hsets', hperm'⟩ := ih' hsets
    exact ⟨settings'', hsets', hperm.trans hperm'⟩

theorem Complete.perm {settings settings' : List (String × (σ → σ))}
    (h : record.Complete settings) (hperm : settings.Perm settings') :
    record.Complete settings' where
  nodup := (hperm.map Prod.fst).nodup_iff.mp h.nodup
  required field hfield hrequired :=
    (hperm.map Prod.fst).mem_iff.mp (h.required field hfield hrequired)

namespace Follows

/-- The order of the members does not matter. -/
theorem fits_perm (h : record.Follows layout) {members members' : List (List Char × Tree)}
    (hperm : members.Perm members') {value : σ} (hfits : record.Fits members value) :
    record.Fits members' value := by
  obtain ⟨settings, hsets, hcomplete, rfl⟩ := hfits
  obtain ⟨settings', hsets', hperm'⟩ := hsets.perm hperm
  refine ⟨settings', hsets', hcomplete.perm hperm', ?_⟩
  apply hperm'.foldl_eq'
  intro first hfirst second hsecond value
  by_cases hname : first.1 = second.1
  · -- no field is set twice, so this is one setting
    rw [List.inj_on_of_nodup_map hcomplete.nodup hfirst hsecond hname]
  · obtain ⟨field, hfield, heq, tree, hmeans⟩ := hsets.exists_field hfirst
    obtain ⟨field', hfield', heq', tree', hmeans'⟩ := hsets.exists_field hsecond
    have hne : field' ≠ field := by
      rintro rfl
      exact hname (heq.symm.trans heq')
    exact h.independent.forall hfield' hfield hne hmeans' hmeans value

theorem fits_insert (h : record.Follows layout) {members : List (List Char × Tree)}
    {key : List Char} {name : String} {tree : Tree} (hkey : Spelling key name.toList)
    (hname : name ∉ layout.names) (htree : tree.Spelled) {value : σ}
    (hfits : record.Fits members value) : record.Fits ((key, tree) :: members) value := by
  obtain ⟨settings, hsets, hcomplete, rfl⟩ := hfits
  have hnone : record.fields.find? (fun field => field.name = name) = none := by
    rw [List.find?_eq_none]
    intro field hfield heq
    rw [← of_decide_eq_true heq] at hname
    exact hname (h.names field hfield)
  exact ⟨settings, .unknown hkey hnone htree hsets, hcomplete, rfl⟩

theorem fits_drop (h : record.Follows layout) {members : List (List Char × Tree)}
    {key : List Char} {name : String} {tree : Tree} (hkey : Spelling key name.toList)
    (hdefault : (name, tree) ∈ layout.defaults) {value : σ}
    (hfits : record.Fits ((key, tree) :: members) value) : record.Fits members value := by
  obtain ⟨settings, hsets, hcomplete, rfl⟩ := hfits
  cases hsets with
  | unknown _ _ _ hrest => exact ⟨settings, hrest, hcomplete, rfl⟩
  | @known _ name' field _ set _ settings hkey' hfield hset hrest =>
    obtain rfl : name = name' := String.toList_injective (hkey'.unique hkey)
    obtain ⟨field', hfield', hoptional, set', hset', hblank⟩ := h.defaults name tree hdefault
    rw [hfield] at hfield'
    cases hfield'
    have hrequired : ∀ other ∈ record.fields, other.required = true →
        other.name ∈ settings.map Prod.fst := by
      intro other hother hrequired
      rcases List.mem_cons.mp (hcomplete.required other hother hrequired) with hname | hmem
      · -- the field that is left out is not required
        obtain ⟨hmem, heq⟩ := of_find?_name hfield
        rw [List.inj_on_of_nodup_map h.nodup hother hmem (hname.trans heq.symm), hoptional]
          at hrequired
        cases hrequired
      · exact hmem
    refine ⟨settings, hrest, ⟨(List.nodup_cons.mp hcomplete.nodup).2, hrequired⟩, ?_⟩
    show setAll settings (set record.blank) = _
    rw [hset'.unique hset, hblank]

theorem fits_within (h : record.Follows layout) {members : List (List Char × Tree)}
    {key : List Char} {name : String} {tree tree' : Tree} (hkey : Spelling key name.toList)
    (hstep : layout.steps name tree tree') {value : σ}
    (hfits : record.Fits ((key, tree) :: members) value) :
    record.Fits ((key, tree') :: members) value := by
  obtain ⟨settings, hsets, hcomplete, rfl⟩ := hfits
  obtain ⟨field, hfield, hkeeps⟩ := h.steps name tree tree' hstep
  cases hsets with
  | unknown hkey' hnone _ _ =>
    rw [← String.toList_injective (hkey'.unique hkey), hfield] at hnone
    cases hnone
  | known hkey' hfield' hset hrest =>
    obtain rfl := String.toList_injective (hkey'.unique hkey)
    rw [hfield] at hfield'
    cases hfield'
    exact ⟨_, .known hkey hfield (hkeeps hset) hrest, hcomplete, rfl⟩

/-- An object means the same record after a step. -/
theorem means_recast (h : record.Follows layout) {tree tree' : Tree}
    (hstep : layout.Recast tree tree') : record.reader.Keeps tree tree' := by
  intro value hmeans
  -- a member that is touched is moved to the front and back again
  cases hstep with
  | reorder hperm => exact (h.fits_perm hperm (fits_of_means h.steady hmeans)).means
  | insert hkey hname htree =>
    have hfits := h.fits_insert hkey hname htree (fits_of_means h.steady hmeans)
    exact (h.fits_perm List.perm_middle.symm hfits).means
  | drop hkey hdefault =>
    have hfits := h.fits_perm List.perm_middle (fits_of_means h.steady hmeans)
    exact (h.fits_drop hkey hdefault hfits).means
  | within hkey hstep =>
    have hfits := h.fits_perm List.perm_middle (fits_of_means h.steady hmeans)
    exact (h.fits_perm List.perm_middle.symm (h.fits_within hkey hstep hfits)).means

end Follows

end Record

end Json

/-! ## Elements and arrows -/

open Json

/-- The members of an element. -/
def ElementSpec.layout : Layout where
  names := ["key", "kind", "script"]
  defaults := [("script", .null)]
  steps _ _ _ := False

/-- The members of an arrow. -/
def ArrowSpec.layout : Layout where
  names := ["source", "target", "condition"]
  defaults := [("condition", .null)]
  steps _ _ _ := False

theorem ElementSpec.follows_layout : ElementSpec.record.Follows ElementSpec.layout where
  steady := by
    intro field hfield
    simp only [record, List.mem_cons, List.not_mem_nil, or_false] at hfield
    rcases hfield with rfl | rfl | rfl <;> dsimp only
    · exact steady_string.map _
    · exact Kind.words.steady_reader.map _
    · exact steady_string.nullable.map _
  nodup := by decide
  names := by decide
  independent := by simp [record, Field.independent_map]
  defaults := by
    intro name tree hdefault
    simp only [layout, List.mem_cons, List.not_mem_nil, or_false, Prod.mk.injEq] at hdefault
    obtain ⟨rfl, rfl⟩ := hdefault
    exact Record.exists_default rfl (means_null string) rfl
  steps _ _ _ h := h.elim

theorem ArrowSpec.follows_layout : ArrowSpec.record.Follows ArrowSpec.layout where
  steady := by
    intro field hfield
    simp only [record, List.mem_cons, List.not_mem_nil, or_false] at hfield
    rcases hfield with rfl | rfl | rfl <;> dsimp only
    · exact steady_string.map _
    · exact steady_string.map _
    · exact Label.words.steady_reader.nullable.map _
  nodup := by decide
  names := by decide
  independent := by simp [record, Field.independent_map]
  defaults := by
    intro name tree hdefault
    simp only [layout, List.mem_cons, List.not_mem_nil, or_false, Prod.mk.injEq] at hdefault
    obtain ⟨rfl, rfl⟩ := hdefault
    exact Record.exists_default rfl (means_null Label.words.reader) rfl
  steps _ _ _ h := h.elim

/-! ## Definitions -/

/-- The members of a definition. -/
def Definition.layout : Layout where
  names := ["name", "description", "original_name", "version", "nodes", "edges"]
  defaults :=
    [("description", .string []), ("original_name", .null), ("version", .number ['0']),
     ("edges", .list [])]
  steps name tree tree' :=
    name = "nodes" ∧ ItemStep ElementSpec.layout.Recast tree tree' ∨
      name = "edges" ∧ ItemStep ArrowSpec.layout.Recast tree tree'

theorem isNumber_zero : IsNumber ['0'] := by
  have hdigit : ∀ c ∈ ['0'], c.isDigit = true := by
    intro c hc
    rw [List.mem_singleton.mp hc]
    rfl
  exact .positive (.parts ⟨⟨List.cons_ne_nil _ _, hdigit⟩, fun _ => rfl⟩ .absent .absent)

theorem means_zero : natural32.Means (.number ['0']) 0 :=
  (steady_natural32 (.number isNumber_zero) blank_nil closes_nil
    (reads_natural32 0 [] closes_nil)).1

theorem Definition.follows_layout : Definition.record.Follows Definition.layout where
  steady := by
    intro field hfield
    simp only [record, List.mem_cons, List.not_mem_nil, or_false] at hfield
    rcases hfield with rfl | rfl | rfl | rfl | rfl | rfl <;> dsimp only
    · exact steady_string.map _
    · exact steady_string.map _
    · exact steady_string.nullable.map _
    · exact steady_natural32.map _
    · exact (Record.steady_reader ElementSpec.follows_layout.steady).list.map _
    · exact (Record.steady_reader ArrowSpec.follows_layout.steady).list.map _
  nodup := by decide
  names := by decide
  independent := by simp [record, Field.independent_map]
  defaults := by
    intro name tree hdefault
    simp only [layout, List.mem_cons, List.not_mem_nil, or_false, Prod.mk.injEq] at hdefault
    rcases hdefault with ⟨rfl, rfl⟩ | ⟨rfl, rfl⟩ | ⟨rfl, rfl⟩ | ⟨rfl, rfl⟩
    · exact Record.exists_default rfl (means_string .nil (String.toList_empty ▸ .nil)) rfl
    · exact Record.exists_default rfl (means_null string) rfl
    · exact Record.exists_default rfl means_zero rfl
    · exact Record.exists_default rfl (means_list .nil) rfl
  steps := by
    rintro name tree tree' (⟨rfl, hstep⟩ | ⟨rfl, hstep⟩)
    · have hsteady := Record.steady_reader ElementSpec.follows_layout.steady
      exact Record.exists_step rfl hsteady.list
        (Reader.Keeps.list (fun _ _ => ElementSpec.follows_layout.means_recast) hsteady hstep)
    · have hsteady := Record.steady_reader ArrowSpec.follows_layout.steady
      exact Record.exists_step rfl hsteady.list
        (Reader.Keeps.list (fun _ _ => ArrowSpec.follows_layout.means_recast) hsteady hstep)

/-! ## A definition in two forms -/

/-- Characters that stand for themselves in a string. -/
def Json.isPlain (body : List Char) : Bool :=
  body.all fun c => c ≠ '"' ∧ c ≠ '\\' ∧ 0x20 ≤ c.toNat

theorem Json.spelling_plain {body : List Char} (h : isPlain body = true) : Spelling body body := by
  induction body with
  | nil => exact .nil
  | cons c body ih =>
    rw [isPlain, List.all_cons, Bool.and_eq_true, decide_eq_true_iff] at h
    exact .plain h.1.1 h.1.2.1 h.1.2.2 (ih h.2)

theorem Json.spells_plain {body : List Char} (h : isPlain body = true) :
    Spells (.value (.string body)) (quoted body) :=
  .string (spelling_plain h).isBody

theorem Json.spells_member {first : Bool} {separator key text rest : List Char} {tree : Tree}
    {members : List (List Char × Tree)} (hseparator : Separates first separator)
    (hkey : isPlain key = true) (hvalue : Spells (.value tree) text)
    (hrest : Spells (.members false members) rest) :
    Spells (.members first ((key, tree) :: members))
      (separator ++ (quoted key ++ (':' :: (text ++ rest)))) :=
  .member hseparator blank_nil (spelling_plain hkey).isBody blank_nil blank_nil hvalue hrest

namespace Definition

/-- A definition with one element. -/
def lone : Definition where
  name := "n"
  elements := [{ key := "a", kind := .entry }]

/-- The element of `lone`, with other members behind its key. -/
def loneElement (others : List (List Char × Tree)) : Tree :=
  .object (("key".toList, .string "a".toList) :: (others
    ++ [("kind".toList, .string "entry".toList), ("script".toList, .null)]))

/-- The elements and the arrows of `lone`. -/
def loneParts (others : List (List Char × Tree)) : List (List Char × Tree) :=
  [("nodes".toList, .list [loneElement others]), ("edges".toList, .list [])]

/-- What is said of `lone` besides its parts, with other members behind its name. -/
def loneHead (others : List (List Char × Tree)) : List (List Char × Tree) :=
  ("name".toList, .string "n".toList) :: (others
    ++ [("original_name".toList, .null), ("version".toList, .number ['0'])])

/-- A member that has no meaning. -/
def note : List Char × Tree :=
  ("note".toList, .list [.object [], .boolean true])

/-- The text of `lone` as a tree. -/
def loneTree : Tree :=
  .object (loneHead [("description".toList, .string [])] ++ loneParts [])

/-- Another tree for `lone`. -/
def loneRecast : Tree :=
  .object (loneParts [note] ++ loneHead [])

/-- Another text for `lone`. -/
def loneText : String :=
  "\x7b\"nodes\": [\x7b\"key\":\"a\",\"note\":[\x7b\x7d,true],\"kind\":\"entry\","
    ++ "\"script\":null\x7d],\n"
    ++ "\"edges\":[],\"name\":\"n\",\"original_name\":null,\"version\":0\x7d\n"

theorem spells_note : Spells (.value note.2) "[\x7b\x7d,true]".toList :=
  .list (.item .first blank_nil (.object (.endObject blank_nil))
    (.item (.comma blank_nil) blank_nil .isTrue (.endList blank_nil)))

theorem spelledBy_lone : loneTree.SpelledBy lone.toJson.toList := by
  have hcomma := Separates.comma blank_nil
  have helement : Spells (.value (loneElement [])) _ := .object
    (spells_member .first (by decide) (spells_plain (by decide))
      (spells_member hcomma (by decide) (spells_plain (by decide))
        (spells_member hcomma (by decide) .null (.endObject blank_nil))))
  have htext : Spells (.value loneTree) _ := .object
    (spells_member .first (by decide) (spells_plain (by decide))
      (spells_member hcomma (by decide) (.string .nil)
        (spells_member hcomma (by decide) .null
          (spells_member hcomma (by decide) (.number isNumber_zero)
            (spells_member hcomma (by decide)
              (.list (.item .first blank_nil helement (.endList blank_nil)))
              (spells_member hcomma (by decide) (.list (.endList blank_nil))
                (.endObject blank_nil)))))))
  refine ⟨[], _, [], blank_nil, htext, blank_nil, ?_⟩
  rw [toJson, String.toList_ofList]
  decide

theorem spelledBy_loneRecast : loneRecast.SpelledBy loneText.toList := by
  have hcomma := Separates.comma blank_nil
  have hspace : Blank [' '] := blank_of_all rfl
  have hline : Blank ['\n'] := blank_of_all rfl
  have helement : Spells (.value (loneElement [note])) _ := .object
    (spells_member .first (by decide) (spells_plain (by decide))
      (spells_member hcomma (by decide) spells_note
        (spells_member hcomma (by decide) (spells_plain (by decide))
          (spells_member hcomma (by decide) .null (.endObject blank_nil)))))
  have htext : Spells (.value loneRecast) _ := .object
    (.member .first blank_nil (spelling_plain (by decide)).isBody blank_nil hspace
      (.list (.item .first blank_nil helement (.endList blank_nil)))
      (.member hcomma hline (spelling_plain (by decide)).isBody blank_nil blank_nil
        (.list (.endList blank_nil))
        (spells_member hcomma (by decide) (spells_plain (by decide))
          (spells_member hcomma (by decide) .null
            (spells_member hcomma (by decide) (.number isNumber_zero) (.endObject blank_nil))))))
  refine ⟨[], _, ['\n'], blank_nil, htext, hline, ?_⟩
  decide +kernel

theorem lone_steps : Relation.ReflTransGen layout.Recast loneTree loneRecast := by
  have hdrop : layout.Recast loneTree (.object (loneHead [] ++ loneParts [])) :=
    @Layout.Recast.drop _ [_] _ _ "description" _ (spelling_plain (by decide)) List.mem_cons_self
  have hinsert : ElementSpec.layout.Recast (loneElement []) (loneElement [note]) :=
    @Layout.Recast.insert _ [_] _ _ "note" _ (spelling_plain (by decide)) (by decide)
      ⟨_, spells_note⟩
  have hwithin : layout.Recast (.object (loneHead [] ++ loneParts []))
      (.object (loneHead [] ++ loneParts [note])) :=
    @Layout.Recast.within _ (loneHead []) _ _ "nodes" _ _ (spelling_plain (by decide))
      (.inl ⟨rfl, @ItemStep.item _ [] [] _ _ hinsert⟩)
  have hreorder : layout.Recast (.object (loneHead [] ++ loneParts [note])) loneRecast :=
    .reorder List.perm_append_comm
  exact ((Relation.ReflTransGen.single hdrop).tail hwithin).tail hreorder

/-! ## Texts -/

theorem ofJson_eq_ok {text : String} {d : Definition} :
    Definition.ofJson text = .ok d ↔ readAll Definition.record.reader text.toList = .ok d := by
  rw [Definition.ofJson]
  cases readAll Definition.record.reader text.toList <;> simp

/-- If a text is read as a definition, so is every text that sets it out otherwise: with the
    members of the definition, its elements and its arrows in any order, with members of other
    names among them, without members that have the value they would have anyway, and with other
    blanks between the tokens. -/
theorem ofJson_recast {text text' : String} {tree tree' : Tree} {d : Definition}
    (htext : tree.SpelledBy text.toList) (htext' : tree'.SpelledBy text'.toList)
    (hsteps : Relation.ReflTransGen Definition.layout.Recast tree tree')
    (hread : Definition.ofJson text = .ok d) : Definition.ofJson text' = .ok d := by
  rw [ofJson_eq_ok] at hread ⊢
  have hsteady := Record.steady_reader follows_layout.steady
  have hmeans : record.reader.Means tree d := means_of_readAll hsteady htext hread
  have hmeans' : record.reader.Means tree' d := by
    -- one step after the other
    clear htext htext'
    induction hsteps with
    | refl => exact hmeans
    | tail _ hstep ih => exact follows_layout.means_recast hstep ih
  exact readAll_of_means hmeans' htext'

theorem lone_recast : ofJson lone.toJson = .ok lone ∧ ofJson loneText = .ok lone := by
  have hread : ofJson lone.toJson = .ok lone := by
    rw [ofJson_eq_ok, toJson, String.toList_ofList]
    exact readAll_of_reads lone.reads_write
  exact ⟨hread, ofJson_recast spelledBy_lone spelledBy_loneRecast lone_steps hread⟩

end Definition

end Flowchart
