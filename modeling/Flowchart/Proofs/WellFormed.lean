/-
  Flowchart.Proofs.WellFormed

  When the parts of a drawing are in step.  A drawing says twice which arrows
  leave an element (in the list of the element and in the sources of the
  arrows) and twice where the flow starts (in `entry` and in the kinds).
  `Graph.WellFormed` says that each pair agrees and that numbers stand for one
  thing each.

  On a well-formed drawing a look-up by number is membership
  (`element?_eq_some`, `arrow?_eq_some`) and the arrows that leave an element
  are read off the arrows alone (`outgoing_eq`), so later proofs do not open
  the look-ups.
-/

import Mathlib.Data.List.Sort
import Mathlib.Data.List.ReduceOption
import Flowchart.Graph

namespace Flowchart

/-! ## Keys -/

/-- Where no two entries share a key, looking a key up finds the entry that has it. -/
theorem find?_key_eq_some {α κ : Type} [DecidableEq κ] {key : α → κ} {l : List α}
    (h : (l.map key).Nodup) {k : κ} {a : α} :
    l.find? (fun b => key b = k) = some a ↔ a ∈ l ∧ key a = k := by
  refine ⟨?_, ?_⟩
  · intro hfind
    exact ⟨List.mem_of_find?_eq_some hfind, by simpa using List.find?_some hfind⟩
  · rintro ⟨ha, hk⟩
    cases hfind : l.find? (fun b => key b = k) with
    | none =>
      have hnone := List.find?_eq_none.mp hfind a ha
      simp [hk] at hnone
    | some b =>
      have hb : b ∈ l := List.mem_of_find?_eq_some hfind
      have hbk : key b = k := by simpa using List.find?_some hfind
      rw [List.inj_on_of_nodup_map h ha hb (hk.trans hbk.symm)]

/-- Entries changed without their keys are found where they were. -/
theorem find?_map_key {α κ : Type} [DecidableEq κ] {key : α → κ} {u : α → α}
    (hu : ∀ a, key (u a) = key a) (l : List α) (k : κ) :
    (l.map u).find? (fun a => key a = k) = (l.find? fun a => key a = k).map u := by
  have hsame : (fun a => decide (key a = k)) ∘ u = fun a => decide (key a = k) := by
    funext a
    rw [Function.comp_apply, hu]
  rw [List.find?_map, hsame]

/-- Keys that grow along a list are distinct. -/
theorem nodup_map_of_sorted {α κ : Type} (key : α → κ) (index : κ → Nat) {l : List α}
    (h : l.Pairwise fun a b => index (key a) < index (key b)) : (l.map key).Nodup := by
  refine List.pairwise_map.mpr (h.imp ?_)
  intro a b hlt heq
  rw [heq] at hlt
  exact Nat.lt_irrefl _ hlt

/-! ## Arrows with their targets -/

/-- The arrow with the element it points at, unless its end is loose. -/
def Arrow.pointing (a : Arrow) : Option (ElementId × Arrow) :=
  a.target.map fun target => (target, a)

theorem Arrow.pointing_eq_some {a b : Arrow} {x : ElementId} :
    a.pointing = some (x, b) ↔ a = b ∧ b.target = some x := by
  rw [Arrow.pointing, Option.map_eq_some_iff]
  refine ⟨?_, ?_⟩
  · rintro ⟨t, ht, hp⟩
    obtain ⟨rfl, rfl⟩ := Prod.mk.inj hp
    exact ⟨rfl, ht⟩
  · rintro ⟨rfl, ht⟩
    exact ⟨x, ht, rfl⟩

namespace Graph

/-! ## What is on a drawing -/

/-- There is an element with this number on the drawing, and it is of this kind. -/
def HasKind (g : Graph) (x : ElementId) (kind : Kind) : Prop :=
  ∃ e ∈ g.elements, e.id = x ∧ e.kind = kind

/-- The arrows that start at an element, loose ones included, oldest first. -/
def arrowsFrom (g : Graph) (x : ElementId) : List Arrow :=
  g.arrows.filter fun a => a.source = x

/-- An anchored arrow leads from one element to the other. -/
def Leads (g : Graph) (x y : ElementId) : Prop :=
  ∃ a ∈ g.arrows, a.source = x ∧ a.target = some y

theorem mem_ids {g : Graph} {x : ElementId} : x ∈ g.ids ↔ ∃ e ∈ g.elements, e.id = x := by
  simp [ids]

theorem HasKind.mem_ids {g : Graph} {x : ElementId} {kind : Kind} (h : g.HasKind x kind) :
    x ∈ g.ids := by
  obtain ⟨e, he, hx, -⟩ := h
  exact Graph.mem_ids.mpr ⟨e, he, hx⟩

theorem mem_arrowsFrom {g : Graph} {x : ElementId} {a : Arrow} :
    a ∈ g.arrowsFrom x ↔ a ∈ g.arrows ∧ a.source = x := by
  simp [arrowsFrom]

theorem contains_iff {g : Graph} {x : ElementId} : g.contains x = true ↔ x ∈ g.ids := by
  rw [contains, element?, List.find?_isSome, mem_ids]
  simp only [decide_eq_true_eq]

/-! ## The invariant -/

/-- The parts of the drawing are in step. -/
structure WellFormed (g : Graph) : Prop where
  /-- Elements stand in the order of their numbers, so a number is given once. -/
  elements_sorted : g.elements.Pairwise fun e f => e.id.index < f.id.index
  /-- The next number for an element is fresh. -/
  elements_made : ∀ e ∈ g.elements, e.id.index < g.elementsMade
  /-- Arrows stand in the order of their numbers. -/
  arrows_sorted : g.arrows.Pairwise fun a b => a.id.index < b.id.index
  /-- The next number for an arrow is fresh. -/
  arrows_made : ∀ a ∈ g.arrows, a.id.index < g.arrowsMade
  /-- An arrow starts at an element of the drawing. -/
  source_live : ∀ a ∈ g.arrows, a.source ∈ g.ids
  /-- An arrow that points at something points at an element of the drawing. -/
  target_live : ∀ a ∈ g.arrows, ∀ x, a.target = some x → x ∈ g.ids
  /-- An element lists the arrows that start at it. -/
  outgoing_listed : ∀ e ∈ g.elements, e.outgoing = (g.arrowsFrom e.id).map Arrow.id
  /-- The entry is the element of that kind. -/
  entry_iff : ∀ x, g.entry = some x ↔ g.HasKind x .entry

namespace WellFormed

variable {g : Graph}

theorem ids_nodup (h : g.WellFormed) : g.ids.Nodup :=
  nodup_map_of_sorted Element.id ElementId.index h.elements_sorted

theorem arrow_ids_nodup (h : g.WellFormed) : (g.arrows.map Arrow.id).Nodup :=
  nodup_map_of_sorted Arrow.id ArrowId.index h.arrows_sorted

theorem element_unique (h : g.WellFormed) {e f : Element} (he : e ∈ g.elements)
    (hf : f ∈ g.elements) (hid : e.id = f.id) : e = f :=
  List.inj_on_of_nodup_map h.ids_nodup he hf hid

theorem arrow_unique (h : g.WellFormed) {a b : Arrow} (ha : a ∈ g.arrows)
    (hb : b ∈ g.arrows) (hid : a.id = b.id) : a = b :=
  List.inj_on_of_nodup_map h.arrow_ids_nodup ha hb hid

theorem kind_unique (h : g.WellFormed) {x : ElementId} {j k : Kind} (hj : g.HasKind x j)
    (hk : g.HasKind x k) : j = k := by
  obtain ⟨e, he, hex, rfl⟩ := hj
  obtain ⟨f, hf, hfx, rfl⟩ := hk
  rw [h.element_unique he hf (hex.trans hfx.symm)]

theorem entry_unique (h : g.WellFormed) {e f : Element} (he : e ∈ g.elements)
    (hf : f ∈ g.elements) (hke : e.kind = .entry) (hkf : f.kind = .entry) : e = f := by
  have hentry := (h.entry_iff e.id).mpr ⟨e, he, rfl, hke⟩
  rw [(h.entry_iff f.id).mpr ⟨f, hf, rfl, hkf⟩] at hentry
  exact h.element_unique he hf (Option.some.inj hentry).symm

theorem leads_live (h : g.WellFormed) {x y : ElementId} (hl : g.Leads x y) :
    x ∈ g.ids ∧ y ∈ g.ids := by
  obtain ⟨a, ha, rfl, ht⟩ := hl
  exact ⟨h.source_live a ha, h.target_live a ha y ht⟩

theorem id_lt (h : g.WellFormed) {x : ElementId} (hx : x ∈ g.ids) :
    x.index < g.elementsMade := by
  obtain ⟨e, he, rfl⟩ := mem_ids.mp hx
  exact h.elements_made e he

/-! ## Look-ups -/

/-- Looking up an element finds the one with that number. -/
theorem element?_eq_some (h : g.WellFormed) {x : ElementId} {e : Element} :
    g.element? x = some e ↔ e ∈ g.elements ∧ e.id = x :=
  find?_key_eq_some h.ids_nodup

/-- Looking up an arrow finds the one with that number. -/
theorem arrow?_eq_some (h : g.WellFormed) {i : ArrowId} {a : Arrow} :
    g.arrow? i = some a ↔ a ∈ g.arrows ∧ a.id = i :=
  find?_key_eq_some h.arrow_ids_nodup

theorem isBranch_iff (h : g.WellFormed) {x : ElementId} :
    g.isBranch x = true ↔ g.HasKind x .branch := by
  rw [isBranch]
  refine ⟨?_, ?_⟩
  · intro hb
    split at hb
    · next e he =>
      obtain ⟨hmem, hid⟩ := h.element?_eq_some.mp he
      exact ⟨e, hmem, hid, by simpa using hb⟩
    · cases hb
  · rintro ⟨e, he, hid, hk⟩
    rw [h.element?_eq_some.mpr ⟨he, hid⟩]
    simpa using hk

/-! ## Arrows that leave an element -/

theorem anchored?_id (h : g.WellFormed) {a : Arrow} (ha : a ∈ g.arrows) :
    g.anchored? a.id = a.pointing := by
  rw [anchored?, h.arrow?_eq_some.mpr ⟨ha, rfl⟩]
  rfl

theorem arrowsFrom_eq_nil (h : g.WellFormed) {x : ElementId} (hx : x ∉ g.ids) :
    g.arrowsFrom x = [] := by
  rw [arrowsFrom, List.filter_eq_nil_iff]
  intro a ha hsource
  have hs : a.source = x := by simpa using hsource
  exact hx (hs ▸ h.source_live a ha)

/-- The anchored arrows that leave an element, read off the arrows alone. -/
theorem outgoing_eq (h : g.WellFormed) (x : ElementId) :
    g.outgoing x = (g.arrowsFrom x).filterMap Arrow.pointing := by
  rw [outgoing]
  cases hx : g.element? x with
  | none =>
    have hnot : x ∉ g.ids := by
      rw [← contains_iff, contains, hx]
      simp
    rw [h.arrowsFrom_eq_nil hnot]
    rfl
  | some e =>
    obtain ⟨he, rfl⟩ := h.element?_eq_some.mp hx
    -- the list of the element names the arrows, and each name is looked up again
    show e.outgoing.filterMap g.anchored? = _
    rw [h.outgoing_listed e he, List.filterMap_map]
    refine List.filterMap_congr fun a ha => ?_
    exact h.anchored?_id (mem_arrowsFrom.mp ha).1

theorem length_outgoing_le (h : g.WellFormed) (x : ElementId) :
    (g.outgoing x).length ≤ (g.arrowsFrom x).length := by
  rw [h.outgoing_eq]
  exact List.length_filterMap_le _ _

theorem mem_outgoing (h : g.WellFormed) {x y : ElementId} {a : Arrow} :
    (y, a) ∈ g.outgoing x ↔ a ∈ g.arrows ∧ a.source = x ∧ a.target = some y := by
  rw [h.outgoing_eq, List.mem_filterMap]
  refine ⟨?_, ?_⟩
  · rintro ⟨b, hb, hp⟩
    obtain ⟨rfl, ht⟩ := Arrow.pointing_eq_some.mp hp
    obtain ⟨hmem, hs⟩ := mem_arrowsFrom.mp hb
    exact ⟨hmem, hs, ht⟩
  · rintro ⟨hmem, hs, ht⟩
    exact ⟨a, mem_arrowsFrom.mpr ⟨hmem, hs⟩, Arrow.pointing_eq_some.mpr ⟨rfl, ht⟩⟩

theorem mem_targets (h : g.WellFormed) {x y : ElementId} :
    y ∈ g.targets x ↔ g.Leads x y := by
  rw [targets, List.mem_map]
  refine ⟨?_, ?_⟩
  · rintro ⟨⟨t, a⟩, hmem, rfl⟩
    obtain ⟨ha, hs, ht⟩ := h.mem_outgoing.mp hmem
    exact ⟨a, ha, hs, ht⟩
  · rintro ⟨a, ha, hs, ht⟩
    exact ⟨(y, a), h.mem_outgoing.mpr ⟨ha, hs, ht⟩, rfl⟩

end WellFormed

end Graph

end Flowchart
