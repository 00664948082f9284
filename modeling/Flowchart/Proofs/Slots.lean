/-
  Flowchart.Proofs.Slots

  The drawing as an arena.  Its slots are the numbers ever handed out, each with what it
  stands for now.  An edit that is carried out puts what is new into the next slot,
  empties the slots of what it removes and changes what it changes where it stands
  (`SlotChange`); nothing else is touched.  A refused edit leaves all slots alone.

  A list of entries with numbers is spread over slots by looking each number up
  (`slotsOf`).  The lemmas say once how an entry at the end, a change in place and a
  filter on the list show in the slots; what each edit does follows from them.
  `ofEdits_arena` says of every run of edits that slots, arrows, lists of arrows and
  entry agree, and what one more edit makes of the slots.
-/

import Flowchart.Proofs.Arena

namespace Flowchart

/-! ## Entries by their numbers -/

section Entries

variable {α κ : Type} [DecidableEq κ] {key : α → κ} {mk : Nat → κ} {l : List α} {n : Nat}

/-- The entries of a list by their numbers: slot `i` holds the first entry with the number `i`,
    if there is one. -/
def slotsOf (key : α → κ) (mk : Nat → κ) (n : Nat) (l : List α) : List (Option α) :=
  (List.range n).map fun i => l.find? fun a => key a = mk i

theorem length_slotsOf : (slotsOf key mk n l).length = n := by
  simp [slotsOf]

theorem getElem?_slotsOf {i : Nat} (h : i < n) :
    (slotsOf key mk n l)[i]? = some (l.find? fun a => key a = mk i) := by
  rw [slotsOf, List.getElem?_map, List.getElem?_range h, Option.map_some]

/-- Slots are told by what is in each of them. -/
theorem slotsOf_eq {slots : List (Option α)} (hlength : slots.length = n)
    (h : ∀ i < n, slots[i]? = some (l.find? fun a => key a = mk i)) :
    slotsOf key mk n l = slots := by
  refine List.ext_getElem? fun i => ?_
  by_cases hi : i < n
  · rw [getElem?_slotsOf hi, h i hi]
  · have hover : n ≤ i := by omega
    rw [List.getElem?_eq_none (by rw [length_slotsOf]; exact hover),
      List.getElem?_eq_none (by rw [hlength]; exact hover)]

/-- Entries changed in place are changed in their slots. -/
theorem slotsOf_map {u : α → α} (hu : ∀ a, key (u a) = key a) :
    slotsOf key mk n (l.map u) = (slotsOf key mk n l).map (Option.map u) := by
  refine slotsOf_eq (by rw [List.length_map, length_slotsOf]) fun i hi => ?_
  rw [List.getElem?_map, getElem?_slotsOf hi, find?_map_key hu]
  rfl

/-- The entry with one number changed in place is changed in the slot of that number. -/
theorem slotsOf_update {f : α → α} (hf : ∀ a, key (f a) = key a) (hmk : Function.Injective mk)
    (k : Nat) :
    slotsOf key mk n (l.map fun a => if key a = mk k then f a else a)
      = (slotsOf key mk n l).modify k (Option.map f) := by
  have hkey : ∀ a, key (if key a = mk k then f a else a) = key a := by
    intro a
    split
    · exact hf a
    · rfl
  refine slotsOf_eq (by rw [List.length_modify, length_slotsOf]) fun i hi => ?_
  rw [List.getElem?_modify, getElem?_slotsOf hi, find?_map_key hkey]
  -- what is found in a slot has the number of the slot, so the change is made there or not at all
  cases hfind : l.find? fun a => key a = mk i with
  | none => simp
  | some a =>
    have ha : key a = mk i := by simpa using List.find?_some hfind
    by_cases hk : k = i
    · simp [hk, ha]
    · have hne : ¬ key a = mk k := fun heq => hk (hmk (heq.symm.trans ha))
      simp [hk, hne]

/-- Entries that are sieved out leave their slots empty. -/
theorem slotsOf_filter (hnodup : (l.map key).Nodup) (p : α → Bool) :
    slotsOf key mk n (l.filter p) = (slotsOf key mk n l).map (Option.filter p) := by
  refine slotsOf_eq (by rw [List.length_map, length_slotsOf]) fun i hi => ?_
  have hstay : ((l.filter p).map key).Nodup := hnodup.sublist (List.filter_sublist.map key)
  rw [List.getElem?_map, getElem?_slotsOf hi, Option.map_some, Option.some.injEq]
  refine Option.ext fun a => ?_
  rw [Option.filter_eq_some_iff, find?_key_eq_some hnodup, find?_key_eq_some hstay,
    List.mem_filter]
  exact and_right_comm

/-- Without the entries with one number, the slot of that number is empty. -/
theorem slotsOf_erase (hmk : Function.Injective mk) (k : Nat) :
    slotsOf key mk n (l.filter fun a => key a ≠ mk k) = (slotsOf key mk n l).set k none := by
  refine slotsOf_eq (by rw [List.length_set, length_slotsOf]) fun i hi => ?_
  rw [List.getElem?_set, length_slotsOf, getElem?_slotsOf hi]
  by_cases hk : k = i
  · subst hk
    rw [if_pos rfl, if_pos hi]
    refine congrArg some (Eq.symm (List.find?_eq_none.mpr fun a ha => ?_))
    simpa using (List.mem_filter.mp ha).2
  · -- where another number is looked up, the entry that is gone would not have been found
    have hother : ∀ a, key a = mk i → key a ≠ mk k :=
      fun a ha heq => hk (hmk (heq.symm.trans ha))
    rw [if_neg hk, List.find?_filter]
    refine congrArg (fun test => some (l.find? test)) (funext fun a => decide_eq_decide.mpr ?_)
    simp only [decide_eq_true_eq]
    exact ⟨fun ha => ⟨hother a ha, ha⟩, And.right⟩

/-- A new entry at the end gets the next slot. -/
theorem slotsOf_concat {a : α} (hmk : Function.Injective mk) (ha : key a = mk n)
    (hnew : ∀ b ∈ l, key b ≠ mk n) :
    slotsOf key mk (n + 1) (l ++ [a]) = slotsOf key mk n l ++ [some a] := by
  refine slotsOf_eq (by rw [List.length_append, length_slotsOf]; rfl) fun i hi => ?_
  rw [List.find?_append]
  by_cases hlast : i = n
  · have hnone : (l.find? fun b => key b = mk n) = none := by
      simpa using hnew
    rw [hlast, List.getElem?_append_right (by rw [length_slotsOf]), length_slotsOf, hnone]
    simp [ha]
  · have hbefore : i < n := by omega
    have hne : mk n ≠ mk i := fun heq => hlast (hmk heq).symm
    rw [List.getElem?_append_left (by rw [length_slotsOf]; exact hbefore),
      getElem?_slotsOf hbefore]
    simp [ha, hne]

end Entries

namespace Graph

/-! ## The slots of a drawing -/

/-- The numbers handed out to elements, each with the element it stands for now. -/
def elementSlots (g : Graph) : List (Option Element) :=
  (List.range g.elementsMade).map fun i => g.element? ⟨i⟩

/-- The numbers handed out to arrows, each with the arrow it stands for now. -/
def arrowSlots (g : Graph) : List (Option Arrow) :=
  (List.range g.arrowsMade).map fun i => g.arrow? ⟨i⟩

-- numbers are handed out from a drawing without slots on
example : empty.elementSlots = [] ∧ empty.arrowSlots = [] := ⟨rfl, rfl⟩

theorem arrowSlots_eq (g : Graph) :
    g.arrowSlots = slotsOf Arrow.id ArrowId.mk g.arrowsMade g.arrows := rfl

theorem length_elementSlots (g : Graph) : g.elementSlots.length = g.elementsMade :=
  length_slotsOf

theorem length_arrowSlots (g : Graph) : g.arrowSlots.length = g.arrowsMade :=
  length_slotsOf

theorem elementId_injective : Function.Injective ElementId.mk :=
  fun _ _ h => ElementId.mk.inj h

theorem arrowId_injective : Function.Injective ArrowId.mk :=
  fun _ _ h => ArrowId.mk.inj h

/-- An element changed in place is changed in its slot. -/
theorem elementSlots_modifyElement (g : Graph) (x : ElementId) {f : Element → Element}
    (hf : ∀ e, (f e).id = e.id) :
    (g.modifyElement x f).elementSlots = g.elementSlots.modify x.index (Option.map f) :=
  slotsOf_update hf elementId_injective x.index

/-- An arrow changed in place is changed in its slot. -/
theorem arrowSlots_modifyArrow (g : Graph) (i : ArrowId) {f : Arrow → Arrow}
    (hf : ∀ a, (f a).id = a.id) :
    (g.modifyArrow i f).arrowSlots = g.arrowSlots.modify i.index (Option.map f) :=
  slotsOf_update hf arrowId_injective i.index

/-! ## What an edit does to the slots -/

/-- There is one arrow more, in the next slot, and the element in the slot of its source lists
    it. -/
structure ArrowAdded (g g' : Graph) (source : ElementId) (target : Option ElementId)
    (label : Option Label) : Prop where
  arrows : g'.arrowSlots
    = g.arrowSlots ++ [some { id := ⟨g.arrowSlots.length⟩, source, target, label }]
  elements : g'.elementSlots
    = g.elementSlots.modify source.index (Option.map fun e =>
      { e with outgoing := e.outgoing ++ [⟨g.arrowSlots.length⟩] })

/-- What an edit that is carried out makes of the slots of `g`.  What is new goes into the next
    slot, what is removed leaves its slot empty, what is changed is changed in its slot, and
    all other slots stay as they are. -/
inductive SlotChange (g g' : Graph) : Edit → Prop where
  | addElement {kind : Kind} {script : Option String}
      (helements : g'.elementSlots
        = g.elementSlots ++ [some { id := ⟨g.elementSlots.length⟩, kind, script }])
      (harrows : g'.arrowSlots = g.arrowSlots) : SlotChange g g' (.addElement kind script)
  /-- With an element, the arrows at it leave their slots and the lists that name them. -/
  | removeElement {x : ElementId}
      (helements : g'.elementSlots
        = (g.elementSlots.set x.index none).map (Option.map fun e =>
          { e with outgoing := e.outgoing.filter fun i => i ∉ g.arrowsAt x }))
      (harrows : g'.arrowSlots
        = g.arrowSlots.map (Option.filter fun a => ¬ (a.source = x ∨ a.target = some x))) :
      SlotChange g g' (.removeElement x)
  | beginArrow {source : ElementId} {label : Option Label}
      (hadded : g.ArrowAdded g' source none label) : SlotChange g g' (.beginArrow source label)
  | anchorArrow {i : ArrowId} {target : ElementId} (helements : g'.elementSlots = g.elementSlots)
      (harrows : g'.arrowSlots
        = g.arrowSlots.modify i.index (Option.map fun a => { a with target := some target })) :
      SlotChange g g' (.anchorArrow i target)
  | drawArrow {source target : ElementId} {label : Option Label}
      (hadded : g.ArrowAdded g' source (some target) label) :
      SlotChange g g' (.drawArrow source target label)
  | drawUnchecked {source target : ElementId} {label : Option Label}
      (hadded : g.ArrowAdded g' source (some target) label) :
      SlotChange g g' (.drawUnchecked source target label)
  /-- The element in the slot of its source does not list the arrow any more. -/
  | removeArrow {i : ArrowId} {a : Arrow} (hslot : g.arrowSlots[i.index]? = some (some a))
      (helements : g'.elementSlots
        = g.elementSlots.modify a.source.index (Option.map fun e =>
          { e with outgoing := e.outgoing.filter fun j => j ≠ i }))
      (harrows : g'.arrowSlots = g.arrowSlots.set i.index none) :
      SlotChange g g' (.removeArrow i)
  | relabel {i : ArrowId} {label : Option Label} (helements : g'.elementSlots = g.elementSlots)
      (harrows : g'.arrowSlots
        = g.arrowSlots.modify i.index (Option.map fun a => { a with label })) :
      SlotChange g g' (.relabel i label)
  | setScript {x : ElementId} {script : Option String}
      (helements : g'.elementSlots
        = g.elementSlots.modify x.index (Option.map fun e => { e with script }))
      (harrows : g'.arrowSlots = g.arrowSlots) : SlotChange g g' (.setScript x script)

namespace WellFormed

variable {g : Graph}

theorem elementSlots_withElement (h : g.WellFormed) (kind : Kind) (script : Option String) :
    (g.withElement kind script).elementSlots
      = g.elementSlots ++ [some { id := ⟨g.elementSlots.length⟩, kind, script }] := by
  have hnew : ∀ e ∈ g.elements, e.id ≠ ⟨g.elementsMade⟩ := by
    intro e he heq
    have hmade := h.elements_made e he
    rw [heq] at hmade
    exact Nat.lt_irrefl _ hmade
  rw [length_elementSlots]
  exact slotsOf_concat elementId_injective rfl hnew

theorem arrowAdded (h : g.WellFormed) (source : ElementId) (target : Option ElementId)
    (label : Option Label) :
    g.ArrowAdded (g.withArrow source target label) source target label := by
  have hnew : ∀ a ∈ g.arrows, a.id ≠ ⟨g.arrowsMade⟩ := by
    intro a ha heq
    have hmade := h.arrows_made a ha
    rw [heq] at hmade
    exact Nat.lt_irrefl _ hmade
  refine ⟨?_, ?_⟩
  · rw [length_arrowSlots]
    exact slotsOf_concat arrowId_injective rfl hnew
  · rw [length_arrowSlots]
    exact g.elementSlots_modifyElement source
      (f := fun e => { e with outgoing := e.outgoing ++ [⟨g.arrowsMade⟩] }) fun _ => rfl

theorem elementSlots_withoutElement (g : Graph) (x : ElementId) :
    (g.withoutElement x).elementSlots
      = (g.elementSlots.set x.index none).map (Option.map fun e =>
        { e with outgoing := e.outgoing.filter fun i => i ∉ g.arrowsAt x }) := by
  have hgone : slotsOf Element.id ElementId.mk g.elementsMade
      (g.elements.filter fun e => e.id ≠ x) = g.elementSlots.set x.index none :=
    slotsOf_erase elementId_injective x.index
  rw [← hgone]
  exact slotsOf_map fun _ => rfl

theorem arrowSlots_withoutElement (h : g.WellFormed) (x : ElementId) :
    (g.withoutElement x).arrowSlots
      = g.arrowSlots.map (Option.filter fun a => ¬ (a.source = x ∨ a.target = some x)) := by
  have htouch : (fun a : Arrow => !a.touches x)
      = fun a => decide ¬ (a.source = x ∨ a.target = some x) := by
    funext a
    rw [Arrow.touches, decide_not]
  have hsieve : (g.withoutElement x).arrows
      = g.arrows.filter fun a => ¬ (a.source = x ∨ a.target = some x) :=
    congrArg (fun test => g.arrows.filter test) htouch
  rw [arrowSlots_eq, hsieve]
  exact slotsOf_filter h.arrow_ids_nodup _

theorem slotChange_withoutArrow (h : g.WellFormed) {a : Arrow} (ha : a ∈ g.arrows) :
    g.SlotChange (g.withoutArrow a) (.removeArrow a.id) := by
  have hdetach : detach [a.id]
      = fun e : Element => { e with outgoing := e.outgoing.filter fun j => j ≠ a.id } := by
    funext e
    simp only [detach, List.mem_singleton]
  refine .removeArrow (a := a) ?_ ?_ (slotsOf_erase arrowId_injective a.id.index)
  · have hfound : g.arrow? a.id = some a := h.arrow?_eq_some.mpr ⟨ha, rfl⟩
    rw [arrowSlots_eq, getElem?_slotsOf (h.arrows_made a ha)]
    exact congrArg some hfound
  · rw [← hdetach]
    exact g.elementSlots_modifyElement a.source fun _ => rfl

/-- Every change shows in the slots as it should. -/
theorem slotChange (h : g.WellFormed) {edit : Edit} {g' : Graph} (hc : g.Change edit g') :
    g.SlotChange g' edit := by
  cases hc with
  | addElement _ => exact .addElement (h.elementSlots_withElement _ _) rfl
  | removeElement _ =>
    exact .removeElement (elementSlots_withoutElement g _) (h.arrowSlots_withoutElement _)
  | beginArrow _ _ => exact .beginArrow (h.arrowAdded _ _ _)
  | anchorArrow _ _ _ _ =>
    exact .anchorArrow rfl (g.arrowSlots_modifyArrow _ fun _ => rfl)
  | drawArrow _ _ _ _ => exact .drawArrow (h.arrowAdded _ _ _)
  | drawUnchecked _ _ => exact .drawUnchecked (h.arrowAdded _ _ _)
  | removeArrow ha =>
    obtain ⟨hmem, rfl⟩ := h.arrow?_eq_some.mp ha
    exact h.slotChange_withoutArrow hmem
  | relabel _ => exact .relabel rfl (g.arrowSlots_modifyArrow _ fun _ => rfl)
  | setScript _ => exact .setScript (g.elementSlots_modifyElement _ fun _ => rfl) rfl

end WellFormed

/-! ## The arena -/

/-- What a slot holds is what its number is looked up as. -/
theorem find_of_slot {α : Type} {find : Nat → Option α} {n i : Nat} {a : α}
    (h : ((List.range n).map find)[i]? = some (some a)) : find i = some a := by
  rw [List.getElem?_map, Option.map_eq_some_iff] at h
  obtain ⟨j, hj, hfind⟩ := h
  obtain ⟨hlt, heq⟩ := List.getElem?_eq_some_iff.mp hj
  rw [List.getElem_range] at heq
  rw [heq]
  exact hfind

/-- Entries sorted by a number are what looking the numbers up in order finds. -/
theorem reduceOption_slots {α : Type} (index : α → Nat) {l : List α} {n : Nat}
    {find : Nat → Option α} (hsorted : l.Pairwise fun a b => index a < index b)
    (hbound : ∀ a ∈ l, index a < n) (hfind : ∀ i a, find i = some a ↔ a ∈ l ∧ index a = i) :
    ((List.range n).map find).reduceOption = l := by
  -- both lists are sorted by the number and have the same members
  have hslots : (((List.range n).map find).reduceOption).Pairwise
      fun a b => index a < index b := by
    rw [List.reduceOption, List.filterMap_map]
    refine List.Pairwise.filterMap _ ?_ (List.pairwise_lt_range (n := n))
    intro i j hij a ha b hb
    rw [((hfind i a).mp ha).2, ((hfind j b).mp hb).2]
    exact hij
  have : Std.Irrefl fun a b : α => index a < index b := ⟨fun a => Nat.lt_irrefl _⟩
  have : Std.Antisymm fun a b : α => index a < index b :=
    ⟨fun a b hab hba => absurd hab (Nat.lt_asymm hba)⟩
  refine hslots.eq_of_mem_iff hsorted fun a => ?_
  rw [List.reduceOption_mem_iff, List.mem_map]
  refine ⟨?_, ?_⟩
  · rintro ⟨i, -, hi⟩
    exact ((hfind i a).mp hi).1
  · intro ha
    exact ⟨index a, List.mem_range.mpr (hbound a ha), (hfind _ a).mpr ⟨ha, rfl⟩⟩

/-- The drawing as an arena: its slots, its arrows, the lists of arrows that elements
    keep, and its entry all tell the same. -/
structure Arena (g : Graph) : Prop where
  /-- An edit that is carried out does to the slots what it should ... -/
  slots_after : ∀ edit reply g', g.apply edit = .ok (reply, g') → g.SlotChange g' edit
  /-- ... and one that is refused leaves the drawing and so the slots as they are. -/
  slots_refused : ∀ edit refusal, g.apply edit = .error refusal → g.after edit = g
  /-- The element in slot `i` has the number `i`. -/
  element_slot : ∀ (i : Nat) (e : Element), g.elementSlots[i]? = some (some e) → e.id = ⟨i⟩
  /-- The live elements are those in the slots, in the order of the slots. -/
  elements_eq : g.elementSlots.reduceOption = g.elements
  /-- The arrow in slot `i` has the number `i`. -/
  arrow_slot : ∀ (i : Nat) (a : Arrow), g.arrowSlots[i]? = some (some a) → a.id = ⟨i⟩
  /-- The live arrows are those in the slots, in the order of the slots. -/
  arrows_eq : g.arrowSlots.reduceOption = g.arrows
  /-- A live arrow starts at a live element. -/
  source_live : ∀ a ∈ g.arrows, ∃ e ∈ g.elements, e.id = a.source
  /-- The target of a live arrow, if it has one, is a live element. -/
  target_live : ∀ a ∈ g.arrows, ∀ x, a.target = some x → ∃ e ∈ g.elements, e.id = x
  /-- A live element lists the live arrows that start at it, and no others. -/
  outgoing_iff : ∀ e ∈ g.elements, ∀ i,
    i ∈ e.outgoing ↔ ∃ a ∈ g.arrows, a.id = i ∧ a.source = e.id
  /-- The list of a live element is strictly increasing, so it names no arrow twice. -/
  outgoing_sorted : ∀ e ∈ g.elements, e.outgoing.Pairwise fun i j => i.index < j.index
  /-- The entry is the live element of that kind. -/
  entry_iff : ∀ x, g.entry = some x ↔ ∃ e ∈ g.elements, e.id = x ∧ e.kind = .entry
  /-- There is at most one live element of that kind. -/
  entry_unique : ∀ e ∈ g.elements, ∀ f ∈ g.elements, e.kind = .entry → f.kind = .entry → e = f

theorem WellFormed.element?_index {g : Graph} (h : g.WellFormed) (i : Nat) (e : Element) :
    g.element? ⟨i⟩ = some e ↔ e ∈ g.elements ∧ e.id.index = i := by
  rw [h.element?_eq_some]
  exact and_congr_right fun _ => ⟨congrArg ElementId.index, fun hi => by rw [← hi]⟩

theorem WellFormed.arrow?_index {g : Graph} (h : g.WellFormed) (i : Nat) (a : Arrow) :
    g.arrow? ⟨i⟩ = some a ↔ a ∈ g.arrows ∧ a.id.index = i := by
  rw [h.arrow?_eq_some]
  exact and_congr_right fun _ => ⟨congrArg ArrowId.index, fun hi => by rw [← hi]⟩

/-- Whatever edits are made to the empty drawing, carried out or refused, the result
    is an arena whose parts are in step. -/
theorem ofEdits_arena (edits : List Edit) : (ofEdits edits).Arena := by
  have h := WellFormed.ofEdits edits
  refine ⟨?_, ?_, ?_, ?_, ?_, ?_, ?_, ?_, ?_, ?_, h.entry_iff, ?_⟩
  · intro edit reply g' hdone
    exact h.slotChange (apply_change hdone)
  · intro edit refusal hrefused
    exact after_of_error hrefused
  · intro i e hi
    exact (h.element?_eq_some.mp (find_of_slot hi)).2
  · exact reduceOption_slots (fun e => e.id.index) h.elements_sorted h.elements_made
      h.element?_index
  · intro i a hi
    exact (h.arrow?_eq_some.mp (find_of_slot hi)).2
  · exact reduceOption_slots (fun a => a.id.index) h.arrows_sorted h.arrows_made h.arrow?_index
  · intro a ha
    exact mem_ids.mp (h.source_live a ha)
  · intro a ha x hx
    exact mem_ids.mp (h.target_live a ha x hx)
  · intro e he i
    rw [h.outgoing_listed e he, List.mem_map]
    refine ⟨?_, ?_⟩
    · rintro ⟨a, ha, rfl⟩
      obtain ⟨hmem, hs⟩ := mem_arrowsFrom.mp ha
      exact ⟨a, hmem, rfl, hs⟩
    · rintro ⟨a, ha, rfl, hs⟩
      exact ⟨a, mem_arrowsFrom.mpr ⟨ha, hs⟩, rfl⟩
  · intro e he
    rw [h.outgoing_listed e he]
    exact List.pairwise_map.mpr (h.arrows_sorted.filter _)
  · exact fun e he f hf hke hkf => h.entry_unique he hf hke hkf

end Graph

end Flowchart
