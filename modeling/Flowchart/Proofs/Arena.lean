/-
  Flowchart.Proofs.Arena

  Every drawing that edits lead to is well formed.  Each of the seven changes
  keeps the invariant (`WellFormed.withElement` and so on); the guards of the
  edits are needed only where a change names an element, which has to be there.
-/

import Flowchart.Proofs.Change

namespace Flowchart
namespace Graph

/-! ## Elements and arrows changed in place -/

/-- Changing elements and arrows in place keeps the drawing well formed, as long as
    numbers, kinds, sources and lists stay and no arrow comes to point at nothing. -/
theorem WellFormed.inPlace {g : Graph} (h : g.WellFormed) {u : Element → Element}
    {v : Arrow → Arrow} (hid : ∀ e, (u e).id = e.id) (hkind : ∀ e, (u e).kind = e.kind)
    (hout : ∀ e, (u e).outgoing = e.outgoing) (haid : ∀ a, (v a).id = a.id)
    (hsource : ∀ a, (v a).source = a.source)
    (htarget : ∀ a ∈ g.arrows, ∀ x, (v a).target = some x → x ∈ g.ids) :
    WellFormed { g with elements := g.elements.map u, arrows := g.arrows.map v } := by
  have hids : (g.elements.map u).map Element.id = g.ids := by
    rw [List.map_map]
    exact List.map_congr_left fun e _ => hid e
  refine ⟨?_, ?_, ?_, ?_, ?_, ?_, ?_, ?_⟩
  · refine List.pairwise_map.mpr (h.elements_sorted.imp ?_)
    intro e f hlt
    rw [hid, hid]
    exact hlt
  · intro e' he'
    obtain ⟨e, he, rfl⟩ := List.mem_map.mp he'
    rw [hid]
    exact h.elements_made e he
  · refine List.pairwise_map.mpr (h.arrows_sorted.imp ?_)
    intro a b hlt
    rw [haid, haid]
    exact hlt
  · intro a' ha'
    obtain ⟨a, ha, rfl⟩ := List.mem_map.mp ha'
    rw [haid]
    exact h.arrows_made a ha
  · intro a' ha'
    obtain ⟨a, ha, rfl⟩ := List.mem_map.mp ha'
    show (v a).source ∈ (g.elements.map u).map Element.id
    rw [hids, hsource]
    exact h.source_live a ha
  · intro a' ha' x hx
    obtain ⟨a, ha, rfl⟩ := List.mem_map.mp ha'
    show x ∈ (g.elements.map u).map Element.id
    rw [hids]
    exact htarget a ha x hx
  · intro e' he'
    obtain ⟨e, he, rfl⟩ := List.mem_map.mp he'
    -- the lists are as they were, and so are the numbers of the arrows they name
    have hfrom := arrowsFrom_inPlace g
      { g with elements := g.elements.map u, arrows := g.arrows.map v } rfl hsource e.id
    rw [hout, h.outgoing_listed e he, hid, hfrom, List.map_map]
    exact List.map_congr_left fun a _ => (haid a).symm
  · intro x
    exact (h.entry_iff x).trans (hasKind_inPlace rfl hid hkind).symm

theorem WellFormed.withScript {g : Graph} (h : g.WellFormed) (x : ElementId)
    (script : Option String) : (g.withScript x script).WellFormed := by
  have hin := h.inPlace (u := fun e => if e.id = x then { e with script } else e) (v := id)
    (fun e => by split <;> rfl) (fun e => by split <;> rfl) (fun e => by split <;> rfl)
    (fun _ => rfl) (fun _ => rfl) h.target_live
  rw [List.map_id] at hin
  exact hin

theorem WellFormed.withTarget {g : Graph} (h : g.WellFormed) (i : ArrowId) {target : ElementId}
    (ht : target ∈ g.ids) : (g.withTarget i target).WellFormed := by
  have hin := h.inPlace (u := id)
    (v := fun a => if a.id = i then { a with target := some target } else a)
    (fun _ => rfl) (fun _ => rfl) (fun _ => rfl)
    (fun a => by split <;> rfl) (fun a => by split <;> rfl) (by
      intro a ha x hx
      by_cases hi : a.id = i
      · rw [if_pos hi] at hx
        exact Option.some.inj hx ▸ ht
      · rw [if_neg hi] at hx
        exact h.target_live a ha x hx)
  rw [List.map_id] at hin
  exact hin

theorem WellFormed.withLabel {g : Graph} (h : g.WellFormed) (i : ArrowId)
    (label : Option Label) : (g.withLabel i label).WellFormed := by
  have hin := h.inPlace (u := id) (v := fun a => if a.id = i then { a with label } else a)
    (fun _ => rfl) (fun _ => rfl) (fun _ => rfl)
    (fun a => by split <;> rfl) (fun a => by split <;> rfl) (by
      intro a ha x hx
      have hsame : (if a.id = i then { a with label } else a).target = a.target := by
        split <;> rfl
      rw [hsame] at hx
      exact h.target_live a ha x hx)
  rw [List.map_id] at hin
  exact hin

/-! ## Something new -/

theorem withElement_ids (g : Graph) (kind : Kind) (script : Option String) :
    (g.withElement kind script).ids = g.ids ++ [⟨g.elementsMade⟩] :=
  List.map_append

theorem WellFormed.withElement {g : Graph} (h : g.WellFormed) {kind : Kind}
    (script : Option String) (hentry : kind = .entry → g.entry = none) :
    (g.withElement kind script).WellFormed := by
  refine ⟨?_, ?_, h.arrows_sorted, h.arrows_made, ?_, ?_, ?_, ?_⟩
  · refine List.pairwise_append.mpr ⟨h.elements_sorted, List.pairwise_singleton _ _, ?_⟩
    intro e he f hf
    rw [List.mem_singleton.mp hf]
    exact h.elements_made e he
  · intro e he
    show e.id.index < g.elementsMade + 1
    rcases List.mem_append.mp he with he | he
    · have := h.elements_made e he
      omega
    · rw [List.mem_singleton.mp he]
      exact Nat.lt_succ_self _
  · intro a ha
    rw [withElement_ids]
    exact List.mem_append_left _ (h.source_live a ha)
  · intro a ha x hx
    rw [withElement_ids]
    exact List.mem_append_left _ (h.target_live a ha x hx)
  · intro e he
    rcases List.mem_append.mp he with he | he
    · exact h.outgoing_listed e he
    · -- no arrow starts at a number that has not been handed out before
      rw [List.mem_singleton.mp he]
      have hnew : (⟨g.elementsMade⟩ : ElementId) ∉ g.ids := by
        intro hx
        exact Nat.lt_irrefl _ (h.id_lt hx)
      show [] = (g.arrowsFrom ⟨g.elementsMade⟩).map Arrow.id
      rw [h.arrowsFrom_eq_nil hnew]
      rfl
  · intro x
    rw [hasKind_withElement, ← h.entry_iff]
    show (if kind = .entry then some ⟨g.elementsMade⟩ else g.entry) = some x ↔ _
    -- a new entry is the only one, because there was none before
    by_cases hk : kind = .entry
    · rw [if_pos hk, hentry hk, hk]
      simp [eq_comm]
    · rw [if_neg hk]
      simp [Ne.symm hk]

/-- What is done to an element when a new arrow is listed at `source`. -/
def listed (g : Graph) (source : ElementId) (e : Element) : Element :=
  if e.id = source then { e with outgoing := e.outgoing ++ [⟨g.arrowsMade⟩] } else e

theorem listed_id (g : Graph) (source : ElementId) (e : Element) :
    (g.listed source e).id = e.id := by
  rw [listed]
  split <;> rfl

theorem withArrow_elements (g : Graph) (source : ElementId) (target : Option ElementId)
    (label : Option Label) :
    (g.withArrow source target label).elements = g.elements.map (g.listed source) := rfl

theorem withArrow_ids (g : Graph) (source : ElementId) (target : Option ElementId)
    (label : Option Label) : (g.withArrow source target label).ids = g.ids := by
  rw [ids, withArrow_elements, List.map_map]
  exact List.map_congr_left fun e _ => g.listed_id source e

theorem withArrow_arrows (g : Graph) (source : ElementId) (target : Option ElementId)
    (label : Option Label) :
    (g.withArrow source target label).arrows
      = g.arrows ++ [{ id := ⟨g.arrowsMade⟩, source, target, label }] := rfl

theorem WellFormed.withArrow {g : Graph} (h : g.WellFormed) {source : ElementId}
    {target : Option ElementId} (label : Option Label) (hs : source ∈ g.ids)
    (ht : ∀ x, target = some x → x ∈ g.ids) : (g.withArrow source target label).WellFormed := by
  refine ⟨?_, ?_, ?_, ?_, ?_, ?_, ?_, ?_⟩
  · refine List.pairwise_map.mpr (h.elements_sorted.imp ?_)
    intro e f hlt
    show (g.listed source e).id.index < (g.listed source f).id.index
    rw [listed_id, listed_id]
    exact hlt
  · intro e' he'
    obtain ⟨e, he, rfl⟩ := List.mem_map.mp he'
    show (g.listed source e).id.index < g.elementsMade
    rw [listed_id]
    exact h.elements_made e he
  · refine List.pairwise_append.mpr ⟨h.arrows_sorted, List.pairwise_singleton _ _, ?_⟩
    intro a ha b hb
    rw [List.mem_singleton.mp hb]
    exact h.arrows_made a ha
  · intro a ha
    show a.id.index < g.arrowsMade + 1
    rcases List.mem_append.mp ha with ha | ha
    · have := h.arrows_made a ha
      omega
    · rw [List.mem_singleton.mp ha]
      exact Nat.lt_succ_self _
  · intro a ha
    rw [withArrow_ids]
    rcases List.mem_append.mp ha with ha | ha
    · exact h.source_live a ha
    · rw [List.mem_singleton.mp ha]
      exact hs
  · intro a ha x hx
    rw [withArrow_ids]
    rcases List.mem_append.mp ha with ha | ha
    · exact h.target_live a ha x hx
    · rw [List.mem_singleton.mp ha] at hx
      exact ht x hx
  · intro e' he'
    obtain ⟨e, he, rfl⟩ := List.mem_map.mp he'
    show (g.listed source e).outgoing
      = ((g.arrows ++ [_]).filter fun a : Arrow => a.source = (g.listed source e).id).map Arrow.id
    rw [listed_id, List.filter_append, List.map_append]
    -- the new arrow is at the end of both lists, or of neither
    by_cases hx : e.id = source
    · rw [listed, if_pos hx, List.filter_singleton]
      show e.outgoing ++ _ = (g.arrowsFrom e.id).map Arrow.id ++ _
      rw [h.outgoing_listed e he]
      simp [hx]
    · rw [listed, if_neg hx, List.filter_singleton]
      have hne : ¬ source = e.id := fun heq => hx heq.symm
      simp only [hne, decide_false, cond_false, List.map_nil, List.append_nil]
      exact h.outgoing_listed e he
  · intro x
    exact (h.entry_iff x).trans hasKind_withArrow.symm

/-! ## Something gone -/

/-- Taking arrows off the list of an element leaves the arrows that stay. -/
theorem WellFormed.detach_outgoing {g : Graph} (h : g.WellFormed) {e : Element}
    (he : e ∈ g.elements) {gone : List ArrowId} {p : Arrow → Bool}
    (hgone : ∀ a ∈ g.arrows, a.id ∈ gone ↔ p a = true) :
    (detach gone e).outgoing = ((g.arrowsFrom e.id).filter fun a => !p a).map Arrow.id := by
  show e.outgoing.filter _ = _
  rw [h.outgoing_listed e he, List.filter_map]
  refine congrArg (List.map Arrow.id) (List.filter_congr fun a ha => ?_)
  have hp := hgone a (mem_arrowsFrom.mp ha).1
  cases hpa : p a with
  | true => simp [hp.mpr hpa]
  | false =>
    have hnot : a.id ∉ gone := by
      intro hin
      rw [hp.mp hin] at hpa
      cases hpa
    simp [hnot]

/-- An arrow is named among those at an element only if it touches it. -/
theorem WellFormed.mem_arrowsAt {g : Graph} (h : g.WellFormed) {x : ElementId} {a : Arrow}
    (ha : a ∈ g.arrows) : a.id ∈ g.arrowsAt x ↔ a.touches x = true := by
  rw [arrowsAt, List.mem_map]
  refine ⟨?_, ?_⟩
  · rintro ⟨b, hb, hid⟩
    obtain ⟨hbmem, htouch⟩ := List.mem_filter.mp hb
    rw [← h.arrow_unique hbmem ha hid]
    exact htouch
  · intro htouch
    exact ⟨a, List.mem_filter.mpr ⟨ha, htouch⟩, rfl⟩

theorem filter_filter_comm {α : Type} (p q : α → Bool) (l : List α) :
    (l.filter p).filter q = (l.filter q).filter p := by
  rw [List.filter_filter, List.filter_filter]
  exact List.filter_congr fun a _ => Bool.and_comm _ _

theorem WellFormed.withoutElement {g : Graph} (h : g.WellFormed) (x : ElementId) :
    (g.withoutElement x).WellFormed := by
  have hids : ∀ y, y ∈ (g.withoutElement x).ids ↔ y ∈ g.ids ∧ y ≠ x := by
    intro y
    simp only [Graph.withoutElement, ids, detach, List.map_map, List.mem_map, List.mem_filter,
      Function.comp_apply, decide_eq_true_eq]
    refine ⟨?_, ?_⟩
    · rintro ⟨e, ⟨he, hne⟩, rfl⟩
      exact ⟨⟨e, he, rfl⟩, hne⟩
    · rintro ⟨⟨e, he, rfl⟩, hne⟩
      exact ⟨e, ⟨he, hne⟩, rfl⟩
  have hstay : ∀ a ∈ (g.withoutElement x).arrows, a ∈ g.arrows ∧ a.source ≠ x ∧
      a.target ≠ some x := by
    intro a ha
    obtain ⟨hmem, htouch⟩ := List.mem_filter.mp ha
    simp only [Arrow.touches, Bool.not_eq_true', decide_eq_false_iff_not, not_or] at htouch
    exact ⟨hmem, htouch⟩
  refine ⟨?_, ?_, h.arrows_sorted.filter _, ?_, ?_, ?_, ?_, ?_⟩
  · exact List.pairwise_map.mpr (h.elements_sorted.filter _)
  · intro e' he'
    obtain ⟨e, he, rfl⟩ := List.mem_map.mp he'
    exact h.elements_made e (List.mem_filter.mp he).1
  · intro a ha
    exact h.arrows_made a (hstay a ha).1
  · -- an arrow that stays does not touch `x`, so its ends stay too
    intro a ha
    obtain ⟨hmem, hsource, -⟩ := hstay a ha
    exact (hids _).mpr ⟨h.source_live a hmem, hsource⟩
  · intro a ha y hy
    obtain ⟨hmem, -, htarget⟩ := hstay a ha
    refine (hids y).mpr ⟨h.target_live a hmem y hy, ?_⟩
    rintro rfl
    exact htarget hy
  · intro e' he'
    obtain ⟨e, he, rfl⟩ := List.mem_map.mp he'
    have hmem : e ∈ g.elements := (List.mem_filter.mp he).1
    -- both sides keep the arrows from `e` that do not touch `x`, sieved in another order
    rw [h.detach_outgoing hmem fun a ha => h.mem_arrowsAt ha]
    show _ = ((g.arrows.filter _).filter fun a => a.source = e.id).map Arrow.id
    rw [filter_filter_comm]
    rfl
  · intro y
    rw [hasKind_withoutElement, ← h.entry_iff]
    show (if g.entry = some x then none else g.entry) = some y ↔ _
    -- the entry goes with its element
    by_cases hx : g.entry = some x
    · rw [if_pos hx, hx]
      refine ⟨fun hno => (by cases hno), ?_⟩
      rintro ⟨heq, hne⟩
      exact absurd (Option.some.inj heq).symm hne
    · rw [if_neg hx]
      refine ⟨fun hy => ⟨hy, ?_⟩, fun hy => hy.1⟩
      rintro rfl
      exact hx hy

/-- Taking arrows off the list of an element changes nothing if none of them starts there. -/
theorem WellFormed.detach_eq_self {g : Graph} (h : g.WellFormed) {e : Element}
    (he : e ∈ g.elements) {gone : List ArrowId}
    (hother : ∀ a ∈ g.arrowsFrom e.id, a.id ∉ gone) : detach gone e = e := by
  have hkeep : e.outgoing.filter (fun i => i ∉ gone) = e.outgoing := by
    rw [List.filter_eq_self, h.outgoing_listed e he]
    intro i hi
    obtain ⟨a, ha, rfl⟩ := List.mem_map.mp hi
    exact decide_eq_true (hother a ha)
  rw [detach, hkeep]

/-- Only the source lists an arrow, so it may as well be taken off every list. -/
theorem WellFormed.withoutArrow_elements {g : Graph} (h : g.WellFormed) {a : Arrow}
    (ha : a ∈ g.arrows) : (g.withoutArrow a).elements = g.elements.map (detach [a.id]) := by
  refine List.map_congr_left fun e he => ?_
  by_cases hs : e.id = a.source
  · rw [if_pos hs]
  · rw [if_neg hs, h.detach_eq_self he]
    intro b hb hid
    obtain ⟨hbmem, hbs⟩ := mem_arrowsFrom.mp hb
    rw [h.arrow_unique hbmem ha (List.mem_singleton.mp hid)] at hbs
    exact hs hbs.symm

theorem WellFormed.withoutArrow {g : Graph} (h : g.WellFormed) {a : Arrow}
    (ha : a ∈ g.arrows) : (g.withoutArrow a).WellFormed := by
  have helements := h.withoutArrow_elements ha
  have hids : (g.withoutArrow a).ids = g.ids := by
    rw [ids, helements, List.map_map]
    rfl
  have hstay : ∀ b ∈ (g.withoutArrow a).arrows, b ∈ g.arrows :=
    fun b hb => (List.mem_filter.mp hb).1
  refine ⟨?_, ?_, h.arrows_sorted.filter _, ?_, ?_, ?_, ?_, ?_⟩
  · rw [helements]
    exact List.pairwise_map.mpr h.elements_sorted
  · intro e' he'
    rw [helements] at he'
    obtain ⟨e, he, rfl⟩ := List.mem_map.mp he'
    exact h.elements_made e he
  · intro b hb
    exact h.arrows_made b (hstay b hb)
  · intro b hb
    rw [hids]
    exact h.source_live b (hstay b hb)
  · intro b hb
    rw [hids]
    exact h.target_live b (hstay b hb)
  · intro e' he'
    rw [helements] at he'
    obtain ⟨e, he, rfl⟩ := List.mem_map.mp he'
    have hgone : ∀ b ∈ g.arrows, b.id ∈ [a.id] ↔ decide (b.id = a.id) = true := by
      intro b _
      simp
    rw [h.detach_outgoing he hgone]
    show _ = ((g.arrows.filter fun b => b.id ≠ a.id).filter fun b => b.source = e.id).map Arrow.id
    rw [filter_filter_comm, arrowsFrom]
    simp only [decide_not]
  · intro x
    exact (h.entry_iff x).trans hasKind_withoutArrow.symm

/-! ## Runs of edits -/

theorem WellFormed.empty : Graph.empty.WellFormed := by
  refine ⟨.nil, ?_, .nil, ?_, ?_, ?_, ?_, ?_⟩
  all_goals simp [Graph.empty, HasKind]

/-- Every change keeps the drawing well formed. -/
theorem WellFormed.change {g g' : Graph} {edit : Edit} (h : g.WellFormed)
    (hc : g.Change edit g') : g'.WellFormed := by
  cases hc with
  | addElement hentry => exact h.withElement _ hentry
  | removeElement _ => exact h.withoutElement _
  | beginArrow hs _ => exact h.withArrow _ hs fun x hx => by cases hx
  | anchorArrow _ _ ht _ => exact h.withTarget _ ht
  | drawArrow hs ht _ _ => exact h.withArrow _ hs fun x hx => Option.some.inj hx ▸ ht
  | drawUnchecked hs ht => exact h.withArrow _ hs fun x hx => Option.some.inj hx ▸ ht
  | removeArrow ha => exact h.withoutArrow (h.arrow?_eq_some.mp ha).1
  | relabel _ => exact h.withLabel _ _
  | setScript _ => exact h.withScript _ _

theorem WellFormed.after {g : Graph} (h : g.WellFormed) (edit : Edit) :
    (g.after edit).WellFormed := by
  rcases g.after_cases edit with hsame | hchange
  · rw [hsame]
    exact h
  · exact h.change hchange

/-- Every drawing that edits lead to is well formed. -/
theorem WellFormed.ofEdits (edits : List Edit) : (Graph.ofEdits edits).WellFormed :=
  ofEdits_induction (fun _ => True) WellFormed.empty (fun _ _ _ _ h hc => h.change hc) edits
    fun _ _ => trivial

end Graph
end Flowchart
