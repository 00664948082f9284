/-
  Flowchart.Proofs.History

  What a run of edits does to elements and arrows over time.  Numbers are handed
  out once, what is gone does not come back, kinds and sources never change, and
  the end of an arrow is dropped once at most.

  A single change is described by four facts: what has an old number after it was
  there before (`Change.hasKind_before`, `Change.arrow_before`), and what was there
  before is still there unless the edit takes it away (`Change.hasKind_after`,
  `Change.arrow_after`).  The first two can be strung together: `Graph.Later` says
  of two drawings of a run what the later one keeps, and holds of any two
  (`later_stage`).
-/

import Flowchart.Proofs.Arena

namespace Flowchart
namespace Graph

variable {g g' : Graph} {edit : Edit}

theorem mem_ids_iff_hasKind {x : ElementId} : x ∈ g.ids ↔ ∃ kind, g.HasKind x kind := by
  rw [mem_ids]
  refine ⟨?_, ?_⟩
  · rintro ⟨e, he, hx⟩
    exact ⟨e.kind, e, he, hx, rfl⟩
  · rintro ⟨kind, e, he, hx, -⟩
    exact ⟨e, he, hx⟩

/-- There is an arrow with this number on the drawing. -/
def HasArrow (g : Graph) (i : ArrowId) : Prop :=
  ∃ a ∈ g.arrows, a.id = i

/-! ## One change -/

/-- Of the arrows after one more has been drawn, those with old numbers are the old ones. -/
theorem mem_arrows_of_withArrow {source : ElementId} {target : Option ElementId}
    {label : Option Label} {b : Arrow} (hb : b ∈ (g.withArrow source target label).arrows)
    (hold : b.id.index < g.arrowsMade) : b ∈ g.arrows := by
  rw [withArrow_arrows] at hb
  rcases List.mem_append.mp hb with hb | hb
  · exact hb
  · rw [List.mem_singleton.mp hb] at hold
    exact absurd hold (Nat.lt_irrefl _)

theorem hasArrow_withArrow {source : ElementId} {target : Option ElementId}
    {label : Option Label} : (g.withArrow source target label).HasArrow ⟨g.arrowsMade⟩ :=
  ⟨_, List.mem_append_right _ (List.mem_singleton_self _), rfl⟩

namespace Change

theorem made_le (hc : g.Change edit g') :
    g.elementsMade ≤ g'.elementsMade ∧ g.arrowsMade ≤ g'.arrowsMade := by
  cases hc with
  | addElement _ => exact ⟨Nat.le_succ _, Nat.le_refl _⟩
  | beginArrow _ _ => exact ⟨Nat.le_refl _, Nat.le_succ _⟩
  | drawArrow _ _ _ _ => exact ⟨Nat.le_refl _, Nat.le_succ _⟩
  | drawUnchecked _ _ => exact ⟨Nat.le_refl _, Nat.le_succ _⟩
  | _ => exact ⟨Nat.le_refl _, Nat.le_refl _⟩

/-- An element with an old number was there before, and of the same kind. -/
theorem hasKind_before (hc : g.Change edit g') {x : ElementId} {kind : Kind}
    (hx : g'.HasKind x kind) (hold : x.index < g.elementsMade) : g.HasKind x kind := by
  cases hc with
  | addElement _ =>
    rcases hasKind_withElement.mp hx with hx | ⟨rfl, -⟩
    · exact hx
    · exact absurd hold (Nat.lt_irrefl _)
  | removeElement _ => exact (hasKind_withoutElement.mp hx).1
  | beginArrow _ _ => exact hasKind_withArrow.mp hx
  | anchorArrow _ _ _ _ => exact hx
  | drawArrow _ _ _ _ => exact hasKind_withArrow.mp hx
  | drawUnchecked _ _ => exact hasKind_withArrow.mp hx
  | removeArrow _ => exact hasKind_withoutArrow.mp hx
  | relabel _ => exact hx
  | setScript _ => exact hasKind_withScript.mp hx

/-- An element stays, and of its kind, unless the edit removes it. -/
theorem hasKind_after (hc : g.Change edit g') {x : ElementId} {kind : Kind}
    (hx : g.HasKind x kind) (hstays : edit ≠ .removeElement x) : g'.HasKind x kind := by
  cases hc with
  | addElement _ => exact hasKind_withElement.mpr (.inl hx)
  | removeElement _ =>
    refine hasKind_withoutElement.mpr ⟨hx, ?_⟩
    rintro rfl
    exact hstays rfl
  | beginArrow _ _ => exact hasKind_withArrow.mpr hx
  | anchorArrow _ _ _ _ => exact hx
  | drawArrow _ _ _ _ => exact hasKind_withArrow.mpr hx
  | drawUnchecked _ _ => exact hasKind_withArrow.mpr hx
  | removeArrow _ => exact hasKind_withoutArrow.mpr hx
  | relabel _ => exact hx
  | setScript _ => exact hasKind_withScript.mpr hx

/-- An arrow with an old number was there before, with the same source.  Its target is the
    same too, unless its end was loose and the edit has dropped it. -/
theorem arrow_before (hc : g.Change edit g') (h : g.WellFormed) {b : Arrow}
    (hb : b ∈ g'.arrows) (hold : b.id.index < g.arrowsMade) :
    ∃ a ∈ g.arrows, a.id = b.id ∧ a.source = b.source ∧
      (a.target = b.target ∨
        a.target = none ∧ ∃ x, b.target = some x ∧ edit = .anchorArrow b.id x) := by
  cases hc with
  | addElement _ => exact ⟨b, hb, rfl, rfl, .inl rfl⟩
  | removeElement _ => exact ⟨b, (List.mem_filter.mp hb).1, rfl, rfl, .inl rfl⟩
  | beginArrow _ _ => exact ⟨b, mem_arrows_of_withArrow hb hold, rfl, rfl, .inl rfl⟩
  | @anchorArrow i target a ha hloose _ _ =>
    obtain ⟨hmem, hid⟩ := h.arrow?_eq_some.mp ha
    obtain ⟨c, hcmem, rfl⟩ := List.mem_map.mp hb
    by_cases hci : c.id = i
    · -- the arrow is the one that has been looked up, and that one was loose
      have hca : c = a := h.arrow_unique hcmem hmem (hci.trans hid.symm)
      rw [if_pos hci]
      refine ⟨c, hcmem, rfl, rfl, .inr ⟨?_, target, rfl, ?_⟩⟩
      · rw [hca]
        exact hloose
      · rw [hci]
    · rw [if_neg hci]
      exact ⟨c, hcmem, rfl, rfl, .inl rfl⟩
  | drawArrow _ _ _ _ => exact ⟨b, mem_arrows_of_withArrow hb hold, rfl, rfl, .inl rfl⟩
  | drawUnchecked _ _ => exact ⟨b, mem_arrows_of_withArrow hb hold, rfl, rfl, .inl rfl⟩
  | removeArrow _ => exact ⟨b, (List.mem_filter.mp hb).1, rfl, rfl, .inl rfl⟩
  | @relabel i label _ _ =>
    obtain ⟨c, hcmem, rfl⟩ := List.mem_map.mp hb
    by_cases hci : c.id = i
    · rw [if_pos hci]
      exact ⟨c, hcmem, rfl, rfl, .inl rfl⟩
    · rw [if_neg hci]
      exact ⟨c, hcmem, rfl, rfl, .inl rfl⟩
  | setScript _ => exact ⟨b, hb, rfl, rfl, .inl rfl⟩

/-- An arrow stays unless the edit removes it, or removes an element at one of its ends. -/
theorem arrow_after (hc : g.Change edit g') (h : g.WellFormed) {a : Arrow} (ha : a ∈ g.arrows)
    (hstays : edit ≠ .removeArrow a.id)
    (hends : ∀ x, a.source = x ∨ a.target = some x → edit ≠ .removeElement x) :
    g'.HasArrow a.id := by
  cases hc with
  | addElement _ => exact ⟨a, ha, rfl⟩
  | @removeElement x _ =>
    have hapart : ¬ (a.source = x ∨ a.target = some x) := fun htouch => hends x htouch rfl
    have hkeep : (!a.touches x) = true := by
      rw [Arrow.touches, decide_eq_false hapart]
      rfl
    exact ⟨a, List.mem_filter.mpr ⟨ha, hkeep⟩, rfl⟩
  | beginArrow _ _ => exact ⟨a, List.mem_append_left _ ha, rfl⟩
  | anchorArrow _ _ _ _ =>
    refine ⟨_, List.mem_map_of_mem ha, ?_⟩
    split <;> rfl
  | drawArrow _ _ _ _ => exact ⟨a, List.mem_append_left _ ha, rfl⟩
  | drawUnchecked _ _ => exact ⟨a, List.mem_append_left _ ha, rfl⟩
  | @removeArrow i gone hgone =>
    have hid : gone.id = i := (h.arrow?_eq_some.mp hgone).2
    have hkeep : a.id ≠ gone.id := by
      intro heq
      exact hstays (by rw [heq, hid])
    exact ⟨a, List.mem_filter.mpr ⟨ha, decide_eq_true hkeep⟩, rfl⟩
  | relabel _ =>
    refine ⟨_, List.mem_map_of_mem ha, ?_⟩
    split <;> rfl
  | setScript _ => exact ⟨a, ha, rfl⟩

end Change

/-- A number that is given back is the next one before the edit, and afterwards it is the number
    of something on the drawing. -/
def HandsOut (g g' : Graph) : Edit.Reply → Prop
  | .newElement x => x.index = g.elementsMade ∧ x ∈ g'.ids
  | .newArrow i => i.index = g.arrowsMade ∧ g'.HasArrow i
  | _ => True

theorem apply_handsOut {reply : Edit.Reply} (h : g.apply edit = .ok (reply, g')) :
    g.HandsOut g' reply := by
  cases edit with
  | addElement kind script =>
    obtain ⟨r, hr, h⟩ := bind_eq_ok.mp h
    obtain ⟨-, rfl⟩ := addElement_eq_ok.mp hr
    cases h
    refine ⟨rfl, ?_⟩
    rw [withElement_ids]
    exact List.mem_append_right _ (List.mem_singleton_self _)
  | beginArrow source label =>
    obtain ⟨r, hr, h⟩ := bind_eq_ok.mp h
    obtain ⟨-, -, rfl⟩ := beginArrow_eq_ok.mp hr
    cases h
    exact ⟨rfl, hasArrow_withArrow⟩
  | drawArrow source target label =>
    obtain ⟨r, hr, h⟩ := bind_eq_ok.mp h
    obtain ⟨-, -, rfl⟩ := drawUnchecked_eq_ok.mp (drawArrow_eq_ok.mp hr).1
    cases h
    exact ⟨rfl, hasArrow_withArrow⟩
  | drawUnchecked source target label =>
    obtain ⟨r, hr, h⟩ := bind_eq_ok.mp h
    obtain ⟨-, -, rfl⟩ := drawUnchecked_eq_ok.mp hr
    cases h
    exact ⟨rfl, hasArrow_withArrow⟩
  | _ =>
    -- the other edits give back something old, or nothing
    obtain ⟨r, -, h⟩ := bind_eq_ok.mp h
    cases h
    trivial

/-! ## From one drawing to a later one -/

/-- What the second drawing, a later one, keeps of the first. -/
structure Later (g g' : Graph) : Prop where
  elementsMade_le : g.elementsMade ≤ g'.elementsMade
  arrowsMade_le : g.arrowsMade ≤ g'.arrowsMade
  /-- An element with an old number was there before, and of the same kind. -/
  hasKind : ∀ x kind, g'.HasKind x kind → x.index < g.elementsMade → g.HasKind x kind
  /-- An arrow with an old number was there before, with the same source, and a target that
      it had it still has. -/
  arrow : ∀ b ∈ g'.arrows, b.id.index < g.arrowsMade →
    ∃ a ∈ g.arrows, a.id = b.id ∧ a.source = b.source ∧ (a.target = b.target ∨ a.target = none)

namespace Later

theorem refl (g : Graph) : g.Later g :=
  ⟨Nat.le_refl _, Nat.le_refl _, fun _ _ hx _ => hx, fun b hb _ => ⟨b, hb, rfl, rfl, .inl rfl⟩⟩

theorem trans {g'' : Graph} (h : g.Later g') (h' : g'.Later g'') : g.Later g'' := by
  refine ⟨Nat.le_trans h.elementsMade_le h'.elementsMade_le,
    Nat.le_trans h.arrowsMade_le h'.arrowsMade_le, ?_, ?_⟩
  · intro x kind hx hold
    have hbetween := h'.hasKind x kind hx (Nat.lt_of_lt_of_le hold h.elementsMade_le)
    exact h.hasKind x kind hbetween hold
  · intro c hc hold
    obtain ⟨b, hb, hbid, hbsource, hbtarget⟩ :=
      h'.arrow c hc (Nat.lt_of_lt_of_le hold h.arrowsMade_le)
    rw [← hbid] at hold
    obtain ⟨a, ha, haid, hasource, hatarget⟩ := h.arrow b hb hold
    refine ⟨a, ha, haid.trans hbid, hasource.trans hbsource, ?_⟩
    -- an end that is loose between the two was loose before
    rcases hatarget with hatarget | hatarget
    · rw [hatarget]
      exact hbtarget
    · exact .inr hatarget

theorem change (hc : g.Change edit g') (h : g.WellFormed) : g.Later g' := by
  refine ⟨hc.made_le.1, hc.made_le.2, fun x kind hx hold => hc.hasKind_before hx hold, ?_⟩
  intro b hb hold
  obtain ⟨a, ha, hid, hsource, htarget⟩ := hc.arrow_before h hb hold
  exact ⟨a, ha, hid, hsource, htarget.imp_right And.left⟩

/-- An element of both drawings, the first well formed, has one kind. -/
theorem kind_eq (hl : g.Later g') (h : g.WellFormed) {x : ElementId} {j k : Kind}
    (hj : g.HasKind x j) (hk : g'.HasKind x k) : j = k :=
  h.kind_unique hj (hl.hasKind x k hk (h.id_lt hj.mem_ids))

/-- An arrow of both drawings, the first well formed, has one source and keeps its target. -/
theorem arrow_eq (hl : g.Later g') (h : g.WellFormed) {a b : Arrow} (ha : a ∈ g.arrows)
    (hb : b ∈ g'.arrows) (hid : a.id = b.id) :
    a.source = b.source ∧ (a.target = b.target ∨ a.target = none) := by
  have hold : b.id.index < g.arrowsMade := by
    rw [← hid]
    exact h.arrows_made a ha
  obtain ⟨c, hc, hcid, hsource, htarget⟩ := hl.arrow b hb hold
  obtain rfl : c = a := h.arrow_unique hc ha (hcid.trans hid.symm)
  exact ⟨hsource, htarget⟩

end Later

/-! ## The drawings of a run -/

/-- The drawing after the first `n` edits of a run. -/
def stage (edits : List Edit) (n : Nat) : Graph :=
  ofEdits (edits.take n)

theorem stage_succ {edits : List Edit} {n : Nat} (h : edits[n]? = some edit) :
    stage edits (n + 1) = (stage edits n).after edit := by
  rw [stage, List.take_add_one, h, ofEdits, List.foldl_append]
  rfl

/-- From one drawing of a run to the next nothing happens, or a change by the edit between. -/
theorem stage_cases (edits : List Edit) (n : Nat) :
    stage edits (n + 1) = stage edits n ∨
      ∃ edit, edits[n]? = some edit ∧ (stage edits n).Change edit (stage edits (n + 1)) := by
  cases hedit : edits[n]? with
  | none =>
    refine .inl ?_
    rw [stage, List.take_add_one, hedit, Option.toList_none, List.append_nil]
    rfl
  | some edit =>
    rw [stage_succ hedit]
    rcases (stage edits n).after_cases edit with hsame | hchange
    · exact .inl hsame
    · exact .inr ⟨edit, rfl, hchange⟩

theorem stage_wellFormed (edits : List Edit) (n : Nat) : (stage edits n).WellFormed :=
  WellFormed.ofEdits _

/-- Of any two drawings of a run, one is later than the other. -/
theorem later_stage (edits : List Edit) {m n : Nat} (hmn : m ≤ n) :
    (stage edits m).Later (stage edits n) := by
  -- the induction is on the number of edits after the first drawing
  induction n, hmn using Nat.le_induction with
  | base => exact .refl _
  | succ n hmn ih =>
    rcases stage_cases edits n with hsame | ⟨edit, -, hchange⟩
    · rw [hsame]
      exact ih
    · exact ih.trans (.change hchange (stage_wellFormed edits n))

/-- The edit with this place in the run is carried out and gives something back. -/
def Replies (edits : List Edit) (n : Nat) (reply : Edit.Reply) : Prop :=
  ∃ edit g', edits[n]? = some edit ∧ (stage edits n).apply edit = .ok (reply, g')

theorem Replies.handsOut {edits : List Edit} {n : Nat} {reply : Edit.Reply}
    (h : Replies edits n reply) : (stage edits n).HandsOut (stage edits (n + 1)) reply := by
  obtain ⟨edit, g', hedit, happly⟩ := h
  have hnext : stage edits (n + 1) = g' := by
    rw [stage_succ hedit, after, happly]
  rw [hnext]
  exact apply_handsOut happly

/-- The edit with this place in the run gives the arrow another target. -/
def Retargets (edits : List Edit) (n : Nat) (i : ArrowId) : Prop :=
  ∃ a ∈ (stage edits n).arrows, ∃ b ∈ (stage edits (n + 1)).arrows,
    a.id = i ∧ b.id = i ∧ a.target ≠ b.target

/-- Only dropping its loose end gives an arrow another target. -/
theorem retarget_anchors {edits : List Edit} {n : Nat} {a b : Arrow}
    (ha : a ∈ (stage edits n).arrows) (hb : b ∈ (stage edits (n + 1)).arrows)
    (hid : a.id = b.id) (hne : a.target ≠ b.target) :
    a.target = none ∧ ∃ x, b.target = some x ∧ edits[n]? = some (.anchorArrow a.id x) := by
  have h := stage_wellFormed edits n
  rcases stage_cases edits n with hsame | ⟨edit, hedit, hchange⟩
  · rw [hsame] at hb
    rw [h.arrow_unique ha hb hid] at hne
    exact absurd rfl hne
  · have hold : b.id.index < (stage edits n).arrowsMade := by
      rw [← hid]
      exact h.arrows_made a ha
    obtain ⟨c, hc, hcid, -, htarget⟩ := hchange.arrow_before h hb hold
    obtain rfl : c = a := h.arrow_unique hc ha (hcid.trans hid.symm)
    rcases htarget with htarget | ⟨hloose, x, hx, hanchor⟩
    · exact absurd htarget hne
    · refine ⟨hloose, x, hx, ?_⟩
      rw [hedit, hanchor, hid]

/-- After an arrow has been given another target it is given no more. -/
theorem Retargets.not_later {edits : List Edit} {m n : Nat} {i : ArrowId} (hmn : m < n)
    (hm : Retargets edits m i) : ¬ Retargets edits n i := by
  rintro ⟨c, hc, d, hd, hci, hdi, hne⟩
  obtain ⟨a, ha, b, hb, hai, hbi, hfirst⟩ := hm
  obtain ⟨-, x, hx, -⟩ := retarget_anchors ha hb (hai.trans hbi.symm) hfirst
  obtain ⟨hloose, -⟩ := retarget_anchors hc hd (hci.trans hdi.symm) hne
  -- the target it got is there at every later time, so it cannot be loose again
  have hlater := later_stage edits (Nat.succ_le_of_lt hmn)
  obtain ⟨-, htarget⟩ :=
    hlater.arrow_eq (stage_wellFormed edits _) hb hc (hbi.trans hci.symm)
  rcases htarget with htarget | htarget
  · rw [hx, hloose] at htarget
    cases htarget
  · rw [hx] at htarget
    cases htarget

/-! ## The history of elements and arrows -/

/-- What happens to elements and arrows along a run of edits. -/
structure History (edits : List Edit) : Prop where
  /-- The number of a new element differs from the numbers of all elements made before. -/
  new_element : ∀ m n x y, m < n → Replies edits m (.newElement x) →
    Replies edits n (.newElement y) → x ≠ y
  new_arrow : ∀ m n i j, m < n → Replies edits m (.newArrow i) →
    Replies edits n (.newArrow j) → i ≠ j
  /-- It is on the drawing after the edit, and was on none before. -/
  element_comes : ∀ n x, Replies edits n (.newElement x) →
    x ∈ (stage edits (n + 1)).ids ∧ ∀ m, m ≤ n → x ∉ (stage edits m).ids
  arrow_comes : ∀ n i, Replies edits n (.newArrow i) →
    (stage edits (n + 1)).HasArrow i ∧ ∀ m, m ≤ n → ¬ (stage edits m).HasArrow i
  /-- An element that is gone does not come back. -/
  element_gone : ∀ l m n x, l ≤ m → m ≤ n → x ∈ (stage edits l).ids →
    x ∉ (stage edits m).ids → x ∉ (stage edits n).ids
  arrow_gone : ∀ l m n i, l ≤ m → m ≤ n → (stage edits l).HasArrow i →
    ¬ (stage edits m).HasArrow i → ¬ (stage edits n).HasArrow i
  kind_kept : ∀ m n x j k, (stage edits m).HasKind x j → (stage edits n).HasKind x k → j = k
  source_kept : ∀ m n, ∀ a ∈ (stage edits m).arrows, ∀ b ∈ (stage edits n).arrows,
    a.id = b.id → a.source = b.source
  /-- An arrow gets another target only when its loose end is dropped there. -/
  target_anchored : ∀ n, ∀ a ∈ (stage edits n).arrows, ∀ b ∈ (stage edits (n + 1)).arrows,
    a.id = b.id → a.target ≠ b.target →
      a.target = none ∧ ∃ x, b.target = some x ∧ edits[n]? = some (.anchorArrow a.id x)
  target_once : ∀ m n i, Retargets edits m i → Retargets edits n i → m = n
  /-- An element goes only when it is removed. -/
  element_leaves : ∀ n x, x ∈ (stage edits n).ids → x ∉ (stage edits (n + 1)).ids →
    edits[n]? = some (.removeElement x)
  /-- An arrow goes only when it is removed, or an element at one of its ends is. -/
  arrow_leaves : ∀ n, ∀ a ∈ (stage edits n).arrows, ¬ (stage edits (n + 1)).HasArrow a.id →
    edits[n]? = some (.removeArrow a.id) ∨
      ∃ x, (a.source = x ∨ a.target = some x) ∧ edits[n]? = some (.removeElement x)

theorem element_comes_new {edits : List Edit} {n : Nat} {x : ElementId}
    (h : Replies edits n (.newElement x)) :
    x ∈ (stage edits (n + 1)).ids ∧ ∀ m, m ≤ n → x ∉ (stage edits m).ids := by
  have hindex : x.index = (stage edits n).elementsMade := h.handsOut.1
  refine ⟨h.handsOut.2, ?_⟩
  intro m hmn hx
  have hlt := (stage_wellFormed edits m).id_lt hx
  have hle := (later_stage edits hmn).elementsMade_le
  omega

theorem arrow_comes_new {edits : List Edit} {n : Nat} {i : ArrowId}
    (h : Replies edits n (.newArrow i)) :
    (stage edits (n + 1)).HasArrow i ∧ ∀ m, m ≤ n → ¬ (stage edits m).HasArrow i := by
  have hindex : i.index = (stage edits n).arrowsMade := h.handsOut.1
  refine ⟨h.handsOut.2, ?_⟩
  rintro m hmn ⟨a, ha, rfl⟩
  have hlt := (stage_wellFormed edits m).arrows_made a ha
  have hle := (later_stage edits hmn).arrowsMade_le
  omega

theorem element_stays_gone (edits : List Edit) {l m n : Nat} {x : ElementId} (hlm : l ≤ m)
    (hmn : m ≤ n) (hx : x ∈ (stage edits l).ids) (hgone : x ∉ (stage edits m).ids) :
    x ∉ (stage edits n).ids := by
  intro hback
  obtain ⟨kind, hkind⟩ := mem_ids_iff_hasKind.mp hback
  have hold : x.index < (stage edits m).elementsMade :=
    Nat.lt_of_lt_of_le ((stage_wellFormed edits l).id_lt hx) (later_stage edits hlm).elementsMade_le
  exact hgone ((later_stage edits hmn).hasKind x kind hkind hold).mem_ids

theorem arrow_stays_gone (edits : List Edit) {l m n : Nat} {i : ArrowId} (hlm : l ≤ m)
    (hmn : m ≤ n) (hi : (stage edits l).HasArrow i) (hgone : ¬ (stage edits m).HasArrow i) :
    ¬ (stage edits n).HasArrow i := by
  rintro ⟨b, hb, rfl⟩
  obtain ⟨a, ha, hid⟩ := hi
  have hold : b.id.index < (stage edits m).arrowsMade := by
    rw [← hid]
    exact Nat.lt_of_lt_of_le ((stage_wellFormed edits l).arrows_made a ha)
      (later_stage edits hlm).arrowsMade_le
  obtain ⟨c, hc, hcid, -⟩ := (later_stage edits hmn).arrow b hb hold
  exact hgone ⟨c, hc, hcid⟩

theorem element_leaves_removed {edits : List Edit} {n : Nat} {x : ElementId}
    (hx : x ∈ (stage edits n).ids) (hgone : x ∉ (stage edits (n + 1)).ids) :
    edits[n]? = some (.removeElement x) := by
  rcases stage_cases edits n with hsame | ⟨edit, hedit, hchange⟩
  · rw [hsame] at hgone
    exact absurd hx hgone
  · obtain ⟨kind, hkind⟩ := mem_ids_iff_hasKind.mp hx
    by_contra hother
    have hstays : edit ≠ .removeElement x := by
      rintro rfl
      exact hother hedit
    exact hgone (hchange.hasKind_after hkind hstays).mem_ids

theorem arrow_leaves_removed {edits : List Edit} {n : Nat} {a : Arrow}
    (ha : a ∈ (stage edits n).arrows) (hgone : ¬ (stage edits (n + 1)).HasArrow a.id) :
    edits[n]? = some (.removeArrow a.id) ∨
      ∃ x, (a.source = x ∨ a.target = some x) ∧ edits[n]? = some (.removeElement x) := by
  rcases stage_cases edits n with hsame | ⟨edit, hedit, hchange⟩
  · rw [hsame] at hgone
    exact absurd ⟨a, ha, rfl⟩ hgone
  · by_contra hother
    rw [not_or] at hother
    refine hgone (hchange.arrow_after (stage_wellFormed edits n) ha ?_ ?_)
    · rintro rfl
      exact hother.1 hedit
    · rintro x hx rfl
      exact hother.2 ⟨x, hx, hedit⟩

/-- Along every run of edits, carried out or refused, numbers stand for one element or arrow,
    which keeps its kind or source and goes only when it is taken away. -/
theorem ofEdits_history (edits : List Edit) : History edits := by
  refine ⟨?_, ?_, ?_, ?_, ?_, ?_, ?_, ?_, ?_, ?_, ?_, ?_⟩
  · -- after the first of the edits its number is on the drawing, and that of the other is not
    rintro m n x y hmn hx hy rfl
    exact (element_comes_new hy).2 (m + 1) hmn (element_comes_new hx).1
  · rintro m n i j hmn hi hj rfl
    exact (arrow_comes_new hj).2 (m + 1) hmn (arrow_comes_new hi).1
  · exact fun n x hx => element_comes_new hx
  · exact fun n i hi => arrow_comes_new hi
  · exact fun l m n x hlm hmn hx hgone => element_stays_gone edits hlm hmn hx hgone
  · exact fun l m n i hlm hmn hi hgone => arrow_stays_gone edits hlm hmn hi hgone
  · intro m n x j k hj hk
    rcases Nat.le_total m n with hmn | hnm
    · exact (later_stage edits hmn).kind_eq (stage_wellFormed edits m) hj hk
    · exact ((later_stage edits hnm).kind_eq (stage_wellFormed edits n) hk hj).symm
  · intro m n a ha b hb hid
    rcases Nat.le_total m n with hmn | hnm
    · exact ((later_stage edits hmn).arrow_eq (stage_wellFormed edits m) ha hb hid).1
    · exact ((later_stage edits hnm).arrow_eq (stage_wellFormed edits n) hb ha hid.symm).1.symm
  · exact fun n a ha b hb hid hne => retarget_anchors ha hb hid hne
  · intro m n i hm hn
    rcases Nat.lt_trichotomy m n with hmn | hmn | hnm
    · exact absurd hn (hm.not_later hmn)
    · exact hmn
    · exact absurd hm (hn.not_later hnm)
  · exact fun n x hx hgone => element_leaves_removed hx hgone
  · exact fun n a ha hgone => arrow_leaves_removed ha hgone

end Graph
end Flowchart
