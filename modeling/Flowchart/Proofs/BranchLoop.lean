/-
  Flowchart.Proofs.BranchLoop

  Loops of arrows that run through branches only.  `Graph.LoopFree` says that
  there is none.  The check made before an arrow is drawn is exact: it refuses
  the arrow when its source can be reached from its target along arrows between
  branches (`checkLoop_eq_ok`), and on a drawing without loops this is just when
  the arrow would close one (`loopFree_insert_iff`).
-/

import Flowchart.Drawing
import Flowchart.Proofs.Walk
import Flowchart.Proofs.WellFormed

namespace Flowchart

/-! ## One more step -/

section Insert

open Relation

variable {α : Type} {r r' : α → α → Prop} {s t : α}

/-- With one more step from `s` to `t`, a way is an old one, or it goes through that step:
    an old way leads to its start and an old way leads on from its end. -/
theorem transGen_insert (hr : ∀ a b, r' a b → r a b ∨ (a = s ∧ b = t)) {a b : α}
    (h : TransGen r' a b) :
    TransGen r a b ∨ (ReflTransGen r a s ∧ ReflTransGen r t b) := by
  induction h with
  | single hstep =>
    rcases hr _ _ hstep with hold | ⟨rfl, rfl⟩
    · exact .inl (.single hold)
    · exact .inr ⟨.refl, .refl⟩
  | tail _ hstep ih =>
    -- the last step is old or new, and so the way before it ends anywhere or at `s`
    rcases hr _ _ hstep with hold | ⟨rfl, rfl⟩
    · rcases ih with ih | ⟨hto, hfrom⟩
      · exact .inl (ih.tail hold)
      · exact .inr ⟨hto, hfrom.tail hold⟩
    · rcases ih with ih | ⟨hto, -⟩
      · exact .inr ⟨ih.to_reflTransGen, .refl⟩
      · exact .inr ⟨hto, .refl⟩

/-- One more step closes no loop where its start cannot be reached from its end. -/
theorem acyclic_insert (hr : ∀ a b, r' a b → r a b ∨ (a = s ∧ b = t))
    (hacyclic : ∀ x, ¬ TransGen r x x) (hback : ¬ ReflTransGen r t s) :
    ∀ x, ¬ TransGen r' x x := by
  intro x hx
  rcases transGen_insert hr hx with hold | ⟨hto, hfrom⟩
  · exact hacyclic x hold
  · exact hback (hfrom.trans hto)

end Insert

namespace Graph

/-! ## Loops -/

/-- An anchored arrow leads from one branch to another. -/
def BranchArrow (g : Graph) (x y : ElementId) : Prop :=
  g.HasKind x .branch ∧ g.HasKind y .branch ∧ g.Leads x y

/-- No loop of anchored arrows runs through branches only. -/
def LoopFree (g : Graph) : Prop :=
  ∀ x, ¬ Relation.TransGen g.BranchArrow x x

/-- An arrow from `source` to `target` would close a loop of branches. -/
def ClosesLoop (g : Graph) (source target : ElementId) : Prop :=
  g.HasKind source .branch ∧ g.HasKind target .branch ∧
    Relation.ReflTransGen g.BranchArrow target source

theorem LoopFree.mono {g g' : Graph} (h : g.LoopFree)
    (hsub : ∀ x y, g'.BranchArrow x y → g.BranchArrow x y) : g'.LoopFree :=
  fun x hx => h x (Relation.TransGen.mono hsub _ _ hx)

/-- With one more arrow from `source` to `target` the drawing stays free of loops just
    when the arrow closes none. -/
theorem loopFree_insert_iff {g g' : Graph} {source target : ElementId}
    (hkind : ∀ x, g'.HasKind x .branch ↔ g.HasKind x .branch)
    (hleads : ∀ x y, g'.Leads x y ↔ g.Leads x y ∨ (x = source ∧ y = target)) :
    g'.LoopFree ↔ g.LoopFree ∧ ¬ g.ClosesLoop source target := by
  have hold : ∀ x y, g.BranchArrow x y → g'.BranchArrow x y := by
    rintro x y ⟨hx, hy, hl⟩
    exact ⟨(hkind x).mpr hx, (hkind y).mpr hy, (hleads x y).mpr (.inl hl)⟩
  have hnew : ∀ x y, g'.BranchArrow x y →
      g.BranchArrow x y ∨ (g.HasKind source .branch ∧ g.HasKind target .branch ∧
        x = source ∧ y = target) := by
    rintro x y ⟨hx, hy, hl⟩
    rw [hkind] at hx hy
    rcases (hleads x y).mp hl with hl | ⟨rfl, rfl⟩
    · exact .inl ⟨hx, hy, hl⟩
    · exact .inr ⟨hx, hy, rfl, rfl⟩
  refine ⟨?_, ?_⟩
  · intro h
    refine ⟨h.mono hold, ?_⟩
    rintro ⟨hs, ht, hback⟩
    -- from `target` back to `source` along old arrows, and then along the new one
    have hclose : g'.BranchArrow source target :=
      ⟨(hkind _).mpr hs, (hkind _).mpr ht, (hleads _ _).mpr (.inr ⟨rfl, rfl⟩)⟩
    exact h target (Relation.TransGen.tail' (Relation.ReflTransGen.mono hold _ _ hback) hclose)
  · rintro ⟨h, hopen⟩
    -- unless it joins two branches, the new arrow is on no loop at all
    by_cases hboth : g.HasKind source .branch ∧ g.HasKind target .branch
    · obtain ⟨hs, ht⟩ := hboth
      refine acyclic_insert (s := source) (t := target) ?_ h fun hback => hopen ⟨hs, ht, hback⟩
      intro x y hxy
      rcases hnew x y hxy with hxy | ⟨-, -, heq⟩
      · exact .inl hxy
      · exact .inr heq
    · refine h.mono fun x y hxy => ?_
      rcases hnew x y hxy with hxy | ⟨hs, ht, -⟩
      · exact hxy
      · exact absurd ⟨hs, ht⟩ hboth

/-! ## The check before an arrow is drawn -/

theorem WellFormed.mem_branchTargets {g : Graph} (h : g.WellFormed) {x y : ElementId} :
    y ∈ (g.branchTargets x).reverse ↔ g.HasKind x .branch ∧ g.Leads x y := by
  rw [List.mem_reverse, branchTargets]
  by_cases hb : g.isBranch x = true
  · rw [if_pos hb, h.mem_targets]
    exact ⟨fun hl => ⟨h.isBranch_iff.mp hb, hl⟩, fun hl => hl.2⟩
  · rw [if_neg hb]
    refine ⟨fun hno => absurd hno List.not_mem_nil, ?_⟩
    rintro ⟨hk, -⟩
    exact absurd (h.isBranch_iff.mpr hk) hb

/-- From branch to branch, the walk through branches finds what arrows between branches
    lead to. -/
theorem WellFormed.mem_branchWalk {g : Graph} (h : g.WellFormed) {x y : ElementId}
    (hx : g.HasKind x .branch) (hy : g.HasKind y .branch) :
    y ∈ g.branchWalk x ↔ Relation.ReflTransGen g.BranchArrow x y := by
  have hclosed : ∀ a ∈ g.ids, ∀ b ∈ (g.branchTargets a).reverse, b ∈ g.ids := by
    intro a _ b hb
    exact (h.leads_live (h.mem_branchTargets.mp hb).2).2
  rw [branchWalk, mem_walk_iff_reaches hclosed hx.mem_ids]
  refine ⟨?_, ?_⟩
  · intro hreach
    -- every place on the way is a branch: the last by assumption, the others because
    -- something follows from them
    have hboth : g.HasKind x .branch ∧ Relation.ReflTransGen g.BranchArrow x y := by
      refine Relation.ReflTransGen.head_induction_on hreach ⟨hy, .refl⟩ ?_
      rintro a b hstep - ⟨hb, hway⟩
      obtain ⟨ha, hl⟩ := h.mem_branchTargets.mp hstep
      exact ⟨ha, hway.head ⟨ha, hb, hl⟩⟩
    exact hboth.2
  · intro hway
    refine Relation.ReflTransGen.mono ?_ _ _ hway
    rintro a b ⟨ha, -, hl⟩
    exact h.mem_branchTargets.mpr ⟨ha, hl⟩

/-- An arrow passes the check for loops just when it closes none. -/
theorem WellFormed.checkLoop_eq_ok {g : Graph} (h : g.WellFormed) {source target : ElementId} :
    g.checkLoop source target = .ok () ↔ ¬ g.ClosesLoop source target := by
  have hiff : (g.isBranch source = true ∧ g.isBranch target = true ∧
      source ∈ g.branchWalk target) ↔ g.ClosesLoop source target := by
    rw [h.isBranch_iff, h.isBranch_iff]
    refine and_congr_right fun hs => and_congr_right fun ht => ?_
    exact h.mem_branchWalk ht hs
  rw [← hiff, checkLoop]
  split
  · next hloop => simp [hloop]
  · next hopen => simpa using hopen

/-- The check for loops has one thing to say, and says it of the arrows that close one. -/
theorem WellFormed.checkLoop_eq_error {g : Graph} (h : g.WellFormed)
    {source target : ElementId} {defect : Defect} :
    g.checkLoop source target = .error defect ↔
      defect = .branchLoop source target ∧ g.ClosesLoop source target := by
  by_cases hcloses : g.ClosesLoop source target
  · -- a check that does not pass can only have gone into the branch with the defect
    have hrefused : g.checkLoop source target = .error (.branchLoop source target) := by
      have hnot := mt h.checkLoop_eq_ok.mp (not_not.mpr hcloses)
      rw [checkLoop] at hnot ⊢
      split at hnot
      · next hloop => rw [if_pos hloop]
      · exact absurd rfl hnot
    rw [hrefused, Except.error.injEq]
    exact ⟨fun heq => ⟨heq.symm, hcloses⟩, fun hboth => hboth.1.symm⟩
  · rw [h.checkLoop_eq_ok.mpr hcloses]
    refine ⟨?_, fun hboth => absurd hboth.2 hcloses⟩
    intro heq
    cases heq

/-- An arrow may be dropped on `target` just when that is not the entry and no loop of
    branches is closed. -/
theorem WellFormed.checkTarget_eq_ok {g : Graph} (h : g.WellFormed)
    {source target : ElementId} :
    g.checkTarget source target = .ok () ↔
      ¬ g.HasKind target .entry ∧ ¬ g.ClosesLoop source target := by
  rw [← h.entry_iff, ← h.checkLoop_eq_ok, checkTarget]
  by_cases hentry : g.entry = some target
  · simp [hentry]
  · simp [hentry]

/-- An arrow may not be dropped on `target` because that is the entry, or else because a loop of
    branches would be closed. -/
theorem WellFormed.checkTarget_eq_error {g : Graph} (h : g.WellFormed)
    {source target : ElementId} {defect : Defect} :
    g.checkTarget source target = .error defect ↔
      (g.HasKind target .entry ∧ defect = .arrowToEntry) ∨
        (¬ g.HasKind target .entry ∧ g.ClosesLoop source target ∧
          defect = .branchLoop source target) := by
  rw [← h.entry_iff, checkTarget]
  by_cases hentry : g.entry = some target
  · rw [if_pos hentry, Except.error.injEq, eq_comm]
    simp [hentry]
  · rw [if_neg hentry, h.checkLoop_eq_error, and_comm]
    simp [hentry]

end Graph

end Flowchart
