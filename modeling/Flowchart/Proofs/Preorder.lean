/-
  Flowchart.Proofs.Preorder

  The walk with a stack against two programs that nothing bounds, each given by
  what it ends with.  `LoopEnds` is a loop over a stack that remembers the places
  it has seen and does something at each new one, or stops there.  `DepthFirst`
  is the recursive walk that visits a place and then all that follows from it,
  before it turns to the next.  Either may run for ever, and then ends with
  nothing; where nothing leads out of finitely many places they end, and they
  agree with `walk`.

  The stack of a walk holds places that wait, and some will have been visited
  by another path before their turn comes.  What makes the order recursive all
  the same is that the lower part of the stack has no say in what happens above
  it: a walk is done with the upper part first, and goes on with the lower one
  from what is then still unseen (`walk_append`).
-/

import Flowchart.Proofs.Walk

namespace Flowchart

variable {α : Type}

/-! ## Two programs that need not end -/

/-- The loop over a stack whose top stands first, from the places it has seen and what it
    has done so far, ends with `result`. -/
inductive LoopEnds {σ ε : Type} (next : α → List α) (visit : σ → α → Except ε σ) :
    List α → σ → List α → Except ε σ → Prop
  | empty {seen done} : LoopEnds next visit seen done [] (.ok done)
  /-- A place that has been seen is passed over. -/
  | pass {seen done x rest result} (hx : x ∈ seen)
      (hrest : LoopEnds next visit seen done rest result) :
      LoopEnds next visit seen done (x :: rest) result
  /-- The visit of any other may stop the loop; -/
  | stop {seen done x rest e} (hx : x ∉ seen) (hvisit : visit done x = .error e) :
      LoopEnds next visit seen done (x :: rest) (.error e)
  /-- if it does not, what follows from the place goes on top of the stack. -/
  | visit {seen done x rest done' result} (hx : x ∉ seen) (hvisit : visit done x = .ok done')
      (hnext : LoopEnds next visit (seen ++ [x]) done' (next x ++ rest) result) :
      LoopEnds next visit seen done (x :: rest) result

/-- The recursive walk through a list of places, with the places that have been seen in the
    order of their visits, ends when those in `after` have been seen. -/
inductive DepthFirst (next : α → List α) : List α → List α → List α → Prop
  | nil {seen} : DepthFirst next seen [] seen
  /-- A place that has been seen is passed over. -/
  | pass {seen x rest after} (hx : x ∈ seen) (hrest : DepthFirst next seen rest after) :
      DepthFirst next seen (x :: rest) after
  /-- Any other is visited, then all that follows from it is walked through, and only then
      the rest of the list. -/
  | visit {seen x rest below after} (hx : x ∉ seen)
      (hbelow : DepthFirst next (seen ++ [x]) (next x) below)
      (hrest : DepthFirst next below rest after) :
      DepthFirst next seen (x :: rest) after

/-! ## Places that are seen and places that are not -/

/-- The unseen places are none of the seen ones, and whatever follows from an unseen place
    is one or the other. -/
structure Divides (next : α → List α) (unseen seen : List α) : Prop where
  nodup : unseen.Nodup
  apart : ∀ x ∈ unseen, x ∉ seen
  closed : ∀ x ∈ unseen, ∀ y ∈ next x, y ∈ unseen ∨ y ∈ seen

variable {next : α → List α} {unseen seen stack : List α}

namespace Divides

/-- Where nothing leads out of some places, all of them are unseen at the start. -/
theorem start (hnodup : unseen.Nodup) (hclosed : ∀ x ∈ unseen, ∀ y ∈ next x, y ∈ unseen) :
    Divides next unseen [] where
  nodup := hnodup
  apart := fun _ _ => List.not_mem_nil
  closed := fun x hx y hy => Or.inl (hclosed x hx y hy)

/-- On a stack of one unseen place, every place is known. -/
theorem known_top {x : α} (hx : x ∈ unseen) : ∀ y ∈ [x], y ∈ unseen ∨ y ∈ seen := by
  intro y hy
  rw [List.mem_singleton.mp hy]
  exact Or.inl hx

variable [DecidableEq α]

/-- A place that is known stays known when places are visited. -/
theorem known_after (h : Divides next unseen seen) (visited : List α) {y : α}
    (hy : y ∈ unseen ∨ y ∈ seen) :
    y ∈ unseen.diff visited ∨ y ∈ seen ++ visited := by
  by_cases hv : y ∈ visited
  · exact Or.inr (List.mem_append_right _ hv)
  · rcases hy with hy | hy
    · exact Or.inl (h.nodup.mem_sdiff_iff.mpr ⟨hy, hv⟩)
    · exact Or.inr (List.mem_append_left _ hy)

/-- Visiting places moves them from the unseen ones to the seen ones. -/
theorem after (h : Divides next unseen seen) (visited : List α) :
    Divides next (unseen.diff visited) (seen ++ visited) where
  nodup := h.nodup.diff
  apart := by
    intro x hx hseen
    obtain ⟨hunseen, hnot⟩ := h.nodup.mem_sdiff_iff.mp hx
    rcases List.mem_append.mp hseen with hs | hv
    · exact h.apart x hunseen hs
    · exact hnot hv
  closed := by
    intro x hx y hy
    have hunseen := (h.nodup.mem_sdiff_iff.mp hx).1
    exact h.known_after visited (h.closed x hunseen y hy)

theorem visit (h : Divides next unseen seen) (x : α) :
    Divides next (unseen.erase x) (seen ++ [x]) := by
  have hone := h.after [x]
  rwa [List.diff_cons, List.diff_nil] at hone

theorem known_visit (h : Divides next unseen seen) (x : α) {y : α}
    (hy : y ∈ unseen ∨ y ∈ seen) : y ∈ unseen.erase x ∨ y ∈ seen ++ [x] := by
  have hone := h.known_after [x] hy
  rwa [List.diff_cons, List.diff_nil] at hone

end Divides

/-! ## The loop -/

section Loop

variable {σ ε : Type} {visit : σ → α → Except ε σ} {done : σ} {x : α} {rest : List α}
  {result : Except ε σ}

theorem loopEnds_nil : LoopEnds next visit seen done [] result ↔ result = .ok done := by
  constructor
  · rintro ⟨⟩
    rfl
  · rintro rfl
    exact .empty

theorem loopEnds_seen (hx : x ∈ seen) :
    LoopEnds next visit seen done (x :: rest) result ↔
      LoopEnds next visit seen done rest result := by
  refine ⟨fun h => ?_, .pass hx⟩
  cases h with
  | pass _ hrest => exact hrest
  | stop hnot _ => exact absurd hx hnot
  | visit hnot _ _ => exact absurd hx hnot

theorem loopEnds_stop {e : ε} (hx : x ∉ seen) (hvisit : visit done x = .error e) :
    LoopEnds next visit seen done (x :: rest) result ↔ result = .error e := by
  constructor
  · intro h
    cases h with
    | pass hseen _ => exact absurd hseen hx
    | stop _ hother => exact hother.symm.trans hvisit
    | visit _ hother _ => cases hother.symm.trans hvisit
  · rintro rfl
    exact .stop hx hvisit

theorem loopEnds_visit {done' : σ} (hx : x ∉ seen) (hvisit : visit done x = .ok done') :
    LoopEnds next visit seen done (x :: rest) result ↔
      LoopEnds next visit (seen ++ [x]) done' (next x ++ rest) result := by
  refine ⟨fun h => ?_, .visit hx hvisit⟩
  cases h with
  | pass hseen _ => exact absurd hseen hx
  | stop _ hother => cases hother.symm.trans hvisit
  | visit _ hother hnext =>
    cases hother.symm.trans hvisit
    exact hnext

/-- The loop ends, and has done its visits in the order of the walk. -/
theorem loopEnds_iff_walk [DecidableEq α] (h : Divides next unseen seen)
    (hstack : ∀ y ∈ stack, y ∈ unseen ∨ y ∈ seen) :
    LoopEnds next visit seen done stack result ↔
      result = (walk next unseen stack).foldlM visit done := by
  fun_induction walk next unseen stack generalizing seen done with
  | case1 unseen =>
    rw [loopEnds_nil, List.foldlM_nil]
    rfl
  | case2 unseen x rest hx ih =>
    have hnot := h.apart x hx
    rw [List.foldlM_cons]
    cases hvisit : visit done x with
    | error e =>
      rw [loopEnds_stop hnot hvisit]
      rfl
    | ok done' =>
      rw [loopEnds_visit hnot hvisit]
      -- what follows from the top is known, and so is the rest of the stack
      refine ih (h.visit x) fun y hy => h.known_visit x ?_
      rcases List.mem_append.mp hy with hy | hy
      · exact h.closed x hx y hy
      · exact hstack y (List.mem_cons_of_mem _ hy)
  | case3 unseen x rest hx ih =>
    have hseen : x ∈ seen := (hstack x List.mem_cons_self).resolve_left hx
    rw [loopEnds_seen hseen]
    exact ih h fun y hy => hstack y (List.mem_cons_of_mem _ hy)

end Loop

/-! ## The recursive walk -/

section Recursion

variable {x : α} {rest after : List α}

theorem depthFirst_nil : DepthFirst next seen [] after ↔ after = seen := by
  constructor
  · rintro ⟨⟩
    rfl
  · rintro rfl
    exact .nil

theorem depthFirst_seen (hx : x ∈ seen) :
    DepthFirst next seen (x :: rest) after ↔ DepthFirst next seen rest after := by
  refine ⟨fun h => ?_, .pass hx⟩
  cases h with
  | pass _ hrest => exact hrest
  | visit hnot _ _ => exact absurd hx hnot

theorem depthFirst_visit (hx : x ∉ seen) :
    DepthFirst next seen (x :: rest) after ↔
      ∃ below, DepthFirst next (seen ++ [x]) (next x) below ∧
        DepthFirst next below rest after := by
  constructor
  · intro h
    cases h with
    | pass hseen _ => exact absurd hseen hx
    | visit _ hbelow hrest => exact ⟨_, hbelow, hrest⟩
  · rintro ⟨below, hbelow, hrest⟩
    exact .visit hx hbelow hrest

variable [DecidableEq α]

/-- A walk is done with the upper part of its stack before it looks at the lower one. -/
theorem walk_append (next : α → List α) (unseen upper lower : List α) :
    walk next unseen (upper ++ lower)
      = walk next unseen upper
        ++ walk next (unseen.diff (walk next unseen upper)) lower := by
  fun_induction walk next unseen upper with
  | case1 unseen => rw [List.nil_append, List.diff_nil, List.nil_append]
  | case2 unseen x rest hx ih =>
    -- what follows from `x` goes on top of the upper part, and the lower one stays below both
    rw [List.cons_append, walk, if_pos hx, ← List.append_assoc, ih, List.diff_cons,
      List.cons_append]
  | case3 unseen x rest hx ih => rw [List.cons_append, walk, if_neg hx, ih]

/-- The recursive walk ends, and its order is that of the walk with a stack. -/
theorem depthFirst_iff_walk (h : Divides next unseen seen)
    (hstack : ∀ y ∈ stack, y ∈ unseen ∨ y ∈ seen) :
    DepthFirst next seen stack after ↔ after = seen ++ walk next unseen stack := by
  -- the recursion goes down to fewer unseen places, or along the list with no more of them
  induction hn : unseen.length using Nat.strongRecOn generalizing unseen seen stack after with
  | ind n ihn =>
    induction stack with
    | nil => rw [depthFirst_nil, walk, List.append_nil]
    | cons x rest ihrest =>
      have hrest : ∀ y ∈ rest, y ∈ unseen ∨ y ∈ seen := fun y hy =>
        hstack y (List.mem_cons_of_mem _ hy)
      by_cases hx : x ∈ unseen
      · have hfewer : (unseen.erase x).length < n := by
          have hpos := List.length_pos_of_mem hx
          rw [List.length_erase_of_mem hx]
          omega
        -- below `x` there is one place less that is unseen
        have hbelow : ∀ below, DepthFirst next (seen ++ [x]) (next x) below ↔
            below = seen ++ [x] ++ walk next (unseen.erase x) (next x) := fun below =>
          ihn _ hfewer (h.visit x) (fun y hy => h.known_visit x (h.closed x hx y hy)) rfl
        -- beside `x` there are still fewer: what was met below it is seen by now
        have hless : ((unseen.erase x).diff (walk next (unseen.erase x) (next x))).length < n :=
          Nat.lt_of_le_of_lt (List.diff_sublist _ _).length_le hfewer
        rw [depthFirst_visit (h.apart x hx), walk, if_pos hx, walk_append]
        simp only [hbelow, exists_eq_left]
        rw [ihn _ hless ((h.visit x).after _)
          (fun y hy => (h.visit x).known_after _ (h.known_visit x (hrest y hy))) rfl]
        simp only [List.append_assoc, List.cons_append, List.nil_append]
      · have hseen : x ∈ seen := (hstack x List.mem_cons_self).resolve_left hx
        rw [depthFirst_seen hseen, walk, if_neg hx]
        exact ihrest hrest

end Recursion

end Flowchart
