/-
  Flowchart.Proofs.Walk

  Which places a walk visits.  A walk visits unseen places only, each once; it
  visits all unseen places on its stack, and with a place all unseen places
  that follow from it.  Where nothing leads out of the unseen places, the places
  visited from `x` are those that can be reached from `x`
  (`mem_walk_iff_reaches`).
-/

import Mathlib.Data.List.Nodup
import Mathlib.Logic.Relation
import Flowchart.Walk

namespace Flowchart

variable {α : Type} [DecidableEq α] {next : α → List α} {unseen stack : List α}

/-- There is a way from the first place to the second along what follows. -/
def Reaches (next : α → List α) : α → α → Prop :=
  Relation.ReflTransGen fun x y => y ∈ next x

/-! ## What is visited is unseen -/

theorem mem_unseen_of_mem_walk {y : α} (h : y ∈ walk next unseen stack) : y ∈ unseen := by
  fun_induction walk next unseen stack with
  | case1 unseen => simp at h
  | case2 unseen x rest hx ih =>
    rcases List.mem_cons.mp h with rfl | h
    · exact hx
    · exact List.mem_of_mem_erase (ih h)
  | case3 unseen x rest hx ih => exact ih h

theorem walk_nodup (hnodup : unseen.Nodup) : (walk next unseen stack).Nodup := by
  fun_induction walk next unseen stack with
  | case1 unseen => exact List.nodup_nil
  | case2 unseen x rest hx ih =>
    refine List.nodup_cons.mpr ⟨?_, ih (hnodup.erase x)⟩
    intro h
    exact hnodup.not_mem_erase (mem_unseen_of_mem_walk h)
  | case3 unseen x rest hx ih => exact ih hnodup

/-! ## What is on the stack or follows is visited -/

theorem mem_walk_of_mem_stack {y : α} (hy : y ∈ stack) (hunseen : y ∈ unseen) :
    y ∈ walk next unseen stack := by
  fun_induction walk next unseen stack with
  | case1 unseen => simp at hy
  | case2 unseen x rest hx ih =>
    by_cases hyx : y = x
    · exact hyx ▸ List.mem_cons_self
    · rcases List.mem_cons.mp hy with hy | hy
      · exact absurd hy hyx
      · refine List.mem_cons_of_mem _ (ih ?_ ?_)
        · exact List.mem_append_right _ hy
        · exact (List.mem_erase_of_ne hyx).mpr hunseen
  | case3 unseen x rest hx ih =>
    rcases List.mem_cons.mp hy with rfl | hy
    · exact absurd hunseen hx
    · exact ih hy hunseen

theorem mem_walk_of_follows {y z : α} (hy : y ∈ walk next unseen stack) (hz : z ∈ next y)
    (hunseen : z ∈ unseen) : z ∈ walk next unseen stack := by
  fun_induction walk next unseen stack with
  | case1 unseen => simp at hy
  | case2 unseen x rest hx ih =>
    by_cases hzx : z = x
    · exact hzx ▸ List.mem_cons_self
    · have hzu : z ∈ unseen.erase x := (List.mem_erase_of_ne hzx).mpr hunseen
      -- what follows from the top itself is on the stack of the walk that goes on
      rcases List.mem_cons.mp hy with rfl | hy
      · refine List.mem_cons_of_mem _ (mem_walk_of_mem_stack ?_ hzu)
        exact List.mem_append_left _ hz
      · exact List.mem_cons_of_mem _ (ih hy hzu)
  | case3 unseen x rest hx ih => exact ih hy hunseen

/-! ## What is visited can be reached -/

theorem reaches_of_mem_walk {y : α} (h : y ∈ walk next unseen stack) :
    ∃ x ∈ stack, Reaches next x y := by
  fun_induction walk next unseen stack with
  | case1 unseen => simp at h
  | case2 unseen x rest hx ih =>
    rcases List.mem_cons.mp h with rfl | h
    · exact ⟨y, List.mem_cons_self, .refl⟩
    · obtain ⟨s, hs, hsy⟩ := ih h
      rcases List.mem_append.mp hs with hs | hs
      · exact ⟨x, List.mem_cons_self, .head hs hsy⟩
      · exact ⟨s, List.mem_cons_of_mem _ hs, hsy⟩
  | case3 unseen x rest hx ih =>
    obtain ⟨s, hs, hsy⟩ := ih h
    exact ⟨s, List.mem_cons_of_mem _ hs, hsy⟩

/-- Where nothing leads out of the unseen places, a walk from one of them visits just
    what can be reached from it. -/
theorem mem_walk_iff_reaches {x y : α} (hclosed : ∀ a ∈ unseen, ∀ b ∈ next a, b ∈ unseen)
    (hx : x ∈ unseen) : y ∈ walk next unseen [x] ↔ Reaches next x y := by
  refine ⟨?_, ?_⟩
  · intro h
    obtain ⟨s, hs, hsy⟩ := reaches_of_mem_walk h
    rw [List.mem_singleton.mp hs] at hsy
    exact hsy
  · intro h
    induction h with
    | refl => exact mem_walk_of_mem_stack (List.mem_singleton_self x) hx
    | tail _ hstep ih =>
      exact mem_walk_of_follows ih hstep (hclosed _ (mem_unseen_of_mem_walk ih) _ hstep)

end Flowchart
