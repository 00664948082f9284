/-
  Flowchart.Walk

  The one walk that every question about paths is answered with.  A stack
  holds the places still to be looked at and `unseen` the places not yet
  visited; the top of the stack is visited if it is unseen, and what follows
  from it goes on top of the rest.  The result is the order of the visits.
-/

namespace Flowchart

variable {α : Type} [DecidableEq α]

/-- What a walk can still be asked to do: one visit for every unseen place, and
    one look at everything that follows from it. -/
def workLeft (next : α → List α) (unseen : List α) : Nat :=
  unseen.foldr (fun x left => (next x).length + 1 + left) 0

/-- Visiting a place takes it and what follows from it off the work left. -/
theorem workLeft_erase (next : α → List α) {unseen : List α} {x : α} (h : x ∈ unseen) :
    workLeft next (unseen.erase x) + ((next x).length + 1) = workLeft next unseen := by
  induction unseen with
  | nil => simp at h
  | cons y rest ih =>
      by_cases hy : y = x
      · subst hy
        rw [List.erase_cons_head, workLeft, workLeft, List.foldr_cons, Nat.add_comm]
      · have hx : x ∈ rest := by
          rcases List.mem_cons.mp h with h | h
          · exact absurd h.symm hy
          · exact h
        have step := ih hx
        simp only [workLeft, List.erase_cons, beq_iff_eq, hy, if_false,
          List.foldr_cons] at step ⊢
        omega

/-- The places visited, in order, from a stack whose top stands first.  Places
    that are not in `unseen` are passed over. -/
def walk (next : α → List α) (unseen stack : List α) : List α :=
  match stack with
  | [] => []
  | x :: rest =>
      if x ∈ unseen then
        x :: walk next (unseen.erase x) (next x ++ rest)
      else
        walk next unseen rest
termination_by workLeft next unseen + stack.length
decreasing_by
  · rename_i h
    have := workLeft_erase next h
    simp only [List.length_append, List.length_cons]
    omega
  · simp

end Flowchart
