/-
  Flowchart.Proofs.IterationGuard

  What the guard of the driver guards.  The lines of the driver are those of a small
  program (`driverLines_eq`), and the program has a meaning of its own: what each of
  its actions does to the memory, and how a `while`, an `if`, a `break` and a `return`
  lead from one to the next (`Exec`).

  The loop tests its guard behind the call, when the routine has run already and the
  next one is on the stack or not.  So a driver with a limit of `N` makes `N + 1` rounds
  unless the flow has ended before (`exec_loop`).  A flow of at most `N` routines is run
  to its end in silence.  A longer one is cut off behind its routine number `N + 1`, with
  an overflow reported: also the one that ends just there, for which the driver then
  answers that all has been run.
-/

import Flowchart.Script.Trampoline
import Mathlib.Logic.Function.Iterate

namespace Flowchart

theorem Routine.indent_indent (outer inner : Nat) (line : String) :
    indent outer (indent inner line) = indent (outer + inner) line := by
  rw [indent, indent, indent, ← String.append_assoc, ← String.join_append,
    List.replicate_append_replicate]

namespace Trampoline

/-! ## The driver as a program -/

/-- What the driver does without a choice. -/
inductive Action where
  | openEnv
  | openVars
  | setLimit (limit : UInt32)
  | clearCount
  | clearStack
  | keepExecute
  | hookExecute
  | push (name : String)
  | pop
  | call
  | count
  | complain
  | restoreExecute
deriving DecidableEq, Repr

/-- The lines of an action. -/
def Action.lines : Action → List String
  | openEnv => ["var env = env || \x7b\x7d;"]
  | openVars => ["env.vars = env.vars || \x7b\x7d;"]
  | setLimit limit => ["var max_iter = " ++ Nat.repr limit.toNat ++ ";"]
  | clearCount => ["var iter = 0;"]
  | clearStack => ["var function_stack = [];"]
  | keepExecute => ["var old_exec = env.execute;"]
  | hookExecute =>
      ["env.execute = function (next_fun) \x7b",
       Routine.indent 1 "function_stack.push(next_fun);",
       "\x7d;"]
  | push name => ["function_stack.push(" ++ name ++ ");"]
  | pop => ["var top_fun = function_stack.pop();"]
  | call => ["top_fun(env);"]
  | count => ["iter++;"]
  | complain =>
      [hostObject ++ ".errorMessage(\"Stack overflow error. Stack depth is \" + max_iter);"]
  | restoreExecute => ["env.execute = old_exec;"]

/-- The programs the driver is one of. -/
inductive Code where
  /-- Actions, one after the other. -/
  | steps (actions : List Action)
  | seq (first second : Code)
  /-- Again and again while something is on the stack. -/
  | loop (body : Code)
  /-- Where more rounds have been counted than the limit says. -/
  | guard (body : Code)
  /-- Out of the loop. -/
  | leave
  /-- Out of the program, with the answer whether the stack is empty. -/
  | answer
deriving DecidableEq, Repr

/-- The lines of a program. -/
def Code.lines : Code → List String
  | steps actions => actions.flatMap Action.lines
  | seq first second => first.lines ++ second.lines
  | loop body =>
      ["while (function_stack.length != 0) \x7b"] ++ body.lines.map (Routine.indent 1)
        ++ ["\x7d"]
  | guard body =>
      ["if (iter > max_iter) \x7b"] ++ body.lines.map (Routine.indent 1) ++ ["\x7d"]
  | leave => ["break;"]
  | answer => ["return function_stack.length == 0;"]

/-- One round of the loop. -/
def roundCode : Code :=
  .seq (.steps [.pop, .call, .count]) (.guard (.seq (.steps [.complain]) .leave))

/-- What comes before the loop. -/
def preparation (start : String) (limit : UInt32) : List Action :=
  [.openEnv, .openVars, .setLimit limit, .clearCount, .clearStack, .keepExecute, .hookExecute,
   .push start]

/-- The driver. -/
def driver (start : String) (limit : UInt32) : Code :=
  .seq (.steps (preparation start limit))
    (.seq (.loop roundCode) (.seq (.steps [.restoreExecute]) .answer))

/-- The text of the driver is that of the program. -/
theorem driverLines_eq (start : String) (limit : UInt32) :
    driverLines start limit = (driver start limit).lines := by
  simp only [driver, preparation, roundCode, Code.lines, Action.lines, List.flatMap_cons,
    List.flatMap_nil, List.map_cons, List.map_nil, List.cons_append, List.nil_append,
    List.append_nil, Routine.indent_indent]
  rfl

/-- The lines after the routines are the driver's and the end of the function around them. -/
theorem closingLines_eq (start : String) (limit : UInt32) :
    closingLines start limit
      = (driver start limit).lines.map (Routine.indent 1) ++ ["\x7d"] := by
  rw [closingLines, driverLines_eq]

/-! ## Running a program -/

/-- What the driver is given: the objects it falls back on where its caller has none, and the
    routines.  A state of `σ` is all that routines can see and change. -/
structure Table (σ : Type) where
  withEnv : σ → σ
  withVars : σ → σ
  /-- What a routine makes of the state, and the routine it hands over to, if any. -/
  call : String → σ → σ × Option String

/-- What the driver holds. -/
structure Memory (σ : Type) where
  env : σ
  limit : Nat
  count : Nat
  /-- The names of the routines to run, the top first. -/
  stack : List String
  /-- The routine taken off the stack last. -/
  top : Option String
  /-- Whether a routine that hands over puts a name on the stack. -/
  hooked : Bool
  /-- What `hooked` was before. -/
  kept : Bool
  /-- The routines that have been run, oldest first. -/
  ran : List String
  /-- What the host has been told, oldest first. -/
  reports : List String

/-- The memory before the driver starts.  Nothing has been run and nothing reported; all else
    may hold anything. -/
def Memory.entered {σ : Type} (m : Memory σ) : Memory σ :=
  { m with ran := [], reports := [] }

/-- What the host is told when the guard stops the driver. -/
def overflow (limit : Nat) : String :=
  "Stack overflow error. Stack depth is " ++ Nat.repr limit

variable {σ : Type}

/-- What an action makes of the memory.  There is no routine to call before one has been taken
    off the stack, and none can hand over before the hook is in place. -/
def Action.effect (t : Table σ) (m : Memory σ) : Action → Option (Memory σ)
  | openEnv => some { m with env := t.withEnv m.env }
  | openVars => some { m with env := t.withVars m.env }
  | setLimit limit => some { m with limit := limit.toNat }
  | clearCount => some { m with count := 0 }
  | clearStack => some { m with stack := [] }
  | keepExecute => some { m with kept := m.hooked }
  | hookExecute => some { m with hooked := true }
  | push name => some { m with stack := name :: m.stack }
  | pop => some { m with stack := m.stack.tail, top := m.stack.head? }
  | call =>
      m.top.bind fun name =>
        if m.hooked ∨ (t.call name m.env).2 = none then
          some { m with
            env := (t.call name m.env).1
            stack := (t.call name m.env).2.toList ++ m.stack
            ran := m.ran ++ [name] }
        else none
  | count => some { m with count := m.count + 1 }
  | complain => some { m with reports := m.reports ++ [overflow m.limit] }
  | restoreExecute => some { m with hooked := m.kept }

/-- How a piece of program is left. -/
inductive Signal where
  | next
  | left
  | answered (result : Bool)
deriving DecidableEq, Repr

/-- A piece of program leads from one memory to another and is left so. -/
inductive Exec (t : Table σ) : Code → Memory σ → Memory σ → Signal → Prop where
  | steps {actions : List Action} {m m' : Memory σ}
      (heffect : actions.foldlM (Action.effect t) m = some m') :
      Exec t (.steps actions) m m' .next
  | seqNext {c d : Code} {m m₁ m' : Memory σ} {s : Signal} (hfirst : Exec t c m m₁ .next)
      (hsecond : Exec t d m₁ m' s) : Exec t (.seq c d) m m' s
  | seqLeft {c d : Code} {m m' : Memory σ} {s : Signal} (hfirst : Exec t c m m' s)
      (hs : s ≠ .next) : Exec t (.seq c d) m m' s
  | loopDone {c : Code} {m : Memory σ} (hstack : m.stack = []) : Exec t (.loop c) m m .next
  | loopNext {c : Code} {m m₁ m' : Memory σ} {s : Signal} (hstack : m.stack ≠ [])
      (hbody : Exec t c m m₁ .next) (hrest : Exec t (.loop c) m₁ m' s) :
      Exec t (.loop c) m m' s
  | loopLeft {c : Code} {m m' : Memory σ} (hstack : m.stack ≠ [])
      (hbody : Exec t c m m' .left) : Exec t (.loop c) m m' .next
  | loopAnswered {c : Code} {m m' : Memory σ} {result : Bool} (hstack : m.stack ≠ [])
      (hbody : Exec t c m m' (.answered result)) : Exec t (.loop c) m m' (.answered result)
  | guardHit {c : Code} {m m' : Memory σ} {s : Signal} (hover : m.limit < m.count)
      (hbody : Exec t c m m' s) : Exec t (.guard c) m m' s
  | guardPassed {c : Code} {m : Memory σ} (hwithin : ¬ m.limit < m.count) :
      Exec t (.guard c) m m .next
  | leave {m : Memory σ} : Exec t .leave m m .left
  | answer {m : Memory σ} : Exec t .answer m m (.answered m.stack.isEmpty)

/-- A program has one end from a memory. -/
theorem Exec.unique {t : Table σ} {c : Code} {m m₁ m₂ : Memory σ} {s₁ s₂ : Signal}
    (h₁ : Exec t c m m₁ s₁) (h₂ : Exec t c m m₂ s₂) : m₂ = m₁ ∧ s₂ = s₁ := by
  induction h₁ generalizing m₂ s₂ with
  | steps heffect =>
    cases h₂ with
    | steps heffect₂ =>
      rw [heffect, Option.some.injEq] at heffect₂
      exact ⟨heffect₂.symm, rfl⟩
  | seqNext hfirst hsecond ihfirst ihsecond =>
    cases h₂ with
    | seqNext hfirst₂ hsecond₂ =>
      obtain ⟨rfl, -⟩ := ihfirst hfirst₂
      exact ihsecond hsecond₂
    | seqLeft hfirst₂ hs => exact absurd (ihfirst hfirst₂).2 hs
  | seqLeft hfirst hs ih =>
    cases h₂ with
    | seqNext hfirst₂ hsecond₂ => exact absurd (ih hfirst₂).2.symm hs
    | seqLeft hfirst₂ hs₂ => exact ih hfirst₂
  | loopDone hstack =>
    cases h₂ with
    | loopDone => exact ⟨rfl, rfl⟩
    | loopNext hstack₂ => exact absurd hstack hstack₂
    | loopLeft hstack₂ => exact absurd hstack hstack₂
    | loopAnswered hstack₂ => exact absurd hstack hstack₂
  | loopNext hstack hbody hrest ihbody ihrest =>
    cases h₂ with
    | loopDone hstack₂ => exact absurd hstack₂ hstack
    | loopNext _ hbody₂ hrest₂ =>
      obtain ⟨rfl, -⟩ := ihbody hbody₂
      exact ihrest hrest₂
    | loopLeft _ hbody₂ => cases (ihbody hbody₂).2
    | loopAnswered _ hbody₂ => cases (ihbody hbody₂).2
  | loopLeft hstack hbody ih =>
    cases h₂ with
    | loopDone hstack₂ => exact absurd hstack₂ hstack
    | loopNext _ hbody₂ => cases (ih hbody₂).2
    | loopLeft _ hbody₂ => exact ⟨(ih hbody₂).1, rfl⟩
    | loopAnswered _ hbody₂ => cases (ih hbody₂).2
  | loopAnswered hstack hbody ih =>
    cases h₂ with
    | loopDone hstack₂ => exact absurd hstack₂ hstack
    | loopNext _ hbody₂ => cases (ih hbody₂).2
    | loopLeft _ hbody₂ => cases (ih hbody₂).2
    | loopAnswered _ hbody₂ => exact ih hbody₂
  | guardHit hover hbody ih =>
    cases h₂ with
    | guardHit _ hbody₂ => exact ih hbody₂
    | guardPassed hwithin => exact absurd hover hwithin
  | guardPassed hwithin =>
    cases h₂ with
    | guardHit hover => exact absurd hover hwithin
    | guardPassed => exact ⟨rfl, rfl⟩
  | leave =>
    cases h₂
    exact ⟨rfl, rfl⟩
  | answer =>
    cases h₂
    exact ⟨rfl, rfl⟩

/-! ## The flow without a guard -/

/-- Where the flow stands: the routine to run next, if there is one. -/
structure Place (σ : Type) where
  next : Option String
  env : σ

namespace Table

variable {t : Table σ} {p : Place σ} {k n : Nat}

/-- Where a script starts. -/
def entry (t : Table σ) (start : String) (env : σ) : Place σ :=
  ⟨some start, t.withVars (t.withEnv env)⟩

/-- One routine further; a flow that has ended stays where it is. -/
def step (t : Table σ) (p : Place σ) : Place σ :=
  match p.next with
  | none => p
  | some name => ⟨(t.call name p.env).2, (t.call name p.env).1⟩

/-- The routines that are run next, this many at most. -/
def passed (t : Table σ) : Nat → Place σ → List String
  | 0, _ => []
  | k + 1, p => p.next.toList ++ t.passed k (t.step p)

/-- The flow has ended after this many routines at most. -/
def Drains (t : Table σ) (k : Nat) (p : Place σ) : Prop :=
  (t.step^[k] p).next = none

instance (t : Table σ) (k : Nat) (p : Place σ) : Decidable (t.Drains k p) :=
  inferInstanceAs (Decidable ((t.step^[k] p).next = none))

theorem step_idle (hp : p.next = none) : t.step p = p := by
  rw [step, hp]

theorem step_next {name : String} (hp : p.next = some name) :
    t.step p = ⟨(t.call name p.env).2, (t.call name p.env).1⟩ := by
  rw [step, hp]

theorem passed_next {name : String} (hp : p.next = some name) (k : Nat) :
    t.passed (k + 1) p = name :: t.passed k (t.step p) := by
  rw [passed, hp, Option.toList_some, List.singleton_append]

theorem drains_succ : t.Drains (k + 1) p ↔ t.Drains k (t.step p) :=
  Iff.rfl

theorem drains_idle (hp : p.next = none) (k : Nat) : t.Drains k p := by
  rw [Drains, Function.iterate_fixed (step_idle hp), hp]

theorem passed_idle (hp : p.next = none) (k : Nat) : t.passed k p = [] := by
  induction k with
  | zero => rfl
  | succ k ih => rw [passed, step_idle hp, hp, ih]; rfl

/-- No more than the whole flow is passed. -/
theorem Drains.passed_eq (h : t.Drains k p) (hkn : k ≤ n) : t.passed n p = t.passed k p := by
  induction k generalizing n p with
  | zero => exact passed_idle h n
  | succ k ih =>
    obtain ⟨n, rfl⟩ : ∃ i, n = i + 1 := ⟨n - 1, by omega⟩
    rw [passed, passed, ih (drains_succ.mp h) (Nat.le_of_succ_le_succ hkn)]

theorem Drains.succ (h : t.Drains k p) : t.Drains (k + 1) p := by
  rw [Drains, Function.iterate_succ_apply', step_idle h]
  exact h

theorem length_passed_le (k : Nat) (p : Place σ) : (t.passed k p).length ≤ k := by
  induction k generalizing p with
  | zero => exact Nat.le_refl 0
  | succ k ih =>
    have hone : p.next.toList.length ≤ 1 := by
      cases p.next with
      | none => exact Nat.zero_le 1
      | some name => exact Nat.le_refl 1
    have hrest := ih (t.step p)
    rw [passed, List.length_append]
    omega

/-- A flow that has not ended has one routine more. -/
theorem length_passed (h : ¬ t.Drains k p) : (t.passed (k + 1) p).length = k + 1 := by
  induction k generalizing p with
  | zero =>
    obtain ⟨name, hp⟩ : ∃ name, p.next = some name := Option.ne_none_iff_exists'.mp h
    rw [passed_next hp]
    rfl
  | succ k ih =>
    have hgoes : p.next ≠ none := fun hidle => h (drains_idle hidle _)
    obtain ⟨name, hp⟩ := Option.ne_none_iff_exists'.mp hgoes
    rw [passed_next hp, List.length_cons, ih fun hd => h (drains_succ.mpr hd)]

end Table

/-! ## The loop -/

variable {t : Table σ} {m m' : Memory σ} {p : Place σ} {name : String}

/-- The driver stands at a place of the flow: it has one name on its stack at most. -/
structure Memory.At (m : Memory σ) (p : Place σ) : Prop where
  stack : m.stack = p.next.toList
  env : m.env = p.env
  hooked : m.hooked = true

/-- The memory when a round has called its routine and counted it. -/
def Memory.called (t : Table σ) (m : Memory σ) (name : String) : Memory σ :=
  { m with
    env := (t.call name m.env).1
    count := m.count + 1
    stack := (t.call name m.env).2.toList
    top := some name
    ran := m.ran ++ [name] }

/-- A round takes the driver one routine further. -/
theorem Memory.At.called (h : m.At p) (hp : p.next = some name) :
    (m.called t name).At (t.step p) := by
  rw [Table.step_next hp, ← h.env]
  exact ⟨rfl, rfl, h.hooked⟩

theorem exec_call (h : m.At p) (hp : p.next = some name) :
    Exec t (.steps [.pop, .call, .count]) m (m.called t name) .next := by
  have hstack : m.stack = [name] := by rw [h.stack, hp, Option.toList_some]
  apply Exec.steps
  simp [Action.effect, Memory.called, hstack, h.hooked]

/-- A round within the limit ends where the next one begins. -/
theorem exec_round_within (h : m.At p) (hp : p.next = some name) (hcount : m.count < m.limit) :
    Exec t roundCode m (m.called t name) .next := by
  have hwithin : ¬ m.limit < m.count + 1 := by omega
  exact .seqNext (exec_call h hp) (.guardPassed hwithin)

/-- The round after the last one within the limit runs its routine too, and then leaves. -/
theorem exec_round_beyond (h : m.At p) (hp : p.next = some name) (hcount : m.count = m.limit) :
    Exec t roundCode m
      { m.called t name with reports := m.reports ++ [overflow m.limit] } .left := by
  have hover : m.limit < m.count + 1 := by omega
  refine .seqNext (exec_call h hp) (.guardHit hover ?_)
  exact .seqNext (.steps rfl) .leave

/-- What the loop has done from a place when it is over, with `d` rounds left to the limit. -/
structure Stopped (t : Table σ) (p : Place σ) (d : Nat) (m m' : Memory σ) : Prop where
  /-- One round more than were left. -/
  ran : m'.ran = m.ran ++ t.passed (d + 1) p
  stack : m'.stack = (t.step^[d + 1] p).next.toList
  reports : m'.reports = m.reports ++ if t.Drains d p then [] else [overflow m.limit]
  kept : m'.kept = m.kept

/-- With nothing to run the loop does nothing. -/
theorem stopped_idle (h : m.At p) (hp : p.next = none) (d : Nat) : Stopped t p d m m where
  ran := by rw [Table.passed_idle hp, List.append_nil]
  stack := by rw [Function.iterate_fixed (Table.step_idle hp), h.stack]
  reports := by rw [if_pos (Table.drains_idle hp d), List.append_nil]
  kept := rfl

/-- The loop is over after as many rounds as are left to the limit, and one. -/
theorem exec_loop {d : Nat} (h : m.At p) (hleft : m.count + d = m.limit) :
    ∃ m', Exec t (.loop roundCode) m m' .next ∧ Stopped t p d m m' := by
  -- the rounds that are left carry the induction, for every place the flow may have come to
  induction d generalizing m p with
  | zero =>
    cases hp : p.next with
    | none =>
      have hstack : m.stack = [] := by rw [h.stack, hp, Option.toList_none]
      exact ⟨m, .loopDone hstack, stopped_idle h hp 0⟩
    | some name =>
      have hstack : m.stack ≠ [] := by simp [h.stack, hp]
      have hgoes : ¬ t.Drains 0 p := by simp [Table.Drains, hp]
      refine ⟨_, .loopLeft hstack (exec_round_beyond h hp hleft), ?_, ?_, ?_, rfl⟩
      · rw [Table.passed_next hp]
        rfl
      · exact (h.called hp).stack
      · rw [if_neg hgoes]
  | succ d ih =>
    cases hp : p.next with
    | none =>
      have hstack : m.stack = [] := by rw [h.stack, hp, Option.toList_none]
      exact ⟨m, .loopDone hstack, stopped_idle h hp (d + 1)⟩
    | some name =>
      have hstack : m.stack ≠ [] := by simp [h.stack, hp]
      have hwithin : m.count < m.limit := by omega
      have hleft' : (m.called t name).count + d = (m.called t name).limit := by
        rw [show (m.called t name).count = m.count + 1 from rfl,
          show (m.called t name).limit = m.limit from rfl]
        omega
      obtain ⟨m', hexec, hstopped⟩ := ih (h.called hp) hleft'
      refine ⟨m', .loopNext hstack (exec_round_within h hp hwithin) hexec, ?_, ?_, ?_, ?_⟩
      · rw [hstopped.ran, Table.passed_next hp, List.append_cons]
        rfl
      · exact hstopped.stack
      · exact hstopped.reports
      · exact hstopped.kept

/-! ## What the guard does -/

/-- The memory when the loop begins. -/
def Memory.begun (t : Table σ) (start : String) (limit : UInt32) (m : Memory σ) : Memory σ :=
  { m with
    env := t.withVars (t.withEnv m.env)
    limit := limit.toNat
    count := 0
    stack := [start]
    hooked := true
    kept := m.hooked }

theorem exec_preparation (t : Table σ) (start : String) (limit : UInt32) (m : Memory σ) :
    Exec t (.steps (preparation start limit)) m (m.begun t start limit) .next :=
  .steps rfl

theorem Memory.begun_at (t : Table σ) (start : String) (limit : UInt32) (m : Memory σ) :
    (m.begun t start limit).At (t.entry start m.env) :=
  ⟨rfl, rfl, rfl⟩

/-- What the driver has done when it is over, where the flow starts at `p`. -/
structure Finished (t : Table σ) (p : Place σ) (limit : Nat) (final : Memory σ)
    (result : Bool) : Prop where
  ran : final.ran = t.passed (limit + 1) p
  reports : final.reports = if t.Drains limit p then [] else [overflow limit]
  result_iff : result = true ↔ t.Drains (limit + 1) p

/-- The driver comes to its end, and the caller finds its own `execute` again. -/
theorem exec_driver (t : Table σ) (start : String) (limit : UInt32) (m : Memory σ) :
    ∃ final result, Exec t (driver start limit) m.entered final (.answered result) ∧
      Finished t (t.entry start m.env) limit.toNat final result ∧ final.hooked = m.hooked := by
  have hat := m.entered.begun_at t start limit
  obtain ⟨m', hloop, hstopped⟩ := exec_loop hat (Nat.zero_add limit.toNat)
  have hrestore : Exec t (.steps [.restoreExecute]) m' { m' with hooked := m'.kept } .next :=
    .steps rfl
  refine ⟨_, m'.stack.isEmpty, .seqNext (exec_preparation t start limit _)
    (.seqNext hloop (.seqNext hrestore .answer)), ⟨?_, ?_, ?_⟩, ?_⟩
  · exact hstopped.ran
  · exact hstopped.reports
  · rw [hstopped.stack, List.isEmpty_iff, Option.toList_eq_nil_iff]
    exact Iff.rfl
  · exact hstopped.kept

/-- What comes of running the driver with a limit, where the flow starts at `p`. -/
structure Guarded (t : Table σ) (p : Place σ) (limit : Nat) (final : Memory σ)
    (result : Bool) : Prop where
  /-- A flow that ends within the limit is run to its end, and nothing is reported. -/
  within : t.Drains limit p →
    (∀ k, limit ≤ k → final.ran = t.passed k p) ∧ final.reports = [] ∧ result = true
  /-- Any other is run for one routine more than the limit, and the overflow is reported. -/
  beyond : ¬ t.Drains limit p →
    final.ran = t.passed (limit + 1) p ∧ final.ran.length = limit + 1 ∧
      final.reports = [overflow limit] ∧ (result = true ↔ t.Drains (limit + 1) p)
  /-- No more routines than the limit says are run exactly where the flow ends within it. -/
  length_ran_le_iff : final.ran.length ≤ limit ↔ t.Drains limit p
  /-- The answer is yes exactly where nothing is reported, unless the flow is one routine
      longer than the limit. -/
  result_iff : (result = true ↔ final.reports = []) ↔
    (t.Drains (limit + 1) p → t.Drains limit p)

namespace Finished

variable {limit : Nat} {final : Memory σ} {result : Bool}

theorem within (h : Finished t p limit final result) (hd : t.Drains limit p) :
    (∀ k, limit ≤ k → final.ran = t.passed k p) ∧ final.reports = [] ∧ result = true := by
  refine ⟨fun k hk => ?_, ?_, h.result_iff.mpr hd.succ⟩
  · rw [h.ran, hd.passed_eq (Nat.le_succ limit), hd.passed_eq hk]
  · rw [h.reports, if_pos hd]

theorem beyond (h : Finished t p limit final result) (hd : ¬ t.Drains limit p) :
    final.ran = t.passed (limit + 1) p ∧ final.ran.length = limit + 1 ∧
      final.reports = [overflow limit] ∧ (result = true ↔ t.Drains (limit + 1) p) := by
  refine ⟨h.ran, ?_, ?_, h.result_iff⟩
  · rw [h.ran, Table.length_passed hd]
  · rw [h.reports, if_neg hd]

theorem guarded (h : Finished t p limit final result) : Guarded t p limit final result := by
  refine ⟨h.within, h.beyond, ?_, ?_⟩
  · by_cases hd : t.Drains limit p
    · have hlength := Table.length_passed_le (t := t) limit p
      rw [(h.within hd).1 limit (Nat.le_refl limit)]
      exact iff_of_true hlength hd
    · rw [(h.beyond hd).2.1]
      exact iff_of_false (by omega) hd
  · by_cases hd : t.Drains limit p
    · obtain ⟨-, hreports, hresult⟩ := h.within hd
      exact iff_of_true (iff_of_true hresult hreports) fun _ => hd
    · have hreported : final.reports ≠ [] := by
        rw [(h.beyond hd).2.2.1]
        exact List.cons_ne_nil _ _
      rw [h.result_iff]
      simp only [hreported, hd, iff_false, imp_false]

end Finished

/-- The lines after the routines are those of a program that has one end, whatever the routines
    do: it is over, with an answer, and its guard has done what `Guarded` says. -/
theorem driver_guarded (t : Table σ) (start : String) (limit : UInt32) (m : Memory σ) :
    closingLines start limit
        = (driver start limit).lines.map (Routine.indent 1) ++ ["\x7d"] ∧
      ∃ final result,
        (∀ m' s, Exec t (driver start limit) m.entered m' s ↔
          m' = final ∧ s = .answered result) ∧
        Guarded t (t.entry start m.env) limit.toNat final result ∧
        final.hooked = m.hooked := by
  obtain ⟨final, result, hexec, hfinished, hhooked⟩ := exec_driver t start limit m
  refine ⟨closingLines_eq start limit, final, result, fun m' s => ⟨hexec.unique, ?_⟩,
    hfinished.guarded, hhooked⟩
  rintro ⟨rfl, rfl⟩
  exact hexec

/-- A flow of two routines. -/
def twoRoutines : Table Unit where
  withEnv := id
  withVars := id
  call name _ := ((), if name = "entryFunction" then some "function1" else none)

/-- A memory that holds nothing yet. -/
def Memory.blank : Memory Unit where
  env := ()
  limit := 0
  count := 0
  stack := []
  top := none
  hooked := false
  kept := false
  ran := []
  reports := []

/-- With a limit of one the driver runs both of two routines, reports that the limit has been
    exceeded, and yet answers that all has been run. -/
theorem twoRoutines_overrun :
    ∃ final, Exec twoRoutines (driver "entryFunction" 1) Memory.blank.entered final
        (.answered true) ∧
      final.ran = ["entryFunction", "function1"] ∧
        final.reports = ["Stack overflow error. Stack depth is 1"] := by
  obtain ⟨final, result, hexec, hfinished, -⟩ :=
    exec_driver twoRoutines "entryFunction" 1 Memory.blank
  have hresult : result = true := hfinished.result_iff.mpr rfl
  refine ⟨final, hresult ▸ hexec, hfinished.ran, ?_⟩
  rw [hfinished.reports]
  rfl

end Trampoline
end Flowchart
