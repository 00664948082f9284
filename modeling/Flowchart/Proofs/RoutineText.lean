/-
  Flowchart.Proofs.RoutineText

  The text of a script, word by word.  A routine is declared as a function under its
  name.  The function runs the body in a function of its own and then hands over:
  to no routine, to one, or to one of two by the value of the body
  (`Routine.declaration`).  The routines stand in the function that a script
  defines, before the driver (`Trampoline.preamble`, `Trampoline.epilogue`).

  All of this is written out here, apart from the lines that a script is put
  together from.  `Graph.unlines_scriptLines_eq` says that the lines make up this text,
  so later proofs can read it without them.
-/

import Flowchart.Proofs.RenderedBody
import Flowchart.Script.Compile

namespace Flowchart

/-! ## Texts made of lines -/

namespace Text

theorem unlines_cons (line : String) (lines : List String) :
    unlines (line :: lines) = line ++ "\n" ++ unlines lines := by
  rw [unlines, List.map_cons, String.join_cons]
  rfl

theorem unlines_nil : unlines [] = "" := rfl

theorem unlines_append (first second : List String) :
    unlines (first ++ second) = unlines first ++ unlines second := by
  rw [unlines, List.map_append, String.join_append]
  rfl

/-- Each part of a text put together from parts is found in it. -/
theorem join_of_mem {parts : List String} {part : String} (h : part ∈ parts) :
    ∃ before rest, String.join parts = before ++ part ++ rest := by
  obtain ⟨earlier, later, rfl⟩ := List.append_of_mem h
  refine ⟨String.join earlier, String.join later, ?_⟩
  rw [String.join_append, String.join_cons, String.append_assoc]

end Text

namespace Routine

/-! ## Routines -/

/-- The lines of a body in a routine.  Where nothing shows on a line it is left empty; any other
    line stands twelve spaces in. -/
def placed (body : String) : String :=
  String.join ((Text.cut body).map fun line =>
    if Text.ShowsNothing line then "\n" else "            " ++ line ++ "\n")

/-- The routine as a script declares it.  Only a routine that goes two ways has a use for the
    value of its body, and by it goes the first way or the second. -/
def declaration (r : Routine) : String :=
  match r.way with
  | .stop =>
      "    function " ++ r.name ++ "(env) \x7b\n"
        ++ "        (function () \x7b\n"
        ++ placed r.body
        ++ "        \x7d)();\n"
        ++ "    \x7d\n"
  | .next name =>
      "    function " ++ r.name ++ "(env) \x7b\n"
        ++ "        (function () \x7b\n"
        ++ placed r.body
        ++ "        \x7d)();\n"
        ++ "        env.execute(" ++ name ++ ");\n"
        ++ "    \x7d\n"
  | .fork yes no =>
      "    function " ++ r.name ++ "(env) \x7b\n"
        ++ "        var outcome = (function () \x7b\n"
        ++ placed r.body
        ++ "        \x7d)();\n"
        ++ "        if (outcome) \x7b\n"
        ++ "            env.execute(" ++ yes ++ ");\n"
        ++ "        \x7d else \x7b\n"
        ++ "            env.execute(" ++ no ++ ");\n"
        ++ "        \x7d\n"
        ++ "    \x7d\n"

/-- The text of the lines of a routine. -/
def text (r : Routine) : String :=
  Text.unlines r.lines

theorem unlines_flatMap (units : List Routine) :
    Text.unlines (units.flatMap Routine.lines) = String.join (units.map Routine.text) := by
  induction units with
  | nil => rfl
  | cons r rest ih =>
    rw [List.flatMap_cons, Text.unlines_append, ih, List.map_cons, String.join_cons]
    rfl

theorem unlines_map_bodyLine (body : String) :
    Text.unlines ((Text.lines body).map bodyLine) = placed body := by
  rw [Text.unlines, placed, Text.lines_eq_cut, List.map_map]
  refine congrArg String.join (List.map_congr_left fun line _ => ?_)
  rw [Function.comp_apply, bodyLine_eq]
  split
  · rfl
  · rfl

theorem header_line (name : String) :
    indent 1 ("function " ++ name ++ "(env) \x7b") ++ "\n"
      = "    function " ++ name ++ "(env) \x7b\n" := by
  apply String.toList_inj.mp
  simp [indent]

theorem handOver_two (name : String) :
    handOver 2 name ++ "\n" = "        env.execute(" ++ name ++ ");\n" := by
  apply String.toList_inj.mp
  simp [handOver, indent]

theorem handOver_three (name : String) :
    handOver 3 name ++ "\n" = "            env.execute(" ++ name ++ ");\n" := by
  apply String.toList_inj.mp
  simp [handOver, indent]

/-- What the ways of routines have in common: the header, the body and the lines around it. -/
theorem text_eq (r : Routine) :
    r.text
      = "    function " ++ r.name ++ "(env) \x7b\n"
        ++ (indent 2 (binding r.way ++ "(function () \x7b") ++ "\n")
        ++ placed r.body
        ++ "        \x7d)();\n"
        ++ Text.unlines (wayLines r.way)
        ++ "    \x7d\n" := by
  have hclose : indent 2 "\x7d)();" ++ "\n" = "        \x7d)();\n" := rfl
  have hend : indent 1 "\x7d" ++ "\n" = "    \x7d\n" := rfl
  rw [text, lines, bodyLines]
  simp only [Text.unlines_append, Text.unlines_cons, Text.unlines_nil, String.append_empty,
    unlines_map_bodyLine, header_line, hclose, hend]
  simp only [String.append_assoc]

/-- The lines of a routine are those of its declaration. -/
theorem text_eq_declaration (r : Routine) : r.text = r.declaration := by
  obtain ⟨name, body, way⟩ := r
  have hopen : indent 2 ("" ++ "(function () \x7b") ++ "\n" = "        (function () \x7b\n" := rfl
  rw [text_eq]
  cases way with
  | stop =>
    simp only [binding, wayLines, declaration, Text.unlines_nil, String.append_empty, hopen]
  | next next =>
    simp only [binding, wayLines, declaration, Text.unlines_cons, Text.unlines_nil,
      String.append_empty, handOver_two, hopen, String.append_assoc]
  | fork yes no =>
    have hif : indent 2 "if (outcome) \x7b" ++ "\n" = "        if (outcome) \x7b\n" := rfl
    have helse : indent 2 "\x7d else \x7b" ++ "\n" = "        \x7d else \x7b\n" := rfl
    have hend : indent 2 "\x7d" ++ "\n" = "        \x7d\n" := rfl
    have hbind : indent 2 ("var outcome = " ++ "(function () \x7b") ++ "\n"
        = "        var outcome = (function () \x7b\n" := rfl
    simp only [binding, wayLines, declaration, Text.unlines_cons, Text.unlines_nil,
      String.append_empty, handOver_three, hif, helse, hend, hbind, String.append_assoc]

/-- A declaration starts with the name that it declares. -/
theorem declaration_header (r : Routine) :
    ∃ rest, r.declaration = "    function " ++ r.name ++ "(env) \x7b\n" ++ rest := by
  refine ⟨(indent 2 (binding r.way ++ "(function () \x7b") ++ "\n") ++ placed r.body
    ++ "        \x7d)();\n" ++ Text.unlines (wayLines r.way) ++ "    \x7d\n", ?_⟩
  rw [← text_eq_declaration, text_eq]
  simp only [String.append_assoc]

/-- The routine hands over to the routine of this name: it is the one, or one of the two, that
    its declaration has in an `env.execute(...)`. -/
inductive HandsOver : Routine → String → Prop where
  | next {name body next : String} : HandsOver ⟨name, body, .next next⟩ next
  | yes {name body yes no : String} : HandsOver ⟨name, body, .fork yes no⟩ yes
  | no {name body yes no : String} : HandsOver ⟨name, body, .fork yes no⟩ no

/-- A routine hands over along its way. -/
theorem handsOver_iff {r : Routine} {name : String} : r.HandsOver name ↔ name ∈ r.way.toList := by
  obtain ⟨own, body, way⟩ := r
  constructor
  · rintro (_ | _ | _)
    · exact List.mem_singleton_self _
    · exact List.mem_cons_self
    · exact List.mem_cons_of_mem _ List.mem_cons_self
  · intro h
    cases way with
    | stop => cases h
    | next next =>
      rw [List.mem_singleton.mp h]
      exact .next
    | fork yes no =>
      rcases List.mem_cons.mp h with rfl | h
      · exact .yes
      · rw [List.mem_singleton.mp h]
        exact .no

end Routine

/-! ## Around the routines -/

namespace Trampoline

/-- The head of the function that a script defines. -/
def preamble : String :=
  "function runScript (env) \x7b\n"

/-- The driver, which starts with the routine of one name, and the end of the function. -/
def epilogue (start : String) (maxIterations : UInt32) : String :=
  String.join
    ["    var env = env || \x7b\x7d;\n",
     "    env.vars = env.vars || \x7b\x7d;\n",
     "    var max_iter = " ++ Nat.repr maxIterations.toNat ++ ";\n",
     "    var iter = 0;\n",
     "    var function_stack = [];\n",
     "    var old_exec = env.execute;\n",
     "    env.execute = function (next_fun) \x7b\n",
     "        function_stack.push(next_fun);\n",
     "    \x7d;\n",
     "    function_stack.push(" ++ start ++ ");\n",
     "    while (function_stack.length != 0) \x7b\n",
     "        var top_fun = function_stack.pop();\n",
     "        top_fun(env);\n",
     "        iter++;\n",
     "        if (iter > max_iter) \x7b\n",
     "            floApi.errorMessage(\"Stack overflow error. Stack depth is \" + max_iter);\n",
     "            break;\n",
     "        \x7d\n",
     "    \x7d\n",
     "    env.execute = old_exec;\n",
     "    return function_stack.length == 0;\n",
     "\x7d\n"]

theorem unlines_openingLines : Text.unlines openingLines = preamble := rfl

theorem unlines_closingLines (start : String) (maxIterations : UInt32) :
    Text.unlines (closingLines start maxIterations) = epilogue start maxIterations := by
  have hlimit : Routine.indent 1 ("var max_iter = " ++ Nat.repr maxIterations.toNat ++ ";") ++ "\n"
      = "    var max_iter = " ++ Nat.repr maxIterations.toNat ++ ";\n" := by
    apply String.toList_inj.mp
    simp [Routine.indent]
  have hpush : Routine.indent 1 ("function_stack.push(" ++ start ++ ");") ++ "\n"
      = "    function_stack.push(" ++ start ++ ");\n" := by
    apply String.toList_inj.mp
    simp [Routine.indent]
  rw [Text.unlines, closingLines, driverLines, epilogue]
  simp only [List.map_append, List.map_cons, List.map_nil, hlimit, hpush]
  rfl

/-- The driver puts the name it starts with on its stack. -/
theorem epilogue_pushes (start : String) (maxIterations : UInt32) :
    ∃ before rest, epilogue start maxIterations
      = before ++ ("    function_stack.push(" ++ start ++ ");\n") ++ rest :=
  Text.join_of_mem (by simp)

end Trampoline

/-- The text of a script is that of its routines between the lines around them. -/
theorem Graph.unlines_scriptLines (g : Graph) (options : CompileOptions) (start : ElementId) :
    Text.unlines (g.scriptLines options start)
      = Text.unlines Trampoline.openingLines
        ++ String.join ((g.routines options start).map Routine.text)
        ++ Text.unlines (Trampoline.closingLines options.entrySymbol options.maxIterations) := by
  rw [scriptLines, Text.unlines_append, Text.unlines_append, Routine.unlines_flatMap]

/-- Written out, the text of a script is that of the declarations of its routines between the
    head of the function around them and the driver. -/
theorem Graph.unlines_scriptLines_eq (g : Graph) (options : CompileOptions) (start : ElementId) :
    Text.unlines (g.scriptLines options start)
      = Trampoline.preamble
        ++ String.join ((g.routines options start).map Routine.declaration)
        ++ Trampoline.epilogue options.entrySymbol options.maxIterations := by
  have htext : Routine.text = Routine.declaration := funext Routine.text_eq_declaration
  rw [unlines_scriptLines, htext, Trampoline.unlines_openingLines,
    Trampoline.unlines_closingLines]

end Flowchart
