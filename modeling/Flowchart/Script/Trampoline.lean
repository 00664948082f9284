/-
  Flowchart.Script.Trampoline

  The text around the routines: the function that holds them, and the driver
  that runs one routine after the other from a stack, so that a long flow does
  not nest calls.  A guard stops the driver after a number of rounds.
-/

import Flowchart.Script.Routine

namespace Flowchart.Trampoline

/-- The name of the function that the generated script defines. -/
def runnerSymbol : String := "runScript"

/-- The object through which the driver reports that the guard has stopped it. -/
def hostObject : String := "floApi"

/-- The line before the routines. -/
def openingLines : List String :=
  ["function " ++ runnerSymbol ++ " (env) \x7b"]

/-- The driver, started from one routine and guarded by a number of rounds. -/
def driverLines (start : String) (maxIterations : UInt32) : List String :=
  ["var env = env || \x7b\x7d;",
   "env.vars = env.vars || \x7b\x7d;",
   "var max_iter = " ++ Nat.repr maxIterations.toNat ++ ";",
   "var iter = 0;",
   "var function_stack = [];",
   "var old_exec = env.execute;",
   "env.execute = function (next_fun) \x7b",
   Routine.indent 1 "function_stack.push(next_fun);",
   "\x7d;",
   "function_stack.push(" ++ start ++ ");",
   "while (function_stack.length != 0) \x7b",
   Routine.indent 1 "var top_fun = function_stack.pop();",
   Routine.indent 1 "top_fun(env);",
   Routine.indent 1 "iter++;",
   Routine.indent 1 "if (iter > max_iter) \x7b",
   Routine.indent 2 (hostObject
     ++ ".errorMessage(\"Stack overflow error. Stack depth is \" + max_iter);"),
   Routine.indent 2 "break;",
   Routine.indent 1 "\x7d",
   "\x7d",
   "env.execute = old_exec;",
   "return function_stack.length == 0;"]

/-- The lines after the routines. -/
def closingLines (start : String) (maxIterations : UInt32) : List String :=
  (driverLines start maxIterations).map (Routine.indent 1) ++ ["\x7d"]

end Flowchart.Trampoline
