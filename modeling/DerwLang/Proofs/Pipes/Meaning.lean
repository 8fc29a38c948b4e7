/-
**Pipes mean application.**

Functions take their arguments one by one: `x |> f` and `f <| x` mean `f` applied to `x`, a call means its name applied to its
first argument, the result to the second, and so on, and a lambda called in place likewise. A reference means what it refers
to, with the name at its head looked up under the path; arguments are expressions of this module and are read outside the path.
What names and all other forms mean is left open (`Interpretation`). Main facts:

* `meaningUnder_appliedTo?`: the application that a pipe is rewritten to means the function applied to the argument;
* `meaningUnder_flattenPipes`: flattening keeps the meaning;
* `flattenPipes_exact`: it keeps the meaning, leaves no pipe that could be rewritten, and is done at once.
-/

import DerwLang.Syntax.Pipes

namespace DerwLang

/-- What names mean, how a function is applied, and what every form means that is no application, each under a path. -/
structure Interpretation (Value : Type) where
  name : List String → String → Value
  apply : Value → Value → Value
  other : List String → Expression → Value

namespace Expression

section Meaning

variable {Value : Type} (interpretation : Interpretation Value)

mutual

/-- What an expression means under a path. -/
def meaningUnder : List String → Expression → Value
  | path, .value text => interpretation.name path text
  | path, .call name arguments => (meanings arguments).foldl interpretation.apply (interpretation.name path name)
  | path, .reference inner referred => meaningUnder (path ++ inner) referred
  | path, .lambdaCall function arguments =>
    (meanings arguments).foldl interpretation.apply (interpretation.other path (.lambda function))
  | path, .binary .pipeInto argument function =>
    interpretation.apply (meaningUnder path function) (meaningUnder [] argument)
  | path, .binary .pipeFrom function argument =>
    interpretation.apply (meaningUnder path function) (meaningUnder [] argument)
  | path, expression => interpretation.other path expression

/-- What arguments mean. -/
def meanings : List Expression → List Value
  | [] => []
  | item :: rest => meaningUnder [] item :: meanings rest

end

theorem meanings_eq (items : List Expression) :
    meanings interpretation items = items.map (meaningUnder interpretation []) := by
  induction items with
  | nil => rfl
  | cons item rest step => rw [meanings, step, List.map_cons]

/-- What a call means: its name, applied to one argument after the other. -/
theorem meaningUnder_call (path : List String) (name : String) (arguments : List Expression) :
    meaningUnder interpretation path (.call name arguments) =
      (arguments.map (meaningUnder interpretation [])).foldl interpretation.apply (interpretation.name path name) := by
  rw [meaningUnder, meanings_eq]

/-- What a lambda called in place means: the lambda, applied to one argument after the other. -/
theorem meaningUnder_lambdaCall (path : List String) (function : Lambda) (arguments : List Expression) :
    meaningUnder interpretation path (.lambdaCall function arguments) =
      (arguments.map (meaningUnder interpretation [])).foldl interpretation.apply
        (meaningUnder interpretation path (.lambda function)) := by
  rw [meaningUnder, meanings_eq]
  rfl

/-- **The application of a function means the function applied**, under any path. -/
theorem meaningUnder_appliedTo? {function argument result : Expression} (applied : function.appliedTo? argument = some result)
    (path : List String) :
    meaningUnder interpretation path result =
      interpretation.apply (meaningUnder interpretation path function) (meaningUnder interpretation [] argument) := by
  fun_induction appliedTo? function argument generalizing path result with
  | case1 name argument =>
    obtain rfl := Option.some.inj applied
    rw [meaningUnder_call]
    rfl
  | case2 name arguments argument =>
    obtain rfl := Option.some.inj applied
    rw [meaningUnder_call, meaningUnder_call, List.map_append, List.foldl_append]
    rfl
  | case3 inner referred argument step =>
    obtain ⟨further, found, rfl⟩ := Option.map_eq_some_iff.mp applied
    exact step found (path ++ inner)
  | case4 function argument =>
    obtain rfl := Option.some.inj applied
    rw [meaningUnder_lambdaCall]
    rfl
  | case5 function arguments argument =>
    obtain rfl := Option.some.inj applied
    rw [meaningUnder_lambdaCall, meaningUnder_lambdaCall, List.map_append, List.foldl_append]
    rfl
  | case6 => simp at applied

/-- **Flattening keeps the meaning**, under any path. -/
theorem meaningUnder_flattenPipes (expression : Expression) (path : List String) :
    meaningUnder interpretation path expression.flattenPipes = meaningUnder interpretation path expression := by
  fun_induction flattenPipes expression generalizing path with
  | case1 argument function functionStep argumentStep =>
    cases applied : function.flattenPipes.appliedTo? argument.flattenPipes with
    | none => rfl
    | some result =>
      rw [Option.getD_some, meaningUnder_appliedTo? interpretation applied, functionStep, argumentStep, meaningUnder]
  | case2 function argument functionStep argumentStep =>
    cases applied : function.flattenPipes.appliedTo? argument.flattenPipes with
    | none => rfl
    | some result =>
      rw [Option.getD_some, meaningUnder_appliedTo? interpretation applied, functionStep, argumentStep, meaningUnder]
  | case3 => rfl

end Meaning

/-! ## Pipes that are left -/

/-- The function and the argument of a pipe. -/
def pipe? : Expression → Option (Expression × Expression)
  | .binary .pipeInto argument function => some (function, argument)
  | .binary .pipeFrom function argument => some (function, argument)
  | _ => none

/-- The expression is a name, a call or a lambda, perhaps of another module: it can be given one more argument. -/
def takesArgument : Expression → Bool
  | .value _ | .call _ _ | .lambda _ | .lambdaCall _ _ => true
  | .reference _ referred => referred.takesArgument
  | _ => false

theorem isSome_appliedTo? (function argument : Expression) :
    (function.appliedTo? argument).isSome = function.takesArgument := by
  fun_induction appliedTo? function argument with
  | case3 path referred argument step => rw [Option.isSome_map, step, takesArgument]
  | case6 function argument => cases function <;> simp_all [takesArgument]
  | _ => rfl

/-- What is applied is no pipe. -/
theorem pipe?_appliedTo? {function argument result : Expression} (applied : function.appliedTo? argument = some result) :
    result.pipe? = none := by
  fun_induction appliedTo? function argument with
  | case3 path referred argument =>
    obtain ⟨further, -, rfl⟩ := Option.map_eq_some_iff.mp applied
    rfl
  | case6 => simp at applied
  | _ =>
    obtain rfl := Option.some.inj applied
    rfl

/-- Flattening leaves what is no pipe as it is. -/
theorem flattenPipes_of_pipe?_eq_none {expression : Expression} (noPipe : expression.pipe? = none) :
    expression.flattenPipes = expression := by
  fun_cases flattenPipes expression with
  | case1 | case2 => simp [pipe?] at noPipe
  | case3 => rfl

/-- A pipe is rewritten if its function, flattened, can be given an argument, and is left as it is otherwise. -/
theorem flattenPipes_of_pipe? {expression function argument : Expression}
    (piped : expression.pipe? = some (function, argument)) :
    expression.flattenPipes = (function.flattenPipes.appliedTo? argument.flattenPipes).getD expression := by
  fun_cases flattenPipes expression with
  | case1 | case2 =>
    obtain ⟨rfl, rfl⟩ := Prod.mk.inj (Option.some.inj piped)
    rfl
  | case3 => simp_all [pipe?]

/-- A pipe that flattening leaves is the pipe that was there. -/
theorem pipe?_flattenPipes (expression : Expression) (sides : Expression × Expression) :
    expression.flattenPipes.pipe? = some sides ↔
      expression.pipe? = some sides ∧ sides.1.flattenPipes.takesArgument = false := by
  cases piped : expression.pipe? with
  | none => simp [flattenPipes_of_pipe?_eq_none piped, piped]
  | some own =>
    obtain ⟨function, argument⟩ := own
    rw [flattenPipes_of_pipe? piped, Option.some.injEq]
    have takes := isSome_appliedTo? function.flattenPipes argument.flattenPipes
    cases applied : function.flattenPipes.appliedTo? argument.flattenPipes with
    | none =>
      rw [applied] at takes
      rw [Option.getD_none, piped, Option.some.injEq]
      refine ⟨?_, And.left⟩
      rintro rfl
      exact ⟨rfl, takes.symm⟩
    | some result =>
      rw [applied] at takes
      rw [Option.getD_some, pipe?_appliedTo? applied]
      refine ⟨by simp, ?_⟩
      rintro ⟨rfl, none_⟩
      exact absurd (takes.trans none_) (by simp)

/-- **Flattening is done at once.** -/
theorem flattenPipes_flattenPipes (expression : Expression) : expression.flattenPipes.flattenPipes = expression.flattenPipes := by
  cases piped : expression.pipe? with
  | none => rw [flattenPipes_of_pipe?_eq_none piped, flattenPipes_of_pipe?_eq_none piped]
  | some own =>
    obtain ⟨function, argument⟩ := own
    have flat := flattenPipes_of_pipe? piped
    cases applied : function.flattenPipes.appliedTo? argument.flattenPipes with
    | none =>
      -- the pipe is left, and flattening leaves it again
      rw [applied, Option.getD_none] at flat
      rw [flat, flat]
    | some result =>
      rw [applied, Option.getD_some] at flat
      rw [flat]
      exact flattenPipes_of_pipe?_eq_none (pipe?_appliedTo? applied)

/-- **Pipes mean application.** Whatever names, application and all other forms mean, a flattened expression means what the
expression means, under any path, and flattening it again changes nothing. The pipes that are left are those whose function,
flattened itself, is no name, call or lambda, of this module or another. -/
theorem flattenPipes_exact (expression : Expression) :
    (∀ (Value : Type) (interpretation : Interpretation Value) (path : List String),
      meaningUnder interpretation path expression.flattenPipes = meaningUnder interpretation path expression) ∧
    expression.flattenPipes.flattenPipes = expression.flattenPipes ∧
    ∀ function argument, expression.flattenPipes.pipe? = some (function, argument) ↔
      expression.pipe? = some (function, argument) ∧ function.flattenPipes.takesArgument = false :=
  ⟨fun _ interpretation path => meaningUnder_flattenPipes interpretation expression path,
    flattenPipes_flattenPipes expression, fun function argument => pipe?_flattenPipes expression (function, argument)⟩

/-- A chain in both directions: the lambda takes what the reference gives, and the last argument goes to the reference. -/
example (own : Lambda) :
    (Expression.binary .pipeFrom (.lambda own)
      (.binary .pipeInto (.value "xs") (.reference ["List"] (.call "map" [.value "f"])))).flattenPipes =
      .lambdaCall own [.reference ["List"] (.call "map" [.value "f", .value "xs"])] := rfl

end Expression

end DerwLang
