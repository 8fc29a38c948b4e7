/-
**Printed functions keep their parameters.**

The printed text of a function has a line for its signature, and the names of those parameters that have one. From these
the parameters are read again, the ones without a name in their places. A function of which no type is known is printed
without the line, and then nothing is left of a parameter without a name. Main facts:

* `functions_read_back`: what the printed text of a function is read as, for each function that was read;
* `unnamed_parameter_lost`: a function with two parameters is read again as one with a single parameter.
-/

import DerwLang.Proofs.Accepted.Declaration
import DerwLang.Proofs.Layout.Nested
import DerwLang.Proofs.Reading.Module

namespace DerwLang

/-- No type is known of the parameters and of the result. -/
def FunctionDefinition.IsUntyped (definition : FunctionDefinition) : Prop :=
  (definition.parameters.map Parameter.type ++ [definition.returnType]).all Ty.isAny = true

/-! ## Single declarations -/

/-- The text of a sound declaration is read as the settled declaration. -/
theorem parse_block {declaration : Block} (sound : declaration.Everywhere Sound.checks) :
    parse (Canonical.block declaration) = ⟨"Main", [Settled.block 0 declaration], []⟩ := by
  have alone : (⟨"Main", [declaration], []⟩ : Module).Everywhere Sound.checks := List.forall_mem_singleton.mpr sound
  have same : (Canonical.block declaration).toList = (Canonical.block declaration ++ "").toList ++ [] := by
    rw [String.append_empty, List.append_nil]
  exact Written.parse_text alone (fun _ member => absurd member List.not_mem_nil) same

/-! ## Parameters -/

namespace Settled

/-- No parameter with a name is lost. -/
theorem filter_parameters (declared : List Parameter) (returnType : Ty) :
    (parameters declared returnType).filter isNamed = declared.filter isNamed := by
  rw [parameters]
  split
  · rw [List.filter_filter]
    simp only [Bool.and_self]
  · rfl

end Settled

/-! ## Functions -/

/-- **What the printed text of a function is read as**, local functions included: a function of the same name with the same
result, in which the parameters with a name are the same. It has all parameters, in order, with their names, places and
types, if and only if some type of the function is known or each of its parameters has a name. -/
theorem functions_read_back (source : String) :
    (parse source).Everywhere (Checks.ofBlock fun block => ∀ definition, block = .function definition →
      ∃ printed : FunctionDefinition, parse (Canonical.block block) = ⟨"Main", [.function printed], []⟩ ∧
        printed.name = definition.name ∧ printed.returnType = definition.returnType ∧
        printed.parameters.filter Settled.isNamed = definition.parameters.filter Settled.isNamed ∧
        (printed.parameters = definition.parameters ↔
          (definition.IsUntyped → ∀ parameter ∈ definition.parameters, Settled.isNamed parameter = true))) := by
  refine (sound_parse source).declarations ?_
  rintro block sound ⟨name, returnType, parameters, body⟩ rfl
  refine ⟨⟨name, returnType, Settled.parameters parameters returnType, Settled.body 1 body⟩, ?_, rfl, rfl, ?_, ?_⟩
  · exact parse_block sound
  · exact Settled.filter_parameters parameters returnType
  · exact @Settled.parameters_eq_self name parameters returnType body

/-- **A parameter without a name is lost** where no type is known: two parameters are printed and read as one. -/
theorem unnamed_parameter_lost :
    (parse "f: any -> any -> any\nf x =\n    x\n").body =
      [.function ⟨"f", .any, [.named "x" .any, .anonymous 1 .any], ⟨[], .value "x"⟩⟩] ∧
    Canonical.block (.function ⟨"f", .any, [.named "x" .any, .anonymous 1 .any], ⟨[], .value "x"⟩⟩) = "f x =\n    x" ∧
    parse "f x =\n    x" = ⟨"Main", [.function ⟨"f", .any, [.named "x" .any], ⟨[], .value "x"⟩⟩], []⟩ := by
  refine ⟨?_, ?_, ?_⟩
  · with_unfolding_all rfl
  · decide
  · with_unfolding_all rfl

end DerwLang
