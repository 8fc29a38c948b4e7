/-
**Readers that repeat, as equations.**

Arguments, operators, tags and the arguments of types are read one after the other, and a proof of termination stands between
the steps. Here each of these readers is a step that goes on with itself, and no more.
-/

import DerwLang.Grammar.Module

namespace DerwLang.Grammar

/-- An annotation in brackets is an argument, and further ones follow. -/
theorem typeArguments_openBracket (nested : List Token → Parsed (List Ty)) (head : String) {token : Token}
    (opens : token.kind = .openBracket) (rest : List Token) :
    typeArguments nested head (token :: rest) =
      match Token.splitClose .openBracket .closeBracket 0 rest with
      | none => .error ⟨.unclosedTypeArgument, token.line⟩
      | some cut => do
        let types ← nested cut.inside
        let others ← typeArguments nested head cut.after
        return typeOfParts types :: others := by
  rw [typeArguments]
  simp only [opens]
  split
  · rename_i found
    rw [found]
  · rename_i cut found
    rw [found]

theorem arguments_eq (nested : Nested) (window : Window) :
    arguments nested window =
      if window.nextKind.any startsAtom then do
        let (first, ending) ← atom nested window
        let (others, final) ← arguments nested ending
        return (first :: others, final)
      else .ok ([], window) := by
  rw [arguments]
  split
  · split
    · rename_i error found
      rw [found]
      rfl
    · rename_i first ending found
      rw [found]
      rfl
  · rfl

theorem links_eq (nested : Nested) (comparing : Comparing) (window : Window) :
    links nested comparing window =
      match window.tokens with
      | [] => .ok ([], window)
      | token :: rest =>
        match BinaryOperator.ofKind? token.kind with
        | none => .ok ([], window)
        | some operator =>
          match comparing.chainedWith operator with
          | some first => window.error (.chainedComparison first operator)
          | none => do
            let (operand, ending) ← operand nested ⟨token.line, rest⟩
            let (others, final) ← links nested (comparing.after operator) ending
            return (⟨operator, operand⟩ :: others, final) := by
  obtain ⟨before, tokens⟩ := window
  cases tokens with
  | nil => rw [links]
  | cons token rest =>
    rw [links]
    dsimp only
    cases BinaryOperator.ofKind? token.kind with
    | none => rfl
    | some operator =>
      dsimp only
      cases comparing.chainedWith operator with
      | some first => rfl
      | none =>
        dsimp only
        split
        · rename_i error found
          rw [found]
          rfl
        · rename_i operand ending found
          rw [found]
          rfl

theorem tags_eq (window : Window) :
    tags window = do
      let (first, ending) ← tag window
      match ending.nextKind with
      | some .pipe => do
        let (others, final) ← tags ⟨ending.line, ending.tokens.tail⟩
        return (first :: others, final)
      | _ => return ([first], ending) := by
  rw [tags]
  split
  · rename_i error found
    rw [found]
    rfl
  · rename_i first ending found
    rw [found]
    cases follows : ending.nextKind with
    | none => simp only [follows, bind, Except.bind, pure, Except.pure]
    | some kind => cases kind <;> simp only [follows, bind, Except.bind, pure, Except.pure]

end DerwLang.Grammar
