/-
**How chains of simple operands are read.**

A chain of simple operands is a row of names, literals and texts with operators between. It is read operand by operand, and
each comparison is checked against the one that it would continue. Main facts:

* `links_chain`: the links of a chain are read up to two comparisons that meet;
* `parseExpression_chain`: a source that is a chain is refused for its comparisons just in case two of them meet, and is the
  one expression that its row is read as otherwise.
-/

import DerwLang.Proofs.Indexed.Cursor
import DerwLang.Proofs.Operators.Chain

namespace DerwLang.Operators

open Grammar
open Fixity (source)

/-! ## Chains -/

/-- A name, a number, a truth value or a text by itself. -/
inductive IsSimple : List Token → Expression → Prop
  | name {token : Token} (kind : token.kind = .identifier) : IsSimple [token] (reference token.body [])
  | literal {token : Token} (kind : token.kind = .literal) (noList : isListLiteral token = false) :
      IsSimple [token] (.value token.body)
  | negative {minus number : Token} {text : String} (kind : minus.kind = .operator .minus)
      (adjacent : negatedNumber? minus number = some text) : IsSimple [minus, number] (.value text)
  | string {token : Token} (kind : token.kind = .string) : IsSimple [token] (.string (unquote token.body))
  | formatString {token : Token} (kind : token.kind = .formatString) :
      IsSimple [token] (.formatString (unquote token.body))

/-- Operators, each with a simple operand after it. -/
inductive AreLinks : List Token → List Link → Prop
  | nil : AreLinks [] []
  | cons {sign : Token} (tokens : List Token) {rest : List Token} {link : Link} {links : List Link}
      (isSign : BinaryOperator.ofKind? sign.kind = some link.operator) (isSimple : IsSimple tokens link.operand)
      (more : AreLinks rest links) : AreLinks (sign :: (tokens ++ rest)) (link :: links)

/-- The tokens are a chain of simple operands. -/
def IsChain (tokens : List Token) (first : Expression) (links : List Link) : Prop :=
  ∃ operand rest, tokens = operand ++ rest ∧ IsSimple operand first ∧ AreLinks rest links

/-- The row that is written for a chain. -/
def row (first : Expression) (links : List Link) : List Mark :=
  .operand first :: marksOf links

/-! ## Reading -/

variable (nested : Nested)

/-- Nothing that goes on with an operand stands ahead. -/
def Stops (tokens : List Token) : Prop :=
  ∀ token ∈ tokens.head?, ∃ operator, BinaryOperator.ofKind? token.kind = some operator

theorem AreLinks.stops {tokens : List Token} {links : List Link} (areLinks : AreLinks tokens links) : Stops tokens := by
  cases areLinks with
  | nil => simp [Stops]
  | cons _ isSign => simpa [Stops] using ⟨_, isSign⟩

theorem Stops.nextKind {tokens : List Token} (stops : Stops tokens) (line : Nat) :
    (Window.mk line tokens).nextKind.any startsAtom = false := by
  cases tokens with
  | nil => rfl
  | cons token rest =>
    obtain ⟨operator, isSign⟩ := stops token rfl
    cases kind : token.kind <;> simp_all [Window.nextKind, startsAtom, BinaryOperator.ofKind?]

/-- A simple operand is read up to the operator after it. -/
theorem operand_simple {tokens rest : List Token} {value : Expression} (isSimple : IsSimple tokens value)
    (stops : Stops rest) (before : Nat) :
    ∃ line, Grammar.operand nested ⟨before, tokens ++ rest⟩ = .ok (value, ⟨line, rest⟩) := by
  cases isSimple with
  | @name token kind =>
    refine ⟨token.line, ?_⟩
    simp only [Grammar.operand, List.cons_append, List.nil_append, kind]
    split
    · simp only [atom, kind]
      cases rest with
      | nil => rfl
      | cons next more =>
        obtain ⟨operator, isSign⟩ := stops next rfl
        have noRecord : (next.kind == .openCurly) = false := by
          cases kind : next.kind <;> simp_all [BinaryOperator.ofKind?]
        simp [noRecord]
    · simp [arguments_eq, stops.nextKind, bind, Except.bind, pure, Except.pure]
  | @literal token kind noList =>
    exact ⟨token.line, by simp [Grammar.operand, atom, kind, noList]⟩
  | @negative minus number text kind adjacent =>
    exact ⟨number.line, by simp [Grammar.operand, atom, kind, adjacent]⟩
  | @string token kind => exact ⟨token.line, by simp [Grammar.operand, atom, kind]⟩
  | @formatString token kind => exact ⟨token.line, by simp [Grammar.operand, atom, kind]⟩

/-- **The links of a chain are read** up to two comparisons that meet. -/
theorem links_chain {tokens : List Token} {chain : List Link} (areLinks : AreLinks tokens chain) (comparing : Comparing)
    (before : Nat) :
    match clash? comparing (chain.map Link.operator) with
    | some (earlier, later) =>
      ∃ line, links nested comparing ⟨before, tokens⟩ = .error ⟨.chainedComparison earlier later, line⟩
    | none => ∃ line, links nested comparing ⟨before, tokens⟩ = .ok (chain, ⟨line, []⟩) := by
  induction areLinks generalizing comparing before with
  | nil => exact ⟨before, by rw [links_eq]⟩
  | @cons sign _ rest link chain isSign isSimple more step =>
    rw [links_eq, List.map_cons, clash?]
    simp only [isSign]
    cases chained : comparing.chainedWith link.operator with
    | some first => exact ⟨sign.line, rfl⟩
    | none =>
      obtain ⟨line, read⟩ := operand_simple nested isSimple more.stops sign.line
      have later := step (comparing.after link.operator) line
      simp only [read]
      cases meets : clash? (comparing.after link.operator) (chain.map Link.operator) with
      | some pair =>
        simp only [meets] at later
        obtain ⟨line', same⟩ := later
        exact ⟨line', by simp [same, bind, Except.bind]⟩
      | none =>
        simp only [meets] at later
        obtain ⟨line', same⟩ := later
        exact ⟨line', by simp [same, bind, Except.bind, pure, Except.pure]⟩

theorem expression_chain {tokens : List Token} {first : Expression} {chain : List Link}
    (isChain : IsChain tokens first chain) (before : Nat) :
    match clash? none (chain.map Link.operator) with
    | some (earlier, later) =>
      ∃ line, expression ⟨before, tokens⟩ = .error ⟨.chainedComparison earlier later, line⟩
    | none => expression ⟨before, tokens⟩ = .ok (Chain.group first chain) := by
  obtain ⟨operand, rest, rfl, isSimple, areLinks⟩ := isChain
  have positive : 0 < (Window.mk before (operand ++ rest)).weight := by
    cases isSimple <;> exact Nat.add_pos_left (Token.weight_pos _) _
  obtain ⟨depth, weight⟩ := Nat.exists_eq_succ_of_ne_zero (Nat.ne_of_gt positive)
  rw [expression, weight, Nat.succ_eq_add_one, expressionAt, expressionStep]
  obtain ⟨line, read⟩ := operand_simple ⟨expressionAt depth, bodyAt depth⟩ isSimple areLinks.stops before
  have later := links_chain ⟨expressionAt depth, bodyAt depth⟩ areLinks none line
  simp only [read]
  cases meets : clash? none (chain.map Link.operator) with
  | some pair =>
    simp only [meets] at later
    obtain ⟨line', same⟩ := later
    exact ⟨line', by simp [same, bind, Except.bind]⟩
  | none =>
    simp only [meets] at later
    obtain ⟨line', same⟩ := later
    simp [same, bind, Except.bind, pure, Except.pure, Window.expectEnd]

/-! ## The reading of a source -/

/-- **A chain of simple operands is read by the precedences of its operators.** It is refused for its comparisons just in case
one is followed by another with nothing but tighter operators between. Any other chain is read as the one expression that its
row is read as. -/
theorem parseExpression_chain {source : String} {first : Expression} {chain : List Link}
    (isChain : IsChain (Token.significant (tokenize source)) first chain) :
    ((∃ earlier later line, parseExpression source = .error ⟨.chainedComparison earlier later, line⟩) ↔
        ComparisonsMeet (chain.map Link.operator)) ∧
      (¬ ComparisonsMeet (chain.map Link.operator) → ∃ tree, parseExpression source = .ok tree ∧
        ∀ other, (∃ outermost, Fixity.source.Reads outermost (row first chain) other) ↔ other = tree) := by
  have read := expression_chain isChain (lineOf (Token.significant (tokenize source)))
  have meets := clash?_isSome none (chain.map Link.operator)
  simp only [Option.isSome_none, Bool.false_eq_true, false_and, or_false] at meets
  rw [← meets, parseExpression]
  cases found : clash? none (chain.map Link.operator) with
  | some pair =>
    simp only [found] at read
    obtain ⟨line, same⟩ := read
    exact ⟨iff_of_true ⟨pair.1, pair.2, line, same⟩ rfl, fun goesOn => absurd rfl goesOn⟩
  | none =>
    simp only [found] at read
    refine ⟨iff_of_false ?_ Bool.false_ne_true, fun _ => ⟨_, read, fun other => ?_⟩⟩
    · rintro ⟨earlier, later, line, same⟩
      rw [read] at same
      cases same
    · obtain ⟨outermost, reads⟩ := reads_groupFrom .nil (by simp [Remembered]) first chain found
      constructor
      · rintro ⟨outermost', reads'⟩
        exact reads'.unique reads
      · rintro rfl
        exact ⟨outermost, reads⟩

/-- A chain with mixed pipes, a negative number and two comparisons that `&&` keeps apart. -/
def pipedText : String :=
  "f <| x |> g < -1 + y && a == b"

/-- The operators of the chain, each with the operand after it. -/
def pipedLinks : List Link :=
  [⟨.pipeFrom, .value "x"⟩, ⟨.pipeInto, .value "g"⟩, ⟨.less, .value "-1"⟩, ⟨.add, .value "y"⟩, ⟨.and, .value "a"⟩,
    ⟨.equal, .value "b"⟩]

/-- What the chain is read as. -/
def pipedTree : Expression :=
  .binary .and
    (.binary .less (.binary .pipeFrom (.value "f") (.binary .pipeInto (.value "x") (.value "g")))
      (.binary .add (.value "-1") (.value "y")))
    (.binary .equal (.value "a") (.value "b"))

theorem isChain_piped : IsChain (Token.significant (tokenize pipedText)) (.value "f") pipedLinks := by
  have tokens : Token.significant (tokenize pipedText) =
      [⟨.identifier, "f", 1, 1⟩, ⟨.operator .pipeLeft, "<|", 1, 3⟩, ⟨.identifier, "x", 1, 6⟩,
        ⟨.operator .pipeRight, "|>", 1, 8⟩, ⟨.identifier, "g", 1, 11⟩, ⟨.operator .less, "<", 1, 13⟩,
        ⟨.operator .minus, "-", 1, 15⟩, ⟨.literal, "1", 1, 16⟩, ⟨.operator .plus, "+", 1, 18⟩,
        ⟨.identifier, "y", 1, 20⟩, ⟨.operator .and, "&&", 1, 22⟩, ⟨.identifier, "a", 1, 25⟩,
        ⟨.operator .equal, "==", 1, 27⟩, ⟨.identifier, "b", 1, 30⟩] := by
    decide
  rw [tokens]
  refine ⟨[_], _, rfl, .name rfl, ?_⟩
  exact .cons [_] rfl (.name rfl) <| .cons [_] rfl (.name rfl) <|
    .cons [_, _] rfl (.negative rfl rfl) <| .cons [_] rfl (.name rfl) <|
    .cons [_] rfl (.name rfl) <| .cons [_] rfl (.name rfl) .nil

/-- Mixed pipes group by the earlier one, and comparisons that a looser operator keeps apart are no chain. -/
theorem parseExpression_piped :
    IsChain (Token.significant (tokenize pipedText)) (.value "f") pipedLinks ∧
      ¬ ComparisonsMeet (pipedLinks.map Link.operator) ∧ parseExpression pipedText = .ok pipedTree ∧
      ∀ other, (∃ outermost, Fixity.source.Reads outermost (row (.value "f") pipedLinks) other) ↔ other = pipedTree := by
  have goesOn : ¬ ComparisonsMeet (pipedLinks.map Link.operator) := by
    intro meets
    have some_ := (clash?_isSome none (pipedLinks.map Link.operator)).mpr (.inl meets)
    exact absurd some_ (by decide)
  have read : parseExpression pipedText = .ok pipedTree :=
    expression_chain isChain_piped (lineOf (Token.significant (tokenize pipedText)))
  obtain ⟨tree, same, only⟩ := (parseExpression_chain isChain_piped).2 goesOn
  rw [read] at same
  obtain rfl := Except.ok.inj same
  exact ⟨isChain_piped, goesOn, read, only⟩

end DerwLang.Operators
