/-
**The rules for patterns and types.**

A reader is a program that cuts a window and reads the pieces. Its rule says what it reads: which tokens the window holds, of
which kinds, and what is read of the pieces. A reader follows its rule whenever it gives a result (`pattern_rule` and the like),
so whatever is said of all that is read goes by the cases of the rule, and no reader is opened again. Rules for what nests take
the nested reader as an argument, as the readers do.
-/

import DerwLang.Proofs.Rules.Step

namespace DerwLang.Grammar

/-! ## Patterns -/

/-- The names of fields, with commas between and perhaps behind them, up to the closing bracket. -/
inductive PatternFieldsRule : List Token → List String → Window → Prop
  | none {token : Token} {rest : List Token} (closes : token.kind = .closeCurly) :
    PatternFieldsRule (token :: rest) [] ⟨token.line, rest⟩
  | last {token next : Token} {more : List Token} (isName : token.kind = .identifier) (closes : next.kind = .closeCurly) :
    PatternFieldsRule (token :: next :: more) [token.body] ⟨next.line, more⟩
  | more {token next : Token} {more : List Token} {names : List String} {ending : Window}
    (isName : token.kind = .identifier) (isComma : next.kind = .comma) (later : PatternFieldsRule more names ending) :
    PatternFieldsRule (token :: next :: more) (token.body :: names) ending

theorem patternFields_rule {tag : String} {before : Nat} {tokens : List Token} {names : List String} {ending : Window}
    (read : patternFields tag before tokens = .ok (names, ending)) : PatternFieldsRule tokens names ending := by
  fun_induction patternFields tag before tokens generalizing names ending with
  | case1 => simp at read
  | case2 before token rest closes =>
    obtain ⟨rfl, rfl⟩ := Prod.mk.inj (Except.ok.inj read)
    exact .none closes
  | case3 => simp at read
  | case4 before token isName next more closes =>
    obtain ⟨rfl, rfl⟩ := Prod.mk.inj (Except.ok.inj read)
    exact .last isName closes
  | case5 before token isName next more isComma step =>
    obtain ⟨⟨others, final⟩, found, read⟩ := ok_of_bind read
    obtain ⟨rfl, rfl⟩ := Prod.mk.inj (Except.ok.inj read)
    exact .more isName isComma (step found)
  | case6 => simp at read
  | case7 => simp at read

/-- A tag without fields, or with fields in brackets. -/
inductive TagPatternRule (tag : String) (window : Window) : TagPattern → Window → Prop
  | bare : TagPatternRule tag window ⟨tag, []⟩ window
  | braced {token : Token} {rest : List Token} {names : List String} {ending : Window}
    (tokens : window.tokens = token :: rest) (opens : token.kind = .openCurly)
    (fields : PatternFieldsRule rest names ending) : TagPatternRule tag window ⟨tag, names⟩ ending

theorem tagPattern_rule {tag : String} {window ending : Window} {shape : TagPattern}
    (read : tagPattern tag window = .ok (shape, ending)) : TagPatternRule tag window shape ending := by
  rw [tagPattern] at read
  split at read
  · obtain ⟨rfl, rfl⟩ := Prod.mk.inj (Except.ok.inj read)
    exact .bare
  · rename_i token rest tokens
    split at read
    · rename_i opens
      obtain ⟨⟨names, final⟩, found, read⟩ := ok_of_bind read
      obtain ⟨rfl, rfl⟩ := Prod.mk.inj (Except.ok.inj read)
      exact .braced tokens (beq_iff_eq.mp opens) (patternFields_rule found)
    · obtain ⟨rfl, rfl⟩ := Prod.mk.inj (Except.ok.inj read)
      exact .bare

/-- A text, the empty list, `default`, or a tag with what belongs to it. -/
inductive SinglePatternRule (window : Window) : Pattern → Prop
  | string {token : Token} (tokens : window.tokens = [token]) (isString : token.kind = .string) :
    SinglePatternRule window (.string (unquote token.body))
  | formatString {token : Token} (tokens : window.tokens = [token]) (isFormatString : token.kind = .formatString) :
    SinglePatternRule window (.formatString (unquote token.body))
  | emptyList {token : Token} (tokens : window.tokens = [token]) (isLiteral : token.kind = .literal)
    (isEmpty : isEmptyList token = true) : SinglePatternRule window .emptyList
  | otherwise {token : Token} (tokens : window.tokens = [token]) (isDefault : token.kind = .keyword .defaultWord) :
    SinglePatternRule window .otherwise
  | tag {token : Token} {rest : List Token} {shape : TagPattern} {ending : Window} (tokens : window.tokens = token :: rest)
    (isName : token.kind = .identifier) (capital : Text.isCapitalised token.body = true)
    (tagged : TagPatternRule token.body ⟨token.line, rest⟩ shape ending) (ended : ending.tokens = []) :
    SinglePatternRule window (.tag shape)

theorem singlePattern_rule {window : Window} {shape : Pattern} (read : singlePattern window = .ok shape) :
    SinglePatternRule window shape := by
  rw [singlePattern] at read
  split at read
  · simp [Window.error] at read
  · rename_i token rest tokens
    obtain ⟨⟨found, ending⟩, inner, read⟩ := ok_of_bind read
    obtain ⟨_, ended, read⟩ := ok_of_bind read
    obtain rfl := Except.ok.inj read
    have ended := tokens_of_expectEnd ended
    split at inner
    case h_1 isString =>
      obtain ⟨rfl, rfl⟩ := Prod.mk.inj (Except.ok.inj inner)
      obtain rfl : rest = [] := ended
      exact .string tokens isString
    case h_2 isFormatString =>
      obtain ⟨rfl, rfl⟩ := Prod.mk.inj (Except.ok.inj inner)
      obtain rfl : rest = [] := ended
      exact .formatString tokens isFormatString
    case h_3 isLiteral =>
      split at inner
      · rename_i isEmpty
        obtain ⟨rfl, rfl⟩ := Prod.mk.inj (Except.ok.inj inner)
        obtain rfl : rest = [] := ended
        exact .emptyList tokens isLiteral isEmpty
      · simp at inner
    case h_4 isDefault =>
      obtain ⟨rfl, rfl⟩ := Prod.mk.inj (Except.ok.inj inner)
      obtain rfl : rest = [] := ended
      exact .otherwise tokens isDefault
    case h_5 isName =>
      split at inner
      · rename_i capital
        obtain ⟨⟨shape, after⟩, tagged, inner⟩ := ok_of_bind inner
        obtain ⟨rfl, rfl⟩ := Prod.mk.inj (Except.ok.inj inner)
        exact .tag tokens isName capital (tagPattern_rule tagged) ended
      · simp at inner
    case h_6 => simp at inner

/-- A text, the empty list, a tag with what belongs to it, or a name. -/
inductive ListPartRule (window : Window) : ListPart → Prop
  | string {token : Token} (tokens : window.tokens = [token]) (isString : token.kind = .string) :
    ListPartRule window (.string (unquote token.body))
  | formatString {token : Token} (tokens : window.tokens = [token]) (isFormatString : token.kind = .formatString) :
    ListPartRule window (.formatString (unquote token.body))
  | emptyList {token : Token} (tokens : window.tokens = [token]) (isLiteral : token.kind = .literal)
    (isEmpty : isEmptyList token = true) : ListPartRule window .emptyList
  | tag {token : Token} {rest : List Token} {shape : TagPattern} {ending : Window} (tokens : window.tokens = token :: rest)
    (isName : token.kind = .identifier) (capital : Text.isCapitalised token.body = true)
    (tagged : TagPatternRule token.body ⟨token.line, rest⟩ shape ending) (ended : ending.tokens = []) :
    ListPartRule window (.tag shape)
  | name {token : Token} (tokens : window.tokens = [token]) (isName : token.kind = .identifier)
    (small : Text.isCapitalised token.body = false) (dotless : Text.hasChar token.body '.' = false) :
    ListPartRule window (.name token.body)

theorem listPart_rule {window ending : Window} {part : ListPart} (read : listPart window = .ok (part, ending)) :
    ListPartRule window part := by
  rw [listPart] at read
  split at read
  · simp [Window.error] at read
  · rename_i token rest tokens
    obtain ⟨⟨found, final⟩, inner, read⟩ := ok_of_bind read
    obtain ⟨_, ended, read⟩ := ok_of_bind read
    obtain ⟨rfl, rfl⟩ := Prod.mk.inj (Except.ok.inj read)
    have ended := tokens_of_expectEnd ended
    split at inner
    case h_1 isString =>
      obtain ⟨rfl, rfl⟩ := Prod.mk.inj (Except.ok.inj inner)
      obtain rfl : rest = [] := ended
      exact .string tokens isString
    case h_2 isFormatString =>
      obtain ⟨rfl, rfl⟩ := Prod.mk.inj (Except.ok.inj inner)
      obtain rfl : rest = [] := ended
      exact .formatString tokens isFormatString
    case h_3 isLiteral =>
      split at inner
      · rename_i isEmpty
        obtain ⟨rfl, rfl⟩ := Prod.mk.inj (Except.ok.inj inner)
        obtain rfl : rest = [] := ended
        exact .emptyList tokens isLiteral isEmpty
      · simp at inner
    case h_4 isName =>
      split at inner
      · rename_i capital
        obtain ⟨⟨shape, after⟩, tagged, inner⟩ := ok_of_bind inner
        obtain ⟨rfl, rfl⟩ := Prod.mk.inj (Except.ok.inj inner)
        exact .tag tokens isName capital (tagPattern_rule tagged) ended
      · rename_i small
        split at inner
        · simp at inner
        · rename_i dotless
          obtain ⟨rfl, rfl⟩ := Prod.mk.inj (Except.ok.inj inner)
          obtain rfl : rest = [] := ended
          exact .name tokens isName (Bool.eq_false_iff.mpr small) (Bool.eq_false_iff.mpr dotless)
    case h_5 => simp at inner

/-- The parts of a list pattern, one for each window; `[]` is none but the last. -/
inductive ListPartsRule : List Window → List ListPart → Prop
  | nil : ListPartsRule [] []
  | cons {window : Window} {more : List Window} {part : ListPart} {parts : List ListPart} (first : ListPartRule window part)
    (late : part = .emptyList → more = []) (later : ListPartsRule more parts) : ListPartsRule (window :: more) (part :: parts)

theorem listParts_rule {windows : List Window} {parts : List ListPart} (read : listParts windows = .ok parts) :
    ListPartsRule windows parts := by
  induction windows generalizing parts with
  | nil =>
    obtain rfl := Except.ok.inj read
    exact .nil
  | cons window more step =>
    rw [listParts] at read
    obtain ⟨⟨part, ending⟩, found, read⟩ := ok_of_bind read
    dsimp only at read
    split at read
    · simp [Window.error] at read
    · rename_i late
      obtain ⟨others, later, read⟩ := ok_of_bind read
      obtain rfl := Except.ok.inj read
      exact .cons (listPart_rule found) (fun isEmpty => by simpa [isEmpty] using late) (step later)

/-- Parts with `::` between them, or a pattern without any. -/
inductive PatternRule (window : Window) : Pattern → Prop
  | list {parts : List ListPart} (separated : ∃ token ∈ window.tokens, token.kind = .operator .cons)
    (each : ListPartsRule (Window.splitFrom (.operator .cons) 0 window.before window.tokens) parts) :
    PatternRule window (.list parts)
  | single {shape : Pattern} (found : SinglePatternRule window shape) : PatternRule window shape

theorem pattern_rule {window : Window} {shape : Pattern} (read : pattern window = .ok shape) : PatternRule window shape := by
  rw [pattern] at read
  split at read
  · rename_i separated
    obtain ⟨parts, found, rfl⟩ := ok_of_map read
    exact .list (by simpa using separated) (listParts_rule found)
  · exact .single (singlePattern_rule read)

/-! ## Types -/

/-- The arguments of a named type: names, and annotations in brackets. -/
inductive TypeArgumentsRule (nested : List Token → Parsed (List Ty)) : List Token → List Ty → Prop
  | nil : TypeArgumentsRule nested [] []
  | name {token : Token} {rest : List Token} {types : List Ty} (isName : token.kind = .identifier)
    (later : TypeArgumentsRule nested rest types) : TypeArgumentsRule nested (token :: rest) (Ty.ofName token.body :: types)
  | brackets {token : Token} {rest : List Token} {cut : Cut} {own types : List Ty} (opens : token.kind = .openBracket)
    (cuts : CutsAt .closeBracket rest cut) (inner : nested cut.inside = .ok own)
    (later : TypeArgumentsRule nested cut.after types) :
    TypeArgumentsRule nested (token :: rest) (typeOfParts own :: types)

section Types

variable {nested : List Token → Parsed (List Ty)}

theorem typeArguments_rule {head : String} {tokens : List Token} {types : List Ty}
    (read : typeArguments nested head tokens = .ok types) : TypeArgumentsRule nested tokens types := by
  fun_induction typeArguments nested head tokens generalizing types with
  | case1 =>
    obtain rfl := Except.ok.inj read
    exact .nil
  | case2 token rest isName step =>
    obtain ⟨others, later, read⟩ := ok_of_bind read
    obtain rfl := Except.ok.inj read
    exact .name isName (step later)
  | case3 => simp at read
  | case4 token rest opens cut found step =>
    obtain ⟨own, inner, read⟩ := ok_of_bind read
    obtain ⟨others, later, read⟩ := ok_of_bind read
    obtain rfl := Except.ok.inj read
    exact .brackets opens (cutsAt_splitClose found) inner (step later)
  | case5 => simp at read

/-- A name alone, or a name with its arguments. -/
inductive NamedTypeRule (nested : List Token → Parsed (List Ty)) : List Token → Ty → Prop
  | plain {head : Token} {rest : List Token} (isName : head.kind = .identifier) (none_ : TypeArgumentsRule nested rest []) :
    NamedTypeRule nested (head :: rest) (Ty.ofName head.body)
  | applied {head : Token} {rest : List Token} {type : Ty} {more : List Ty} (isName : head.kind = .identifier)
    (arguments : TypeArgumentsRule nested rest (type :: more)) :
    NamedTypeRule nested (head :: rest) (.named head.body (type :: more))

theorem namedType_rule {line : Nat} {tokens : List Token} {type : Ty} (read : namedType nested line tokens = .ok type) :
    NamedTypeRule nested tokens type := by
  rw [namedType.eq_def] at read
  split at read
  · simp at read
  · rename_i head rest
    split at read
    · rename_i isName
      obtain ⟨types, found, read⟩ := ok_of_bind read
      have arguments := typeArguments_rule found
      cases types with
      | nil =>
        obtain rfl := Except.ok.inj read
        exact .plain (beq_iff_eq.mp isName) arguments
      | cons type more =>
        obtain rfl := Except.ok.inj read
        exact .applied (beq_iff_eq.mp isName) arguments
    · simp at read

/-- The tokens of a signature are cut at its arrows, and each part is read as a type. -/
theorem segments_of_signatureStep {tokens : List Token} {types : List Ty} (read : signatureStep nested tokens = .ok types) :
    ((TypeSegment.split (Token.significant tokens)).map TypeSegment.classify).mapM (segmentType nested (lineOf tokens)) =
      .ok types := by
  rw [signatureStep] at read
  split at read
  · simp at read
  · rename_i segments found
    rw [TypeSegment.ofTokens] at found
    split at found
    · simp at found
    · split at found
      · simp at found
      · split at found
        · simp at found
        · obtain rfl := Except.ok.inj found
          exact read

end Types

end DerwLang.Grammar
