/-
**When the name of a path is an identifier.**

A path is named by the last of its segments that names something, up to the first dot of it. The name has letters, digits and
underscores of ASCII only, so it goes through a second naming unchanged, and it is one word unless it is empty or starts with a
digit. It is an identifier exactly if the segment starts with neither a dot nor a digit and the word is not reserved
(`nameFromPath_identifier_iff`): the naming looks at single characters, and asks neither whether one is left nor which one comes
first.
-/

import DerwLang.Proofs.Layout.Name
import DerwLang.Proofs.Lexing.LongestMatch
import DerwLang.Text.PathName

namespace DerwLang

open Layout Lexeme

namespace Text

/-! ## Segments -/

/-- The segments of a path: what its separators part, without the quotes around the path. -/
def segments (path : String) : List (List Char) :=
  splitWhere isPathSeparator (trimWhere (· == '"') path.toList)

/-- The characters of a segment in front of its first dot. -/
def stem (segment : List Char) : List Char :=
  segment.takeWhile (· != '.')

/-- The characters as they stand in a name. -/
def sanitized (chars : List Char) : List Char :=
  chars.map fun c => if isNamePart c then c else '_'

/-- The last of several segments that names something, with those in front of it and those behind. -/
structure IsLastNaming (all front : List (List Char)) (segment : List Char) (back : List (List Char)) : Prop where
  parts : all = front ++ segment :: back
  naming : isNamingSegment segment = true
  silent : ∀ other ∈ back, isNamingSegment other = false

theorem exists_isLastNaming {all : List (List Char)} (named : ∃ segment ∈ all, isNamingSegment segment = true) :
    ∃ front segment back, IsLastNaming all front segment back := by
  induction all with
  | nil => simp at named
  | cons first rest step =>
    by_cases later : ∃ segment ∈ rest, isNamingSegment segment = true
    · obtain ⟨front, segment, back, last⟩ := step later
      exact ⟨first :: front, segment, back, by rw [last.parts]; rfl, last.naming, last.silent⟩
    · have silent : ∀ other ∈ rest, isNamingSegment other = false := by simpa using later
      obtain ⟨segment, member, naming⟩ := named
      rcases List.mem_cons.mp member with rfl | among
      · exact ⟨[], segment, rest, rfl, naming, silent⟩
      · exact absurd ⟨segment, among, naming⟩ later

theorem IsLastNaming.getLast? {all front back : List (List Char)} {segment : List Char}
    (last : IsLastNaming all front segment back) : (all.filter isNamingSegment).getLast? = some segment := by
  have none_ : back.filter isNamingSegment = [] :=
    List.filter_eq_nil_iff.mpr fun other member => by simp [last.silent other member]
  rw [last.parts, List.filter_append, List.filter_cons_of_pos last.naming, none_, List.getLast?_concat]

/-- The name is the sanitized stem of the last segment that names something. -/
theorem IsLastNaming.name {path : String} {front back : List (List Char)} {segment : List Char}
    (last : IsLastNaming (segments path) front segment back) :
    nameFromPath path = String.ofList (sanitized (stem segment)) := by
  have found : lastSegment (trimWhere (· == '"') path.toList) = segment := by
    rw [lastSegment, show splitWhere isPathSeparator (trimWhere (· == '"') path.toList) = segments path from rfl, last.getLast?]
    rfl
  rw [nameFromPath, found, sanitized, stem]

/-! ## Characters of names -/

theorem isNamePart_of_mem_sanitized {chars : List Char} : ∀ c ∈ sanitized chars, isNamePart c = true := by
  intro c member
  obtain ⟨d, -, rfl⟩ := List.mem_map.mp member
  split
  · assumption
  · rfl

/-- Whatever the path, its name has the characters of names only. -/
theorem isNamePart_of_mem_nameFromPath {path : String} : ∀ c ∈ (nameFromPath path).toList, isNamePart c = true := by
  rw [nameFromPath, String.toList_ofList]
  exact isNamePart_of_mem_sanitized

theorem toNat_lt_of_isAlphanum {c : Char} (ascii : c.isAlphanum = true) : c.toNat < 128 := by
  rcases Bool.or_eq_true_iff.mp ascii with letter | digit
  · rcases Bool.or_eq_true_iff.mp letter with upper | lower
    · exact Nat.lt_of_le_of_lt (of_decide_eq_true upper).2 (by decide)
    · exact Nat.lt_of_le_of_lt (of_decide_eq_true (Bool.and_eq_true_iff.mp lower).2) (by decide)
  · exact Nat.lt_of_le_of_lt (of_decide_eq_true (Bool.and_eq_true_iff.mp digit).2) (by decide)

/-- A character of a name goes on with a name. -/
theorem goesOn_of_isNamePart {c : Char} (part : isNamePart c = true) : (isAlphanumeric c || c == '_') = true := by
  rw [isNamePart, Bool.or_eq_true] at part
  rcases part with ascii | underscore
  · rw [isAlphanumeric, if_pos (toNat_lt_of_isAlphanum ascii), ascii, Bool.true_or]
  · rw [underscore, Bool.or_true]

theorem visible_of_isNamePart {c : Char} (part : isNamePart c = true) : isBlank c = false := by
  refine not_blank_of_isNameChar ?_
  rw [isNameChar, goesOn_of_isNamePart part, Bool.true_or]

/-- A character of a name starts a name, unless it is a digit. -/
theorem startsName_of_isNamePart {c : Char} (part : isNamePart c = true) (noDigit : c.isDigit = false) : startsName c = true := by
  rw [isNamePart, Bool.or_eq_true, Char.isAlphanum, noDigit, Bool.or_false] at part
  rw [startsName, Bool.or_eq_true]
  refine part.imp_left fun letter => ?_
  have ascii : c.isAlphanum = true := by rw [Char.isAlphanum, letter, Bool.true_or]
  rw [isAlphabetic, if_pos (toNat_lt_of_isAlphanum ascii), letter]

theorem nameLength_of_isNamePart {rest : List Char} (parts : ∀ c ∈ rest, isNamePart c = true) :
    nameLength rest = rest.length := by
  induction rest with
  | nil => rfl
  | cons c more step =>
    rw [List.forall_mem_cons] at parts
    rw [nameLength, if_pos (goesOn_of_isNamePart parts.1), step parts.2, List.length_cons]

/-- **Characters of names are one identifier** when they are no reserved word and start with no digit. -/
theorem isWord_identifier_iff {chars : List Char} (parts : ∀ c ∈ chars, isNamePart c = true) :
    IsWord .identifier chars ↔ (∃ c ∈ chars.head?, c.isDigit = false) ∧ wordKind (String.ofList chars) = .identifier := by
  cases chars with
  | nil => simp [IsWord, scan, scanAfter]
  | cons c rest =>
    rw [List.forall_mem_cons] at parts
    have visible := visible_of_isNamePart parts.1
    cases digit : c.isDigit with
    | true => simp [isWord_iff, classify_number visible digit, digit]
    | false =>
      have starts := startsName_of_isNamePart parts.1 digit
      have all := nameLength_of_isNamePart parts.2
      simp [isWord_iff, classify_name visible digit starts, all, digit]

/-- The words that are no reserved ones and no booleans are identifiers. -/
theorem wordKind_identifier_iff (word : String) :
    wordKind word = .identifier ↔ Keyword.ofSpelling? word = none ∧ word ≠ "true" ∧ word ≠ "false" := by
  unfold wordKind
  cases Keyword.ofSpelling? word with
  | some keyword => simp
  | none => simp

/-! ## Naming twice -/

theorem dropWhile_of_none {test : Char → Bool} {chars : List Char} (none_ : ∀ c ∈ chars, test c = false) :
    chars.dropWhile test = chars := by
  cases chars with
  | nil => rfl
  | cons c rest => exact List.dropWhile_cons_of_neg (by simp [none_ c List.mem_cons_self])

/-- Nothing is taken off the ends of a text that has none of the characters. -/
theorem trimWhere_of_none {test : Char → Bool} {chars : List Char} (none_ : ∀ c ∈ chars, test c = false) :
    trimWhere test chars = chars := by
  rw [trimWhere, dropWhile_of_none none_, dropWhile_of_none (by simpa using none_), List.reverse_reverse]

/-- A path without separators is its own last segment. -/
theorem lastSegment_of_none {chars : List Char} (none_ : ∀ c ∈ chars, isPathSeparator c = false) : lastSegment chars = chars := by
  rw [lastSegment, Written.splitWhere_none none_, List.filter_singleton]
  cases isNamingSegment chars <;> rfl

/-- **A name is its own name**: it has no quotes, no separators, no dots, and nothing to replace. -/
theorem nameFromPath_eq_self {name : String} (parts : ∀ c ∈ name.toList, isNamePart c = true) : nameFromPath name = name := by
  have other {d : Char} (notPart : isNamePart d = false) : ∀ c ∈ name.toList, (c == d) = false := by
    intro c member
    refine beq_false_of_ne fun same => ?_
    rw [← same, parts c member] at notPart
    cases notPart
  have unquoted : trimWhere (· == '"') name.toList = name.toList := trimWhere_of_none (other rfl)
  have whole : lastSegment name.toList = name.toList :=
    lastSegment_of_none fun c member => by rw [isPathSeparator, other rfl c member, other rfl c member]; rfl
  have undotted : name.toList.takeWhile (· != '.') = name.toList :=
    List.takeWhile_eq_self_iff.mpr fun c member => by rw [bne, other rfl c member]; rfl
  have kept : (name.toList.map fun c => if isNamePart c then c else '_') = name.toList :=
    (List.map_congr_left fun c member => if_pos (parts c member)).trans (List.map_id' _)
  rw [nameFromPath, unquoted, whole, undotted, kept, String.ofList_toList]

/-! ## Identifiers -/

/-- The text is read as a single identifier. -/
def IsIdentifier (text : String) : Prop :=
  ∃ token, tokenize text = [token] ∧ token.kind = .identifier

theorem isIdentifier_iff {text : String} : IsIdentifier text ↔ IsWord .identifier text.toList := by
  constructor
  · rintro ⟨token, whole, isName⟩
    obtain ⟨kind, isWord⟩ := isWord_of_single (show (tokenize text).length = 1 by rw [whole]; rfl)
    have scanned : scan text.toList = [⟨kind, text.toList⟩] := isWord
    rw [tokenize, tokenizeAt, scanned] at whole
    obtain rfl := (List.cons.inj whole).1
    have same : kind = .identifier := isName
    exact same ▸ isWord
  · intro isWord
    have scanned : scan text.toList = [⟨.identifier, text.toList⟩] := isWord
    exact ⟨_, by rw [tokenize, tokenizeAt, scanned]; rfl, rfl⟩

instance (text : String) : Decidable (IsIdentifier text) :=
  decidable_of_iff _ isIdentifier_iff.symm

/-- The first character of a segment is the first one of its name, if it is no dot; a digit stays one. -/
theorem head_sanitized_stem (segment : List Char) :
    (∃ c ∈ (sanitized (stem segment)).head?, c.isDigit = false) ↔ ∃ c ∈ segment.head?, c ≠ '.' ∧ c.isDigit = false := by
  cases segment with
  | nil => simp [stem, sanitized]
  | cons c rest =>
    by_cases dot : c = '.'
    · simp [stem, sanitized, dot]
    · have kept : stem (c :: rest) = c :: stem rest := List.takeWhile_cons_of_pos (by simpa using dot)
      have same : (if isNamePart c then c else '_').isDigit = c.isDigit := by
        cases part : isNamePart c with
        | true => rfl
        | false =>
          rw [isNamePart, Char.isAlphanum, Bool.or_eq_false_iff, Bool.or_eq_false_iff] at part
          rw [part.1.2]
          rfl
      simp [kept, sanitized, dot, same]

/-- **The name of a path is an identifier exactly if** the last segment that names something starts with neither a dot nor a
digit, and the name is no reserved word. It is empty exactly if the segment starts with a dot. In any case it has the characters
of names only, and it is its own name. -/
theorem nameFromPath_identifier_iff (path : String) (named : ∃ segment ∈ segments path, isNamingSegment segment = true) :
    ∃ front segment back, IsLastNaming (segments path) front segment back ∧
      (IsIdentifier (nameFromPath path) ↔
        (∃ c ∈ segment.head?, c ≠ '.' ∧ c.isDigit = false) ∧
          Keyword.ofSpelling? (nameFromPath path) = none ∧ nameFromPath path ≠ "true" ∧ nameFromPath path ≠ "false") ∧
      (nameFromPath path = "" ↔ segment.head? = some '.') ∧
      (∀ c ∈ (nameFromPath path).toList, isNamePart c = true) ∧
      nameFromPath (nameFromPath path) = nameFromPath path := by
  obtain ⟨front, segment, back, last⟩ := exists_isLastNaming named
  have parts : ∀ c ∈ (nameFromPath path).toList, isNamePart c = true := isNamePart_of_mem_nameFromPath
  refine ⟨front, segment, back, last, ?_, ?_, parts, nameFromPath_eq_self parts⟩
  · rw [isIdentifier_iff, isWord_identifier_iff parts, String.ofList_toList, wordKind_identifier_iff]
    refine and_congr_left fun _ => ?_
    rw [last.name, String.toList_ofList]
    exact head_sanitized_stem segment
  · have some_ : segment ≠ [] := by
      rintro rfl
      exact absurd last.naming (by decide)
    obtain ⟨c, rest, rfl⟩ := List.exists_cons_of_ne_nil some_
    rw [last.name, ← String.toList_inj, String.toList_ofList]
    by_cases dot : c = '.' <;> simp [sanitized, stem, dot]

/-- A path in quotes, with both separators, whose last two segments name nothing. -/
def nestedPath : String :=
  "\"./src\\string-helpers.derw/./..\""

theorem nameFromPath_identifier_iff_nested :
    (∃ segment ∈ segments nestedPath, isNamingSegment segment = true) ∧ IsIdentifier (nameFromPath nestedPath) ∧
      nameFromPath (nameFromPath nestedPath) = "string_helpers" := by
  have named : ∃ segment ∈ segments nestedPath, isNamingSegment segment = true := by decide
  have name : nameFromPath nestedPath = "string_helpers" := by decide
  obtain ⟨front, segment, back, last, identifier, -, -, again⟩ := nameFromPath_identifier_iff nestedPath named
  have found := last.getLast?
  rw [show ((segments nestedPath).filter isNamingSegment).getLast? = some "string-helpers.derw".toList by decide] at found
  obtain rfl := Option.some.inj found
  refine ⟨named, identifier.mpr ⟨⟨'s', rfl, by decide, by decide⟩, ?_⟩, again.trans name⟩
  rw [name]
  decide

/-- **Not every segment makes an identifier**: of a hidden file no name is left, a name may start with a digit, and a segment may
be a reserved word or a boolean. -/
theorem segment_no_identifier :
    ((∃ segment ∈ segments "./2d", isNamingSegment segment = true) ∧ nameFromPath "./2d" = "2d" ∧ ¬ IsIdentifier "2d") ∧
      ((∃ segment ∈ segments "./.hidden", isNamingSegment segment = true) ∧ nameFromPath "./.hidden" = "" ∧ ¬ IsIdentifier "") ∧
      ((∃ segment ∈ segments "./type", isNamingSegment segment = true) ∧ nameFromPath "./type" = "type" ∧
        ¬ IsIdentifier "type") ∧
      (∃ segment ∈ segments "../true.derw", isNamingSegment segment = true) ∧ nameFromPath "../true.derw" = "true" ∧
        ¬ IsIdentifier "true" := by
  decide

end Text

end DerwLang
