/-
**Format strings in Elm.**

Elm has no format strings: one becomes a chain of `++` over its pieces, which are quoted texts and the trimmed
expressions in its holes. A hole that is not closed is text.
-/

import DerwLang.Text.Layout

namespace DerwLang.Elm

/-- A piece of a format string. -/
inductive Piece
  | text (chars : List Char)
  | hole (chars : List Char)
deriving DecidableEq, Repr

/-- The characters before the next hole opens, and those after its opening if there is a hole. -/
def untilHole : List Char → List Char × Option (List Char)
  | [] => ([], none)
  | '$' :: '\x7b' :: rest => ([], some rest)
  | c :: rest =>
    let next := untilHole rest
    (c :: next.1, next.2)

/-- The characters of a hole, and those after its closing bracket. -/
def closeHole : List Char → Option (List Char × List Char)
  | [] => none
  | c :: rest =>
    if c == '\x7d' then some ([], rest)
    else (closeHole rest).map fun hole => (c :: hole.1, hole.2)

/-- A text piece, unless it would be empty. -/
def textPiece (chars : List Char) : List Piece :=
  if chars.isEmpty then [] else [.text chars]

/-- What follows the opening of a hole is shorter. -/
theorem length_untilHole {chars after : List Char} (found : (untilHole chars).2 = some after) :
    after.length < chars.length := by
  fun_induction untilHole chars with
  | case1 => simp at found
  | case2 rest =>
    simp only [Option.some.injEq] at found
    simp only [← found, List.length_cons]
    omega
  | case3 c rest _ next step =>
    have := step found
    simp only [List.length_cons]
    omega

/-- What follows the closing of a hole is shorter. -/
theorem length_closeHole {chars : List Char} {hole : List Char × List Char}
    (found : closeHole chars = some hole) : hole.2.length < chars.length := by
  induction chars generalizing hole with
  | nil => simp [closeHole] at found
  | cons c rest step =>
    simp only [closeHole] at found
    split at found
    · simp only [Option.some.injEq] at found
      simp [← found]
    · simp only [Option.map_eq_some_iff] at found
      obtain ⟨inner, smaller, rfl⟩ := found
      have := step smaller
      simp only [List.length_cons]
      omega

/-- The pieces of a format string, in order. -/
def pieces (chars : List Char) : List Piece :=
  let before := (untilHole chars).1
  match _found : (untilHole chars).2 with
  | none => textPiece before
  | some after =>
    textPiece before ++
      match _closed : closeHole after with
      | none => [.text ('$' :: '\x7b' :: after)]
      | some hole => .hole hole.1 :: pieces hole.2
termination_by chars.length
decreasing_by
  have := length_untilHole _found
  have := length_closeHole _closed
  omega

/-- A piece as an Elm expression. -/
def Piece.toElm : Piece → String
  | .text chars => Text.quoted (String.ofList chars)
  | .hole chars => Text.trim (String.ofList chars)

/-- A format string as an Elm expression. -/
def formatString (body : String) : String :=
  match pieces body.toList with
  | [] => Text.quoted ""
  | found => String.intercalate " ++ " (found.map Piece.toElm)

/-- The format string has a hole, closed or not. -/
def hasHole (body : String) : Bool :=
  (untilHole body.toList).2.isSome

end DerwLang.Elm
