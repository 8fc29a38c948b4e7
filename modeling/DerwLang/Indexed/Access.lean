/-
**Access that can miss.**

Items are asked for by an index, parts by two, and characters by the number of bytes in front of them. Each access says what
is wrong (`Fault`) when there is nothing at its place: an index or a slice that reaches outside, a slice that cuts a character,
a difference below zero. A loop that outlasts its input is a fault too, so that no bound on it hides an access.
-/

import DerwLang.Text.Class

namespace DerwLang

/-- What can be wrong with an access. -/
inductive Fault
  /-- there is no item at the index -/
  | index
  /-- the slice ends before it starts, or reaches outside -/
  | slice
  /-- the slice cuts a character -/
  | character
  /-- the difference is below zero -/
  | difference
  /-- the loop outlasts its input -/
  | endless
deriving DecidableEq, Repr

/-- What is computed with accesses that can miss. -/
abbrev Checked := Except Fault

namespace Checked

variable {α : Type}

/-- The item at an index. -/
def item (items : List α) (index : Nat) : Checked α :=
  match items[index]? with
  | some item => .ok item
  | none => .error .index

/-- The items from one index up to another one. -/
def slice (items : List α) (start stop : Nat) : Checked (List α) :=
  if start ≤ stop ∧ stop ≤ items.length then .ok ((items.take stop).drop start) else .error .slice

/-- The difference of two counters. -/
def minus (first second : Nat) : Checked Nat :=
  if second ≤ first then .ok (first - second) else .error .difference

/-- The first index of several where the test holds. -/
def firstIndex (test : Nat → Checked Bool) : (count index : Nat) → Checked (Option Nat)
  | 0, _ => .ok none
  | count + 1, index => do
    if ← test index then return some index else firstIndex test count (index + 1)

/-! ## Characters -/

/-- The number of bytes that the characters take. -/
def bytes (chars : List Char) : Nat :=
  chars.foldr (fun c total => c.utf8Size + total) 0

/-- The characters behind a number of bytes. -/
def charsFrom : List Char → Nat → Checked (List Char)
  | chars, 0 => .ok chars
  | [], _ + 1 => .error .slice
  | c :: rest, count + 1 =>
    if c.utf8Size ≤ count + 1 then charsFrom rest (count + 1 - c.utf8Size) else .error .character

/-- The characters that take a number of bytes. -/
def charsUpTo : List Char → Nat → Checked (List Char)
  | _, 0 => .ok []
  | [], _ + 1 => .error .slice
  | c :: rest, count + 1 =>
    if c.utf8Size ≤ count + 1 then (c :: ·) <$> charsUpTo rest (count + 1 - c.utf8Size) else .error .character

/-- The characters from one byte up to another one. -/
def chars (text : List Char) (start stop : Nat) : Checked (List Char) :=
  if start ≤ stop then do
    let rest ← charsFrom text start
    charsUpTo rest (stop - start)
  else .error .slice

end Checked

end DerwLang
