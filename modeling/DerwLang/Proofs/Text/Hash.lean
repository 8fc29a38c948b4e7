/-
**The hash is a polynomial.**

A step of the hash takes a signed word to thirty-one times the word and a unit, up to multiples of `2 ^ 32`: what wraps in the
shift, the difference and the sum is such a multiple. So the word after all units is congruent to the polynomial of the units in
31 (`toInt_foldl_hashStep`), and since one signed word only is, the hash is the absolute value of that word
(`hash_polynomial`). The absolute value is no signed word itself where the word is `-2 ^ 31`, and this is reached.
-/

import DerwLang.Text.Hash
import Mathlib.Data.Int.ModEq
import Mathlib.Tactic.Ring

namespace DerwLang.Text

/-! ## The loop -/

/-- The polynomial in 31 with the given coefficients, the last of which is the constant one. -/
def polynomial : List Nat → Nat
  | [] => 0
  | unit :: rest => unit * 31 ^ rest.length + polynomial rest

/-- A signed word that is congruent to a number. -/
structure IsWord32 (number : Nat) (word : Int) : Prop where
  lower : -2 ^ 31 ≤ word
  upper : word < 2 ^ 31
  congruent : word ≡ number [ZMOD 2 ^ 32]

/-- Wrapping is a matter of a multiple. -/
theorem bmod_modEq (number : Int) : number.bmod (2 ^ 32) ≡ number [ZMOD 2 ^ 32] :=
  Int.bmod_emod

/-- A shift by five places is a product. -/
theorem shiftLeft_five (h : Int32) : h <<< (5 : Int32) = h * 32 := by
  rw [← Int32.toBitVec_inj, Int32.toBitVec_shiftLeft, Int32.toBitVec_mul]
  exact BitVec.shiftLeft_eq_mul_twoPow _ 5

/-- **One step**: the word is multiplied by thirty-one and the unit is added. -/
theorem toInt_hashStep (h : Int32) (unit : Nat) : (hashStep h unit).toInt ≡ h.toInt * 31 + unit [ZMOD 2 ^ 32] := by
  have shifted : (h <<< (5 : Int32)).toInt ≡ h.toInt * 32 [ZMOD 2 ^ 32] := by
    rw [shiftLeft_five, Int32.toInt_mul]
    exact bmod_modEq _
  have less : (h <<< (5 : Int32) - h).toInt ≡ h.toInt * 32 - h.toInt [ZMOD 2 ^ 32] := by
    rw [Int32.toInt_sub]
    exact (bmod_modEq _).trans (shifted.sub_right _)
  have added : (Int32.ofNat unit).toInt ≡ unit [ZMOD 2 ^ 32] := by
    rw [Int32.toInt_ofNat']
    exact bmod_modEq _
  calc (hashStep h unit).toInt
      = ((h <<< (5 : Int32) - h).toInt + (Int32.ofNat unit).toInt).bmod (2 ^ 32) := Int32.toInt_add _ _
    _ ≡ (h <<< (5 : Int32) - h).toInt + (Int32.ofNat unit).toInt [ZMOD 2 ^ 32] := bmod_modEq _
    _ ≡ h.toInt * 32 - h.toInt + unit [ZMOD 2 ^ 32] := less.add added
    _ = h.toInt * 31 + unit := by ring

/-- **All steps**: the units are the coefficients behind that of the word they started with. -/
theorem toInt_foldl_hashStep (start : Int32) (coefficients : List Nat) :
    (coefficients.foldl hashStep start).toInt ≡ start.toInt * 31 ^ coefficients.length + polynomial coefficients
      [ZMOD 2 ^ 32] := by
  induction coefficients generalizing start with
  | nil => simp [polynomial]
  | cons unit rest step =>
    calc ((unit :: rest).foldl hashStep start).toInt
        ≡ (hashStep start unit).toInt * 31 ^ rest.length + polynomial rest [ZMOD 2 ^ 32] := step _
      _ ≡ (start.toInt * 31 + unit) * 31 ^ rest.length + polynomial rest [ZMOD 2 ^ 32] :=
        ((toInt_hashStep start unit).mul_right _).add_right _
      _ = start.toInt * 31 ^ (unit :: rest).length + polynomial (unit :: rest) := by
        rw [polynomial, List.length_cons, pow_succ]
        push_cast
        ring

/-! ## Words -/

theorem isWord32_foldl_hashStep (coefficients : List Nat) :
    IsWord32 (polynomial coefficients) (coefficients.foldl hashStep 0).toInt where
  lower := Int32.le_toInt _
  upper := Int32.toInt_lt _
  congruent := by simpa using toInt_foldl_hashStep 0 coefficients

/-- One signed word only is congruent to a number. -/
theorem IsWord32.unique {number : Nat} {first second : Int} (one : IsWord32 number first) (other : IsWord32 number second) :
    first = second := by
  have congruent := one.congruent.trans other.congruent.symm
  have := one.lower
  have := one.upper
  have := other.lower
  have := other.upper
  unfold Int.ModEq at congruent
  omega

/-! ## Units -/

theorem units_append (front back : String) : units (front ++ back) = units front ++ units back := by
  rw [units, String.toList_append, List.flatMap_append, units, units]

theorem units_singleton (c : Char) : units (String.singleton c) = unitsOf c := by
  simp [units]

/-- The code of a character outside the basic plane from its two surrogates. -/
structure IsSurrogatePair (c : Char) (high low : Nat) : Prop where
  isHigh : 0xD800 ≤ high ∧ high < 0xDC00
  isLow : 0xDC00 ≤ low ∧ low < 0xE000
  code : c.toNat = 0x10000 + (high - 0xD800) * 0x400 + (low - 0xDC00)

/-- A character outside the basic plane has two units. -/
theorem unitsOf_outside {c : Char} (outside : 0x10000 ≤ c.toNat) :
    ∃ high low, unitsOf c = [high, low] ∧ IsSurrogatePair c high low := by
  have bound : c.toNat < 0x110000 := by
    rcases c.valid with small | large
    · exact small.trans (by decide)
    · exact large.2
  refine ⟨_, _, if_neg (by omega), ?_, ?_, ?_⟩ <;> omega

theorem unitsOf_inside {c : Char} (inside : c.toNat < 0x10000) : unitsOf c = [c.toNat] :=
  if_pos inside

/-! ## The hash -/

/-- **The hash of a text is the absolute value of the signed word that is congruent to the polynomial of its units in 31.** It
is `2 ^ 31` at most; a character of the basic plane is one unit, its code, and any other one is its two surrogates. -/
theorem hash_polynomial (text : String) :
    (∃ word, IsWord32 (polynomial (units text)) word ∧ (∀ other, IsWord32 (polynomial (units text)) other → other = word) ∧
        hash text = word.natAbs) ∧
      hash text ≤ 2 ^ 31 ∧
      ∀ (front back : String) (c : Char), text = front ++ String.singleton c ++ back →
        if c.toNat < 0x10000 then units text = units front ++ [c.toNat] ++ units back
        else ∃ high low, units text = units front ++ [high, low] ++ units back ∧ IsSurrogatePair c high low := by
  have word := isWord32_foldl_hashStep (units text)
  refine ⟨⟨_, word, fun other same => same.unique word, rfl⟩, ?_, ?_⟩
  · have lower := word.lower
    have upper := word.upper
    rw [hash]
    omega
  · rintro front back c rfl
    rw [units_append, units_append, units_singleton]
    split
    · rw [unitsOf_inside ‹_›]
    · obtain ⟨high, low, pair, isPair⟩ := unitsOf_outside (Nat.le_of_not_lt ‹_›)
      exact ⟨high, low, by rw [pair], isPair⟩

/-- The least word, whose absolute value is no signed word, and a character outside the basic plane. -/
theorem hash_polynomial_least :
    IsWord32 (polynomial (units "polygenelubricants")) (-2 ^ 31) ∧ hash "polygenelubricants" = 2 ^ 31 ∧
      ∃ high low, units ("a" ++ String.singleton (Char.ofNat 0x1F600) ++ "b") = [97] ++ [high, low] ++ [98] ∧
        IsSurrogatePair (Char.ofNat 0x1F600) high low := by
  obtain ⟨⟨word, isWord, unique, hashed⟩, -, -⟩ := hash_polynomial "polygenelubricants"
  have least : IsWord32 (polynomial (units "polygenelubricants")) (-2 ^ 31) := ⟨by decide, by decide, by decide⟩
  have outside := (hash_polynomial ("a" ++ String.singleton (Char.ofNat 0x1F600) ++ "b")).2.2 "a" "b" _ rfl
  refine ⟨least, ?_, ?_⟩
  · rw [hashed, ← unique _ least]
    rfl
  · rwa [if_neg (by decide)] at outside

end DerwLang.Text
