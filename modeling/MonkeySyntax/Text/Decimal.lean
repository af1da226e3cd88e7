/-! # Decimal numbers

The value of a run of decimal digits.

* `digitsValue`: the number that digits stand for.
* `integerValue?`: the value of a literal that fits in a signed word of 64 bits.
-/

namespace MonkeySyntax

/-- The number that a run of decimal digits stands for, the most significant digit first. -/
def digitsValue (digits : List Char) : Nat :=
  digits.foldl (fun n c => 10 * n + (c.toNat - '0'.toNat)) 0

@[simp] theorem digitsValue_nil : digitsValue [] = 0 := rfl

/-- Another digit multiplies the value by ten and adds its own. -/
theorem digitsValue_append_singleton (digits : List Char) (c : Char) :
    digitsValue (digits ++ [c]) = 10 * digitsValue digits + (c.toNat - '0'.toNat) := by
  simp [digitsValue]

/-- The first number beyond the range of literals, 2^63. -/
def integerBound : Nat := 9_223_372_036_854_775_808

/-- The **value of a literal**: one or more digits whose value is below the bound. -/
def integerValue? (text : String) : Option Int :=
  let digits := text.toList
  if digits.isEmpty || !digits.all Char.isDigit then
    none
  else if digitsValue digits < integerBound then
    some (Int.ofNat (digitsValue digits))
  else
    none

/-- A run of digits has a value unless it is too large. -/
theorem integerValue?_of_digits {text : String} (hne : text.toList ≠ [])
    (hdigits : ∀ c ∈ text.toList, c.isDigit = true) :
    integerValue? text = if digitsValue text.toList < integerBound then
      some (Int.ofNat (digitsValue text.toList)) else none := by
  have hall : text.toList.all Char.isDigit = true := List.all_eq_true.2 hdigits
  have hempty : text.toList.isEmpty = false := List.isEmpty_eq_false_iff.2 hne
  simp only [integerValue?, hall, hempty]
  rfl

end MonkeySyntax
