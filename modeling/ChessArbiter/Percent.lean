/-!
# Percentages with two decimals

A percentage is worked out as a binary number of 53 significant bits, the nearest to the exact
quotient, and that number is then rounded to hundredths. Both roundings take the even neighbour
when the two are equally near.
-/

namespace ChessArbiter.Percent

/-- The integer nearest to a quotient, the even one of two. -/
def roundDiv (num den : Nat) : Nat :=
  let q := num / den
  let r := num % den
  if 2 * r < den then q else if den < 2 * r then q + 1 else q + q % 2

/-- The power of two by which `num / den`, at most 128, is scaled to have 53 bits. -/
def scale (num den : Nat) : Nat :=
  let k := 53 + den.log2 - num.log2
  if den <<< 53 ≤ num <<< k then k - 1 else k

def hundredths (num den : Nat) : Nat :=
  let k := scale num den
  roundDiv (100 * roundDiv (num <<< k) den) (1 <<< k)

def pad2 (n : Nat) : String := (if n < 10 then "0" else "") ++ toString n

/-- How much of `total` a part is; all of it when there is nothing. -/
def text (part total : Nat) : String :=
  let h := if total = 0 then 10000 else hundredths (100 * part) total
  toString (h / 100) ++ "." ++ pad2 (h % 100)

end ChessArbiter.Percent
