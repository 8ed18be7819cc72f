/-!
# Ratios with six places

A ratio of two counts is the quotient of the counts in binary floating point with 53 bits, shown
with six places. Both roundings go to the nearest value, and a tie goes to the even one; they are
made on natural numbers.
-/

namespace SqlSyntax.Ratio

/-- The quotient rounded to the nearest number; a tie goes to the even one. -/
def roundDiv (n d : Nat) : Nat :=
  let q := n / d
  let r := n % d
  if d < 2 * r ∨ (2 * r = d ∧ q % 2 = 1) then q + 1 else q

/-- Digits of a binary floating-point number. -/
def precision : Nat := 53

/-- A count rounded to 53 bits. -/
def roundCount (n : Nat) : Nat :=
  let excess := n.log2 + 1 - precision
  roundDiv n (1 <<< excess) <<< excess

/-- The quotient of two counts with `n ≤ d` and `0 < n`, as `m` and `k` for the number `m / 2 ^ k`
with 53 bits. -/
def quotient (n d : Nat) : Nat × Nat :=
  let k := precision - 1 + (d.log2 - n.log2)
  let k := if n <<< k < d <<< (precision - 1) then k + 1 else k
  (roundDiv (n <<< k) d, k)

/-- A number of millionths with six places. -/
def renderMillionths (n : Nat) : String :=
  let places := toString (n % 1000000)
  toString (n / 1000000) ++ "." ++ "".pushn '0' (6 - places.length) ++ places

/-- The ratio of `used` to `total` with six places; zero if there is nothing. -/
def render (used total : Nat) : String :=
  if used = 0 ∨ total = 0 then renderMillionths 0
  else
    let (m, k) := quotient (roundCount used) (roundCount total)
    renderMillionths (roundDiv (m * 1000000) (1 <<< k))

end SqlSyntax.Ratio
