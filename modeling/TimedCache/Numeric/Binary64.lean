/-!
# Binary64 quotients

The nearest double to a natural number and to a quotient of two natural numbers, ties to
the even neighbour, computed exactly on natural numbers and delivered as the 64 bits of
the double. Only non-negative values in the normal range occur here; there are no
subnormal results, infinities or signs.
-/

namespace TimedCache.Binary64

/-- The quotient rounded to the nearest natural number, ties to the even one. -/
def divToEven (n d : Nat) : Nat :=
  let q := n / d
  let r := n % d
  if 2 * r < d then q else if d < 2 * r then q + 1 else q + q % 2

/-- The nearest natural number with at most 53 significant bits. -/
def round53 (n : Nat) : Nat :=
  let unit := 1 <<< (n.log2 - 52)
  divToEven n unit * unit

/-- The bits of the double nearest to `num / den`.

The quotient is scaled to a mantissa between `2 ^ 52` and `2 ^ 53`; a mantissa that
rounds up to `2 ^ 53` carries into the exponent field by the addition. -/
def quotientBits (num den : Nat) : Nat :=
  if num = 0 ∨ den = 0 then 0 else
    let n := num <<< (52 + den.log2)
    let d := den <<< num.log2
    let exponent := 1023 + num.log2 - den.log2
    if n < d <<< 52 then (exponent - 2) <<< 52 + divToEven (2 * n) d
    else (exponent - 1) <<< 52 + divToEven n d

/-- The bits of the double quotient of two counts, each first rounded to a double. -/
def ratioBits (part whole : Nat) : Nat := quotientBits (round53 part) (round53 whole)

/-- The value `significand * 10 ^ power`, computed in doubles, is beyond the largest double. -/
def overflows (significand : Nat) (power : Int) : Bool :=
  decide (significand ≠ 0 ∧ 0 ≤ power ∧
    (308 < power ∨
      ((1 <<< 54) - 1) <<< 970 ≤ round53 significand * round53 (Nat.pow 10 power.toNat)))

/-- A remainder below half is dropped. -/
theorem divToEven_exact (n : Nat) {d : Nat} (h : 0 < d) : divToEven (n * d) d = n := by
  simp [divToEven, Nat.mul_div_cancel n h, h]

/-- Numbers of at most 53 bits are doubles already. -/
theorem round53_of_log2_le {n : Nat} (h : n.log2 ≤ 52) : round53 n = n := by
  have hunit : 1 <<< (n.log2 - 52) = 1 := by rw [Nat.sub_eq_zero_of_le h, Nat.shiftLeft_zero]
  have hexact := divToEven_exact n Nat.one_pos
  rw [Nat.mul_one] at hexact
  rw [round53, hunit, hexact, Nat.mul_one]

end TimedCache.Binary64
