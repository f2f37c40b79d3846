/-!
# Unsigned numerals

Reading a whole text as an unsigned number below a bound. A plus sign may stand in front
and leading zeros are allowed; a minus sign, blanks and separators are not. A text may be
far longer than the bound, so numbers are read up to a cap, and `ofDigits_eq` says that
nothing below the cap is lost.
-/

namespace TimedCache.Text

/-- The value of a digit in a base up to sixteen. -/
def digitValue? (base : Nat) (c : Char) : Option Nat :=
  let n := c.toNat
  let value :=
    if 48 ≤ n && n ≤ 57 then some (n - 48)
    else if 97 ≤ n && n ≤ 102 then some (n - 87)
    else if 65 ≤ n && n ≤ 70 then some (n - 55)
    else none
  value.filter (· < base)

/-- The leading digits of a text, and what follows them. -/
def spanDigits (base : Nat) (cs : List Char) : List Nat × List Char :=
  let isDigit (c : Char) := (digitValue? base c).isSome
  ((cs.takeWhile isDigit).filterMap (digitValue? base), cs.dropWhile isDigit)

/-- The number that digits spell, the leading digit first, or `cap` if that is less. -/
def ofDigits (base cap : Nat) (digits : List Nat) : Nat :=
  digits.foldl (fun n d => min cap (n * base + d)) 0

/-- Capping a number before the next digit is taken in makes no difference behind it. -/
theorem min_mul_add {base : Nat} (h : 0 < base) (cap n d : Nat) :
    min cap (min cap n * base + d) = min cap (n * base + d) := by
  rcases Nat.le_total n cap with hn | hn
  · rw [Nat.min_eq_right hn]
  · have hcap : cap ≤ cap * base := Nat.le_mul_of_pos_right cap h
    have hmul : cap * base ≤ n * base := Nat.mul_le_mul_right base hn
    rw [Nat.min_eq_left hn, Nat.min_eq_left (by omega), Nat.min_eq_left (by omega)]

/-- Digits are read up to the cap as if there were none. -/
theorem ofDigits_eq {base : Nat} (h : 0 < base) (cap : Nat) (digits : List Nat) :
    ofDigits base cap digits = min cap (digits.foldl (fun n d => n * base + d) 0) := by
  suffices key : ∀ n, digits.foldl (fun n d => min cap (n * base + d)) (min cap n) =
      min cap (digits.foldl (fun n d => n * base + d) n) by
    simpa [ofDigits] using key 0
  intro n
  induction digits generalizing n with
  | nil => rfl
  | cons d digits ih => rw [List.foldl_cons, List.foldl_cons, min_mul_add h, ih]

/-- The unsigned number below `bound` that the whole text spells. -/
def unsigned? (bound : Nat) (cs : List Char) : Option Nat :=
  let body := match cs with
    | '+' :: rest => rest
    | _ => cs
  match spanDigits 10 body with
  | (d :: digits, []) => some (ofDigits 10 bound (d :: digits)) |>.filter (· < bound)
  | _ => none

end TimedCache.Text
