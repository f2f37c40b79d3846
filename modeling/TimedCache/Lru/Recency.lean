import TimedCache.Lru.Command

/-!
# Recency lists

What a bounded cache is meant to be, without slots and links: the list of its keys and
values from the least to the most recently used one. Using a key moves it to the end, and
too long a list loses its front. Hooks have no part in it.
-/

namespace TimedCache.Lru

/-- Keys and values from the least to the most recently used one. -/
abbrev Recency (K V : Type) := List (K × V)

namespace Recency

variable {K V : Type}

/-- The end of the list, as far as it fits. -/
def trim (capacity : Nat) (l : Recency K V) : Recency K V := l.drop (l.length - capacity)

/-- What fits is no longer than the capacity. -/
theorem trim_length (capacity : Nat) (l : Recency K V) :
    (trim capacity l).length = min l.length capacity := by
  rw [trim, List.length_drop]
  omega

/-- A list that fits is not cut. -/
theorem trim_of_length_le {capacity : Nat} {l : Recency K V} (h : l.length ≤ capacity) :
    trim capacity l = l := by
  rw [trim, Nat.sub_eq_zero_of_le h, List.drop_zero]

variable [DecidableEq K]

/-- The list without a key. -/
def remove (l : Recency K V) (key : K) : Recency K V := l.filter fun p => p.1 != key

/-- The list with a key at its end. -/
def use (l : Recency K V) (key : K) (value : V) : Recency K V := remove l key ++ [(key, value)]

/-- Replaces the value of a key that is present, else adds the key and drops what no longer
fits. -/
def put (capacity : Nat) (l : Recency K V) (key : K) (value : V) : Recency K V :=
  if (l.lookup key).isSome then use l key value else trim capacity (l ++ [(key, value)])

/-- Uses a key, if it is present. -/
def get (l : Recency K V) (key : K) : Recency K V :=
  match l.lookup key with
  | none => l
  | some value => use l key value

/-- Carries out a command; the answer is the one a bounded cache gives. -/
def step (capacity : Nat) (l : Recency K V) : Command K V → Recency K V × Reply K V
  | .put key value _ => (put capacity l key value, .value (l.lookup key))
  | .get key => (get l key, .value (l.lookup key))
  | .peek key => (l, .value (l.lookup key))
  | .contains key => (l, .flag (l.lookup key).isSome)
  | .remove key => (remove l key, .value (l.lookup key))
  | .clear => ([], .nothing)
  | .setObserver _ => (l, .nothing)
  | .arm _ => (l, .nothing)

end Recency

end TimedCache.Lru
