import Mathlib.Data.List.Nodup

/-!
# Lists of pairs as finite maps

A list of keys and values in which no key occurs twice is a finite map: looking a key up
finds exactly its pair. These are the laws that the maps of the caches are read by, for
dropping keys and for adding a key at the end.
-/

namespace TimedCache

variable {K V : Type}

/-- Dropping pairs keeps the keys distinct. -/
theorem nodup_keys_filter {l : List (K × V)} (h : (l.map Prod.fst).Nodup) (keep : K × V → Bool) :
    ((l.filter keep).map Prod.fst).Nodup :=
  h.sublist (List.filter_sublist.map Prod.fst)

/-- Adding a new key at the end keeps the keys distinct. -/
theorem nodup_keys_concat {l : List (K × V)} (h : (l.map Prod.fst).Nodup) {key : K}
    (hkey : key ∉ l.map Prod.fst) (v : V) : ((l ++ [(key, v)]).map Prod.fst).Nodup := by
  rw [List.map_append]
  refine List.nodup_append.mpr ⟨h, List.nodup_singleton _, fun a ha b hb he => hkey ?_⟩
  have hb : b = key := List.mem_singleton.mp hb
  exact hb ▸ he ▸ ha

variable [DecidableEq K]

/-- Without repeated keys, looking a key up finds exactly the pair it is in. -/
theorem lookup_eq_some_iff_mem {l : List (K × V)} (h : (l.map Prod.fst).Nodup) {key : K} {v : V} :
    l.lookup key = some v ↔ (key, v) ∈ l := by
  induction l with
  | nil => simp
  | cons p rest ih =>
    obtain ⟨k, w⟩ := p
    obtain ⟨hk, hrest⟩ := List.nodup_cons.mp h
    by_cases he : key = k
    · subst he
      have hout : (key, v) ∉ rest := fun hm => hk (List.mem_map.mpr ⟨(key, v), hm, rfl⟩)
      simp [hout, eq_comm]
    · have hbeq : (key == k) = false := beq_eq_false_iff_ne.mpr he
      simp [List.lookup_cons, hbeq, he, ih hrest]

/-- A pair that is found is one of the pairs. -/
theorem mem_of_lookup {l : List (K × V)} {key : K} {v : V} (h : l.lookup key = some v) :
    (key, v) ∈ l := by
  obtain ⟨front, back, rfl, -⟩ := List.lookup_eq_some_iff.mp h
  simp

/-- A key is not found exactly when it is none of the keys. -/
theorem lookup_eq_none_iff_not_mem {l : List (K × V)} {key : K} :
    l.lookup key = none ↔ key ∉ l.map Prod.fst := by
  rw [List.lookup_eq_none_iff, List.mem_map]
  constructor
  · rintro h ⟨p, hp, rfl⟩
    simpa using h p hp
  · intro h p hp
    simpa using fun he : key = p.1 => h ⟨p, hp, he.symm⟩

/-- Dropping some keys drops what is looked up under them, and nothing else. -/
theorem lookup_filter_key (l : List (K × V)) (keep : K → Bool) (key : K) :
    (l.filter fun p => keep p.1).lookup key = if keep key then l.lookup key else none := by
  induction l with
  | nil => simp
  | cons p rest ih =>
    obtain ⟨k, v⟩ := p
    by_cases hkey : key = k
    · subst hkey
      cases hkeep : keep key <;> simp [hkeep, ih]
    · have hbeq : (key == k) = false := beq_eq_false_iff_ne.mpr hkey
      cases hkeep : keep k <;> simp [hkeep, List.lookup_cons, hbeq, ih]

/-- Dropping one key leaves the others as they are. -/
theorem lookup_filter_ne (l : List (K × V)) (dropped key : K) :
    (l.filter fun p => p.1 != dropped).lookup key = if key = dropped then none else l.lookup key := by
  rw [lookup_filter_key l (· != dropped)]
  by_cases h : key = dropped <;> simp [h]

/-- Dropping a key that is not there changes nothing. -/
theorem filter_ne_of_not_mem {l : List (K × V)} {key : K} (h : key ∉ l.map Prod.fst) :
    (l.filter fun p => p.1 != key) = l := by
  refine List.filter_eq_self.mpr fun p hp => ?_
  simpa using fun he : p.1 = key => h (he ▸ List.mem_map_of_mem hp)

/-- Without repeated keys, dropping one that is there drops one pair. -/
theorem length_filter_ne {l : List (K × V)} (h : (l.map Prod.fst).Nodup) {key : K}
    (hkey : key ∈ l.map Prod.fst) : (l.filter fun p => p.1 != key).length + 1 = l.length := by
  have hone : l.countP (fun p => p.1 == key) = 1 := by
    rw [← List.count_eq_one_of_mem h hkey, List.count, List.countP_map]
    rfl
  have hothers : (l.filter fun p => p.1 != key).length = l.countP fun p => ¬(p.1 == key) = true := by
    rw [← List.countP_eq_length_filter]
    exact List.countP_congr fun p _ => by simp
  have hsplit := List.length_eq_countP_add_countP (fun p => p.1 == key) (l := l)
  omega

/-- Without repeated keys, dropping a key drops its pair and nothing else. -/
theorem cons_filter_ne_perm {l : List (K × V)} (h : (l.map Prod.fst).Nodup) {p : K × V} (hp : p ∈ l) :
    (p :: l.filter fun q => q.1 != p.1).Perm l := by
  induction l with
  | nil => cases hp
  | cons first rest ih =>
    obtain ⟨hfirst, hrest⟩ := List.nodup_cons.mp h
    rcases List.mem_cons.mp hp with rfl | hp
    · rw [List.filter_cons_of_neg (by simp), filter_ne_of_not_mem hfirst]
    · have hne : first.1 ≠ p.1 := fun he => hfirst (he ▸ List.mem_map_of_mem hp)
      rw [List.filter_cons_of_pos (by simpa using hne)]
      exact (List.Perm.swap first p _).trans ((ih hrest hp).cons first)

/-- Without repeated keys, dropping pairs drops what is looked up exactly under their keys. -/
theorem lookup_filter {l : List (K × V)} (h : (l.map Prod.fst).Nodup) (keep : K × V → Bool)
    (key : K) : (l.filter keep).lookup key = (l.lookup key).filter fun v => keep (key, v) := by
  ext v
  rw [lookup_eq_some_iff_mem (nodup_keys_filter h keep), List.mem_filter, Option.filter_eq_some_iff,
    lookup_eq_some_iff_mem h]

/-- Changing values changes what is looked up, and leaves the keys as they are. -/
theorem lookup_map_value {W : Type} (l : List (K × V)) (f : K × V → W) (key : K) :
    (l.map fun p => (p.1, f p)).lookup key = (l.lookup key).map fun v => f (key, v) := by
  induction l with
  | nil => rfl
  | cons p rest ih =>
    obtain ⟨k, v⟩ := p
    by_cases hkey : key = k
    · subst hkey
      simp
    · have hbeq : (key == k) = false := beq_eq_false_iff_ne.mpr hkey
      simp only [List.map_cons, List.lookup_cons, hbeq, ih]

/-- Changing the value under one key leaves the others as they are. -/
theorem lookup_alter (l : List (K × V)) (altered : K) (f : V → V) (key : K) :
    (l.map fun p => if p.1 = altered then (p.1, f p.2) else p).lookup key
      = if key = altered then (l.lookup key).map f else l.lookup key := by
  have hvalue : (fun p : K × V => if p.1 = altered then (p.1, f p.2) else p)
      = fun p => (p.1, if p.1 = altered then f p.2 else p.2) := by
    funext p
    split <;> rfl
  rw [hvalue, lookup_map_value]
  by_cases hkey : key = altered <;> simp [hkey]

end TimedCache
