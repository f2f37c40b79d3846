import Mathlib.Data.List.Nodup
import TimedCache.Lru.Slab

/-!
# What the links of a slab spell

The links of a slab spell a sequence of slots when each slot of it is occupied and knows
its two neighbours, and the two ends of the slab are the ends of the sequence. Taking a
slot out of the chain erases it from the sequence, wherever it stands, and putting an
occupied slot at the end appends it. Neither touches what the slots hold, the stack of
vacant slots or the number of slots.
-/

namespace TimedCache.Lru.Slab

variable {K V : Type} {s s' : Slab K V}

/-- What a slot holds apart from its links. -/
def content? (s : Slab K V) (i : Nat) : Option (K × V × Option Name) :=
  (s.node? i).map fun n => (n.key, n.value, n.listener)

/-- The two links of an occupied slot. -/
def link? (s : Slab K V) (i : Nat) : Option (Option Nat × Option Nat) :=
  (s.node? i).map fun n => (n.prev, n.next)

/-- Each slot links to its neighbours; the given ends stand before the first slot and behind
the last. -/
def Linked (s : Slab K V) : Option Nat → List Nat → Option Nat → Prop
  | _, [], _ => True
  | before, i :: rest, after =>
    s.link? i = some (before, rest.head?.or after) ∧ s.Linked (some i) rest after

/-- The links spell a sequence of slots from the head to the tail. -/
structure Spells (s : Slab K V) (order : List Nat) : Prop where
  nodup : order.Nodup
  linked : s.Linked none order none
  head : s.head = order.head?
  tail : s.tail = order.getLast?

/-- The second slab differs from the first in its links only. -/
structure Relinked (s s' : Slab K V) : Prop where
  content : ∀ i, s'.content? i = s.content? i
  free : s'.free = s.free
  length : s'.slots.length = s.slots.length

theorem Relinked.trans {s'' : Slab K V} (h : s.Relinked s') (h' : s'.Relinked s'') :
    s.Relinked s'' :=
  ⟨fun i => (h'.content i).trans (h.content i), h'.free.trans h.free, h'.length.trans h.length⟩

/-- A slot with content is occupied. -/
theorem content?_eq_none_iff {i : Nat} : s.content? i = none ↔ s.node? i = none :=
  Option.map_eq_none_iff

/-- A linked slot holds a node with those links. -/
theorem node?_of_link? {i : Nat} {before after : Option Nat} (h : s.link? i = some (before, after)) :
    ∃ n, s.node? i = some n ∧ n.prev = before ∧ n.next = after := by
  obtain ⟨n, hn, he⟩ := Option.map_eq_some_iff.mp h
  simp only [Prod.mk.injEq] at he
  exact ⟨n, hn, he.1, he.2⟩

/-- A slot with content holds a node with that content. -/
theorem node?_of_content? {i : Nat} {key : K} {value : V} {listener : Option Name}
    (h : s.content? i = some (key, value, listener)) :
    ∃ n, s.node? i = some n ∧ n.key = key ∧ n.value = value ∧ n.listener = listener := by
  obtain ⟨n, hn, he⟩ := Option.map_eq_some_iff.mp h
  simp only [Prod.mk.injEq] at he
  exact ⟨n, hn, he.1, he.2.1, he.2.2⟩

/-- The content of an occupied slot is that of its node. -/
theorem content?_of_node? {i : Nat} {n : Node K V} (h : s.node? i = some n) :
    s.content? i = some (n.key, n.value, n.listener) := by
  rw [content?, h]
  rfl

/-- An occupied slot has a valid number. -/
theorem lt_of_node? {i : Nat} {n : Node K V} (h : s.node? i = some n) : i < s.slots.length := by
  by_contra hlt
  rw [Slab.node?, List.getElem?_eq_none (Nat.le_of_not_lt hlt)] at h
  cases h

/-- The slab with another node in a slot. -/
def write (s : Slab K V) (i : Nat) (n : Node K V) : Slab K V :=
  { s with slots := s.slots.set i (some n) }

@[simp] theorem write_free (i : Nat) (n : Node K V) : (s.write i n).free = s.free := rfl

@[simp] theorem write_head (i : Nat) (n : Node K V) : (s.write i n).head = s.head := rfl

@[simp] theorem write_tail (i : Nat) (n : Node K V) : (s.write i n).tail = s.tail := rfl

@[simp] theorem write_length (i : Nat) (n : Node K V) :
    (s.write i n).slots.length = s.slots.length := List.length_set ..

theorem node?_write {i : Nat} (hi : i < s.slots.length) (n : Node K V) (j : Nat) :
    (s.write i n).node? j = if j = i then some n else s.node? j := by
  by_cases hj : j = i
  · subst hj
    simp [node?, write, hi]
  · simp [node?, write, hj, Ne.symm hj]

theorem content?_write {i : Nat} (hi : i < s.slots.length) (n : Node K V) (j : Nat) :
    (s.write i n).content? j = if j = i then some (n.key, n.value, n.listener) else s.content? j := by
  rw [content?, node?_write hi]
  split <;> rfl

theorem link?_write {i : Nat} (hi : i < s.slots.length) (n : Node K V) (j : Nat) :
    (s.write i n).link? j = if j = i then some (n.prev, n.next) else s.link? j := by
  rw [link?, node?_write hi]
  split <;> rfl

/-- Changing the node of an occupied slot overwrites it. -/
theorem update?_eq_write {i : Nat} {n : Node K V} (h : s.node? i = some n)
    (f : Node K V → Node K V) : s.update? i f = some (s.write i (f n)) := by
  rw [update?, h]
  rfl

/-- Overwriting a node by one with the same content changes links only. -/
theorem relinked_write {i : Nat} {n : Node K V} (h : s.node? i = some n) (prev next : Option Nat) :
    s.Relinked (s.write i { n with prev, next }) := by
  refine ⟨fun j => ?_, rfl, write_length i _⟩
  rw [content?_write (lt_of_node? h)]
  by_cases hj : j = i
  · simp [content?, hj, h]
  · simp [hj]

/-- Whether slots are linked depends on their links alone. -/
theorem Linked.congr {before after : Option Nat} {order : List Nat}
    (h : s.Linked before order after) (hlink : ∀ i ∈ order, s'.link? i = s.link? i) :
    s'.Linked before order after := by
  induction order generalizing before with
  | nil => trivial
  | cons i rest ih =>
    exact ⟨(hlink i List.mem_cons_self).trans h.1,
      ih h.2 fun j hj => hlink j (List.mem_cons_of_mem i hj)⟩

/-- Two linked sequences make one when each has the end of the other for a neighbour. -/
theorem linked_append {before after : Option Nat} {xs ys : List Nat} :
    s.Linked before (xs ++ ys) after ↔
      s.Linked before xs (ys.head?.or after) ∧ s.Linked (xs.getLast?.or before) ys after := by
  induction xs generalizing before with
  | nil => simp [Linked]
  | cons i rest ih =>
    have hlast : (i :: rest).getLast?.or before = rest.getLast?.or (some i) := by
      cases rest with
      | nil => rfl
      | cons j rest => simp [List.getLast?_cons]
    rw [List.cons_append, Linked, Linked, ih, hlast, List.head?_append, Option.or_assoc, and_assoc]

/-- Every linked slot is occupied. -/
theorem Linked.node? {before after : Option Nat} {order : List Nat}
    (h : s.Linked before order after) {i : Nat} (hi : i ∈ order) : ∃ n, s.node? i = some n := by
  induction order generalizing before with
  | nil => cases hi
  | cons j rest ih =>
    rcases List.mem_cons.mp hi with rfl | hi
    · obtain ⟨n, hn, -⟩ := node?_of_link? h.1
      exact ⟨n, hn⟩
    · exact ih h.2 hi

/-- Overwriting a slot outside a linked sequence leaves the sequence linked. -/
theorem Linked.write {before after : Option Nat} {order : List Nat}
    (h : s.Linked before order after) {i : Nat} (hi : i < s.slots.length) (hnot : i ∉ order)
    (n : Node K V) : (s.write i n).Linked before order after := by
  refine h.congr fun j hj => ?_
  rw [link?_write hi, if_neg fun he : j = i => hnot (he ▸ hj)]

/-- A slot stands in the spelled sequence once. -/
theorem Spells.not_mem {xs ys : List Nat} {i : Nat} (h : s.Spells (xs ++ i :: ys)) : i ∉ xs ++ ys :=
  (List.nodup_cons.mp (List.nodup_middle.mp h.nodup)).1

/-- Reading the slots around one of the spelled sequence, where another reading differs at that slot only. -/
theorem Spells.filterMap_congr {α : Type} {xs ys : List Nat} {i : Nat} {f g : Nat → Option α}
    (h : s.Spells (xs ++ i :: ys)) (hread : ∀ j, j ≠ i → g j = f j) :
    (xs ++ ys).filterMap g = xs.filterMap f ++ ys.filterMap f := by
  rw [← List.filterMap_append]
  exact List.filterMap_congr fun j hj => hread j fun he => h.not_mem (he ▸ hj)

/-- Redirecting the last link of a sequence, or the head if the sequence is empty. -/
theorem linkForward?_spec {before after : Option Nat} {xs : List Nat}
    (h : s.Linked before xs after) (hnodup : xs.Nodup) (next : Option Nat) :
    ∃ s', s.linkForward? xs.getLast? next = some s' ∧ s'.Linked before xs next ∧
      s.Relinked s' ∧ (∀ j ∉ xs, s'.node? j = s.node? j) ∧
      s'.head = (if xs = [] then next else s.head) ∧ s'.tail = s.tail := by
  rcases List.eq_nil_or_concat xs with rfl | ⟨ys, p, rfl⟩
  · exact ⟨{ s with head := next }, rfl, trivial, ⟨fun _ => rfl, rfl, rfl⟩, fun _ _ => rfl, rfl, rfl⟩
  · rw [List.concat_eq_append] at h hnodup ⊢
    obtain ⟨hys, hlink, -⟩ := linked_append.mp h
    obtain ⟨n, hn, hprev, -⟩ := node?_of_link? hlink
    have hp : p ∉ ys := fun hp => List.disjoint_of_nodup_append hnodup hp List.mem_cons_self
    have hlt := lt_of_node? hn
    refine ⟨s.write p { n with next }, ?_, linked_append.mpr ⟨hys.write hlt hp _, ?_, trivial⟩,
      relinked_write hn _ _, fun j hj => ?_, by simp, rfl⟩
    · rw [List.getLast?_concat]
      exact update?_eq_write hn _
    · rw [link?_write hlt, if_pos rfl, hprev]
      rfl
    · rw [node?_write hlt, if_neg fun he => hj (by simp [he])]

/-- Redirecting the first backward link of a sequence, or the tail if the sequence is empty. -/
theorem linkBackward?_spec {before after : Option Nat} {ys : List Nat}
    (h : s.Linked before ys after) (hnodup : ys.Nodup) (prev : Option Nat) :
    ∃ s', s.linkBackward? prev ys.head? = some s' ∧ s'.Linked prev ys after ∧
      s.Relinked s' ∧ (∀ j ∉ ys, s'.node? j = s.node? j) ∧
      s'.head = s.head ∧ s'.tail = (if ys = [] then prev else s.tail) := by
  cases ys with
  | nil => exact ⟨{ s with tail := prev }, rfl, trivial, ⟨fun _ => rfl, rfl, rfl⟩, fun _ _ => rfl, rfl, rfl⟩
  | cons q ys =>
    obtain ⟨n, hn, -, hnext⟩ := node?_of_link? h.1
    have hq : q ∉ ys := (List.nodup_cons.mp hnodup).1
    have hlt := lt_of_node? hn
    refine ⟨s.write q { n with prev }, update?_eq_write hn _, ⟨?_, h.2.write hlt hq _⟩,
      relinked_write hn _ _, fun j hj => ?_, rfl, by simp⟩
    · rw [link?_write hlt, if_pos rfl, hnext]
    · rw [node?_write hlt, if_neg fun he => hj (by simp [he])]

/-- Taking a slot out of the chain erases it from the spelled sequence and clears its links. -/
theorem detach?_spec {xs ys : List Nat} {i : Nat} (h : s.Spells (xs ++ i :: ys)) :
    ∃ s', s.detach? i = some s' ∧ s'.Spells (xs ++ ys) ∧ s.Relinked s' ∧
      s'.link? i = some (none, none) := by
  obtain ⟨hnodup, hlinked, hhead, htail⟩ := h
  obtain ⟨hxs, hlink, hys⟩ := linked_append.mp hlinked
  rw [Option.or_none, Option.or_none] at hlink
  obtain ⟨n, hn, hprev, hnext⟩ := node?_of_link? hlink
  obtain ⟨hi, hrest⟩ := List.nodup_cons.mp (List.nodup_middle.mp hnodup)
  have hapart := List.disjoint_of_nodup_append hrest
  obtain ⟨s₁, hs₁, hxs₁, hrel₁, hnode₁, hhead₁, htail₁⟩ :=
    linkForward?_spec hxs (List.Nodup.of_append_left hrest) ys.head?
  have hys₁ : s₁.Linked (some i) ys none := hys.congr fun j hj => by
    rw [link?, link?, hnode₁ j fun hx => hapart hx hj]
  obtain ⟨s₂, hs₂, hys₂, hrel₂, hnode₂, hhead₂, htail₂⟩ :=
    linkBackward?_spec hys₁ (List.Nodup.of_append_right hrest) xs.getLast?
  have hxs₂ : s₂.Linked none xs ys.head? := hxs₁.congr fun j hj => by
    rw [link?, link?, hnode₂ j fun hy => hapart hj hy]
  have hn₂ : s₂.node? i = some n := by
    rw [hnode₂ i fun hy => hi (List.mem_append_right xs hy),
      hnode₁ i fun hx => hi (List.mem_append_left ys hx), hn]
  have hlt := lt_of_node? hn₂
  refine ⟨s₂.write i { n with prev := none, next := none }, ?_, ⟨hrest, ?_, ?_, ?_⟩,
    (hrel₁.trans hrel₂).trans (relinked_write hn₂ _ _), by rw [link?_write hlt, if_pos rfl]⟩
  · simp only [detach?, hn, hprev, hnext, Option.bind_eq_bind, Option.bind_some, hs₁, hs₂]
    exact update?_eq_write hn₂ _
  · refine Linked.write (linked_append.mpr ⟨?_, ?_⟩) hlt hi _
    · rwa [Option.or_none]
    · rwa [Option.or_none]
  · rw [write_head, hhead₂, hhead₁, hhead]
    cases xs <;> rfl
  · rw [write_tail, htail₂, htail₁, htail]
    rcases List.eq_nil_or_concat ys with rfl | ⟨ys, q, rfl⟩
    · simp
    · simp [List.getLast?_append, List.getLast?_cons]

/-- Putting an occupied slot at the end appends it to the spelled sequence. -/
theorem attachTail?_spec {order : List Nat} (h : s.Spells order) {i : Nat} {n : Node K V}
    (hn : s.node? i = some n) (hi : i ∉ order) :
    ∃ s', s.attachTail? i = some s' ∧ s'.Spells (order ++ [i]) ∧ s.Relinked s' := by
  obtain ⟨hnodup, hlinked, hhead, htail⟩ := h
  have hlt := lt_of_node? hn
  obtain ⟨s₁, hs₁, hlinked₁, hrel₁, hnode₁, hhead₁, -⟩ :=
    linkForward?_spec (hlinked.write hlt hi { n with prev := s.tail, next := none }) hnodup (some i)
  have hn₁ : s₁.node? i = some { n with prev := s.tail, next := none } := by
    rw [hnode₁ i hi, node?_write hlt, if_pos rfl]
  have hrel := (relinked_write hn s.tail none).trans hrel₁
  refine ⟨{ s₁ with tail := some i }, ?_, ⟨?_, ?_, ?_, List.getLast?_concat.symm⟩,
    hrel.content, hrel.free, hrel.length⟩
  · rw [← htail] at hs₁
    simp only [attachTail?, update?_eq_write hn, Option.bind_eq_bind, Option.bind_some, hs₁]
  · refine List.nodup_append.mpr ⟨hnodup, List.nodup_singleton i, ?_⟩
    simpa using fun a (ha : a ∈ order) (he : a = i) => hi (he ▸ ha)
  · refine Linked.congr (s := s₁) (linked_append.mpr ⟨hlinked₁, ?_, trivial⟩) fun _ _ => rfl
    rw [link?, hn₁, htail, Option.or_none]
    rfl
  · change s₁.head = _
    rw [hhead₁, write_head, hhead]
    cases order <;> rfl

/-- Taking a slot out of the chain and putting it at the end moves it to the end of the spelled sequence. -/
theorem Spells.refresh {xs ys : List Nat} {i : Nat} (h : s.Spells (xs ++ i :: ys)) :
    ∃ s', (s.detach? i).bind (·.attachTail? i) = some s' ∧ s'.Spells (xs ++ ys ++ [i]) ∧
      s.Relinked s' := by
  obtain ⟨s₁, hs₁, hspells₁, hrel₁, hlink₁⟩ := detach?_spec h
  obtain ⟨n, hn, -⟩ := node?_of_link? hlink₁
  obtain ⟨s₂, hs₂, hspells₂, hrel₂⟩ := attachTail?_spec hspells₁ hn h.not_mem
  exact ⟨s₂, by rw [hs₁, Option.bind_some, hs₂], hspells₂, hrel₁.trans hrel₂⟩

/-- Only the last slot of the spelled sequence is the tail. -/
theorem Spells.eq_nil_of_tail {xs ys : List Nat} {i : Nat} (h : s.Spells (xs ++ i :: ys))
    (htail : s.tail = some i) : ys = [] := by
  rcases List.eq_nil_or_concat ys with hys | ⟨zs, j, hys⟩
  · exact hys
  · have hlast := htail.symm.trans h.tail
    have hj : i = j := by simpa [hys, List.getLast?_append, List.getLast?_cons] using hlast
    exact absurd (List.mem_append_right xs (by simp [hys, hj])) h.not_mem

end TimedCache.Lru.Slab
