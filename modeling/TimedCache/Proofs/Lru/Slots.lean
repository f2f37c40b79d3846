import Mathlib.Data.List.Perm.Basic
import Mathlib.Data.List.Range
import TimedCache.Proofs.Lru.Links

/-!
# Occupied and vacant slots

A slab is tidy when its links spell a sequence of all occupied slots, and the stack holds
each vacant slot once. Then every slot is in exactly one of the two, so their lengths add
up to the number of slots. Adding a node, moving one to the end, changing one in place and
taking one out each lead from a tidy slab to a tidy slab and never meet a vacant slot.
-/

namespace TimedCache.Lru.Slab

variable {K V : Type} {s s' : Slab K V} {order : List Nat}

/-- The links spell all occupied slots, and the stack holds all vacant ones, each once. -/
structure Tidy (s : Slab K V) (order : List Nat) : Prop where
  spells : s.Spells order
  occupied : ∀ {i n}, s.node? i = some n → i ∈ order
  free_nodup : s.free.Nodup
  vacant : ∀ {i}, i ∈ s.free ↔ i < s.slots.length ∧ s.node? i = none

/-- A slab without slots is tidy. -/
theorem tidy_empty : ({} : Slab K V).Tidy [] where
  spells := ⟨List.nodup_nil, trivial, rfl, rfl⟩
  occupied h := absurd (lt_of_node? h) (Nat.not_lt_zero _)
  free_nodup := List.nodup_nil
  vacant := by simp

/-- The slots of the spelled sequence are exactly the occupied ones. -/
theorem Tidy.mem_iff (h : s.Tidy order) {i : Nat} : i ∈ order ↔ ∃ n, s.node? i = some n :=
  ⟨h.spells.linked.node?, fun ⟨_, hn⟩ => h.occupied hn⟩

/-- Each slot is either in the spelled sequence or on the stack. -/
theorem Tidy.perm (h : s.Tidy order) : (order ++ s.free).Perm (List.range s.slots.length) := by
  have hapart : order.Disjoint s.free := fun i hi hf => by
    obtain ⟨n, hn⟩ := h.mem_iff.mp hi
    rw [(h.vacant.mp hf).2] at hn
    cases hn
  refine (List.perm_ext_iff_of_nodup (h.spells.nodup.append h.free_nodup hapart)
    List.nodup_range).mpr fun i => ?_
  rw [List.mem_append, List.mem_range, h.mem_iff, h.vacant]
  constructor
  · rintro (⟨n, hn⟩ | ⟨hlt, -⟩)
    · exact lt_of_node? hn
    · exact hlt
  · intro hlt
    cases hn : s.node? i with
    | none => exact Or.inr ⟨hlt, rfl⟩
    | some n => exact Or.inl ⟨n, rfl⟩

/-- There are as many slots as spelled and stacked ones together. -/
theorem Tidy.length_eq (h : s.Tidy order) : s.slots.length = order.length + s.free.length := by
  have hlen := h.perm.length_eq
  rw [List.length_append, List.length_range] at hlen
  exact hlen.symm

/-- Relinked slots are occupied as before. -/
theorem Relinked.node?_eq_none_iff (h : s.Relinked s') {i : Nat} :
    s'.node? i = none ↔ s.node? i = none := by
  rw [← content?_eq_none_iff, ← content?_eq_none_iff, h.content]

/-- A slab stays tidy when it is relinked to spell the same slots in another order. -/
theorem Tidy.relink {order' : List Nat} (h : s.Tidy order) (hrel : s.Relinked s')
    (hspells : s'.Spells order') (hmem : ∀ i ∈ order, i ∈ order') : s'.Tidy order' where
  spells := hspells
  occupied {i n} hn := by
    cases ho : s.node? i with
    | none =>
      rw [hrel.node?_eq_none_iff.mpr ho] at hn
      cases hn
    | some m => exact hmem i (h.occupied ho)
  free_nodup := hrel.free ▸ h.free_nodup
  vacant {i} := by rw [hrel.free, hrel.length, hrel.node?_eq_none_iff, h.vacant]

/-- Moving a slot to the end of the chain. -/
theorem Tidy.refresh {xs ys : List Nat} {i : Nat} (h : s.Tidy (xs ++ i :: ys)) :
    ∃ s', (s.detach? i).bind (·.attachTail? i) = some s' ∧ s'.Tidy (xs ++ ys ++ [i]) ∧
      s.Relinked s' := by
  obtain ⟨s', hs', hspells, hrel⟩ := h.spells.refresh
  refine ⟨s', hs', h.relink hrel hspells ?_, hrel⟩
  simp only [List.mem_append, List.mem_cons]
  tauto

/-- Changing what an occupied slot holds, but not its links. -/
theorem Tidy.update (h : s.Tidy order) {i : Nat} {n : Node K V} (hn : s.node? i = some n)
    (value : V) (listener : Option Name) :
    ∃ s', s.update? i (fun n => { n with value, listener }) = some s' ∧ s'.Tidy order ∧
      (∀ j, s'.content? j = if j = i then some (n.key, value, listener) else s.content? j) ∧
      s'.slots.length = s.slots.length := by
  have hlt := lt_of_node? hn
  refine ⟨s.write i { n with value, listener }, update?_eq_write hn _, ⟨⟨h.spells.nodup, ?_,
    h.spells.head, h.spells.tail⟩, fun {j m} hm => ?_, h.free_nodup, fun {j} => ?_⟩,
    content?_write hlt _, write_length _ _⟩
  · refine h.spells.linked.congr fun j hj => ?_
    rw [link?_write hlt]
    by_cases he : j = i
    · simp [he, link?, hn]
    · simp [he]
  · by_cases he : j = i
    · exact he ▸ h.occupied hn
    · rw [node?_write hlt, if_neg he] at hm
      exact h.occupied hm
  · rw [write_free, write_length, h.vacant, node?_write hlt]
    by_cases he : j = i <;> simp [he, hn]

/-- Taking an occupied slot out of the chain and emptying it. -/
theorem Tidy.drop {xs ys : List Nat} {i : Nat} (h : s.Tidy (xs ++ i :: ys)) :
    ∃ s₁ s₂ n, s.detach? i = some s₁ ∧ s₁.vacate? i = some (s₂, n) ∧
      s.content? i = some (n.key, n.value, n.listener) ∧ s₂.Tidy (xs ++ ys) ∧
      (∀ j, s₂.content? j = if j = i then none else s.content? j) ∧
      s₂.slots.length = s.slots.length := by
  obtain ⟨s₁, hs₁, hspells₁, hrel₁, hlink₁⟩ := detach?_spec h.spells
  obtain ⟨n, hn, -⟩ := node?_of_link? hlink₁
  have hlt := lt_of_node? hn
  have hi := h.spells.not_mem
  let s₂ : Slab K V := { s₁ with slots := s₁.slots.set i none, free := i :: s₁.free }
  have hnode (j : Nat) : s₂.node? j = if j = i then none else s₁.node? j := by
    by_cases he : j = i
    · subst he
      simp [s₂, node?, hlt]
    · simp [s₂, node?, he, Ne.symm he]
  have hold (j : Nat) : s₁.node? j = none ↔ s.node? j = none := hrel₁.node?_eq_none_iff
  refine ⟨s₁, s₂, n, hs₁, by rw [vacate?, hn]; rfl, by rw [← hrel₁.content, content?, hn]; rfl,
    ⟨⟨hspells₁.nodup, ?_, hspells₁.head, hspells₁.tail⟩, fun {j m} hm => ?_, ?_, fun {j} => ?_⟩,
    fun j => ?_, (List.length_set ..).trans hrel₁.length⟩
  · refine hspells₁.linked.congr fun j hj => ?_
    rw [link?, link?, hnode, if_neg fun he : j = i => hi (he ▸ hj)]
  · rw [hnode] at hm
    split at hm
    · cases hm
    · rename_i he
      have hj : j ∈ xs ++ i :: ys := by
        cases ho : s.node? j with
        | none => rw [(hold j).mpr ho] at hm; cases hm
        | some m => exact h.occupied ho
      simpa [he] using hj
  · refine List.nodup_cons.mpr ⟨fun hf => ?_, hrel₁.free ▸ h.free_nodup⟩
    rw [hrel₁.free, h.vacant, ← hold, hn] at hf
    cases hf.2
  · change j ∈ i :: s₁.free ↔ j < (s₁.slots.set i none).length ∧ _
    rw [List.mem_cons, hrel₁.free, h.vacant, List.length_set, hnode, ← hrel₁.length]
    by_cases he : j = i
    · simp [he, hlt]
    · simp [he, hold]
  · rw [content?, hnode]
    by_cases he : j = i
    · simp [he]
    · rw [if_neg he, if_neg he]
      exact hrel₁.content j

/-- Putting a node into a vacant slot, or into a new one if none is vacant. -/
theorem Tidy.occupy (h : s.Tidy order) (n : Node K V) :
    ∃ s₁ i, s.occupy n = (s₁, i) ∧ s.node? i = none ∧
      (∀ j, s₁.node? j = if j = i then some n else s.node? j) ∧ s₁.free.Nodup ∧
      (∀ j, j ∈ s₁.free ↔ j < s₁.slots.length ∧ s₁.node? j = none) ∧
      s₁.slots.length = max s.slots.length (order.length + 1) ∧
      s₁.head = s.head ∧ s₁.tail = s.tail := by
  have hlength := h.length_eq
  cases hfree : s.free with
  | nil =>
    rw [hfree, List.length_nil] at hlength
    let s₁ : Slab K V := { s with slots := s.slots ++ [some n] }
    have hlength₁ : s₁.slots.length = s.slots.length + 1 := by simp [s₁]
    have hnode (j : Nat) : s₁.node? j = if j = s.slots.length then some n else s.node? j := by
      by_cases he : j = s.slots.length
      · simp [s₁, node?, he]
      · rcases Nat.lt_or_gt_of_ne he with hlt | hlt
        · simp [s₁, node?, he, List.getElem?_append_left hlt]
        · have hold : s.slots[j]? = none := List.getElem?_eq_none (Nat.le_of_lt hlt)
          have hnew : s₁.slots[j]? = none := List.getElem?_eq_none (by rw [hlength₁]; exact hlt)
          rw [node?, node?, hold, hnew, if_neg he]
    refine ⟨s₁, s.slots.length, by simp [Slab.occupy, hfree, s₁], by simp [node?], hnode,
      h.free_nodup, fun j => ?_, by omega, rfl, rfl⟩
    have hvacant := h.vacant (i := j)
    change j ∈ s.free ↔ _
    rw [hvacant, hnode, hlength₁]
    by_cases he : j = s.slots.length
    · simp [he]
    · have hiff : j < s.slots.length + 1 ↔ j < s.slots.length := by omega
      rw [if_neg he, hiff]
  | cons i rest =>
    rw [hfree, List.length_cons] at hlength
    obtain ⟨hi, hrest⟩ := List.nodup_cons.mp (hfree ▸ h.free_nodup)
    obtain ⟨hlt, hnone⟩ := h.vacant.mp (hfree ▸ List.mem_cons_self : i ∈ s.free)
    have hnode (j : Nat) : node? { s with slots := s.slots.set i (some n), free := rest } j =
        if j = i then some n else s.node? j := node?_write hlt n j
    refine ⟨_, i, by rw [Slab.occupy, hfree], hnone, hnode, hrest, fun j => ?_,
      by simp; omega, rfl, rfl⟩
    have hvacant := h.vacant (i := j)
    rw [hfree, List.mem_cons] at hvacant
    change j ∈ rest ↔ j < (s.slots.set i (some n)).length ∧ _
    rw [hnode, List.length_set]
    by_cases he : j = i
    · simp [he, hi]
    · rw [if_neg he, ← hvacant]
      simp [he]

/-- Putting a node into a slot that was not occupied and this slot at the end of the chain. -/
theorem Tidy.insert (h : s.Tidy order) (n : Node K V) :
    ∃ s₁ s₂ i, s.occupy n = (s₁, i) ∧ s₁.attachTail? i = some s₂ ∧ s.node? i = none ∧
      s₂.Tidy (order ++ [i]) ∧
      (∀ j, s₂.content? j = if j = i then some (n.key, n.value, n.listener) else s.content? j) ∧
      s₂.slots.length = max s.slots.length (order.length + 1) := by
  obtain ⟨s₁, i, hocc, hnew, hnode, hfree, hvacant, hlength, hhead, htail⟩ := h.occupy n
  have hi : i ∉ order := fun hi => by
    obtain ⟨m, hm⟩ := h.mem_iff.mp hi
    rw [hnew] at hm
    cases hm
  have hn : s₁.node? i = some n := by rw [hnode, if_pos rfl]
  have hspells : s₁.Spells order := by
    refine ⟨h.spells.nodup, h.spells.linked.congr fun j hj => ?_, hhead ▸ h.spells.head,
      htail ▸ h.spells.tail⟩
    rw [link?, link?, hnode, if_neg fun he : j = i => hi (he ▸ hj)]
  obtain ⟨s₂, hs₂, hspells₂, hrel⟩ := attachTail?_spec hspells hn hi
  refine ⟨s₁, s₂, i, hocc, hs₂, hnew, ⟨hspells₂, fun {j m} hm => ?_, hrel.free ▸ hfree,
    fun {j} => ?_⟩, fun j => ?_, hrel.length.trans hlength⟩
  · by_cases he : j = i
    · simp [he]
    · cases ho : s.node? j with
      | none =>
        have hnone := hrel.node?_eq_none_iff.mpr ((hnode j).trans ((if_neg he).trans ho))
        rw [hnone] at hm
        cases hm
      | some m => exact List.mem_append_left [i] (h.occupied ho)
  · rw [hrel.free, hvacant, hrel.length, hrel.node?_eq_none_iff]
  · rw [hrel.content, content?, hnode]
    split <;> rfl

/-- Following the links from the first slot of a linked sequence meets its nodes in order. -/
theorem Linked.walkFrom {before : Option Nat} (h : s.Linked before order none) {fuel : Nat}
    (hfuel : order.length ≤ fuel) :
    (s.walkFrom fuel order.head?).map some = order.map s.node? := by
  induction order generalizing before fuel with
  | nil => cases fuel <;> rfl
  | cons i rest ih =>
    obtain ⟨n, hn, -, hnext⟩ := node?_of_link? h.1
    cases fuel with
    | zero => exact absurd hfuel (Nat.not_succ_le_zero _)
    | succ fuel =>
      have hrest := ih h.2 (Nat.le_of_succ_le_succ hfuel)
      rw [Option.or_none] at hnext
      simp only [List.head?_cons, Slab.walkFrom, hn, hnext, List.map_cons, hrest]

/-- The chain of a tidy slab is the sequence of its nodes, none of them missing. -/
theorem Tidy.chain (h : s.Tidy order) : s.chain.map some = order.map s.node? := by
  rw [Slab.chain, h.spells.head]
  exact h.spells.linked.walkFrom (h.length_eq ▸ Nat.le_add_right _ _)

end TimedCache.Lru.Slab
