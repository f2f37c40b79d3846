import TimedCache.Proofs.Lru.Invariant

/-!
# Erasing and appending by links

Detaching a slot erases it from the sequence that the links spell, and attaching an occupied slot appends
it. Both write to the slot itself, to its neighbours and to the ends of the slab, and nothing else, so all
other slots keep their nodes. A slab is known by what its links spell, by the contents of its slots and by
the slots outside the sequence. So to detach the last slot and to attach it again changes nothing, and a
read may leave it out.
-/

namespace TimedCache.Lru

variable {K V : Type}

namespace Slab

variable {s s' : Slab K V} {order : List Nat} {i j : Nat}

/-- Changing a slot leaves the others alone. -/
theorem update?_elsewhere {f : Node K V → Node K V} (h : s.update? i f = some s') (hj : j ≠ i) :
    s'.node? j = s.node? j := by
  obtain ⟨n, hn, rfl⟩ := Option.map_eq_some_iff.mp h
  exact (node?_write (lt_of_node? hn) (f n) j).trans (if_neg hj)

/-- Redirecting a forward link leaves all slots but one alone. -/
theorem linkForward?_elsewhere {prev next : Option Nat} (h : s.linkForward? prev next = some s')
    (hj : prev ≠ some j) : s'.node? j = s.node? j := by
  cases prev with
  | none =>
    cases h
    rfl
  | some p => exact update?_elsewhere h fun he => hj (he ▸ rfl)

/-- Redirecting a backward link leaves all slots but one alone. -/
theorem linkBackward?_elsewhere {prev next : Option Nat} (h : s.linkBackward? prev next = some s')
    (hj : next ≠ some j) : s'.node? j = s.node? j := by
  cases next with
  | none =>
    cases h
    rfl
  | some q => exact update?_elsewhere h fun he => hj (he ▸ rfl)

/-- Detaching a slot leaves all slots alone but this one and its neighbours. -/
theorem detach?_elsewhere {n : Node K V} (hn : s.node? i = some n) (h : s.detach? i = some s')
    (hj : j ≠ i) (hprev : n.prev ≠ some j) (hnext : n.next ≠ some j) : s'.node? j = s.node? j := by
  simp only [detach?, hn, Option.bind_eq_bind, Option.bind_some, Option.bind_eq_some_iff] at h
  obtain ⟨s₁, hs₁, s₂, hs₂, h⟩ := h
  rw [update?_elsewhere h hj, linkBackward?_elsewhere hs₂ hnext, linkForward?_elsewhere hs₁ hprev]

/-- Attaching a slot leaves all slots alone but this one and the tail. -/
theorem attachTail?_elsewhere (h : s.attachTail? i = some s') (hj : j ≠ i) (htail : s.tail ≠ some j) :
    s'.node? j = s.node? j := by
  simp only [attachTail?, Option.bind_eq_bind, Option.bind_eq_some_iff] at h
  obtain ⟨s₁, hs₁, s₂, hs₂, h⟩ := h
  cases h
  exact (linkForward?_elsewhere hs₂ htail).trans (update?_elsewhere hs₁ hj)

/-- Detaching a slot of the spelled sequence leaves all slots outside the sequence alone. -/
theorem Spells.detach?_outside (h : s.Spells order) (hi : i ∈ order) (hs : s.detach? i = some s')
    (hj : j ∉ order) : s'.node? j = s.node? j := by
  obtain ⟨xs, ys, rfl⟩ := List.append_of_mem hi
  obtain ⟨-, hlink, -⟩ := linked_append.mp h.linked
  rw [Option.or_none, Option.or_none] at hlink
  obtain ⟨n, hn, hprev, hnext⟩ := node?_of_link? hlink
  refine detach?_elsewhere hn hs (fun he => hj (he ▸ hi)) (fun he => hj ?_) fun he => hj ?_
  · exact List.mem_append_left _ (List.mem_of_getLast? (hprev.symm.trans he))
  · exact List.mem_append_right _ (List.mem_cons_of_mem i (List.mem_of_head? (hnext.symm.trans he)))

/-- Attaching a slot leaves all other slots outside the spelled sequence alone. -/
theorem Spells.attachTail?_outside (h : s.Spells order) (hs : s.attachTail? i = some s')
    (hj : j ∉ order) (hne : j ≠ i) : s'.node? j = s.node? j :=
  attachTail?_elsewhere hs hne fun he => hj (List.mem_of_getLast? (h.tail.symm.trans he))

/-- Two slabs that link a sequence between the same ends have the same links in it. -/
theorem Linked.link?_eq {before after : Option Nat} (h : s.Linked before order after)
    (h' : s'.Linked before order after) : ∀ i ∈ order, s'.link? i = s.link? i := by
  induction order generalizing before with
  | nil => exact List.forall_mem_nil _
  | cons j rest ih => exact List.forall_mem_cons.mpr ⟨h'.1.trans h.1.symm, ih h.2 h'.2⟩

/-- A node is known by its content and its links. -/
theorem node?_eq_of (hcontent : s'.content? i = s.content? i) (hlink : s'.link? i = s.link? i) :
    s'.node? i = s.node? i := by
  rw [content?, content?] at hcontent
  rw [link?, link?] at hlink
  cases hn : s.node? i with
  | none => simpa [hn] using hcontent
  | some n =>
    rw [hn] at hcontent hlink
    obtain ⟨n', hn', hcontent⟩ := Option.map_eq_some_iff.mp hcontent
    rw [hn', Option.map_some, Option.map_some, Option.some.injEq, Prod.mk.injEq] at hlink
    simp only [Prod.mk.injEq] at hcontent
    obtain ⟨key, value, listener, prev, next⟩ := n
    obtain ⟨key', value', listener', prev', next'⟩ := n'
    obtain ⟨rfl, rfl, rfl⟩ := hcontent
    obtain ⟨rfl, rfl⟩ := hlink
    exact hn'

/-- Slabs of the same length with the same nodes have the same slots. -/
theorem slots_eq_of_node?_eq (hlength : s'.slots.length = s.slots.length)
    (hnode : ∀ i, s'.node? i = s.node? i) : s'.slots = s.slots := by
  refine List.ext_getElem hlength fun i hi' hi => ?_
  have he := hnode i
  rwa [node?, node?, List.getElem?_eq_getElem hi', List.getElem?_eq_getElem hi, Option.join_some,
    Option.join_some] at he

/-- A slab is known by the sequence that its links spell, the contents of its slots, and the slots outside
the sequence. -/
theorem Spells.eq_of_relinked (h : s.Spells order) (h' : s'.Spells order) (hrel : s.Relinked s')
    (houtside : ∀ j ∉ order, s'.node? j = s.node? j) : s' = s := by
  have hslots : s'.slots = s.slots := slots_eq_of_node?_eq hrel.length fun j => by
    by_cases hj : j ∈ order
    · exact node?_eq_of (hrel.content j) (h.linked.link?_eq h'.linked j hj)
    · exact houtside j hj
  have hhead := h'.head.trans h.head.symm
  have htail := h'.tail.trans h.tail.symm
  have hfree := hrel.free
  cases s
  cases s'
  simp only at hslots hhead htail hfree
  rw [hslots, hhead, htail, hfree]

/-- Detaching the tail and attaching it again leads back to the same slab. -/
theorem Spells.refresh_tail (h : s.Spells order) (htail : s.tail = some i) :
    (s.detach? i).bind (·.attachTail? i) = some s := by
  obtain ⟨xs, rfl⟩ := List.getLast?_eq_some_iff.mp (h.tail.symm.trans htail)
  obtain ⟨s₁, hs₁, hspells₁, hrel₁, hlink₁⟩ := detach?_spec h
  rw [List.append_nil] at hspells₁
  obtain ⟨n, hn, -⟩ := node?_of_link? hlink₁
  have hi : i ∉ xs := fun hx => h.not_mem (List.mem_append_left [] hx)
  obtain ⟨s₂, hs₂, hspells₂, hrel₂⟩ := attachTail?_spec hspells₁ hn hi
  rw [hs₁, Option.bind_some, hs₂, h.eq_of_relinked hspells₂ (hrel₁.trans hrel₂) fun j hj => ?_]
  have hout : j ∉ xs ∧ j ≠ i := by simpa using hj
  rw [hspells₁.attachTail?_outside hs₂ hout.1 hout.2,
    h.detach?_outside (List.mem_append_right xs List.mem_cons_self) hs₁ hj]

end Slab

variable [DecidableEq K]

/-- Replacing the value of a slot that is moved to the end writes the new value and its listener to the
moved slot, whatever becomes of the hooks. -/
theorem replace_slab {c : Lru K V} {i : Nat} {slab : Slab K V} {n : Node K V} (key : K) (value : V)
    (listener : Option Name) (hslab : c.refresh? i = some slab) (hn : slab.node? i = some n) :
    (c.replace i key value listener).state.slab = slab.write i { n with value, listener } := by
  have hhooks : ∀ (c : Lru K V) alarms log, c.slab = slab.write i { n with value, listener } →
      ({ c with alarms, log } : Lru K V).slab = slab.write i { n with value, listener } :=
    fun _ _ _ hc => hc
  have hkeeps : Keeps (fun c => c.slab = slab.write i { n with value, listener })
      (c.replace i key value listener) := by
    simp only [replace, withSlab, hslab, hn, Slab.update?_eq_write hn]
    exact (Keeps.announce hhooks rfl _ _ _).andThen fun c _ hc =>
      (Keeps.announce hhooks hc _ _ _).andThen fun c _ hc => .done hc
  exact hkeeps.state

/-- What detaching and attaching slots comes to where the links spell a sequence. -/
structure Edits (s : Slab K V) (order : List Nat) : Prop where
  /-- Detaching a slot of the sequence erases it from there and clears its links. No slot changes its key,
  value or listener, and slots outside the sequence do not change at all. -/
  erased : ∀ i ∈ order, ∃ s', s.detach? i = some s' ∧ s'.Spells (order.erase i) ∧
    s'.link? i = some (none, none) ∧ s.Relinked s' ∧ ∀ j ∉ order, s'.node? j = s.node? j
  /-- Attaching an occupied slot that is not in the sequence appends it. No slot changes its key, value or
  listener, and other slots outside the sequence do not change at all. -/
  appended : ∀ i n, s.node? i = some n → i ∉ order → ∃ s', s.attachTail? i = some s' ∧
    s'.Spells (order ++ [i]) ∧ s.Relinked s' ∧ ∀ j ∉ order, j ≠ i → s'.node? j = s.node? j
  /-- Detaching the tail and attaching it again changes nothing. -/
  restored : ∀ i, s.tail = some i → (s.detach? i).bind (·.attachTail? i) = some s
  /-- Reading a key leaves the slab in which its slot is detached and attached again, be it the tail or not.
  So does putting the key, but for the value and the listener that it writes there. -/
  moved : ∀ (c : Lru K V) key i, c.slab = s → c.map.lookup key = some i → i ∈ order →
    ∃ s' n, (s.detach? i).bind (·.attachTail? i) = some s' ∧ s'.node? i = some n ∧
      c.get key = .done { c with slab := s' } (some n.value) ∧
      ∀ value listener, (c.put key value listener).state.slab = s'.write i { n with value, listener }

/-- Where the links spell a sequence, detaching a slot erases it from the sequence, wherever it stands, and
attaching an occupied slot appends it. So the tail need not be moved to become the tail, and reading a key
moves its slot like putting it does. -/
theorem detaching_erases_attaching_appends {s : Slab K V} {order : List Nat} (h : s.Spells order) :
    Edits s order where
  erased i hi := by
    obtain ⟨xs, ys, rfl⟩ := List.append_of_mem hi
    obtain ⟨s', hs', hspells, hrel, hlink⟩ := Slab.detach?_spec h
    have hfront : i ∉ xs := fun hx => h.not_mem (List.mem_append_left ys hx)
    rw [List.erase_append_right _ hfront, List.erase_cons_head]
    exact ⟨s', hs', hspells, hlink, hrel, fun j hj => h.detach?_outside hi hs' hj⟩
  appended i n hn hi := by
    obtain ⟨s', hs', hspells, hrel⟩ := Slab.attachTail?_spec h hn hi
    exact ⟨s', hs', hspells, hrel, fun j hj hne => h.attachTail?_outside hs' hj hne⟩
  restored i htail := h.refresh_tail htail
  moved c key i hslab hkey hi := by
    subst hslab
    obtain ⟨xs, ys, rfl⟩ := List.append_of_mem hi
    obtain ⟨s', hs', hspells, -⟩ := h.refresh
    obtain ⟨n, hn⟩ := hspells.linked.node? (List.mem_append_right (xs ++ ys) (List.mem_singleton_self i))
    have hrefresh : c.refresh? i = some s' := hs'
    refine ⟨s', n, hs', hn, ?_, fun value listener => ?_⟩
    · have hpath : (if c.slab.tail = some i then some c.slab else c.refresh? i) = some s' := by
        split
        · next htail => exact (h.refresh_tail htail).symm.trans hs'
        · exact hrefresh
      simp only [get, hkey, hpath, withSlab, hn]
    · rw [put, hkey]
      exact replace_slab key value listener hrefresh hn

/-- Of five slots three are linked, one is detached and one is vacant. Detaching the slot in the middle
leaves the two others, and attaching the detached one puts it behind the three. -/
theorem detaching_erases_attaching_appends_middle :
    let s : Slab Nat Nat :=
      { slots := [some ⟨1, 10, some "a", some 2, none⟩, some ⟨2, 20, none, none, none⟩,
          some ⟨3, 30, none, some 3, some 0⟩, some ⟨4, 40, some "b", none, some 2⟩, none]
        free := [4], head := some 3, tail := some 0 }
    s.Spells [3, 2, 0] ∧ Edits s [3, 2, 0]
      ∧ (∃ s', s.detach? 2 = some s' ∧ s'.Spells [3, 0] ∧ s'.link? 2 = some (none, none))
      ∧ ∃ s', s.attachTail? 1 = some s' ∧ s'.Spells [3, 2, 0, 1] := by
  intro s
  have hspells : s.Spells [3, 2, 0] := ⟨by decide, ⟨rfl, rfl, rfl, trivial⟩, rfl, rfl⟩
  have hedits : Edits s [3, 2, 0] := detaching_erases_attaching_appends hspells
  obtain ⟨s₁, hs₁, hspells₁, hlink₁, -⟩ := hedits.erased 2 (by decide)
  obtain ⟨s₂, hs₂, hspells₂, -⟩ := hedits.appended 1 ⟨2, 20, none, none, none⟩ rfl (by decide)
  exact ⟨hspells, hedits, ⟨s₁, hs₁, hspells₁, hlink₁⟩, s₂, hs₂, hspells₂⟩

end TimedCache.Lru
