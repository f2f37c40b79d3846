import TimedCache.Proofs.KeyedList
import TimedCache.Proofs.Moments

/-!
# Nothing reclaimed comes back

Identities of values and numbers of slots are given away once, so whatever the references outside
turn into, they own no value that nobody owned before, new values apart, and a slot that was emptied
stays empty. A reference that was reclaimed before such a change is reclaimed after it.
-/

namespace TimedCache

variable {V : Type}

/-- The reference leads to a value that was made, or to a slot that exists. -/
def Holder.Known (o : Owners V) : Holder V → Prop
  | .strong cell | .weak cell => cell.id < o.fresh
  | .soft slot => slot < o.slots.length

/-- What exists goes on to exist while more is made. -/
theorem Holder.Known.mono {o o' : Owners V} {h : Holder V} (hknown : h.Known o)
    (hfresh : o.fresh ≤ o'.fresh) (hslots : o.slots.length ≤ o'.slots.length) : h.Known o' := by
  cases h with
  | strong cell => exact Nat.lt_of_lt_of_le hknown hfresh
  | weak cell => exact Nat.lt_of_lt_of_le hknown hfresh
  | soft slot => exact Nat.lt_of_lt_of_le hknown hslots

/-- Whatever made the reference owner of an old value, somebody owned that at the moment. -/
def Holder.Fair (m : Moment V) (o : Owners V) (h : Holder V) : Prop :=
  ∀ id, id < o.fresh → h.owned o.slots = some id → Holder.isOwned m id = true

namespace Slots

variable {slots : Slots V}

/-- A new slot leaves the others as they are. -/
theorem read_concat_of_lt {slot : Nat} (h : slot < slots.length) (content : Option (Cell V)) :
    Slots.read (slots ++ [content]) slot = slots.read slot := by
  rw [read, List.getElem?_append_left h, ← read]

/-- A new slot has its content. -/
theorem read_concat_length (content : Option (Cell V)) :
    Slots.read (slots ++ [content]) slots.length = content := by
  rw [read, List.getElem?_concat_length, Option.join_some]

/-- Emptying a slot leaves the others as they are. -/
theorem read_reclaim (slot other : Nat) :
    (slots.reclaim slot).read other = if other = slot then none else slots.read other := by
  rw [read, reclaim, List.getElem?_set]
  by_cases h : slot = other
  · rw [if_pos h, if_pos h.symm]
    split <;> rfl
  · rw [if_neg h, if_neg (Ne.symm h), ← read]

end Slots

namespace Owners

/-- The references outside lead to values and slots that exist, and so do the slots. -/
structure Grounded (o : Owners V) : Prop where
  holders : ∀ h ∈ o.holders, h.Known o
  slots : ∀ cell, some cell ∈ o.slots → cell.id < o.fresh

/-- The references outside may turn into others: no identity and no slot is given away again, no
emptied slot is filled, and no old value is owned that nobody owned at the moment. -/
structure Succeeds (m : Moment V) (o o' : Owners V) : Prop where
  fresh : o.fresh ≤ o'.fresh
  slots : o.slots.length ≤ o'.slots.length
  emptied : ∀ slot, slot < o.slots.length → o.slots.read slot = none → o'.slots.read slot = none
  owned : ∀ id, id < o.fresh → Holder.isOwned o'.outside id = true → Holder.isOwned m id = true
  grounded : o'.Grounded

namespace Succeeds

variable {m : Moment V} {o o' : Owners V}

/-- What exists goes on to exist. -/
theorem known (h : Succeeds m o o') {holder : Holder V} (hknown : holder.Known o) :
    holder.Known o' := hknown.mono h.fresh h.slots

/-- A reference that was reclaimed stays so. -/
theorem isReclaimed (h : Succeeds m o o') (hslots : m.slots = o.slots) {holder : Holder V}
    (hknown : holder.Known o) (hreclaimed : holder.isReclaimed m = true) :
    holder.isReclaimed o'.outside = true := by
  cases holder with
  | strong cell => exact hreclaimed
  | weak cell =>
    rw [Holder.isReclaimed, Bool.not_eq_true', ← Bool.not_eq_true] at hreclaimed ⊢
    exact fun howned => hreclaimed (h.owned cell.id hknown howned)
  | soft slot =>
    rw [Holder.isReclaimed, Option.isNone_iff_eq_none] at hreclaimed ⊢
    exact h.emptied slot hknown (hslots ▸ hreclaimed)

/-- The references outside may be dropped and made anew, as long as new ones are fair. -/
theorem of_holders (ho : o.Grounded) (hm : o.outside.Within m) (hfresh : o.fresh ≤ o'.fresh)
    (hslots : o'.slots = o.slots)
    (hholders : ∀ h ∈ o'.holders, h ∈ o.holders ∨ (h.Known o' ∧ h.Fair m o)) :
    Succeeds m o o' where
  fresh := hfresh
  slots := Nat.le_of_eq (congrArg List.length hslots.symm)
  emptied slot _ hempty := hslots ▸ hempty
  owned id hid howned := by
    obtain ⟨h, hmem, hown⟩ := Holder.isOwned_iff.mp howned
    have hown : h.owned o.slots = some id := hslots ▸ hown
    rcases hholders h hmem with hold | ⟨-, hfair⟩
    · exact Holder.isOwned_mono hm (Holder.isOwned_iff.mpr ⟨h, hold, hown⟩)
    · exact hfair id hid hown
  grounded := by
    refine ⟨fun h hmem => ?_, fun cell hcell => ?_⟩
    · rcases hholders h hmem with hold | ⟨hknown, -⟩
      · exact (ho.holders h hold).mono hfresh (Nat.le_of_eq (congrArg List.length hslots.symm))
      · exact hknown
    · exact Nat.lt_of_lt_of_le (ho.slots cell (hslots ▸ hcell)) hfresh

/-- A new slot may be filled with a value that was made or owned before. -/
theorem of_soften (ho : o.Grounded) (hm : o.outside.Within m) (hfresh : o.fresh ≤ o'.fresh)
    {cell : Cell V} (hslots : o'.slots = o.slots ++ [some cell]) (hcell : cell.id < o'.fresh)
    (hfair : (Holder.strong cell).Fair m o)
    (hholders : ∀ h ∈ o'.holders, h ∈ o.holders ∨ h = .soft o.slots.length) :
    Succeeds m o o' where
  fresh := hfresh
  slots := by rw [hslots, List.length_append]; exact Nat.le_add_right ..
  emptied slot hslot hempty := by rw [hslots, Slots.read_concat_of_lt hslot]; exact hempty
  owned id hid howned := by
    obtain ⟨h, hmem, hown⟩ := Holder.isOwned_iff.mp howned
    have hown : h.owned (o.slots ++ [some cell]) = some id := hslots ▸ hown
    rcases hholders h hmem with hold | rfl
    · refine Holder.isOwned_mono hm (Holder.isOwned_iff.mpr ⟨h, hold, ?_⟩)
      cases h with
      | strong cell => exact hown
      | weak cell => cases hown
      | soft slot =>
        rw [Holder.owned, Slots.read_concat_of_lt (ho.holders _ hold)] at hown
        exact hown
    · rw [Holder.owned, Slots.read_concat_length] at hown
      exact hfair id hid hown
  grounded := by
    have hlength : o.slots.length ≤ o'.slots.length := by
      rw [hslots, List.length_append]
      exact Nat.le_add_right ..
    refine ⟨fun h hmem => ?_, fun other hother => ?_⟩
    · rcases hholders h hmem with hold | rfl
      · exact (ho.holders h hold).mono hfresh hlength
      · rw [Holder.Known, hslots, List.length_append]
        exact Nat.lt_add_one _
    · rw [hslots, List.mem_append, List.mem_singleton, Option.some.injEq] at hother
      rcases hother with hother | rfl
      · exact Nat.lt_of_lt_of_le (ho.slots other hother) hfresh
      · exact hcell

/-- A slot may be emptied. -/
theorem of_reclaim (ho : o.Grounded) (hm : o.outside.Within m) (slot : Nat) :
    Succeeds m o { o with slots := o.slots.reclaim slot } where
  fresh := Nat.le_refl _
  slots := Nat.le_of_eq (List.length_set ..).symm
  emptied other _ hempty := by
    rw [Slots.read_reclaim, hempty, ite_self]
  owned id _ howned := by
    obtain ⟨h, hmem, hown⟩ := Holder.isOwned_iff.mp howned
    refine Holder.isOwned_mono hm (Holder.isOwned_iff.mpr ⟨h, hmem, ?_⟩)
    cases h with
    | strong cell => exact hown
    | weak cell => cases hown
    | soft other =>
      change ((o.slots.reclaim slot).read other).map Cell.id = some id at hown
      rw [Slots.read_reclaim] at hown
      split at hown
      · cases hown
      · exact hown
  grounded := by
    refine ⟨fun h hmem => ?_, fun cell hcell => ho.slots cell ?_⟩
    · exact (ho.holders h hmem).mono (Nat.le_refl _) (Nat.le_of_eq (List.length_set ..).symm)
    · rcases List.mem_or_eq_of_mem_set hcell with hcell | hcell
      · exact hcell
      · cases hcell

end Succeeds

section Holders

variable (o : Owners V)

/-- Letting go of references leaves fewer of them. -/
theorem holders_drop (label : Label) : (o.drop label).holders ⊆ o.holders := by
  intro h hmem
  cases label <;> simp only [drop, holders, List.mem_append, List.mem_map, List.mem_filter] at hmem ⊢ <;>
    grind

/-- Owning a value adds a reference that owns it. -/
theorem mem_holders_own {name : Name} {cell : Cell V} {h : Holder V}
    (hmem : h ∈ (o.own name cell).holders) : h ∈ o.holders ∨ h = .strong cell := by
  simp only [own, holders, List.map_append, List.mem_append, List.map_cons, List.map_nil,
    List.mem_singleton] at hmem ⊢
  grind

/-- Owning a value in place of another adds a reference that owns it. -/
theorem mem_holders_ownOnly {name : Name} {cell : Cell V} {h : Holder V}
    (hmem : h ∈ (o.ownOnly name cell).holders) : h ∈ o.holders ∨ h = .strong cell :=
  ((o.drop (.owner name)).mem_holders_own hmem).imp (fun hold => o.holders_drop _ hold) id

/-- Keeping a copy adds that reference. -/
theorem mem_holders_file {index : Nat} {kept h : Holder V}
    (hmem : h ∈ (o.file index kept).holders) : h ∈ o.holders ∨ h = kept := by
  have hadded : h ∈ (o.drop (.copy index)).holders ∨ h = kept := by
    simp only [file, holders, List.map_append, List.mem_append, List.map_cons, List.map_nil,
      List.mem_singleton] at hmem ⊢
    grind
  exact hadded.imp (fun hold => o.holders_drop _ hold) id

/-- Filling a slot adds a reference to it. -/
theorem mem_holders_soften {name : Name} {cell : Cell V} {h : Holder V}
    (hmem : h ∈ (o.soften name cell).holders) : h ∈ o.holders ∨ h = .soft o.slots.length := by
  have hadded : h ∈ (o.drop (.handle name)).holders ∨ h = .soft o.slots.length := by
    have hslots : (o.drop (.handle name)).slots = o.slots := rfl
    simp only [soften, hslots, holders, List.map_append, List.mem_append, List.map_cons,
      List.map_nil, List.mem_singleton] at hmem ⊢
    grind
  exact hadded.imp (fun hold => o.holders_drop _ hold) id

/-- What a name owns is owned outside. -/
theorem strong_mem_of_lookup {name : Name} {cell : Cell V} (h : o.values.lookup name = some cell) :
    .strong cell ∈ o.holders := by
  have hmem := List.mem_map_of_mem (f := fun p : Name × Cell V => Holder.strong p.2) (mem_of_lookup h)
  simp only [holders, List.mem_append]
  exact Or.inl (Or.inl (Or.inl hmem))

/-- The slot behind a handle is referred to outside. -/
theorem soft_mem_of_lookup {name : Name} {slot : Nat} (h : o.handles.lookup name = some slot) :
    .soft slot ∈ o.holders := by
  have hmem := List.mem_map_of_mem (f := fun p : Name × Nat => (Holder.soft p.2 : Holder V))
    (mem_of_lookup h)
  simp only [holders, List.mem_append]
  exact Or.inl (Or.inl (Or.inr hmem))

/-- A copy is a reference outside. -/
theorem copy_mem_of_lookup {index : Nat} {holder : Holder V}
    (h : o.copies.lookup index = some holder) : holder ∈ o.holders := by
  have hmem := List.mem_map_of_mem (f := Prod.snd) (mem_of_lookup h)
  simp only [holders, List.mem_append]
  exact Or.inl (Or.inr hmem)

/-- A second handle of a slot is no reference that was not there before. -/
theorem holders_share (source target : Name) : (o.share source target).holders ⊆ o.holders := by
  intro h hmem
  rw [share] at hmem
  cases hlookup : o.handles.lookup source with
  | none =>
    rw [hlookup] at hmem
    exact hmem
  | some slot =>
    have hadded : h ∈ (o.drop (.handle target)).holders ∨ h = .soft slot := by
      simp only [hlookup, holders, List.map_append, List.mem_append, List.map_cons, List.map_nil,
        List.mem_singleton] at hmem ⊢
      grind
    rcases hadded with hold | rfl
    · exact o.holders_drop _ hold
    · exact o.soft_mem_of_lookup hlookup

end Holders

end Owners

section Making

variable {m : Moment V} {o : Owners V}

/-- References that exist outside are fair. -/
theorem Holder.fair_of_mem (hm : o.outside.Within m) {h : Holder V} (hmem : h ∈ o.holders) :
    h.Fair m o := fun _ _ hown => isOwned_mono hm (isOwned_iff.mpr ⟨h, hmem, hown⟩)

/-- A reference that resolves leads to a value that somebody owns. -/
theorem Holder.isOwned_of_resolve {h : Holder V} (hmem : h ∈ m.holders) {cell : Cell V}
    (hresolve : h.resolve m = some cell) : isOwned m cell.id = true := by
  cases h with
  | strong other =>
    obtain rfl : other = cell := Option.some.inj hresolve
    exact isOwned_iff.mpr ⟨_, hmem, rfl⟩
  | weak other =>
    rw [resolve] at hresolve
    split at hresolve
    · next howned => exact Option.some.inj hresolve ▸ howned
    · cases hresolve
  | soft slot => exact isOwned_iff.mpr ⟨_, hmem, congrArg (Option.map Cell.id) hresolve⟩

/-- A reference that resolves leads to a value that was made. -/
theorem Holder.Known.of_resolve (ho : o.Grounded) (hslots : m.slots = o.slots) {h : Holder V}
    (hknown : h.Known o) {cell : Cell V} (hresolve : h.resolve m = some cell) :
    (Holder.strong cell).Known o := by
  cases h with
  | strong other => exact Option.some.inj hresolve ▸ hknown
  | weak other =>
    rw [resolve] at hresolve
    split at hresolve
    · exact Option.some.inj hresolve ▸ hknown
    · cases hresolve
  | soft slot =>
    have hread : (m.slots[slot]?).join = some cell := hresolve
    rw [hslots] at hread
    exact ho.slots cell (List.mem_of_getElem? (Option.join_eq_some_iff.mp hread))

/-- A value that was made and is owned at the moment may be owned from outside. -/
theorem Holder.fair_of_isOwned {cell : Cell V} (h : isOwned m cell.id = true) :
    (Holder.strong cell).Fair m o := fun _ _ hown => Option.some.inj hown ▸ h

/-- A new value was owned by nobody before, so owning it is fair. -/
theorem Holder.fair_of_fresh {cell : Cell V} (h : o.fresh ≤ cell.id) : (Holder.strong cell).Fair m o :=
  fun _ hid hown => absurd (Option.some.inj hown) (Nat.ne_of_gt (Nat.lt_of_lt_of_le hid h))

/-- A new holder leads to what exists and is fair, and making it changes nothing but the next
identity. -/
theorem Holding.make?_eq_some (ho : o.Grounded) (hm : o.outside.Within m) {holding : Holding V}
    {o' : Owners V} {h : Holder V} (hmake : holding.make? o = some (o', h)) :
    ∃ fresh, o.fresh ≤ fresh ∧ o' = { o with fresh } ∧ h.Known o' ∧ h.Fair m o := by
  cases holding with
  | strong value =>
    obtain ⟨rfl, rfl⟩ := Prod.mk.inj (Option.some.inj hmake)
    exact ⟨_, Nat.le_succ _, rfl, Nat.lt_succ_self _, Holder.fair_of_fresh (Nat.le_refl _)⟩
  | strongOf owner =>
    obtain ⟨cell, hlookup, hpair⟩ := Option.map_eq_some_iff.mp hmake
    obtain ⟨rfl, rfl⟩ := Prod.mk.inj hpair
    have hmem := o.strong_mem_of_lookup hlookup
    exact ⟨_, Nat.le_refl _, rfl, ho.holders _ hmem, Holder.fair_of_mem hm hmem⟩
  | weakOf owner =>
    obtain ⟨cell, hlookup, hpair⟩ := Option.map_eq_some_iff.mp hmake
    obtain ⟨rfl, rfl⟩ := Prod.mk.inj hpair
    have hknown : (Holder.strong cell).Known o := ho.holders _ (o.strong_mem_of_lookup hlookup)
    exact ⟨_, Nat.le_refl _, rfl, hknown, fun _ _ hown => nomatch hown⟩
  | softOf handle =>
    obtain ⟨slot, hlookup, hpair⟩ := Option.map_eq_some_iff.mp hmake
    obtain ⟨rfl, rfl⟩ := Prod.mk.inj hpair
    have hmem := o.soft_mem_of_lookup hlookup
    exact ⟨_, Nat.le_refl _, rfl, ho.holders _ hmem, Holder.fair_of_mem hm hmem⟩
  | weakOfSoft handle =>
    obtain ⟨cell, hbehind, hpair⟩ := Option.map_eq_some_iff.mp hmake
    obtain ⟨rfl, rfl⟩ := Prod.mk.inj hpair
    obtain ⟨slot, -, hread⟩ := Option.bind_eq_some_iff.mp hbehind
    have hmem : some cell ∈ o.slots := List.mem_of_getElem? (Option.join_eq_some_iff.mp hread)
    exact ⟨_, Nat.le_refl _, rfl, ho.slots cell hmem, fun _ _ hown => nomatch hown⟩

end Making

namespace Owners.Succeeds

variable {m : Moment V} {o : Owners V} (ho : o.Grounded) (hm : o.outside.Within m)
include ho hm

/-- Identities may be given away. -/
theorem fresh_succeeds {fresh : Nat} (hfresh : o.fresh ≤ fresh) : Succeeds m o { o with fresh } :=
  of_holders ho hm hfresh rfl fun _ h => Or.inl h

/-- The references outside may stay as they are. -/
theorem refl : Succeeds m o o := of_holders ho hm (Nat.le_refl _) rfl fun _ h => Or.inl h

/-- A name may own a value, in place of what it owned, that is new or was owned before. -/
theorem ownOnly_succeeds {fresh : Nat} (hfresh : o.fresh ≤ fresh) {cell : Cell V}
    (hcell : cell.id < fresh) (hfair : (Holder.strong cell).Fair m o) (name : Name) :
    Succeeds m o (ownOnly { o with fresh } name cell) := by
  refine of_holders ho hm hfresh rfl fun h hmem => (mem_holders_ownOnly _ hmem).imp id ?_
  rintro rfl
  exact ⟨hcell, hfair⟩

/-- A name may own one more value that was made and owned before. -/
theorem own_succeeds {cell : Cell V} (hcell : cell.id < o.fresh)
    (hfair : (Holder.strong cell).Fair m o) (name : Name) : Succeeds m o (o.own name cell) := by
  refine of_holders ho hm (Nat.le_refl _) rfl fun h hmem => (mem_holders_own _ hmem).imp id ?_
  rintro rfl
  exact ⟨hcell, hfair⟩

/-- A new slot may be filled with a value that is new or was owned before. -/
theorem soften_succeeds {fresh : Nat} (hfresh : o.fresh ≤ fresh) {cell : Cell V}
    (hcell : cell.id < fresh) (hfair : (Holder.strong cell).Fair m o) (name : Name) :
    Succeeds m o (soften { o with fresh } name cell) := by
  refine of_soften ho hm hfresh rfl hcell hfair fun h hmem => ?_
  exact mem_holders_soften ({ o with fresh } : Owners V) hmem

/-- A reference may be kept that leads somewhere and is fair. -/
theorem file_succeeds {fresh : Nat} (hfresh : o.fresh ≤ fresh) {kept : Holder V}
    (hknown : kept.Known { o with fresh }) (hfair : kept.Fair m o) (index : Nat) :
    Succeeds m o (file { o with fresh } index kept) := by
  refine of_holders ho hm hfresh rfl fun h hmem => (mem_holders_file _ hmem).imp id ?_
  rintro rfl
  exact ⟨hknown.mono (Nat.le_refl _) (Nat.le_refl _), hfair⟩

/-- References may be let go of. -/
theorem drop_succeeds (label : Label) : Succeeds m o (o.drop label) := by
  refine of_holders ho hm ?_ ?_ fun h hmem => Or.inl (holders_drop o label hmem)
  · cases label <;> exact Nat.le_refl _
  · cases label <;> rfl

/-- A slot may get one more handle. -/
theorem share_succeeds (source target : Name) : Succeeds m o (o.share source target) := by
  refine of_holders ho hm ?_ ?_ fun h hmem => Or.inl (holders_share o source target hmem)
  · rw [Owners.share]
    split <;> exact Nat.le_refl _
  · rw [Owners.share]
    split <;> rfl

/-- The slot of a handle may be emptied. -/
theorem reclaim_succeeds (name : Name) : Succeeds m o (o.reclaim name) := by
  rw [Owners.reclaim]
  cases o.handles.lookup name with
  | none => exact refl ho hm
  | some slot => exact of_reclaim ho hm slot

end Owners.Succeeds

end TimedCache
