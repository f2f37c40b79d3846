import TimedCache.Proofs.Session.Evolution

/-!
# Holders and owners

A reference resolves exactly while its value is kept alive. A strong one keeps it alive itself, a soft
one resolves until a handle of its slot is reclaimed, and a weak one for as long as somebody owns the
value. Owners come and go with everything that happens, entries that leave the store included, so one
removal may end the value of another entry. What has ended does not come back.
-/

namespace TimedCache

variable {V : Type}

/-- Something still refers to the soft slot: a handle, a copy or an entry in the store. -/
inductive Store.RefersTo (s : Store V) (slot : Nat) : Prop
  | handle {name : Name} (h : (name, slot) ∈ s.owners.handles)
  | copy {index : Nat} (h : (index, .soft slot) ∈ s.owners.copies)
  | entry {key : String} {e : Entry V} (h : (key, e) ∈ s.entries) (hsoft : .soft slot ∈ e.holders)

/-- Somebody owns the value with this identity: a name outside, a strong copy, a custom entry that the
application keeps, an entry in the store with a strong reference, or a full soft slot that something
still refers to. -/
inductive Store.Owner (s : Store V) (id : Nat) : Prop
  | value {name : Name} {cell : Cell V} (h : (name, cell) ∈ s.owners.values) (hid : cell.id = id)
  | copy {index : Nat} {cell : Cell V} (h : (index, .strong cell) ∈ s.owners.copies)
    (hid : cell.id = id)
  | custom {c : CustomEntry V} {cell : Cell V} (h : c ∈ s.owners.customs) (hvalue : c.value = some cell)
    (hid : cell.id = id)
  | entry {key : String} {e : Entry V} {cell : Cell V} (h : (key, e) ∈ s.entries)
    (hstrong : .strong cell ∈ e.holders) (hid : cell.id = id)
  | slot {slot : Nat} {cell : Cell V} (hfull : s.owners.slots.read slot = some cell)
    (hid : cell.id = id) (hrefers : s.RefersTo slot)

namespace Owners

/-- A reference outside is a value owned by name, a handle, a copy, or held by a custom entry. -/
theorem mem_holders_iff {o : Owners V} {holder : Holder V} : holder ∈ o.holders
    ↔ (∃ name cell, (name, cell) ∈ o.values ∧ .strong cell = holder)
      ∨ (∃ name slot, (name, slot) ∈ o.handles ∧ .soft slot = holder)
      ∨ (∃ index, (index, holder) ∈ o.copies) ∨ ∃ c ∈ o.customs, holder ∈ c.holders := by
  simp [holders]

end Owners

namespace Store

variable {s : Store V}

/-- A value is owned at the moment exactly if it has an owner. -/
theorem isOwned_iff_owner {id : Nat} : Holder.isOwned (s.moment []) id = true ↔ s.Owner id := by
  rw [Holder.isOwned_iff]
  constructor
  · rintro ⟨holder, hholder, howned⟩
    have hholder := mem_moment_iff.mp hholder
    rw [Owners.mem_holders_iff] at hholder
    cases holder with
    | weak cell => cases howned
    | strong cell =>
      have hid : cell.id = id := Option.some.inj howned
      rcases hholder with (⟨name, kept, h, hkept⟩ | ⟨_, _, _, hkept⟩ | ⟨index, h⟩ | ⟨c, hc, h⟩) | ⟨p, hp, h⟩
      · obtain rfl := Holder.strong.inj hkept
        exact .value h hid
      · cases hkept
      · exact .copy h hid
      · obtain ⟨kept, hvalue, hkept⟩ := CustomEntry.mem_holders_iff.mp h
        obtain rfl := Holder.strong.inj hkept
        exact .custom hc hvalue hid
      · exact .entry hp h hid
    | soft slot =>
      obtain ⟨cell, hfull, hid⟩ := Option.map_eq_some_iff.mp howned
      refine .slot hfull hid ?_
      rcases hholder with (⟨_, _, _, hkept⟩ | ⟨name, kept, h, hkept⟩ | ⟨index, h⟩ | ⟨c, hc, h⟩) | ⟨p, hp, h⟩
      · cases hkept
      · obtain rfl := Holder.soft.inj hkept
        exact .handle h
      · exact .copy h
      · obtain ⟨kept, -, hkept⟩ := CustomEntry.mem_holders_iff.mp h
        cases hkept
      · exact .entry hp h
  · have hstrong {cell : Cell V} (h : .strong cell ∈ (s.moment []).holders) (hid : cell.id = id) :
        ∃ holder ∈ (s.moment []).holders, holder.owned (s.moment []).slots = some id :=
      ⟨.strong cell, h, congrArg some hid⟩
    have houtside {holder : Holder V} (h : holder ∈ s.owners.holders) :
        holder ∈ (s.moment []).holders := mem_moment_iff.mpr (.inl h)
    rintro (⟨h, hid⟩ | ⟨h, hid⟩ | ⟨h, hvalue, hid⟩ | ⟨h, hheld, hid⟩ | ⟨hfull, hid, hrefers⟩)
    · exact hstrong (houtside (Owners.mem_holders_iff.mpr (.inl ⟨_, _, h, rfl⟩))) hid
    · exact hstrong (houtside (Owners.mem_holders_iff.mpr (.inr (.inr (.inl ⟨_, h⟩))))) hid
    · have hheld := CustomEntry.mem_holders_iff.mpr ⟨_, hvalue, rfl⟩
      exact hstrong (houtside (Owners.mem_holders_iff.mpr (.inr (.inr (.inr ⟨_, h, hheld⟩))))) hid
    · exact hstrong (mem_moment_iff.mpr (.inr ⟨_, h, hheld⟩)) hid
    · refine ⟨.soft _, ?_, (congrArg (Option.map Cell.id) hfull).trans (congrArg some hid)⟩
      obtain h | h | ⟨h, hheld⟩ := hrefers
      · exact houtside (Owners.mem_holders_iff.mpr (.inr (.inl ⟨_, _, h, rfl⟩)))
      · exact houtside (Owners.mem_holders_iff.mpr (.inr (.inr (.inl ⟨_, h⟩))))
      · exact mem_moment_iff.mpr (.inr ⟨_, h, hheld⟩)

end Store

namespace Holder

/-- Emptying a slot takes nothing from what owns its value otherwise. -/
theorem owned_reclaim {slots : Slots V} {slot : Nat} {holder : Holder V} (h : holder ≠ .soft slot) :
    holder.owned (slots.reclaim slot) = holder.owned slots := by
  cases holder with
  | strong | weak => rfl
  | soft other =>
    have hother : other ≠ slot := fun hsame => h (hsame ▸ rfl)
    rw [owned, Slots.read_reclaim, if_neg hother, owned]

end Holder

namespace Session

variable {s : Session V}

/-- Whoever has an owner besides a slot goes on to resolve when a handle of the slot is reclaimed. -/
theorem resolve_of_reclaim {handle : Name} {slot : Nat}
    (hhandle : s.owners.handles.lookup handle = some slot) {holder : Holder V}
    (hother : holder ≠ .soft slot) {cell : Cell V} (hresolve : holder.resolve s.moment = some cell)
    (howner : ∃ owner ∈ s.moment.holders, owner ≠ .soft slot
      ∧ owner.owned s.owners.slots = some cell.id) :
    holder.resolve (s.perform (.reclaim handle)).1.moment = some cell := by
  have hmoment : (s.perform (.reclaim handle)).1.moment
      = { slots := s.owners.slots.reclaim slot, holders := s.moment.holders } := by
    have howners : (s.perform (.reclaim handle)).1.owners
        = { s.owners with slots := s.owners.slots.reclaim slot } := by
      change s.owners.reclaim handle = _
      rw [Owners.reclaim, hhandle]
    change Store.moment { s.cache.store with owners := (s.perform (.reclaim handle)).1.owners } [] = _
    rw [howners]
    rfl
  rw [hmoment]
  cases holder with
  | strong kept => exact hresolve
  | weak kept =>
    obtain ⟨owner, hmem, hbesides, howned⟩ := howner
    have hkept : kept = cell := by
      rw [Holder.resolve] at hresolve
      split at hresolve
      · exact Option.some.inj hresolve
      · cases hresolve
    subst hkept
    rw [Holder.resolve, if_pos]
    exact Holder.isOwned_iff.mpr ⟨owner, hmem, (Holder.owned_reclaim hbesides).trans howned⟩
  | soft other =>
    have hdiffers : other ≠ slot := fun hsame => hother (hsame ▸ rfl)
    rw [Holder.resolve, Slots.read_reclaim, if_neg hdiffers]
    exact hresolve

/-- In every state that a session comes to, whichever hooks panicked on the way: a reference says that
it is reclaimed exactly if it does not resolve. A strong one resolves. A soft one resolves unless a
handle of its slot was reclaimed. A weak one resolves exactly if its value has an owner. Reclaiming a
handle does not keep a reference from resolving whose value has another owner, and a reference that
does not resolve does not resolve later either. -/
theorem holders_resolve (settings : Settings) (hosted : Bool) (host : Host) (wall : WallTime)
    (commands : List (Command V)) :
    let start : Session V := opened settings hosted host wall
    let s := start.run commands
    ∀ holder ∈ s.moment.holders,
      (holder.isReclaimed s.moment = true ↔ holder.resolve s.moment = none)
      ∧ (∀ cell, holder = .strong cell → holder.resolve s.moment = some cell)
      ∧ (∀ slot, holder = .soft slot →
        ((holder.resolve s.moment).isSome ↔ slot ∉ start.reclaimedSlots commands))
      ∧ (∀ cell, holder = .weak cell →
        (holder.resolve s.moment = some cell ↔ s.cache.store.Owner cell.id)
        ∧ (holder.resolve s.moment = none ↔ ¬ s.cache.store.Owner cell.id))
      ∧ (∀ handle slot cell, s.owners.handles.lookup handle = some slot → holder ≠ .soft slot →
        holder.resolve s.moment = some cell →
        (∃ owner ∈ s.moment.holders, owner ≠ .soft slot
          ∧ owner.owned s.owners.slots = some cell.id) →
        holder.resolve (s.perform (.reclaim handle)).1.moment = some cell)
      ∧ ∀ later, holder.resolve s.moment = none → holder.resolve (s.run later).moment = none := by
  intro start s holder hholder
  have hevolves : start.cache.store.Evolves (start.reclaimedSlots commands) s.cache.store := by
    have hnodup : start.cache.store.keys.Nodup := List.nodup_nil
    exact run_evolves (Store.createdAt_grounded wall) hnodup commands
  have hknown : holder.Known s.owners := hevolves.grounded.known hholder
  refine ⟨?_, ?_, ?_, ?_, ?_, ?_⟩
  · rw [Holder.isReclaimed_eq, Option.isNone_iff_eq_none]
  · rintro cell rfl
    rfl
  · rintro slot rfl
    exact hevolves.slots.filled slot (Nat.zero_le _) hknown
  · rintro cell rfl
    rw [← Store.isOwned_iff_owner, Holder.resolve]
    change (_ ↔ Holder.isOwned s.moment cell.id = true) ∧ (_ ↔ ¬ Holder.isOwned s.moment cell.id = true)
    split <;> next howned => simp [howned]
  · intro handle slot cell hhandle hother hresolve howner
    exact resolve_of_reclaim hhandle hother hresolve howner
  · intro later hnone
    have hlater := run_evolves hevolves.grounded hevolves.nodup later
    exact hlater.resolve_eq_none hknown hnone

/-- An entry holds a value that its first owner has dropped, and a weak copy of it is kept. -/
def survivingRun : List (Command Nat) :=
  [.own "o" 1, .storeHeld "a" (.strongOf "o") (.ofSeconds 0), .refer 0 (.weakOf "o"), .drop (.owner "o")]

/-- The entry is what the copy resolves by: when it is removed, the copy never resolves again. -/
theorem holders_resolve_surviving :
    let start : Session Nat := opened {} false { link := .connected } 0
    let copy : Holder Nat := .weak ⟨0, 1⟩
    copy.resolve (start.run survivingRun).moment = some ⟨0, 1⟩
      ∧ ∀ later, copy.resolve ((start.run (survivingRun ++ [.uncacheLike "a"])).run later).moment = none := by
  intro start copy
  refine ⟨by decide, fun later => ?_⟩
  have hcopy : copy ∈ (start.run (survivingRun ++ [.uncacheLike "a"])).moment.holders := by decide
  obtain ⟨-, -, -, -, -, hlasts⟩ := holders_resolve {} false { link := .connected } 0 _ copy hcopy
  exact hlasts later (by decide)

end Session

end TimedCache
