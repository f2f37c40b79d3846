import Mathlib.Data.List.Basic
import TimedCache.Store.Basic

/-!
# Comparing moments

With more references around, more values have an owner, so less is reclaimed. A reference that is
reclaimed either way, or neither way, resolves in the same way at every moment in between; what an
entry says of itself depends on nothing but how its references resolve.
-/

namespace TimedCache

variable {V : Type}

/-- The references outside a store, by themselves. -/
def Owners.outside (o : Owners V) : Moment V := { slots := o.slots, holders := o.holders }

namespace Moment

/-- The soft slots are the same, and every reference of the first moment is one of the second. -/
structure Within (m m' : Moment V) : Prop where
  slots : m.slots = m'.slots
  holders : m.holders ⊆ m'.holders

end Moment

/-- What the references outside a store own, somebody owns. -/
theorem Store.outside_within (s : Store V) (inFlight : List (Holder V)) :
    s.owners.outside.Within (s.moment inFlight) :=
  ⟨rfl, fun _ h => List.mem_append_left _ (List.mem_append_left _ h)⟩

namespace Holder

variable {m m' : Moment V}

/-- A value is owned exactly if one of the references owns it. -/
theorem isOwned_iff {id : Nat} : isOwned m id = true ↔ ∃ h ∈ m.holders, h.owned m.slots = some id := by
  simp only [isOwned, List.any_eq_true, beq_iff_eq]

/-- More references own more values. -/
theorem isOwned_mono (h : m.Within m') {id : Nat} (howned : isOwned m id = true) :
    isOwned m' id = true := by
  obtain ⟨holder, hmem, hid⟩ := isOwned_iff.mp howned
  exact isOwned_iff.mpr ⟨holder, h.holders hmem, h.slots ▸ hid⟩

/-- What is reclaimed among more references is reclaimed among fewer. -/
theorem isReclaimed_anti (h : m.Within m') {holder : Holder V}
    (hreclaimed : holder.isReclaimed m' = true) : holder.isReclaimed m = true := by
  cases holder with
  | strong cell => exact hreclaimed
  | weak cell =>
    rw [isReclaimed, Bool.not_eq_true', ← Bool.not_eq_true] at hreclaimed ⊢
    exact fun howned => hreclaimed (isOwned_mono h howned)
  | soft slot =>
    rw [isReclaimed] at hreclaimed ⊢
    rwa [h.slots]

/-- In between two moments that agree on a reference it is reclaimed as it is at both. -/
theorem isReclaimed_between {middle : Moment V} (hlow : m.Within middle) (hhigh : middle.Within m')
    {holder : Holder V} (hends : holder.isReclaimed m' = holder.isReclaimed m) :
    holder.isReclaimed middle = holder.isReclaimed m' := by
  rw [Bool.eq_iff_iff]
  constructor
  · exact fun h => hends ▸ isReclaimed_anti hlow h
  · exact isReclaimed_anti hhigh

/-- Moments with the same slots resolve a reference alike if they agree whether it is reclaimed. -/
theorem resolve_congr (hslots : m.slots = m'.slots) {holder : Holder V}
    (hreclaimed : holder.isReclaimed m = holder.isReclaimed m') : holder.resolve m = holder.resolve m' := by
  cases holder with
  | strong cell => rfl
  | weak cell =>
    have howned : isOwned m cell.id = isOwned m' cell.id := Bool.not_inj hreclaimed
    rw [resolve, resolve, howned]
  | soft slot => rw [resolve, resolve, hslots]

end Holder

namespace Entry

variable {m m' : Moment V} {e : Entry V}

/-- An entry stays expired where its references stay reclaimed and the time is no earlier. -/
theorem isExpired_mono {now now' : Timestamp} (hnow : now ≤ now')
    (hholders : ∀ h ∈ e.holders, h.isReclaimed m = true → h.isReclaimed m' = true)
    (hexpired : e.isExpired m now = true) : e.isExpired m' now' = true := by
  cases e with
  | timed entry =>
    rw [isExpired, Bool.or_eq_true] at hexpired ⊢
    refine hexpired.imp (hholders _ (List.mem_singleton_self _)) fun htime => ?_
    cases hlimit : entry.expiresAt with
    | none => simp [TimedEntry.isTimeExpired, hlimit] at htime
    | some limit =>
      simp only [TimedEntry.isTimeExpired, hlimit, decide_eq_true_eq] at htime ⊢
      exact Nat.lt_of_lt_of_le htime hnow
  | custom c => exact hexpired

/-- Whether an entry is expired depends on whether its references are reclaimed. -/
theorem isExpired_congr (now : Timestamp)
    (hholders : ∀ h ∈ e.holders, h.isReclaimed m = h.isReclaimed m') :
    e.isExpired m now = e.isExpired m' now := by
  cases e with
  | timed entry => rw [isExpired, isExpired, hholders _ (List.mem_singleton_self _)]
  | custom c => rfl

/-- The value of an entry depends on how its references resolve. -/
theorem cell_congr (hslots : m.slots = m'.slots)
    (hholders : ∀ h ∈ e.holders, h.isReclaimed m = h.isReclaimed m') : e.cell m = e.cell m' := by
  cases e with
  | timed entry => exact Holder.resolve_congr hslots (hholders _ (List.mem_singleton_self _))
  | custom c => rfl

/-- Whether an entry can be served depends on how its references resolve. -/
theorem isLive_congr (hslots : m.slots = m'.slots) (now : Timestamp)
    (hholders : ∀ h ∈ e.holders, h.isReclaimed m = h.isReclaimed m') :
    e.isLive m now = e.isLive m' now := by
  rw [isLive, isLive, isExpired_congr now hholders, object, object, cell_congr hslots hholders]

/-- An expired entry cannot be served. -/
theorem isLive_of_isExpired {now : Timestamp} (h : e.isExpired m now = true) :
    e.isLive m now = false := by
  rw [isLive, h, Bool.not_true, Bool.false_and]

/-- Noting an access changes nothing that an entry holds. -/
@[simp] theorem accessed_holders (now : Timestamp) : (e.accessed now).holders = e.holders := by
  cases e <;> rfl

/-- Noting an access does not keep an entry from being expired. -/
@[simp] theorem accessed_isExpired (now accessedAt : Timestamp) :
    (e.accessed accessedAt).isExpired m now = e.isExpired m now := by
  cases e <;> rfl

end Entry

end TimedCache
