import TimedCache.Proofs.Session.Lasting
import TimedCache.Proofs.Store.Ledger

/-!
# How references evolve

Whatever an application does and whichever hooks panic, references come and go in one way. New values
get identities that none had before, and new slots are full and come behind the others. A slot is
emptied when a handle of it is reclaimed, and at no other time. And an old value is owned by nobody
that did not get it from an owner, so what nobody owns nobody will own.
-/

namespace TimedCache

variable {V : Type}

namespace Slots

/-- Some slots are emptied, and full ones are added behind the others. -/
structure Evolves (emptied : List Nat) (slots slots' : Slots V) : Prop where
  length : slots.length ≤ slots'.length
  known : ∀ slot ∈ emptied, slot < slots'.length
  kept : ∀ slot, slot < slots.length →
    slots'.read slot = if slot ∈ emptied then none else slots.read slot
  filled : ∀ slot, slots.length ≤ slot → slot < slots'.length →
    ((slots'.read slot).isSome ↔ slot ∉ emptied)

namespace Evolves

variable {slots slots' slots'' : Slots V} {emptied emptied' : List Nat}

theorem refl (slots : Slots V) : Evolves [] slots slots where
  length := Nat.le_refl _
  known := by simp
  kept := by simp
  filled := by omega

theorem trans (h : Evolves emptied slots slots') (h' : Evolves emptied' slots' slots'') :
    Evolves (emptied ++ emptied') slots slots'' where
  length := Nat.le_trans h.length h'.length
  known := by
    intro slot hslot
    rcases List.mem_append.mp hslot with hslot | hslot
    · exact Nat.lt_of_lt_of_le (h.known slot hslot) h'.length
    · exact h'.known slot hslot
  kept := by
    intro slot hslot
    rw [h'.kept slot (Nat.lt_of_lt_of_le hslot h.length), h.kept slot hslot]
    by_cases hfirst : slot ∈ emptied <;> by_cases hsecond : slot ∈ emptied' <;> simp [hfirst, hsecond]
  filled := by
    intro slot hnew hslot
    rcases Nat.lt_or_ge slot slots'.length with hbefore | hafter
    · have hfilled := h.filled slot hnew hbefore
      rw [h'.kept slot hbefore]
      by_cases hsecond : slot ∈ emptied' <;> simp [hfilled, hsecond]
    · have hfilled := h'.filled slot hafter hslot
      have hnever : slot ∉ emptied := fun hmem => absurd (h.known slot hmem) (Nat.not_lt.mpr hafter)
      simp [hfilled, hnever]

/-- A slot that exists is emptied. -/
theorem reclaim {slot : Nat} (hslot : slot < slots.length) :
    Evolves [slot] slots (slots.reclaim slot) where
  length := Nat.le_of_eq (List.length_set ..).symm
  known := by simpa [Slots.reclaim] using hslot
  kept := by
    intro other _
    simp [read_reclaim]
  filled := by
    intro other hnew hother
    have hlength : (slots.reclaim slot).length = slots.length := List.length_set ..
    omega

/-- A full slot is added. -/
theorem concat (slots : Slots V) (cell : Cell V) : Evolves [] slots (slots ++ [some cell]) where
  length := by simp
  known := by simp
  kept := by
    intro slot hslot
    simp [read_concat_of_lt hslot]
  filled := by
    intro slot hnew hslot
    have hlast : slot = slots.length := by
      rw [List.length_append, List.length_singleton] at hslot
      omega
    simp [hlast, read_concat_length]

/-- A slot that was empty stays so. -/
theorem read_eq_none (h : Evolves emptied slots slots') {slot : Nat} (hslot : slot < slots.length)
    (hnone : slots.read slot = none) : slots'.read slot = none := by
  rw [h.kept slot hslot, hnone, ite_self]

/-- A slot that is full holds what it held. -/
theorem read_eq_some (h : Evolves emptied slots slots') {slot : Nat} (hslot : slot < slots.length)
    {cell : Cell V} (hsome : slots'.read slot = some cell) : slots.read slot = some cell := by
  rw [h.kept slot hslot] at hsome
  split at hsome
  · cases hsome
  · exact hsome

end Evolves

end Slots

/-- To allocate is to give identities away, that of the new value among them if there is one. -/
theorem Owners.allocate?_spec (o : Owners V) (value : Option V) : ∃ fresh cell,
    o.allocate? value = ({ o with fresh }, cell) ∧ o.fresh ≤ fresh
      ∧ ∀ c ∈ cell, o.fresh ≤ c.id ∧ c.id < fresh := by
  cases value with
  | none => exact ⟨o.fresh, none, rfl, Nat.le_refl _, by simp⟩
  | some v =>
    refine ⟨o.fresh + 1, some ⟨o.fresh, v⟩, rfl, Nat.le_succ _, ?_⟩
    simp

/-- A custom entry holds the value that it has, and owns it. -/
theorem CustomEntry.mem_holders_iff {e : CustomEntry V} {holder : Holder V} :
    holder ∈ e.holders ↔ ∃ cell ∈ e.value, .strong cell = holder := by
  simp [holders]

/-- What a custom entry on record holds is a reference outside. -/
theorem Owners.custom_mem_of_custom? (o : Owners V) {id : Name} {e : CustomEntry V}
    (h : o.custom? id = some e) {holder : Holder V} (hholder : holder ∈ e.holders) :
    holder ∈ o.holders := by
  have hmem : e ∈ o.customs := List.mem_of_find?_eq_some h
  exact List.mem_append_right _ (List.mem_flatMap.mpr ⟨e, hmem, hholder⟩)

/-- Keeping a custom entry in place of another adds the references that it holds. -/
theorem Owners.mem_holders_enroll (o : Owners V) {later : CustomEntry V} {holder : Holder V}
    (h : holder ∈ (o.enroll later).holders) : holder ∈ o.holders ∨ holder ∈ later.holders := by
  simp only [enroll, holders, List.flatMap_append, List.flatMap_singleton, List.mem_append,
    List.mem_flatMap, List.mem_filter] at h ⊢
  grind

/-- A revised entry holds what it held or what the revision holds. -/
theorem Entry.mem_holders_revisedTo (e : Entry V) {later : CustomEntry V} {holder : Holder V}
    (h : holder ∈ (e.revisedTo later).holders) : holder ∈ e.holders ∨ holder ∈ later.holders := by
  cases e with
  | timed e => exact .inl h
  | custom c =>
    rw [revisedTo] at h
    split at h
    · exact .inr h
    · exact .inl h

namespace Store

variable {s s' s'' : Store V} {emptied emptied' : List Nat}

/-- What exists at the moment is outside or held by an entry. -/
theorem mem_moment_iff {holder : Holder V} : holder ∈ (s.moment []).holders
    ↔ holder ∈ s.owners.holders ∨ ∃ p ∈ s.entries, holder ∈ p.2.holders := by
  simp [moment]

/-- A reference that may exist later on: it leads somewhere, and if it owns an old value then somebody
owned that before. -/
def Admits (s : Store V) (o : Owners V) (h : Holder V) : Prop :=
  h.Known o ∧ ∀ id, id < s.owners.fresh → h.owned o.slots = some id →
    Holder.isOwned (s.moment []) id = true

/-- A fair reference is admitted while no slot has changed. -/
theorem Admits.of_fair (o : Owners V) (hslots : o.slots = s.owners.slots) {h : Holder V}
    (hknown : h.Known o) (hfair : h.Fair (s.moment []) s.owners) : s.Admits o h :=
  ⟨hknown, fun id hid howned => hfair id hid (hslots ▸ howned)⟩

/-- A later store: no identity is given away again, slots are emptied as is said, all references lead
somewhere, and nobody owns an old value that nobody owned. -/
structure Evolves (emptied : List Nat) (s s' : Store V) : Prop where
  fresh : s.owners.fresh ≤ s'.owners.fresh
  slots : Slots.Evolves emptied s.owners.slots s'.owners.slots
  owned : ∀ id, id < s.owners.fresh → Holder.isOwned (s'.moment []) id = true →
    Holder.isOwned (s.moment []) id = true
  grounded : s'.Grounded
  nodup : s'.keys.Nodup

namespace Evolves

theorem refl (hg : s.Grounded) (hnodup : s.keys.Nodup) : Evolves [] s s :=
  ⟨Nat.le_refl _, .refl _, fun _ _ h => h, hg, hnodup⟩

theorem trans (h : Evolves emptied s s') (h' : Evolves emptied' s' s'') :
    Evolves (emptied ++ emptied') s s'' where
  fresh := Nat.le_trans h.fresh h'.fresh
  slots := h.slots.trans h'.slots
  owned id hid howned := h.owned id hid (h'.owned id (Nat.lt_of_lt_of_le hid h.fresh) howned)
  grounded := h'.grounded
  nodup := h'.nodup

/-- The references that exist in the end are admitted. -/
theorem admits (h : Evolves emptied s s') {holder : Holder V}
    (hholder : holder ∈ (s'.moment []).holders) : s.Admits s'.owners holder := by
  refine ⟨h.grounded.known hholder, fun id hid howned => h.owned id hid ?_⟩
  exact Holder.isOwned_iff.mpr ⟨holder, hholder, howned⟩

/-- References may become others that are admitted. -/
theorem of_admits (h : Evolves emptied s s') (hfresh : s''.owners.fresh = s'.owners.fresh)
    (hslots : s''.owners.slots = s'.owners.slots) (hnodup : s''.keys.Nodup)
    (hadmits : ∀ holder ∈ (s''.moment []).holders, s.Admits s'.owners holder) :
    Evolves emptied s s'' where
  fresh := hfresh ▸ h.fresh
  slots := hslots ▸ h.slots
  owned id hid howned := by
    obtain ⟨holder, hholder, hown⟩ := Holder.isOwned_iff.mp howned
    exact (hadmits holder hholder).2 id hid (hslots ▸ hown)
  grounded := by
    have hknown {holder : Holder V} (hholder : holder ∈ (s''.moment []).holders) :
        holder.Known s''.owners :=
      (hadmits holder hholder).1.mono (Nat.le_of_eq hfresh.symm) (Nat.le_of_eq (hslots ▸ rfl))
    refine ⟨⟨fun holder hholder => hknown (mem_moment_iff.mpr (.inl hholder)), ?_⟩, ?_⟩
    · rw [hslots, hfresh]
      exact h.grounded.owners.slots
    · exact fun p hp holder hholder => hknown (mem_moment_iff.mpr (.inr ⟨p, hp, hholder⟩))
  nodup := hnodup

/-- An operation evolves a store if what it puts is admitted. -/
theorem operate (h : Evolves emptied s s') {a : Action V} (hoperation : (Occasion.mk s' a).isOperation)
    (hstored : ∀ p ∈ a.stored, ∀ holder ∈ p.2.holders, s.Admits s'.owners holder) :
    Evolves emptied s (s'.act a) := by
  have howners : (s'.act a).owners = s'.owners :=
    Occasion.owners_eq (o := ⟨s', a⟩) h.nodup hoperation
  apply h.of_admits (congrArg _ howners) (congrArg _ howners)
  · exact Occasion.after_nodup (o := ⟨s', a⟩) h.nodup
  · intro holder hholder
    rw [mem_moment_iff, howners] at hholder
    obtain hout | ⟨p, hp, hheld⟩ := hholder
    · exact h.admits (mem_moment_iff.mpr (.inl hout))
    · obtain ⟨e, horigin, hsame⟩ := Occasion.origin (o := ⟨s', a⟩) h.nodup hoperation p hp
      have he : holder ∈ e.holders := by
        obtain hsame | ⟨now, hsame⟩ := hsame
        · exact hsame ▸ hheld
        · rwa [hsame, Entry.accessed_holders] at hheld
      rcases horigin with hentered | hbefore
      · obtain ⟨t, haction⟩ := Occasion.action_of_mem_entered hentered
        obtain rfl : a = .put t p.1 e := haction
        exact hstored (p.1, e) (List.mem_singleton_self _) holder he
      · exact h.admits (mem_moment_iff.mpr (.inr ⟨_, hbefore, he⟩))

/-- Removals evolve a store, one after the other. -/
theorem follow (h : Evolves emptied s s') {script : List (Action V)}
    (hscript : ∀ a ∈ script, a.isRemoval) : Evolves emptied s (s'.follow script) := by
  induction script generalizing s' with
  | nil => exact h
  | cons a rest ih =>
    obtain ⟨ha, hrest⟩ := List.forall_mem_cons.mp hscript
    refine ih ?_ hrest
    cases a with
    | uncacheLike | sweep | drain => exact h.operate rfl (by simp [Action.stored])
    | _ => cases ha

/-- The references outside may turn into others that own nothing anew. -/
theorem refer (h : Evolves [] s s') (howners : s'.owners = s.owners) {owners : Owners V}
    (hsucceeds : s.owners.Succeeds (s.moment []) owners)
    (hslots : Slots.Evolves emptied s.owners.slots owners.slots) :
    Evolves emptied s { s' with owners } where
  fresh := hsucceeds.fresh
  slots := hslots
  owned id hid howned := by
    obtain ⟨holder, hholder, hown⟩ := Holder.isOwned_iff.mp howned
    obtain hout | ⟨p, hp, hheld⟩ := mem_moment_iff.mp hholder
    · exact hsucceeds.owned id hid (Holder.isOwned_iff.mpr ⟨holder, hout, hown⟩)
    · have hadmits := h.admits (mem_moment_iff.mpr (.inr ⟨p, hp, hheld⟩))
      apply hadmits.2 id hid
      rw [howners] at hadmits ⊢
      cases holder with
      | strong cell => exact hown
      | weak cell => cases hown
      | soft slot =>
        obtain ⟨cell, hread, hcell⟩ := Option.map_eq_some_iff.mp hown
        rw [Holder.owned, hslots.read_eq_some hadmits.1 hread, Option.map_some, hcell]
  grounded := by
    refine ⟨hsucceeds.grounded, fun p hp holder hholder => hsucceeds.known ?_⟩
    exact howners ▸ h.grounded.entries p hp holder hholder
  nodup := h.nodup

/-- A custom entry may be revised if what it holds then is admitted. -/
theorem revise (h : Evolves emptied s s') {later : CustomEntry V}
    (hlater : ∀ holder ∈ later.holders, s.Admits s'.owners holder) :
    Evolves emptied s (s'.reviseCustom later) := by
  have hkeys : (s'.reviseCustom later).keys = s'.keys := List.map_map
  refine h.of_admits rfl rfl (hkeys ▸ h.nodup) fun holder hholder => ?_
  obtain hout | ⟨p, hp, hheld⟩ := mem_moment_iff.mp hholder
  · obtain hold | hnew := s'.owners.mem_holders_enroll hout
    · exact h.admits (mem_moment_iff.mpr (.inl hold))
    · exact hlater holder hnew
  · obtain ⟨q, hq, rfl⟩ := List.mem_map.mp hp
    obtain hold | hnew := q.2.mem_holders_revisedTo hheld
    · exact h.admits (mem_moment_iff.mpr (.inr ⟨q, hq, hold⟩))
    · exact hlater holder hnew

/-- The references outside may be set, and then an entry may be put that holds what is admitted. -/
theorem refer_put (hg : s.Grounded) (hnodup : s.keys.Nodup) {owners : Owners V}
    (hsucceeds : s.owners.Succeeds (s.moment []) owners) (hslots : owners.slots = s.owners.slots)
    {e : Entry V} (he : ∀ holder ∈ e.holders, s.Admits owners holder) (t : WallTime) (key : String) :
    Evolves [] s (s.follow [.refer owners, .put t key e]) := by
  have hrefer : Evolves [] s { s with owners } :=
    (refl hg hnodup).refer rfl hsucceeds (hslots ▸ .refl _)
  exact hrefer.operate (a := .put t key e) rfl (List.forall_mem_singleton.mpr he)

/-- What did not resolve does not resolve. -/
theorem resolve_eq_none (h : Evolves emptied s s') {holder : Holder V} (hknown : holder.Known s.owners)
    (hnone : holder.resolve (s.moment []) = none) : holder.resolve (s'.moment []) = none := by
  cases holder with
  | strong cell => cases hnone
  | weak cell =>
    rw [Holder.resolve] at hnone ⊢
    split at hnone
    · cases hnone
    · next hunowned => exact if_neg fun howned => hunowned (h.owned cell.id hknown howned)
  | soft slot => exact h.slots.read_eq_none hknown hnone

end Evolves

/-- A look-up returns the value that the entry under its key resolves to. -/
theorem exists_of_get {t : WallTime} {key : String} {cell : Cell V}
    (h : (s.get t key).result = .ok (some cell)) :
    ∃ e, (key, e) ∈ s.entries ∧ e.cell (s.moment []) = some cell := by
  have hlast {α : Type} {r : Op V α} {f : Store V → Store V} {found : Option (Cell V)}
      (h : (r.andThen fun s _ => .done (f s) found).result = .ok (some cell)) : found = some cell := by
    rw [Ran.andThen] at h
    cases hresult : r.result with
    | ok a =>
      rw [hresult] at h
      exact Except.ok.inj h
    | error p =>
      rw [hresult] at h
      cases h
  rw [get] at h
  dsimp only at h
  cases hfind : (s.count (Stats.touch t.stamp)).find? key with
  | none =>
    rw [hfind] at h
    cases h
  | some e =>
    rw [hfind] at h
    dsimp only at h
    split at h
    · exact ⟨e, mem_of_lookup hfind, hlast h⟩
    · cases hlast h

end Store

namespace Session

variable {s : Session V}

/-- The slot that a command empties. -/
def reclaims (s : Session V) : Command V → Option Nat
  | .reclaim handle => s.owners.handles.lookup handle
  | _ => none

/-- The slots that commands empty, one after the other. -/
def reclaimedSlots (s : Session V) : List (Command V) → List Nat
  | [] => []
  | c :: rest => (s.reclaims c).toList ++ (s.step c).1.reclaimedSlots rest

/-- Commands on references add full slots, and empty the slot of a handle that is reclaimed. -/
theorem references_slots (hg : s.cache.store.Grounded) {c : Command V} (hc : c.isReference) :
    Slots.Evolves (s.reclaims c).toList s.owners.slots (s.perform c).1.owners.slots := by
  have hsame {α : Type} {found : Option α} {f : α → Owners V}
      (h : ∀ a, found = some a → Slots.Evolves [] s.owners.slots (f a).slots) :
      Slots.Evolves [] s.owners.slots ((found.map f).getD s.owners).slots := by
    cases found with
    | none => exact .refl _
    | some a => exact h a rfl
  cases c with
  | own name value => exact .refl _
  | soften handle value => exact .concat _ _
  | softenOwned handle owner => exact hsame fun cell _ => .concat _ cell
  | share source target =>
    change Slots.Evolves [] s.owners.slots (s.owners.share source target).slots
    rw [Owners.share]
    split <;> exact .refl _
  | refer index holding =>
    rw [refer_owners]
    refine hsame fun made hmake => ?_
    obtain ⟨fresh, -, hmade, -⟩ := Holding.make?_eq_some hg.owners (s.cache.store.outside_within []) hmake
    rw [hmade]
    exact .refl _
  | copy source target => exact hsame fun _ _ => .refl _
  | keepValue source owner => exact hsame fun _ _ => .refl _
  | drop label => cases label <;> exact .refl _
  | reclaim handle =>
    change Slots.Evolves (s.owners.handles.lookup handle).toList _ (s.owners.reclaim handle).slots
    rw [Owners.reclaim]
    cases hlookup : s.owners.handles.lookup handle with
    | none => exact .refl _
    | some slot => exact .reclaim (hg.owners.holders _ (s.owners.soft_mem_of_lookup hlookup))
  | _ => cases hc

/-- Whoever keeps a value that a look-up found gets it from an owner. -/
theorem get_succeeds (hg : s.cache.store.Grounded) (hnodup : s.cache.store.keys.Nodup) (key : String)
    (keep : Option Name) : s.owners.Succeeds s.moment (s.get key keep).1.owners
      ∧ (s.get key keep).1.owners.slots = s.owners.slots := by
  have hm : s.owners.outside.Within s.moment := s.cache.store.outside_within []
  have hstore : (s.cache.get key).state.store = s.cache.store.act (.get s.cache.wall key) :=
    Cache.touching_store _ _
  have howners : (s.cache.get key).state.store.owners = s.owners := by
    rw [hstore]
    exact Occasion.owners_eq (o := ⟨s.cache.store, .get s.cache.wall key⟩) hnodup rfl
  have hsame : s.owners.Succeeds s.moment (s.cache.get key).state.store.owners
      ∧ (s.cache.get key).state.store.owners.slots = s.owners.slots := by
    rw [howners]
    exact ⟨.refl hg.owners hm, rfl⟩
  rw [get]
  cases hfound : (s.cache.get key).result with
  | error p => exact hsame
  | ok found =>
    cases found with
    | none => exact hsame
    | some cell =>
      cases keep with
      | none => exact hsame
      | some name =>
        have hresult : (s.cache.get key).result = (s.cache.store.get s.cache.wall key).result :=
          Cache.touching_result _ _
        obtain ⟨e, hmem, hcell⟩ := Store.exists_of_get (hresult ▸ hfound)
        obtain ⟨holder, hholder, hresolve⟩ := Entry.exists_holder_of_cell hcell
        have hheld : holder ∈ s.moment.holders := Store.mem_moment_iff.mpr (.inr ⟨_, hmem, hholder⟩)
        have hknown := (hg.known hheld).of_resolve hg.owners rfl hresolve
        have hfair := Holder.fair_of_isOwned (o := s.owners) (Holder.isOwned_of_resolve hheld hresolve)
        change s.owners.Succeeds s.moment ((s.cache.get key).state.store.owners.ownOnly name cell)
          ∧ ((s.cache.get key).state.store.owners.ownOnly name cell).slots = s.owners.slots
        rw [howners]
        exact ⟨.ownOnly_succeeds hg.owners hm (Nat.le_refl _) hknown hfair name, rfl⟩

/-- A custom entry may be made, which owns a new value at most. -/
theorem makeCustom_succeeds (hg : s.cache.store.Grounded) {key : String} {id : Name} {expired : Bool}
    {value : Option V} {hooks : Bool} {owners : Owners V} {e : CustomEntry V}
    (hmake : s.owners.makeCustom key id expired value hooks = (owners, e)) :
    s.owners.Succeeds s.moment owners ∧ owners.slots = s.owners.slots
      ∧ ∀ holder ∈ e.holders, s.cache.store.Admits owners holder := by
  obtain ⟨fresh, cell, hallocate, hfresh, hcell⟩ := s.owners.allocate?_spec value
  simp only [Owners.makeCustom, hallocate] at hmake
  obtain ⟨rfl, rfl⟩ := Prod.mk.inj hmake
  set e : CustomEntry V := { number := fresh, key, id, expired, value := cell, hooks }
  set owners : Owners V := { s.owners with fresh := fresh + 1 }
  have hnew : ∀ holder ∈ e.holders,
      holder.Known (owners.enroll e) ∧ holder.Fair s.moment s.owners := by
    intro holder hholder
    obtain ⟨c, hc, rfl⟩ := CustomEntry.mem_holders_iff.mp hholder
    obtain ⟨hlow, hhigh⟩ := hcell c hc
    exact ⟨Nat.lt_succ_of_lt hhigh, Holder.fair_of_fresh hlow⟩
  refine ⟨?_, rfl, fun holder hholder => ?_⟩
  · apply Owners.Succeeds.of_holders hg.owners (s.cache.store.outside_within [])
    · exact Nat.le_succ_of_le hfresh
    · rfl
    · intro holder hholder
      exact (owners.mem_holders_enroll hholder).imp (fun hold => hold) (hnew holder)
  · exact .of_fair (owners.enroll e) rfl (hnew holder hholder).1 (hnew holder hholder).2

/-- A custom entry may be revised, and then owns what it owned or a new value. -/
theorem reviseCustom_evolves (hg : s.cache.store.Grounded) (hnodup : s.cache.store.keys.Nodup)
    (id : Name) (expired : Option Bool) (value : Option (Option V)) :
    s.cache.store.Evolves []
      (s.cache.store.follow (s.reviseCustomActions id expired value)) := by
  have hrefl : s.cache.store.Evolves [] s.cache.store := .refl hg hnodup
  rw [reviseCustomActions]
  cases hfind : s.owners.custom? id with
  | none => exact hrefl
  | some c =>
    cases value with
    | none =>
      refine hrefl.revise fun holder hholder => hrefl.admits (Store.mem_moment_iff.mpr (.inl ?_))
      exact s.owners.custom_mem_of_custom? hfind hholder
    | some v =>
      obtain ⟨fresh, cell, hallocate, hfresh, hcell⟩ := s.owners.allocate?_spec v
      simp only [hallocate]
      have hrefer : s.cache.store.Evolves []
          { s.cache.store with owners := { s.owners with fresh } } :=
        hrefl.refer rfl (.fresh_succeeds hg.owners (s.cache.store.outside_within []) hfresh) (.refl _)
      refine hrefer.revise fun holder hholder => ?_
      obtain ⟨new, hnew, rfl⟩ := CustomEntry.mem_holders_iff.mp hholder
      obtain ⟨hlow, hhigh⟩ := hcell new hnew
      exact .of_fair { s.owners with fresh } rfl hhigh (Holder.fair_of_fresh hlow)

/-- What a command does by itself evolves the store. -/
theorem perform_evolves (hg : s.cache.store.Grounded) (hnodup : s.cache.store.keys.Nodup)
    (c : Command V) :
    s.cache.store.Evolves (s.reclaims c).toList (s.perform c).1.cache.store := by
  have hm : s.owners.outside.Within s.moment := s.cache.store.outside_within []
  have hrefl : s.cache.store.Evolves [] s.cache.store := .refl hg hnodup
  have hvalue (value : V) (key : String) (e : TimedEntry V)
      (he : e.holder = .strong ⟨s.owners.fresh, value⟩) : s.cache.store.Evolves []
        (s.cache.store.follow
          [.refer (s.owners.allocate value).1, .put s.cache.wall key (.timed e)]) := by
    refine .refer_put hg hnodup (.fresh_succeeds hg.owners hm (Nat.le_succ _)) rfl ?_ _ key
    refine List.forall_mem_singleton.mpr ?_
    rw [he]
    exact .of_fair (s.owners.allocate value).1 rfl (Nat.lt_succ_self _)
      (Holder.fair_of_fresh (Nat.le_refl _))
  rw [perform_store]
  cases c with
  | store key value ttl listener => exact hvalue value key _ rfl
  | storeEntry key entryKey value ttl expires listener => exact hvalue value key _ rfl
  | storeHeld key holding ttl =>
    rw [performActions, putHeldActions]
    cases hmake : holding.make? s.owners with
    | none => exact hrefl
    | some made =>
      obtain ⟨owners, holder⟩ := made
      obtain ⟨fresh, hfresh, rfl, hknown, hfair⟩ := Holding.make?_eq_some hg.owners hm hmake
      refine .refer_put hg hnodup (.fresh_succeeds hg.owners hm hfresh) rfl ?_ _ key
      exact List.forall_mem_singleton.mpr (.of_fair { s.owners with fresh } rfl hknown hfair)
  | storeCustom key entryKey id expired value hooks =>
    obtain ⟨hsucceeds, hslots, hadmits⟩ := makeCustom_succeeds hg
      (rfl : s.owners.makeCustom entryKey id expired value hooks = _)
    exact .refer_put hg hnodup hsucceeds hslots (e := .custom _) hadmits _ key
  | reviseCustom id expired value => exact reviseCustom_evolves hg hnodup id expired value
  | get key keep =>
    obtain ⟨hsucceeds, hslots⟩ := get_succeeds hg hnodup key keep
    have hget : s.cache.store.Evolves [] (s.cache.store.act (.get s.cache.wall key)) :=
      hrefl.operate rfl (List.forall_mem_nil _)
    exact hget.refer (Occasion.owners_eq (o := ⟨s.cache.store, .get s.cache.wall key⟩) hnodup rfl)
      hsucceeds (hslots ▸ .refl _)
  | uncache key => exact hrefl.operate (a := .uncache s.cache.wall key) rfl (List.forall_mem_nil _)
  | own | soften | softenOwned | share | refer | copy | keepValue | drop | reclaim =>
    exact hrefl.refer rfl (references_succeed hg rfl) (references_slots hg rfl)
  | uncacheLike | sweep | drain | advance | shutdown | datagram | groupDatagram | send =>
    exact hrefl.follow fun _ => isRemoval_of_mem_performActions rfl
  | setDelegate | arm =>
    exact hrefl.of_admits rfl rfl hnodup fun _ => hrefl.admits
  | readSoft | size | stats | useAge | skew | ensureSweeper | running | settings | setHost | listen
  | unlisten | listenerAlive => exact hrefl

/-- A command and the wake-up after it evolve the store. -/
theorem step_evolves (hg : s.cache.store.Grounded) (hnodup : s.cache.store.keys.Nodup)
    (c : Command V) : s.cache.store.Evolves (s.reclaims c).toList (s.step c).1.cache.store := by
  have hperform := perform_evolves hg hnodup c
  change s.cache.store.Evolves _ (s.perform c).1.cache.settle.store
  rw [Cache.settle_store]
  exact hperform.follow fun _ => Cache.isRemoval_of_mem_settleActions

/-- Commands evolve the store, one after the other. -/
theorem run_evolves (hg : s.cache.store.Grounded) (hnodup : s.cache.store.keys.Nodup)
    (commands : List (Command V)) :
    s.cache.store.Evolves (s.reclaimedSlots commands) (s.run commands).cache.store := by
  induction commands generalizing s with
  | nil => exact .refl hg hnodup
  | cons c rest ih =>
    have hstep := step_evolves hg hnodup c
    exact hstep.trans (ih hstep.grounded hstep.nodup)

end Session

end TimedCache
