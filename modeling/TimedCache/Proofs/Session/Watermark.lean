import TimedCache.Proofs.Session.Script
import TimedCache.Proofs.Store.Regardless

/-!
# The watermark

The watermark is raised when a store notes its size, which an operation does when its work is done.
Whatever takes entries out may be cut short at any hook: the store has shrunk by then. A put may not.
Its entry is in before the hooks are called, and if one of them panics nobody notes that the store
has grown. So the watermark falls short of the size by at most the puts that were cut short since the
size was last noted.
-/

namespace TimedCache

variable {V : Type}

namespace Store

/-- No entry has come in, and the watermark is no lower. -/
structure Shrinks (s s' : Store V) : Prop where
  size : s'.size ≤ s.size
  watermark : s.stats.watermark ≤ s'.stats.watermark

section Shrinks

variable {α β : Type} {s s' s'' : Store V}

theorem Shrinks.refl (s : Store V) : s.Shrinks s := ⟨Nat.le_refl _, Nat.le_refl _⟩

theorem Shrinks.trans (h : s.Shrinks s') (h' : s'.Shrinks s'') : s.Shrinks s'' :=
  ⟨Nat.le_trans h'.size h.size, Nat.le_trans h.watermark h'.watermark⟩

/-- Two operations shrink a store in turn, the second one only if the first returned. -/
theorem Shrinks.andThen {r : Op V α} {next : Store V → α → Op V β} (h : s.Shrinks r.state)
    (hnext : ∀ s' a, Shrinks s' (next s' a).state) : s.Shrinks (r.andThen next).state := by
  rw [Ran.andThen]
  cases r.result with
  | ok a => exact h.trans (hnext _ a)
  | error p => exact h

variable (s) (t : WallTime) (key : String) (e : Entry V) (inFlight : List (Holder V))

theorem observe_shrinks : s.Shrinks s.observe := ⟨Nat.le_refl _, Nat.le_max_left _ _⟩

theorem erase_shrinks : s.Shrinks (s.erase key) := ⟨List.length_filter_le _ _, Nat.le_refl _⟩

/-- Counting changes no size, and counters other than the size leave the watermark. -/
theorem count_shrinks {adjust : Stats → Stats}
    (hadjust : (adjust s.stats).watermark = s.stats.watermark) : s.Shrinks (s.count adjust) :=
  ⟨Nat.le_refl _, Nat.le_of_eq hadjust.symm⟩

/-- The hooks of a transition change neither entries nor counters. -/
theorem announce_shrinks (phase : Phase) :
    s.Shrinks (s.announce t phase key e inFlight).state := by
  obtain ⟨_, _, hstate, -⟩ := s.announce_told t phase key e inFlight
  rw [hstate]
  exact ⟨Nat.le_refl _, Nat.le_refl _⟩

theorem discard_shrinks : s.Shrinks (s.discard t key e inFlight).state :=
  (s.announce_shrinks t key e _ .uncached).andThen fun s _ => s.observe_shrinks

theorem displace_shrinks : s.Shrinks (s.displace t key inFlight).state := by
  rw [displace]
  cases s.find? key with
  | none => exact .refl s
  | some e => exact (s.erase_shrinks key).trans ((s.erase key).discard_shrinks t key e inFlight)

theorem noteAccess_shrinks : s.Shrinks (s.noteAccess t key e).state := by
  cases e with
  | timed e => exact ⟨Nat.le_of_eq (List.length_map _), Nat.le_refl _⟩
  | custom c =>
    obtain ⟨_, hstate⟩ := s.notify_state ⟨t, ⟨some c.id, .access, c.key⟩, .stamp t.stamp⟩
    rw [noteAccess, hstate]
    exact ⟨Nat.le_refl _, Nat.le_refl _⟩

theorem expire_shrinks : s.Shrinks (s.expire t key e).state := by
  have hgone : s.Shrinks ((s.erase key).count Stats.recordExpiration) :=
    (s.erase_shrinks key).trans ((s.erase key).count_shrinks rfl)
  exact Shrinks.andThen (hgone.trans (discard_shrinks _ t key e [])) fun s _ => s.count_shrinks rfl

theorem get_shrinks : s.Shrinks (s.get t key).state := by
  have htouch : s.Shrinks (s.count (Stats.touch t.stamp)) := s.count_shrinks rfl
  rw [get]
  dsimp only
  cases (s.count (Stats.touch t.stamp)).find? key with
  | none => exact htouch.trans (count_shrinks _ rfl)
  | some e =>
    dsimp only
    split
    · exact (htouch.trans (noteAccess_shrinks _ t key e)).andThen fun s _ => s.count_shrinks rfl
    · exact htouch.trans (expire_shrinks _ t key e)

theorem uncache_shrinks : s.Shrinks (s.uncache t key).state :=
  (s.count_shrinks rfl).trans (displace_shrinks _ t key [])

theorem removeEach_shrinks {adjust : Stats → Stats}
    (hadjust : ∀ st, (adjust st).watermark = st.watermark) (keys : List String) :
    s.Shrinks (removeEach t adjust keys s).state := by
  induction keys generalizing s with
  | nil => exact .refl s
  | cons key rest ih =>
    rw [removeEach]
    cases s.find? key with
    | none => exact ih s
    | some e =>
      have hgone : s.Shrinks ((s.erase key).count adjust) :=
        (s.erase_shrinks key).trans ((s.erase key).count_shrinks (hadjust _))
      exact Shrinks.andThen (hgone.trans (discard_shrinks _ t key e [])) fun s _ => ih s

theorem removeAll_shrinks {adjust : Stats → Stats}
    (hadjust : ∀ st, (adjust st).watermark = st.watermark) (keys : List String) :
    s.Shrinks (s.removeAll t adjust keys).state :=
  (s.removeEach_shrinks t hadjust keys).andThen fun s _ => s.observe_shrinks

theorem discardEach_shrinks (gone : List (String × Entry V)) :
    s.Shrinks (discardEach t gone s).state := by
  induction gone generalizing s with
  | nil => exact .refl s
  | cons p rest ih => exact (s.discard_shrinks t p.1 p.2 _).andThen fun s _ => ih s

theorem drain_shrinks : s.Shrinks (s.drain t).state := by
  have hemptied : s.Shrinks s.emptied := ⟨Nat.zero_le _, Nat.le_refl _⟩
  exact Shrinks.andThen (hemptied.trans (discardEach_shrinks s.emptied t s.entries))
    fun s _ => ⟨Nat.le_refl _, Nat.le_max_left _ _⟩

/-- Nothing but a put that made room for its entry lets a store grow. -/
theorem act_shrinks {a : Action V} (h : (Occasion.mk s a).entered = []) : s.Shrinks (s.act a) := by
  cases a with
  | put t key e =>
    have hcut : ¬((s.count (Stats.touch t.stamp)).displace t key e.holders).returned := by
      intro hroom
      change s.putEntered t key e = [] at h
      rw [putEntered, if_pos hroom] at h
      cases h
    have hroom : s.Shrinks ((s.count (Stats.touch t.stamp)).displace t key e.holders).state :=
      (s.count_shrinks rfl).trans (displace_shrinks _ t key e.holders)
    rw [Store.act, put]
    cases hresult : ((s.count (Stats.touch t.stamp)).displace t key e.holders).result with
    | ok a => exact absurd (Ran.returned_of_ok hresult) hcut
    | error p =>
      rw [Ran.andThen_of_error hresult]
      exact hroom
  | get t key => exact s.get_shrinks t key
  | uncache t key => exact s.uncache_shrinks t key
  | uncacheLike t pattern => exact s.removeAll_shrinks t (fun _ => rfl) _
  | sweep t =>
    have hcounts (st : Stats) : (Stats.recordExpiration st).watermark = st.watermark := rfl
    exact s.removeAll_shrinks t hcounts _
  | drain t => exact s.drain_shrinks t
  | revise later => exact ⟨Nat.le_of_eq (List.length_map _), Nat.le_refl _⟩
  | refer | delegateTo | arm => exact ⟨Nat.le_refl _, Nat.le_refl _⟩

end Shrinks

section Noting

variable {s : Store V} {t : WallTime} {key : String} {e : Entry V}

/-- However a put ends, it leaves one entry more at most, and no lower a watermark. -/
theorem put_grows (s : Store V) (t : WallTime) (key : String) (e : Entry V) :
    (s.put t key e).state.size ≤ s.size + 1
      ∧ s.stats.watermark ≤ (s.put t key e).state.stats.watermark := by
  have hroom : s.Shrinks ((s.count (Stats.touch t.stamp)).displace t key e.holders).state :=
    (s.count_shrinks rfl).trans (displace_shrinks _ t key e.holders)
  have hadmitted (room : Store V) : (room.append key e).Shrinks (room.admitEntry t key e).state :=
    ((room.append key e).announce_shrinks t key e [] .cached).andThen fun s _ =>
      (s.count_shrinks rfl).trans (observe_shrinks _)
  rw [put, Ran.andThen]
  generalize (s.count (Stats.touch t.stamp)).displace t key e.holders = room at hroom
  have hgrown : (room.state.append key e).size = room.state.size + 1 := List.length_append
  have hsize := hroom.size
  cases room.result with
  | ok _ =>
    have hmore := (hadmitted room.state).size
    exact ⟨by dsimp only; omega, Nat.le_trans hroom.watermark (hadmitted room.state).watermark⟩
  | error p => exact ⟨Nat.le_succ_of_le hsize, hroom.watermark⟩

/-- A put that returned has noted the size. -/
theorem put_noted (h : (s.put t key e).returned) :
    (s.put t key e).state.size ≤ (s.put t key e).state.stats.watermark := by
  obtain ⟨_, hroom, hadmitted⟩ := Ran.returned_andThen_iff.mp h
  rw [put, Ran.andThen_of_ok hroom]
  obtain ⟨_, htold, -⟩ := Ran.returned_andThen_iff.mp hadmitted
  rw [admitEntry, Ran.andThen_of_ok htold]
  exact Nat.le_max_right _ _

/-- A removal of some keys that returned has noted the size. -/
theorem removeAll_noted {adjust : Stats → Stats} {keys : List String}
    (h : (s.removeAll t adjust keys).returned) :
    (s.removeAll t adjust keys).state.size ≤ (s.removeAll t adjust keys).state.stats.watermark := by
  obtain ⟨_, hremoved⟩ := Ran.exists_of_returned (Ran.returned_of_andThen h)
  rw [removeAll, Ran.andThen_of_ok hremoved]
  exact Nat.le_max_right _ _

end Noting

end Store

namespace Occasion

/-- The operation returned and noted the size of the store. -/
def notes (o : Occasion V) : Bool :=
  match o.action with
  | .put .. | .uncacheLike .. | .sweep _ | .drain _ => o.returned
  | _ => false

/-- The action brought an entry in, and then a hook panicked before the size was noted. -/
def isCutShort (o : Occasion V) : Bool := !o.entered.isEmpty && !o.returned

/-- After the action the watermark covers the size if it has been noted, and else it falls short by
one more at most if a put was cut short, and by no more than before if none was. -/
theorem size_le {o : Occasion V} {unnoted : Nat}
    (h : o.before.size ≤ o.before.stats.watermark + unnoted) :
    o.after.size ≤ o.after.stats.watermark
      + if o.notes then 0 else if o.isCutShort then unnoted + 1 else unnoted := by
  by_cases hnotes : o.notes
  · rw [if_pos hnotes, Nat.add_zero]
    obtain ⟨s, a⟩ := o
    cases a with
    | put t key e => exact Store.put_noted hnotes
    | uncacheLike t pattern => exact Store.removeAll_noted hnotes
    | sweep t => exact Store.removeAll_noted hnotes
    | drain t =>
      rw [after, Store.act, Store.size, Store.drain_entries]
      exact Nat.zero_le _
    | get | uncache | refer | revise | delegateTo | arm => cases hnotes
  · rw [if_neg hnotes]
    by_cases hentered : o.entered = []
    · have hshrinks := o.before.act_shrinks hentered
      have hwhole : ¬o.isCutShort := by simp [isCutShort, hentered]
      rw [if_neg hwhole]
      have hsize : o.after.size ≤ o.before.size := hshrinks.size
      have hwatermark : o.before.stats.watermark ≤ o.after.stats.watermark := hshrinks.watermark
      omega
    · obtain ⟨p, hp⟩ := List.exists_mem_of_ne_nil _ hentered
      obtain ⟨t, haction⟩ := action_of_mem_entered hp
      obtain ⟨s, a⟩ := o
      subst haction
      have hpanicked : (Occasion.mk s (.put t p.1 p.2)).returned = false := Bool.eq_false_iff.mpr hnotes
      have hcut : (Occasion.mk s (.put t p.1 p.2)).isCutShort := by
        simp [isCutShort, hentered, hpanicked]
      rw [if_pos hcut]
      obtain ⟨hsize, hwatermark⟩ := s.put_grows t p.1 p.2
      change (s.put t p.1 p.2).state.size ≤ (s.put t p.1 p.2).state.stats.watermark + (unnoted + 1)
      change s.size ≤ s.stats.watermark + unnoted at h
      omega

end Occasion

/-- How many puts were cut short after their entry came in, since the size was last noted. -/
def unnoted (past : List (Occasion V)) : Nat :=
  past.foldl (fun n o => if o.notes then 0 else if o.isCutShort then n + 1 else n) 0

/-- After any script, whichever hooks panicked in its course, the watermark falls short of the size
by at most the puts that were cut short after their entry came in, counted from the last operation
that noted the size. While there are none it covers the size. -/
theorem Store.size_le_watermark (wall : WallTime) (script : List (Action V)) :
    let s := (createdAt wall).follow script
    s.size ≤ s.stats.watermark + unnoted ((createdAt wall).history script) := by
  refine history_induction (s := createdAt wall)
    (P := fun past s => s.size ≤ s.stats.watermark + unnoted past) (C := fun _ => True)
    (Nat.zero_le _) (fun past met a hpast _ => ?_) fun _ _ => trivial
  rw [unnoted, List.foldl_append]
  exact Occasion.size_le (o := ⟨met, a⟩) hpast

/-- An entry is put into an empty cache, and its hook panics when it is told. The entry is in, and
the watermark has not noticed. -/
theorem Session.interrupted_put_unnoted :
    let start : Session Nat := opened {} false { link := .connected } 0
    let s := start.run [.arm ⟨"L", .cached, none⟩, .store "a" 1 (.ofSeconds 0) (some "L")]
    s.cache.store.size = 1 ∧ s.cache.store.stats.watermark = 0
      ∧ ¬ s.cache.store.size ≤ s.cache.store.stats.watermark := by
  decide

end TimedCache
