import TimedCache.Proofs.Store.Trailing

/-!
# Stores that go on together

Whatever is done to both stores, the one that is swept more often goes on trailing the other, and
so it does when it alone is swept. From step to step the clock must not go back, what the entries
refer to must not live by the store alone, and nothing that was reclaimed may come back.
-/

namespace TimedCache

variable {V : Type}

namespace Store.Trails

variable {now : Timestamp} {stored : Nat} {plain swept : Store V}

/-- The stores go on together if both change so that the trailing one misses nothing that is not
dead for good, and counts an expiration for whatever else it loses. -/
theorem turned (h : Trails now stored plain swept) (more : Nat)
    {entries entries' : List (String × Entry V)}
    (hnodup : (entries.map Prod.fst).Nodup) (hpart : entries'.Sublist entries)
    (hgone : ∀ p ∈ entries, p ∉ entries' → p.2.isExpired plain.owners.outside now = true)
    {adjust adjust' : Stats → Stats} (huse : Stats.SameUse (adjust' swept.stats) (adjust plain.stats))
    {k k' : Nat} (hk : Stats.Expires k adjust) (hk' : Stats.Expires k' adjust')
    (hlost : k + entries.length + swept.size ≤ k' + entries'.length + plain.size)
    (hmore : k' + entries'.length ≤ swept.size + more) (log log' : List (Event V)) :
    Trails now (stored + more) (plain.turned entries adjust log)
      (swept.turned entries' adjust' log') := by
  obtain ⟨n, n', hn, hn', hle, hbound⟩ := h.tally
  refine ⟨h.plain_calm.turned hnodup adjust log,
    h.swept_calm.turned (hnodup.sublist (hpart.map Prod.fst)) adjust' log', h.owners, hpart, hgone,
    huse.observeSize _ _, ?_, n + k, n' + k', hk.expirations _ _ hn, hk'.expirations _ _ hn', ?_, ?_⟩
  · change max _ entries'.length ≤ max _ entries.length
    rw [hk.watermark, hk'.watermark]
    exact Nat.max_le.mpr ⟨Nat.le_trans h.watermark (Nat.le_max_left ..),
      Nat.le_trans hpart.length_le (Nat.le_max_right ..)⟩
  · change n + k + entries.length ≤ n' + k' + entries'.length
    omega
  · change n' + k' + entries'.length ≤ stored + more
    omega

/-- Dropping the same entries from both stores makes the trailing one miss no others. -/
theorem gone_filter (h : Trails now stored plain swept) (keep : String × Entry V → Bool) :
    ∀ p ∈ plain.entries.filter keep, p ∉ swept.entries.filter keep
      → p.2.isExpired plain.owners.outside now = true := by
  intro p hp hout
  obtain ⟨hmem, hkeep⟩ := List.mem_filter.mp hp
  exact h.gone p hmem fun hin => hout (List.mem_filter.mpr ⟨hin, hkeep⟩)

variable {t : WallTime} (h : Trails t.stamp stored plain swept)
include h

/-- Taking a key out of both stores costs the trailing one no more entries. -/
theorem erase_lost (key : String) : swept.size + (plain.erase key).entries.length
    ≤ (swept.erase key).entries.length + plain.size :=
  length_add_length_filter_le h.part _

/-- Both stores put an entry. -/
theorem put (key : String) (e : Entry V) :
    Trails t.stamp (stored + 1) (plain.act (.put t key e)) (swept.act (.put t key e)) := by
  obtain ⟨log, hplain⟩ := h.plain_calm.put_eq t key e
  obtain ⟨log', hswept⟩ := h.swept_calm.put_eq t key e
  have hpart : ((swept.erase key).append key e).entries.Sublist
      ((plain.erase key).append key e).entries := (h.part.filter _).append_right _
  have hexpires : Stats.Expires 0 (Stats.recordPut ∘ Stats.touch t.stamp) :=
    Stats.expires_zero (fun _ => rfl) fun _ => rfl
  have hlost := h.erase_lost key
  have hmore := swept.erase_entries_length_le key
  rw [act, act, hplain, hswept]
  refine h.turned 1 (h.plain_calm.append_nodup key e) hpart (fun p hp hout => ?_)
    (h.use.touch _).recordPut hexpires hexpires ?_ ?_ log log'
  · rcases List.mem_append.mp hp with hp | hp
    · exact h.gone_filter _ p hp fun hin => hout (List.mem_append_left _ hin)
    · exact absurd (List.mem_append_right _ hp) hout
  · simp only [append, List.length_append, List.length_singleton]
    omega
  · simp only [append, List.length_append, List.length_singleton]
    omega

/-- Both stores drop the same entries and count no expiration for them. -/
theorem drop (keep : String × Entry V → Bool) {adjust : Stats → Stats}
    (huse : Stats.SameUse (adjust swept.stats) (adjust plain.stats)) (hadjust : Stats.Expires 0 adjust)
    (log log' : List (Event V)) : Trails t.stamp stored
      (plain.turned (plain.entries.filter keep) adjust log)
      (swept.turned (swept.entries.filter keep) adjust log') := by
  have hlost := length_add_length_filter_le h.part keep
  have hmore := List.length_filter_le keep swept.entries
  refine h.turned 0 (nodup_keys_filter h.plain_calm.nodup keep) (h.part.filter keep)
    (h.gone_filter keep) huse hadjust hadjust ?_ ?_ log log'
  · simp only [size]
    omega
  · simp only [size]
    omega

/-- Both stores remove a key. -/
theorem uncache (key : String) :
    Trails t.stamp stored (plain.act (.uncache t key)) (swept.act (.uncache t key)) := by
  obtain ⟨log, hplain⟩ := h.plain_calm.uncache_eq t key
  obtain ⟨log', hswept⟩ := h.swept_calm.uncache_eq t key
  rw [act, act, hplain, hswept]
  exact h.drop _ (h.use.touch _) (Stats.expires_zero (fun _ => rfl) fun _ => rfl) log log'

/-- Both stores remove the keys with a prefix. -/
theorem uncacheLike (pattern : String) :
    Trails t.stamp stored (plain.act (.uncacheLike t pattern)) (swept.act (.uncacheLike t pattern)) := by
  obtain ⟨log, hplain⟩ := h.plain_calm.uncacheLike_eq t pattern
  obtain ⟨log', hswept⟩ := h.swept_calm.uncacheLike_eq t pattern
  rw [act, act, hplain, hswept]
  exact h.drop _ h.use (Stats.expires_zero (fun _ => rfl) fun _ => rfl) log log'

/-- Both stores are emptied. -/
theorem drain : Trails t.stamp stored (plain.act (.drain t)) (swept.act (.drain t)) := by
  obtain ⟨log, hplain⟩ := h.plain_calm.drain_eq t
  obtain ⟨log', hswept⟩ := h.swept_calm.drain_eq t
  have hnone := h.drop (fun _ => false) h.use (Stats.expires_zero (fun _ => rfl) fun _ => rfl) log log'
  rw [List.filter_false, List.filter_false] at hnone
  rw [act, act, hplain, hswept]
  exact hnone

/-- Both stores find the same entry and serve it. -/
theorem get_live {key : String} {e : Entry V} (hplain : plain.find? key = some e)
    (hswept : swept.find? key = some e) (hlive : e.isLive (plain.moment []) t.stamp = true)
    (hlive' : e.isLive (swept.moment []) t.stamp = true) :
    Trails t.stamp stored (plain.act (.get t key)) (swept.act (.get t key)) := by
  obtain ⟨log, hp⟩ := h.plain_calm.get_eq_of_live t hplain hlive
  obtain ⟨log', hs⟩ := h.swept_calm.get_eq_of_live t hswept hlive'
  have hnodup := alter_keys plain key (Entry.accessed t.stamp) ▸ h.plain_calm.nodup
  have hexpires : Stats.Expires 0 (Stats.recordHit ∘ Stats.touch t.stamp) :=
    Stats.expires_zero (fun _ => rfl) fun _ => rfl
  have hlength (s : Store V) : (s.alter key (Entry.accessed t.stamp)).entries.length = s.size :=
    List.length_map _
  rw [act, act, hp, hs]
  refine h.turned 0 hnodup (h.part.map _) (fun p hp hout => ?_) (h.use.touch _).recordHit hexpires
    hexpires ?_ ?_ log log'
  · obtain ⟨q, hq, rfl⟩ := List.mem_map.mp hp
    have hexpired := h.gone q hq fun hin => hout (List.mem_map_of_mem hin)
    by_cases hkey : q.1 = key <;> simpa [hkey] using hexpired
  · exact (hlength plain).symm ▸ (hlength swept).symm ▸ by omega
  · exact (hlength swept).symm ▸ by omega

/-- Both stores find the same entry and cannot serve it. -/
theorem get_dead {key : String} {e : Entry V} (hplain : plain.find? key = some e)
    (hswept : swept.find? key = some e) (hdead : e.isLive (plain.moment []) t.stamp = false)
    (hdead' : e.isLive (swept.moment []) t.stamp = false) :
    Trails t.stamp stored (plain.act (.get t key)) (swept.act (.get t key)) := by
  obtain ⟨log, hp⟩ := h.plain_calm.get_eq_of_dead t hplain hdead
  obtain ⟨log', hs⟩ := h.swept_calm.get_eq_of_dead t hswept hdead'
  have hpart : (swept.erase key).entries.Sublist (plain.erase key).entries := h.part.filter _
  have hlost := h.erase_lost key
  have hmore := erase_entries_length_lt hswept
  rw [act, act, hp, hs]
  exact h.turned 0 (h.plain_calm.erase_nodup key) hpart (h.gone_filter _)
    (h.use.touch _).recordExpiration.recordMiss (Stats.expires_expire t.stamp)
    (Stats.expires_expire t.stamp) (by omega) (by omega) log log'

/-- Only one of the stores finds an entry, and cannot serve it. -/
theorem get_missing {key : String} {e : Entry V} (hplain : plain.find? key = some e)
    (hswept : swept.find? key = none) (hdead : e.isLive (plain.moment []) t.stamp = false) :
    Trails t.stamp stored (plain.act (.get t key)) (swept.act (.get t key)) := by
  obtain ⟨log, hp⟩ := h.plain_calm.get_eq_of_dead t hplain hdead
  have hs := h.swept_calm.get_eq_of_absent t hswept
  have hsame : (swept.erase key).entries = swept.entries := erase_entries_of_find?_eq_none hswept
  have hpart : swept.entries.Sublist (plain.erase key).entries := hsame ▸ h.part.filter _
  have hexpires : Stats.Expires 0 (Stats.recordMiss ∘ Stats.touch t.stamp) :=
    Stats.expires_zero (fun _ => rfl) fun _ => rfl
  have huse : Stats.SameUse ((Stats.recordMiss ∘ Stats.touch t.stamp) swept.stats)
      ((Stats.recordMiss ∘ Stats.recordExpiration ∘ Stats.touch t.stamp) plain.stats) :=
    (h.use.touch _).recordMiss.trans ⟨rfl, rfl, rfl, rfl⟩
  have hgone : ∀ p ∈ (plain.erase key).entries, p ∉ swept.entries
      → p.2.isExpired plain.owners.outside t.stamp = true := hsame ▸ h.gone_filter fun p => p.1 != key
  have hlost := erase_entries_length_lt hplain
  have hsize : swept.entries.length = swept.size := rfl
  rw [act, act, hp, hs]
  exact h.turned 0 (h.plain_calm.erase_nodup key) hpart hgone huse (Stats.expires_expire t.stamp)
    hexpires (by omega) (by omega) log swept.log

/-- Both stores look a key up. -/
theorem get (hindependent : plain.isIndependent) (key : String) :
    Trails t.stamp stored (plain.act (.get t key)) (swept.act (.get t key)) := by
  rcases h.find?_cases hindependent (Nat.le_refl _) key with hsame | ⟨hswept, e, hplain, hexpired⟩
  · cases hplain : plain.find? key with
    | none =>
      have hexpires : Stats.Expires 0 (Stats.recordMiss ∘ Stats.touch t.stamp) :=
        Stats.expires_zero (fun _ => rfl) fun _ => rfl
      have hsize (s : Store V) : s.entries.length = s.size := rfl
      rw [act, act, h.plain_calm.get_eq_of_absent t hplain,
        h.swept_calm.get_eq_of_absent t (hsame.trans hplain)]
      exact h.turned 0 h.plain_calm.nodup h.part h.gone (h.use.touch _).recordMiss hexpires hexpires
        (by simp only [hsize]; omega) (by simp only [hsize]; omega) _ _
    | some e =>
      have hmem : (key, e) ∈ plain.entries := (lookup_eq_some_iff_mem h.plain_calm.nodup).mp hplain
      have halike : e.isLive (swept.moment []) t.stamp = e.isLive (plain.moment []) t.stamp :=
        Entry.isLive_congr h.within.2.slots t.stamp (h.isReclaimed_eq hindependent hmem)
      cases hlive : e.isLive (plain.moment []) t.stamp with
      | true => exact h.get_live hplain (hsame.trans hplain) hlive (halike.trans hlive)
      | false => exact h.get_dead hplain (hsame.trans hplain) hlive (halike.trans hlive)
  · exact h.get_missing hplain hswept (Entry.isLive_of_isExpired hexpired)

/-- Both stores are swept. -/
theorem sweep (hindependent : plain.isIndependent) :
    Trails t.stamp stored (plain.act (.sweep t)) (swept.act (.sweep t)) := by
  obtain ⟨log, hp⟩ := h.plain_calm.sweep_eq t
  obtain ⟨log', hs⟩ := h.swept_calm.sweep_eq t
  have hsame : (swept.entries.filter fun p => !p.2.isExpired (swept.moment []) t.stamp)
      = swept.entries.filter fun p => !p.2.isExpired (plain.moment []) t.stamp :=
    List.filter_congr fun p hp => congrArg not
      (Entry.isExpired_congr t.stamp (h.isReclaimed_eq hindependent (h.part.subset hp)))
  have hsplit := plain.length_expiredKeys_add t.stamp
  have hsplit' := swept.length_expiredKeys_add t.stamp
  have huse := ((Stats.sameUse_iterate (swept.expiredKeys t.stamp).length swept.stats).trans
    h.use).trans (Stats.sameUse_iterate (plain.expiredKeys t.stamp).length plain.stats).symm
  rw [hsame] at hsplit' hs
  rw [act, act, hp, hs]
  exact h.turned 0 (nodup_keys_filter h.plain_calm.nodup _) (h.part.filter _) (h.gone_filter _) huse
    (Stats.expires_iterate _) (Stats.expires_iterate _) (by omega) (by omega) log log'

/-- Only the trailing store is swept. -/
theorem sweep_swept : Trails t.stamp stored plain (swept.act (.sweep t)) := by
  obtain ⟨log', hs⟩ := h.swept_calm.sweep_eq t
  have hsplit' := swept.length_expiredKeys_add t.stamp
  have hsize : plain.entries.length = plain.size := rfl
  have huse := (Stats.sameUse_iterate (swept.expiredKeys t.stamp).length swept.stats).trans h.use
  have hgone : ∀ p ∈ plain.entries,
      p ∉ swept.entries.filter (fun p => !p.2.isExpired (swept.moment []) t.stamp)
        → p.2.isExpired plain.owners.outside t.stamp = true := by
    intro p hp hout
    by_cases hin : p ∈ swept.entries
    · have hexpired : p.2.isExpired (swept.moment []) t.stamp = true := by
        by_contra hnot
        exact hout (List.mem_filter.mpr ⟨hin, by simpa using hnot⟩)
      exact Entry.isExpired_mono (Nat.le_refl _)
        (fun _ _ hreclaimed => Holder.isReclaimed_anti h.within.1 hreclaimed) hexpired
    · exact h.gone p hp hin
  have hself : plain.turned plain.entries id plain.log = plain :=
    (h.plain_calm.count_eq Stats.sizeless_id).symm
  have hid : Stats.Expires 0 id := Stats.expires_zero (fun _ => rfl) fun _ => rfl
  have hboth := h.turned 0 h.plain_calm.nodup (List.filter_sublist.trans h.part) hgone huse hid
    (Stats.expires_iterate _) (by omega) (by omega) plain.log log'
  rw [hself] at hboth
  rw [act, hs]
  exact hboth

omit h in
/-- The references outside change alike for both stores, and bring nothing back. -/
theorem refer {now : Timestamp} (h : Trails now stored plain swept) (hindependent : plain.isIndependent)
    {owners : Owners V} (hlasting : ∀ p ∈ plain.entries, ∀ holder ∈ p.2.holders,
      holder.isReclaimed (plain.moment []) = true → holder.isReclaimed owners.outside = true) :
    Trails now stored (plain.act (.refer owners)) (swept.act (.refer owners)) where
  plain_calm := h.plain_calm.act rfl
  swept_calm := h.swept_calm.act rfl
  owners := rfl
  part := h.part
  gone p hp hout := by
    refine Entry.isExpired_mono (Nat.le_refl now) (fun holder hholder hreclaimed => ?_)
      (h.gone p hp hout)
    rw [← isReclaimed_eq_of_isIndependent hindependent hp hholder] at hreclaimed
    exact hlasting p hp holder hholder hreclaimed
  use := h.use
  watermark := h.watermark
  tally := h.tally

omit h in
/-- The delegate changes alike for both stores. -/
theorem delegateTo {now : Timestamp} (h : Trails now stored plain swept) (delegate : Option Name) :
    Trails now stored (plain.act (.delegateTo delegate)) (swept.act (.delegateTo delegate)) :=
  ⟨h.plain_calm.act rfl, h.swept_calm.act rfl, h.owners, h.part, h.gone, h.use, h.watermark, h.tally⟩

end Store.Trails

namespace Action

/-- The action puts an entry. -/
def isPut : Action V → Bool
  | .put .. => true
  | _ => false

/-- What the clock shows at the operations of a script. -/
def readings (script : List (Action V)) : List Timestamp :=
  script.filterMap fun a => a.time?.map WallTime.stamp

end Action

/-- A change of the references outside brings back nothing that was reclaimed. -/
def Occasion.Lasting (o : Occasion V) : Prop :=
  ∀ owners, o.action = .refer owners → ∀ p ∈ o.before.entries, ∀ holder ∈ p.2.holders,
    holder.isReclaimed (o.before.moment []) = true → holder.isReclaimed owners.outside = true

namespace Store.Trails

variable {now : Timestamp} {stored : Nat} {plain swept : Store V}

/-- Both stores go through the same action. -/
theorem act (h : Trails now stored plain swept) {a : Action V} (ha : a.isPlain)
    (hclock : ∀ t, a.time? = some t → now ≤ t.stamp) (hindependent : plain.isIndependent)
    (hlasting : (Occasion.mk plain a).Lasting) :
    Trails ((a.time?.map WallTime.stamp).getD now) (stored + [a].countP Action.isPut)
      (plain.act a) (swept.act a) := by
  cases a with
  | put t key e => exact (h.mono (hclock t rfl) (Nat.le_refl _)).put key e
  | get t key => exact (h.mono (hclock t rfl) (Nat.le_refl _)).get hindependent key
  | uncache t key => exact (h.mono (hclock t rfl) (Nat.le_refl _)).uncache key
  | uncacheLike t pattern => exact (h.mono (hclock t rfl) (Nat.le_refl _)).uncacheLike pattern
  | sweep t => exact (h.mono (hclock t rfl) (Nat.le_refl _)).sweep hindependent
  | drain t => exact (h.mono (hclock t rfl) (Nat.le_refl _)).drain
  | refer owners => exact h.refer hindependent (hlasting owners rfl)
  | delegateTo delegate => exact h.delegateTo delegate
  | revise later => cases ha
  | arm alarm => cases ha

/-- Both stores follow the same script while the clock does not go back. -/
theorem follow (h : Trails now stored plain swept) {script : List (Action V)}
    (hplain : ∀ a ∈ script, a.isPlain) {later : List Timestamp}
    (hclock : (now :: (Action.readings script ++ later)).Pairwise (· ≤ ·))
    (hindependent : ∀ o ∈ plain.history script, o.before.isIndependent)
    (hlasting : ∀ o ∈ plain.history script, o.Lasting) :
    ∃ now', Trails now' (stored + script.countP Action.isPut) (plain.follow script)
      (swept.follow script) ∧ (now' :: later).Pairwise (· ≤ ·) := by
  induction script generalizing now stored plain swept with
  | nil => exact ⟨now, h, hclock⟩
  | cons a rest ih =>
    obtain ⟨ha, hrest⟩ := List.forall_mem_cons.mp hplain
    obtain ⟨hfirst, hindependent⟩ := List.forall_mem_cons.mp hindependent
    obtain ⟨hlast, hlasting⟩ := List.forall_mem_cons.mp hlasting
    -- an action with a time takes the clock there, the others leave it where it stands
    have hnext : (((a.time?.map WallTime.stamp).getD now) :: (Action.readings rest ++ later)).Pairwise
        (· ≤ ·) ∧ ∀ t, a.time? = some t → now ≤ t.stamp := by
      cases htime : a.time? with
      | none =>
        rw [Action.readings, List.filterMap_cons_none (by simp [htime])] at hclock
        exact ⟨hclock, fun _ h => nomatch h⟩
      | some t =>
        rw [Action.readings, List.filterMap_cons_some (b := t.stamp) (by simp [htime])] at hclock
        obtain ⟨hnow, hclock⟩ := List.pairwise_cons.mp hclock
        refine ⟨hclock, fun t' ht => ?_⟩
        rw [← Option.some.inj ht]
        exact hnow t.stamp (List.mem_cons_self ..)
    have hact := h.act ha hnext.2 hfirst hlast
    obtain ⟨now', htrails, hlater⟩ := ih hact hrest hnext.1 hindependent hlasting
    refine ⟨now', ?_, hlater⟩
    rw [← List.singleton_append, List.countP_append, ← Nat.add_assoc]
    exact htrails

end Store.Trails

end TimedCache
