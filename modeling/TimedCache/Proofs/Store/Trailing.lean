import TimedCache.Proofs.Moments
import TimedCache.Proofs.Store.History

/-!
# A store that is swept more often

A store that is swept more often than another, and otherwise treated alike, trails it: it misses
some entries, and those are dead for good. As long as what the entries refer to does not live by
the store alone, readers cannot tell the two apart, and the counters that they see agree. The
store that is swept more often has fewer entries and has counted at least as many expirations.
-/

namespace TimedCache

section Sublists

variable {α : Type} {short long : List α}

/-- A filter drops no more from a part of a list than from the list. -/
theorem length_add_length_filter_le (h : short.Sublist long) (keep : α → Bool) :
    short.length + (long.filter keep).length ≤ (short.filter keep).length + long.length := by
  have hshort := List.length_eq_countP_add_countP keep (l := short)
  have hlong := List.length_eq_countP_add_countP keep (l := long)
  have hdropped := h.countP_le (p := fun a => decide ¬keep a = true)
  rw [← List.countP_eq_length_filter, ← List.countP_eq_length_filter]
  omega

/-- A filter cannot tell a part from the whole list if it drops what the part misses. -/
theorem filter_eq_of_sublist (h : short.Sublist long) (hnodup : long.Nodup) {keep : α → Bool}
    (hmissing : ∀ a ∈ long, a ∉ short → keep a = false) : short.filter keep = long.filter keep := by
  induction h with
  | slnil => rfl
  | @cons short long a hsub ih =>
    obtain ⟨ha, hlong⟩ := List.nodup_cons.mp hnodup
    have hout : a ∉ short := fun hmem => ha (hsub.subset hmem)
    have hdropped := hmissing a (List.mem_cons_self ..) hout
    rw [List.filter_cons_of_neg (by simp [hdropped])]
    exact ih hlong fun b hb => hmissing b (List.mem_cons_of_mem _ hb)
  | @cons_cons short long a hsub ih =>
    obtain ⟨ha, hlong⟩ := List.nodup_cons.mp hnodup
    have htail : ∀ b ∈ long, b ∉ short → keep b = false := by
      refine fun b hb hout => hmissing b (List.mem_cons_of_mem _ hb) fun hmem => ?_
      rcases List.mem_cons.mp hmem with rfl | hmem
      · exact ha hb
      · exact hout hmem
    rw [List.filter_cons, List.filter_cons, ih hlong htail]

end Sublists

variable {V : Type}

namespace Store

/-- What the entries refer to does not live by the store: it is reclaimed exactly if it would be so
by the references outside alone. -/
def isIndependent (s : Store V) : Bool :=
  s.entries.all fun p => p.2.holders.all fun h =>
    h.isReclaimed (s.moment []) == h.isReclaimed s.owners.outside

/-- In an independent store the references outside decide what is reclaimed. -/
theorem isReclaimed_eq_of_isIndependent {s : Store V} (hs : s.isIndependent)
    {p : String × Entry V} (hp : p ∈ s.entries) {holder : Holder V} (hholder : holder ∈ p.2.holders) :
    holder.isReclaimed (s.moment []) = holder.isReclaimed s.owners.outside := by
  have hentry := List.all_eq_true.mp hs p hp
  exact eq_of_beq (List.all_eq_true.mp hentry holder hholder)

/-- A store that is swept more often trails another. The entries that it misses are dead for good,
the uses are counted alike, and its size and its expirations lie where the missing entries put
them; both stores together stored no more entries than are given. -/
structure Trails (now : Timestamp) (stored : Nat) (plain swept : Store V) : Prop where
  plain_calm : plain.Calm
  swept_calm : swept.Calm
  owners : swept.owners = plain.owners
  part : swept.entries.Sublist plain.entries
  gone : ∀ p ∈ plain.entries, p ∉ swept.entries → p.2.isExpired plain.owners.outside now = true
  use : Stats.SameUse swept.stats plain.stats
  watermark : swept.stats.watermark ≤ plain.stats.watermark
  tally : ∃ n n', plain.stats.expirations = Word.wrap n ∧ swept.stats.expirations = Word.wrap n'
    ∧ n + plain.size ≤ n' + swept.size ∧ n' + swept.size ≤ stored

namespace Trails

variable {now now' : Timestamp} {stored stored' : Nat} {plain swept : Store V}

/-- Time may go on, and more may have been stored. -/
theorem mono (h : Trails now stored plain swept) (hnow : now ≤ now') (hstored : stored ≤ stored') :
    Trails now' stored' plain swept := by
  refine { h with gone := fun p hp hout => ?_, tally := ?_ }
  · exact Entry.isExpired_mono hnow (fun _ _ hreclaimed => hreclaimed) (h.gone p hp hout)
  · obtain ⟨n, n', hn, hn', hle, hbound⟩ := h.tally
    exact ⟨n, n', hn, hn', hle, Nat.le_trans hbound hstored⟩

/-- The trailing store has all references outside and no more than the references of the other. -/
theorem within (h : Trails now stored plain swept) :
    plain.owners.outside.Within (swept.moment []) ∧ (swept.moment []).Within (plain.moment []) := by
  refine ⟨h.owners ▸ swept.outside_within [], congrArg Owners.slots h.owners, ?_⟩
  have hentries : swept.entries.flatMap (fun p => p.2.holders)
      ⊆ plain.entries.flatMap fun p => p.2.holders := by
    intro holder hmem
    obtain ⟨p, hp, hholder⟩ := List.mem_flatMap.mp hmem
    exact List.mem_flatMap.mpr ⟨p, h.part.subset hp, hholder⟩
  simp only [moment, h.owners, List.append_nil]
  exact List.append_subset.mpr ⟨List.subset_append_left _ _,
    fun holder hmem => List.mem_append_right _ (hentries hmem)⟩

/-- References of the entries are reclaimed in both stores or in neither. -/
theorem isReclaimed_eq (h : Trails now stored plain swept) (hindependent : plain.isIndependent)
    {p : String × Entry V} (hp : p ∈ plain.entries) : ∀ holder ∈ p.2.holders,
      holder.isReclaimed (swept.moment []) = holder.isReclaimed (plain.moment []) :=
  fun _ hholder => Holder.isReclaimed_between h.within.1 h.within.2
    (isReclaimed_eq_of_isIndependent hindependent hp hholder)

/-- An entry that the trailing store misses is expired in the other. -/
theorem isExpired_of_missing (h : Trails now stored plain swept) (hindependent : plain.isIndependent)
    (hnow : now ≤ now') {p : String × Entry V} (hp : p ∈ plain.entries) (hout : p ∉ swept.entries) :
    p.2.isExpired (plain.moment []) now' = true := by
  refine Entry.isExpired_mono hnow (fun holder hholder hreclaimed => ?_) (h.gone p hp hout)
  rwa [isReclaimed_eq_of_isIndependent hindependent hp hholder]

/-- What both stores have under a key is the same, or the trailing store has nothing there and the
other an entry that is expired. -/
theorem find?_cases (h : Trails now stored plain swept) (hindependent : plain.isIndependent)
    (hnow : now ≤ now') (key : String) : swept.find? key = plain.find? key
      ∨ (swept.find? key = none ∧ ∃ e, plain.find? key = some e
        ∧ e.isExpired (plain.moment []) now' = true) := by
  cases hplain : plain.find? key with
  | none =>
    have hkey : key ∉ plain.keys := lookup_eq_none_iff_not_mem.mp hplain
    have hout : key ∉ swept.keys := fun hmem => hkey ((h.part.map Prod.fst).subset hmem)
    exact Or.inl (lookup_eq_none_iff_not_mem.mpr hout)
  | some e =>
    have hmem : (key, e) ∈ plain.entries := (lookup_eq_some_iff_mem h.plain_calm.nodup).mp hplain
    by_cases hin : (key, e) ∈ swept.entries
    · exact Or.inl ((lookup_eq_some_iff_mem h.swept_calm.nodup).mpr hin)
    · have hexpired := h.isExpired_of_missing hindependent hnow hmem hin
      cases hswept : swept.find? key with
      | none => exact Or.inr ⟨rfl, e, rfl, hexpired⟩
      | some e' =>
        have hmem' := (lookup_eq_some_iff_mem h.swept_calm.nodup).mp hswept
        have he : e' = e := h.plain_calm.eq_of_mem (h.part.subset hmem') hplain
        exact absurd (he ▸ hmem') hin

/-- Both stores hold the same entries that are not expired. -/
theorem unexpired_eq (h : Trails now stored plain swept) (hindependent : plain.isIndependent)
    (hnow : now ≤ now') :
    swept.entries.filter (fun p => !p.2.isExpired (swept.moment []) now')
      = plain.entries.filter fun p => !p.2.isExpired (plain.moment []) now' := by
  have hsame : ∀ p ∈ swept.entries, (!p.2.isExpired (swept.moment []) now')
      = !p.2.isExpired (plain.moment []) now' := fun p hp => congrArg not
    (Entry.isExpired_congr now' (h.isReclaimed_eq hindependent (h.part.subset hp)))
  rw [List.filter_congr hsame]
  refine filter_eq_of_sublist h.part h.plain_calm.nodup.of_map fun p hp hout => ?_
  rw [h.isExpired_of_missing hindependent hnow hp hout, Bool.not_true]

/-- A look-up answers alike in both stores. -/
theorem get_result_eq (h : Trails now stored plain swept) (hindependent : plain.isIndependent)
    {t : WallTime} (hnow : now ≤ t.stamp) (key : String) :
    (swept.get t key).result = (plain.get t key).result := by
  rw [h.swept_calm.get_result, h.plain_calm.get_result]
  refine congrArg Except.ok ?_
  rcases h.find?_cases hindependent hnow key with hsame | ⟨hswept, e, hplain, hexpired⟩
  · rw [hsame]
    cases hplain : plain.find? key with
    | none => rfl
    | some e =>
      have hmem : (key, e) ∈ plain.entries := (lookup_eq_some_iff_mem h.plain_calm.nodup).mp hplain
      have hholders := h.isReclaimed_eq hindependent hmem
      have hslots : (swept.moment []).slots = (plain.moment []).slots := h.within.2.slots
      simp only [Option.filter_some, Entry.isLive_congr hslots t.stamp hholders]
      split
      · exact Entry.cell_congr hslots hholders
      · rfl
  · rw [hswept, hplain, Option.filter_some_neg (by simp [Entry.isLive_of_isExpired hexpired])]
    rfl

end Trails

end Store

end TimedCache
