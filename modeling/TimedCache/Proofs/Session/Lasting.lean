import TimedCache.Proofs.Ownership
import TimedCache.Proofs.Session.Plain
import TimedCache.Proofs.Store.Standing
import TimedCache.Proofs.Store.TrailingSteps

/-!
# What is reclaimed in a session stays reclaimed

Whatever plain commands do, the references of the entries and those outside lead to values that were
made and slots that exist, and every change of the references outside is one that owns nothing anew.
So nothing that was reclaimed comes back in the course of a session.
-/

namespace TimedCache

variable {V : Type}

/-- A value that an entry has comes from one of its references. -/
theorem Entry.exists_holder_of_cell {e : Entry V} {m : Moment V} {cell : Cell V}
    (h : e.cell m = some cell) : ∃ holder ∈ e.holders, holder.resolve m = some cell := by
  cases e with
  | timed entry => exact ⟨entry.holder, List.mem_singleton_self _, h⟩
  | custom c =>
    have hvalue : c.value = some cell := h
    exact ⟨.strong cell, by simp [holders, CustomEntry.holders, hvalue], rfl⟩

namespace Store

/-- All references lead to values that were made and to slots that exist. -/
structure Grounded (s : Store V) : Prop where
  owners : s.owners.Grounded
  entries : ∀ p ∈ s.entries, ∀ h ∈ p.2.holders, h.Known s.owners

/-- A new store has no references. -/
theorem createdAt_grounded (t : WallTime) : (createdAt t : Store V).Grounded :=
  ⟨⟨fun _ h => (nomatch h), fun _ h => (nomatch h)⟩, fun _ h => (nomatch h)⟩

end Store

/-- The command changes the references outside and nothing else. -/
def Command.isReference : Command V → Bool
  | .own .. | .soften .. | .softenOwned .. | .share .. | .refer .. | .copy .. | .keepValue .. | .drop _
  | .reclaim _ => true
  | _ => false

/-- The action brings only references that lead somewhere, and a change of the references outside is
one that owns nothing anew. -/
def Occasion.Sound (o : Occasion V) : Prop :=
  match o.action with
  | .put _ _ e => ∀ h ∈ e.holders, h.Known o.before.owners
  | .refer owners => o.before.owners.Succeeds (o.before.moment []) owners
  | _ => True

namespace Store

variable {s : Store V}

/-- Operations leave the references outside as they are. -/
theorem Calm.act_owners (hs : s.Calm) {a : Action V} (ha : a.isPlain)
    (hrefer : ∀ owners, a ≠ .refer owners) : (s.act a).owners = s.owners := by
  cases a with
  | put t key e =>
    obtain ⟨log, h⟩ := hs.put_eq t key e
    rw [Store.act, h]
    rfl
  | get t key =>
    rw [Store.act]
    cases hfind : s.find? key with
    | none =>
      rw [hs.get_eq_of_absent t hfind]
      rfl
    | some e =>
      cases hlive : e.isLive (s.moment []) t.stamp with
      | true =>
        obtain ⟨log, h⟩ := hs.get_eq_of_live t hfind hlive
        rw [h]
        rfl
      | false =>
        obtain ⟨log, h⟩ := hs.get_eq_of_dead t hfind hlive
        rw [h]
        rfl
  | uncache t key =>
    obtain ⟨log, h⟩ := hs.uncache_eq t key
    rw [Store.act, h]
    rfl
  | uncacheLike t pattern =>
    obtain ⟨log, h⟩ := hs.uncacheLike_eq t pattern
    rw [Store.act, h]
    rfl
  | sweep t =>
    obtain ⟨log, h⟩ := hs.sweep_eq t
    rw [Store.act, h]
    rfl
  | drain t =>
    obtain ⟨log, h⟩ := hs.drain_eq t
    rw [Store.act, h]
    rfl
  | refer owners => exact absurd rfl (hrefer owners)
  | revise later => cases ha
  | delegateTo delegate => rfl
  | arm alarm => cases ha

/-- An entry in the store after an action was put by it, or has the references of one before. -/
theorem Calm.act_holders (hs : s.Calm) {a : Action V} (ha : a.isPlain) {p : String × Entry V}
    (hp : p ∈ (s.act a).entries) :
    (∃ t, a = .put t p.1 p.2) ∨ ∃ q ∈ s.entries, p.2.holders = q.2.holders := by
  have hfind : (s.act a).find? p.1 = some p.2 := (lookup_eq_some_iff_mem (hs.act ha).nodup).mpr hp
  refine (hs.find?_act_cases ha hfind).imp id ?_
  rintro ⟨e, he, hsame⟩
  refine ⟨(p.1, e), mem_of_lookup he, ?_⟩
  rcases hsame with hsame | ⟨now, hsame⟩
  · rw [hsame]
  · rw [hsame, Entry.accessed_holders]

/-- Sound actions keep all references grounded. -/
theorem Grounded.act (hg : s.Grounded) (hs : s.Calm) {a : Action V} (ha : a.isPlain)
    (hsound : (Occasion.mk s a).Sound) : (s.act a).Grounded := by
  by_cases hrefer : ∃ owners, a = .refer owners
  · obtain ⟨owners, rfl⟩ := hrefer
    have hsucceeds : s.owners.Succeeds (s.moment []) owners := hsound
    exact ⟨hsucceeds.grounded, fun p hp h hh => hsucceeds.known (hg.entries p hp h hh)⟩
  · have howners : (s.act a).owners = s.owners :=
      hs.act_owners ha fun owners h => hrefer ⟨owners, h⟩
    refine ⟨howners ▸ hg.owners, fun p hp h hh => howners ▸ ?_⟩
    rcases hs.act_holders ha hp with ⟨t, rfl⟩ | ⟨q, hq, hsame⟩
    · exact hsound h hh
    · exact hg.entries q hq h (hsame ▸ hh)

/-- In a grounded store a sound action brings back nothing that was reclaimed. -/
theorem Grounded.lasting (hg : s.Grounded) {a : Action V} (hsound : (Occasion.mk s a).Sound) :
    (Occasion.mk s a).Lasting := by
  rintro owners rfl p hp holder hholder hreclaimed
  have hsucceeds : s.owners.Succeeds (s.moment []) owners := hsound
  exact hsucceeds.isReclaimed rfl (hg.entries p hp holder hholder) hreclaimed

/-- A sound script keeps all references grounded. -/
theorem Grounded.follow (hg : s.Grounded) (hs : s.Calm) {script : List (Action V)}
    (hplain : ∀ a ∈ script, a.isPlain) (hsound : ∀ o ∈ s.history script, o.Sound) :
    (s.follow script).Grounded := by
  induction script generalizing s with
  | nil => exact hg
  | cons a rest ih =>
    obtain ⟨ha, hrest⟩ := List.forall_mem_cons.mp hplain
    obtain ⟨hfirst, hlater⟩ := List.forall_mem_cons.mp hsound
    exact ih (hg.act hs ha hfirst) (hs.act ha) hrest hlater

/-- A sound script brings back nothing that was reclaimed. -/
theorem Grounded.follow_lasting (hg : s.Grounded) (hs : s.Calm) {script : List (Action V)}
    (hplain : ∀ a ∈ script, a.isPlain) (hsound : ∀ o ∈ s.history script, o.Sound) :
    ∀ o ∈ s.history script, o.Lasting := by
  induction script generalizing s with
  | nil => exact fun _ h => nomatch h
  | cons a rest ih =>
    obtain ⟨ha, hrest⟩ := List.forall_mem_cons.mp hplain
    obtain ⟨hfirst, hlater⟩ := List.forall_mem_cons.mp hsound
    exact List.forall_mem_cons.mpr
      ⟨hg.lasting hfirst, ih (hg.act hs ha hfirst) (hs.act ha) hrest hlater⟩

/-- Removing entries is sound. -/
theorem sound_of_isRemoval {script : List (Action V)} (h : ∀ a ∈ script, a.isRemoval) :
    ∀ o ∈ s.history script, o.Sound := by
  intro o ho
  have hremoval := h _ (action_mem_of_mem_history ho)
  obtain ⟨met, a⟩ := o
  cases a <;> trivial

/-- Setting references and then putting an entry is sound if both are. -/
theorem sound_of_refer_put {owners : Owners V} (howners : s.owners.Succeeds (s.moment []) owners)
    {e : Entry V} (he : ∀ h ∈ e.holders, h.Known owners) (t : WallTime) (key : String) :
    ∀ o ∈ s.history [.refer owners, .put t key e], o.Sound :=
  List.forall_mem_cons.mpr ⟨howners, List.forall_mem_singleton.mpr he⟩

/-- A look-up that finds a value changes no reference. -/
theorem Calm.moment_get (hs : s.Calm) {t : WallTime} {key : String} {cell : Cell V}
    (h : (s.get t key).result = .ok (some cell)) :
    (s.act (.get t key)).moment [] = s.moment []
      ∧ ∃ holder ∈ (s.moment []).holders, holder.resolve (s.moment []) = some cell := by
  rw [hs.get_result] at h
  obtain ⟨e, hlive, hcell⟩ := Option.bind_eq_some_iff.mp (Except.ok.inj h)
  obtain ⟨hfind, hlive⟩ := Option.filter_eq_some_iff.mp hlive
  obtain ⟨log, hget⟩ := hs.get_eq_of_live t hfind hlive
  constructor
  · have hholders : (s.alter key (Entry.accessed t.stamp)).entries.flatMap (fun p => p.2.holders)
        = s.entries.flatMap fun p => p.2.holders := by
      rw [alter, List.flatMap_map]
      refine List.flatMap_congr fun p _ => ?_
      by_cases hp : p.1 = key <;> simp [hp]
    rw [Store.act, hget]
    simp only [Ran.done, moment, turned_owners, turned_entries, hholders]
  · obtain ⟨holder, hmem, hresolve⟩ := Entry.exists_holder_of_cell hcell
    have hentry : holder ∈ s.entries.flatMap fun p => p.2.holders :=
      List.mem_flatMap.mpr ⟨(key, e), mem_of_lookup hfind, hmem⟩
    refine ⟨holder, ?_, hresolve⟩
    simp only [moment, List.append_nil]
    exact List.mem_append_right _ hentry

/-- In a grounded store all references at the moment lead somewhere. -/
theorem Grounded.known (hg : s.Grounded) {holder : Holder V}
    (h : holder ∈ (s.moment []).holders) : holder.Known s.owners := by
  simp only [moment, List.append_nil] at h
  rcases List.mem_append.mp h with h | h
  · exact hg.owners.holders holder h
  · obtain ⟨p, hp, hholder⟩ := List.mem_flatMap.mp h
    exact hg.entries p hp holder hholder

end Store

namespace Session

variable {s : Session V}

/-- Whoever keeps a value that a look-up found owns nothing anew. -/
theorem get_sound (hg : s.cache.store.Grounded) (hs : s.cache.store.Calm) (key : String)
    (keep : Option Name) : ∀ o ∈ s.cache.store.history (s.performActions (.get key keep)), o.Sound := by
  refine List.forall_mem_cons.mpr ⟨trivial, List.forall_mem_singleton.mpr ?_⟩
  have hgrounded : (s.cache.store.act (.get s.cache.wall key)).Grounded := hg.act hs rfl trivial
  have hstore : (s.cache.get key).state.store = s.cache.store.act (.get s.cache.wall key) :=
    Cache.touching_store _ _
  have hresult : (s.cache.get key).result = (s.cache.store.get s.cache.wall key).result :=
    Cache.touching_result _ _
  change (s.cache.store.act (.get s.cache.wall key)).owners.Succeeds
    ((s.cache.store.act (.get s.cache.wall key)).moment []) (s.get key keep).1.owners
  have hmoment (cell : Cell V) (h : (s.cache.get key).result = .ok (some cell)) :
      (s.cache.get key).state.store.moment [] = s.cache.store.moment []
        ∧ ∃ holder ∈ (s.cache.store.moment []).holders,
          holder.resolve (s.cache.store.moment []) = some cell :=
    hstore ▸ hs.moment_get (hresult ▸ h)
  rw [← hstore] at hgrounded ⊢
  have hwithin := (s.cache.get key).state.store.outside_within []
  rw [get]
  cases hfound : (s.cache.get key).result with
  | error p => exact .refl hgrounded.owners hwithin
  | ok found =>
    cases found with
    | none => exact .refl hgrounded.owners hwithin
    | some cell =>
      cases keep with
      | none => exact .refl hgrounded.owners hwithin
      | some name =>
        obtain ⟨hsame, holder, hmem, hresolve⟩ := hmoment cell hfound
        rw [← hsame] at hmem hresolve
        have hknown := (hgrounded.known hmem).of_resolve hgrounded.owners rfl hresolve
        have hfair := Holder.fair_of_isOwned (o := (s.cache.get key).state.store.owners)
          (Holder.isOwned_of_resolve hmem hresolve)
        exact .ownOnly_succeeds hgrounded.owners hwithin (Nat.le_refl _) hknown hfair name

/-- Keeping a holder changes the references outside if the holder can be made. -/
theorem refer_owners (index : Nat) (holding : Holding V) :
    (s.perform (.refer index holding)).1.owners
      = ((holding.make? s.owners).map fun made => made.1.file index made.2).getD s.owners := by
  rw [perform]
  change Session.owners (s.mapOwners _) = _
  simp only [owners, mapOwners, mapStore]
  cases holding.make? s.cache.store.owners <;> rfl

/-- A command that changes the references outside owns nothing anew. -/
theorem references_succeed (hg : s.cache.store.Grounded) {c : Command V} (hc : c.isReference) :
    s.owners.Succeeds s.moment (s.perform c).1.owners := by
  have ho : s.owners.Grounded := hg.owners
  have hm : s.owners.outside.Within s.moment := s.cache.store.outside_within []
  have hnew : s.owners.fresh ≤ s.owners.fresh + 1 := Nat.le_succ _
  have hfresh (value : V) : (Holder.strong ⟨s.owners.fresh, value⟩).Fair s.moment s.owners :=
    Holder.fair_of_fresh (Nat.le_refl _)
  cases c with
  | own name value => exact .ownOnly_succeeds ho hm hnew (Nat.lt_succ_self _) (hfresh value) name
  | soften handle value => exact .soften_succeeds ho hm hnew (Nat.lt_succ_self _) (hfresh value) handle
  | softenOwned handle owner =>
    change s.owners.Succeeds s.moment (((s.owners.values.lookup owner).map _).getD _)
    cases hlookup : s.owners.values.lookup owner with
    | none => exact .refl ho hm
    | some cell =>
      have hmem := s.owners.strong_mem_of_lookup hlookup
      exact .soften_succeeds ho hm (Nat.le_refl _) (ho.holders _ hmem) (Holder.fair_of_mem hm hmem) _
  | share source target => exact .share_succeeds ho hm source target
  | refer index holding =>
    rw [refer_owners]
    cases hmake : holding.make? s.owners with
    | none => exact .refl ho hm
    | some made =>
      obtain ⟨owners, kept⟩ := made
      obtain ⟨fresh, hfresh, rfl, hknown, hfair⟩ := Holding.make?_eq_some ho hm hmake
      exact .file_succeeds ho hm hfresh hknown hfair index
  | copy source target =>
    change s.owners.Succeeds s.moment (((s.owners.copies.lookup source).map _).getD _)
    cases hlookup : s.owners.copies.lookup source with
    | none => exact .refl ho hm
    | some kept =>
      have hmem := s.owners.copy_mem_of_lookup hlookup
      exact .file_succeeds ho hm (Nat.le_refl _) (ho.holders _ hmem) (Holder.fair_of_mem hm hmem) _
  | keepValue source owner =>
    change s.owners.Succeeds s.moment
      ((((s.owners.copies.lookup source).bind (Holder.resolve s.moment)).map _).getD _)
    cases hcopy : (s.owners.copies.lookup source).bind (Holder.resolve s.moment) with
    | none => exact .refl ho hm
    | some cell =>
      obtain ⟨kept, hlookup, hresolve⟩ := Option.bind_eq_some_iff.mp hcopy
      have hmem := s.owners.copy_mem_of_lookup hlookup
      have hknown := (ho.holders _ hmem).of_resolve ho rfl hresolve
      have howned := Holder.isOwned_of_resolve (hm.holders hmem) hresolve
      exact .own_succeeds ho hm hknown (Holder.fair_of_isOwned howned) _
  | drop label => exact .drop_succeeds ho hm label
  | reclaim handle => exact .reclaim_succeeds ho hm handle
  | _ => cases hc

/-- What a plain command does is sound. -/
theorem perform_sound (hg : s.cache.store.Grounded) (hs : s.cache.store.Calm) {c : Command V}
    (hc : c.isPlain) : ∀ o ∈ s.cache.store.history (s.performActions c), o.Sound := by
  have ho : s.owners.Grounded := hg.owners
  have hm : s.owners.outside.Within s.moment := s.cache.store.outside_within []
  have hnew : s.owners.fresh ≤ s.owners.fresh + 1 := Nat.le_succ _
  cases c with
  | store key value ttl listener =>
    refine Store.sound_of_refer_put (.fresh_succeeds ho hm hnew) ?_ _ _
    exact List.forall_mem_singleton.mpr (Nat.lt_succ_self _)
  | storeEntry key entryKey value ttl expires listener =>
    refine Store.sound_of_refer_put (.fresh_succeeds ho hm hnew) ?_ _ _
    exact List.forall_mem_singleton.mpr (Nat.lt_succ_self _)
  | storeHeld key holding ttl =>
    rw [performActions, putHeldActions]
    cases hmake : holding.make? s.owners with
    | none =>
      intro o ho
      cases ho
    | some made =>
      obtain ⟨fresh, hfresh, howners, hknown, -⟩ := Holding.make?_eq_some ho hm hmake
      refine Store.sound_of_refer_put (howners ▸ .fresh_succeeds ho hm hfresh) ?_ _ _
      exact List.forall_mem_singleton.mpr hknown
  | get key keep => exact get_sound hg hs key keep
  | own | soften | softenOwned | share | refer | copy | keepValue | drop | reclaim =>
    exact List.forall_mem_singleton.mpr (references_succeed hg rfl)
  | uncache | setDelegate => exact List.forall_mem_singleton.mpr trivial
  | uncacheLike | sweep | drain | advance | shutdown | datagram | groupDatagram | send =>
    exact Store.sound_of_isRemoval fun _ => isRemoval_of_mem_performActions rfl
  | storeCustom | reviseCustom | arm => cases hc
  | readSoft | size | stats | useAge | skew | ensureSweeper | running | settings | setHost | listen
  | unlisten | listenerAlive =>
    intro o ho
    cases ho

/-- What plain commands do, with the wake-ups after them, is sound. -/
theorem script_sound (hg : s.cache.store.Grounded) (hs : s.cache.store.Calm)
    {commands : List (Command V)} (hcommands : ∀ c ∈ commands, c.isPlain) :
    ∀ o ∈ s.history commands, o.Sound := by
  induction commands generalizing s with
  | nil => exact fun _ h => nomatch h
  | cons c rest ih =>
    obtain ⟨hc, hrest⟩ := List.forall_mem_cons.mp hcommands
    have hplain : ∀ a ∈ s.actions c, a.isPlain := fun _ => isPlain_of_mem_actions hc
    have hactions : ∀ o ∈ s.cache.store.history (s.actions c), o.Sound := by
      rw [actions, Store.history_append]
      refine List.forall_mem_append.mpr ⟨perform_sound hg hs hc, Store.sound_of_isRemoval ?_⟩
      exact fun _ => Cache.isRemoval_of_mem_settleActions
    rw [history, script, Store.history_append, ← step_store]
    refine List.forall_mem_append.mpr ⟨hactions, ih ?_ ?_ hrest⟩
    · exact step_store s c ▸ hg.follow hs hplain hactions
    · exact step_store s c ▸ hs.follow hplain

/-- Nothing that was reclaimed comes back in the course of plain commands. -/
theorem history_lasting (hg : s.cache.store.Grounded) (hs : s.cache.store.Calm)
    {commands : List (Command V)} (hcommands : ∀ c ∈ commands, c.isPlain) :
    ∀ o ∈ s.history commands, o.Lasting :=
  hg.follow_lasting hs (fun _ => isPlain_of_mem_script hcommands) (script_sound hg hs hcommands)

end Session

end TimedCache
