import TimedCache.Proofs.Session.Plain
import TimedCache.Proofs.Store.Ledger

/-!
# Custom entries keep their identity

The application revises a custom entry through the record of it that it keeps. Numbers of custom
entries are given away once, so whatever has the number of a record was made with the same name and
the same hooks, and a revision reaches no other entry. Hence a revision in a session makes no other
entry of those in the store.
-/

namespace TimedCache

variable {V : Type}

namespace Owners

/-- The references outside may turn into others: no number is given away again, and at most one
custom entry is on record anew, with a number that was not given away before. -/
def Extends (o o' : Owners V) : Prop :=
  o.fresh ≤ o'.fresh ∧ ∃ made : Option (CustomEntry V),
    (∀ c ∈ made, o.fresh ≤ c.number ∧ c.number < o'.fresh)
      ∧ ∀ c ∈ o'.customs, c ∈ o.customs ∨ c ∈ made

/-- Where the custom entries on record stay the same, none is new. -/
theorem extends_of_customs {o o' : Owners V} (hfresh : o.fresh ≤ o'.fresh)
    (hcustoms : o'.customs = o.customs) : o.Extends o' :=
  ⟨hfresh, none, fun _ h => (nomatch h), fun _ h => .inl (hcustoms ▸ h)⟩

theorem extends_drop (o : Owners V) (label : Label) : o.Extends (o.drop label) := by
  cases label <;> exact extends_of_customs (Nat.le_refl _) rfl

theorem extends_reclaim (o : Owners V) (name : Name) : o.Extends (o.reclaim name) := by
  rw [reclaim]
  split <;> exact extends_of_customs (Nat.le_refl _) rfl

theorem extends_share (o : Owners V) (source target : Name) : o.Extends (o.share source target) := by
  rw [share]
  split <;> exact extends_of_customs (Nat.le_refl _) rfl

/-- To make a holder is to allocate a value at most. -/
theorem extends_of_make? {o o' : Owners V} {holding : Holding V} {h : Holder V}
    (hmake : holding.make? o = some (o', h)) : o.Extends o' := by
  have hsame {α : Type} {found : Option α} {f : α → Holder V}
      (hmake : (found.map fun a => (o, f a)) = some (o', h)) : o.Extends o' := by
    obtain ⟨a, -, hmade⟩ := Option.map_eq_some_iff.mp hmake
    rw [← (Prod.mk.inj hmade).1]
    exact extends_of_customs (Nat.le_refl _) rfl
  cases holding with
  | strong value =>
    rw [← (Prod.mk.inj (Option.some.inj hmake)).1]
    exact extends_of_customs (Nat.le_succ _) rfl
  | strongOf | weakOf | softOf | weakOfSoft => exact hsame hmake

/-- A new custom entry is on record with a new number. -/
theorem extends_makeCustom (o : Owners V) (key : String) (id : Name) (expired : Bool)
    (value : Option V) (hooks : Bool) : o.Extends (o.makeCustom key id expired value hooks).1 := by
  have hnumber : o.fresh ≤ (o.makeCustom key id expired value hooks).2.number := by
    cases value with
    | none => exact Nat.le_refl _
    | some value => exact Nat.le_succ _
  have hfresh : (o.makeCustom key id expired value hooks).2.number
      < (o.makeCustom key id expired value hooks).1.fresh := Nat.lt_succ_self _
  refine ⟨by omega, some (o.makeCustom key id expired value hooks).2, ?_, ?_⟩
  · intro c hc
    exact Option.mem_some.mp hc ▸ ⟨hnumber, hfresh⟩
  · intro c hc
    rcases List.mem_append.mp hc with hc | hc
    · left
      have hkept := List.mem_of_mem_filter hc
      cases value <;> exact hkept
    · right
      exact Option.mem_some.mpr (List.mem_singleton.mp hc).symm

end Owners

/-- Whatever has the number of a custom entry on record was made with its name and its hooks. -/
def Entry.Enrolled (o : Owners V) : Entry V → Prop
  | .timed _ => True
  | .custom c => c.number < o.fresh ∧
    ∀ c' ∈ o.customs, c'.number = c.number → c'.id = c.id ∧ c'.hooks = c.hooks

/-- What became of an enrolled entry is enrolled. -/
theorem Entry.Enrolled.of_continues {o : Owners V} {x e : Entry V} (h : e.Enrolled o)
    (hcontinues : x.Continues e) : x.Enrolled o := by
  cases x <;> cases e <;> try contradiction
  case timed => trivial
  case custom =>
    obtain ⟨hnumber, hid, hhooks⟩ := hcontinues
    refine ⟨hnumber ▸ h.1, fun c' hc' hsame => ?_⟩
    rw [hid, hhooks]
    exact h.2 c' hc' (hsame.trans hnumber)

namespace Store

/-- All custom entries, on record and in the store, have numbers that were given away, and what has
the same number was made with the same name and the same hooks. -/
structure Registered (s : Store V) : Prop where
  customs : ∀ c ∈ s.owners.customs, (Entry.custom c).Enrolled s.owners
  entries : ∀ p ∈ s.entries, p.2.Enrolled s.owners

/-- A new store knows no custom entries. -/
theorem createdAt_registered (t : WallTime) : (createdAt t : Store V).Registered :=
  ⟨fun _ h => (nomatch h), fun _ h => (nomatch h)⟩

end Store

/-- A custom entry that is put is on record, and so is the one that a revision changes; a change of
the references outside gives no number away again. -/
def Occasion.Genuine (o : Occasion V) : Prop :=
  match o.action with
  | .put _ _ (.custom c) => c ∈ o.before.owners.customs
  | .refer owners => o.before.owners.Extends owners
  | .revise later => ∃ c ∈ o.before.owners.customs, (Entry.custom later).Continues (.custom c)
  | _ => True

namespace Entry

variable {o o' : Owners V}

/-- Enrolled entries stay enrolled when the references outside change. -/
theorem Enrolled.extends {e : Entry V} (h : e.Enrolled o) (hextends : o.Extends o') :
    e.Enrolled o' := by
  obtain ⟨hfresh, made, hmade, hcustoms⟩ := hextends
  cases e with
  | timed e => trivial
  | custom c =>
    refine ⟨Nat.lt_of_lt_of_le h.1 hfresh, fun c' hc' hsame => ?_⟩
    rcases hcustoms c' hc' with hold | hnew
    · exact h.2 c' hold hsame
    · have hlater := (hmade c' hnew).1
      have hearlier := h.1
      omega

/-- Enrolled entries stay enrolled when one on record is revised. -/
theorem Enrolled.enroll {e : Entry V} (h : e.Enrolled o) {later c : CustomEntry V}
    (hc : c ∈ o.customs) (hlater : (Entry.custom later).Continues (.custom c)) :
    e.Enrolled (o.enroll later) := by
  cases e with
  | timed e => trivial
  | custom x =>
    refine ⟨h.1, fun c' hc' hsame => ?_⟩
    rcases List.mem_append.mp hc' with hc' | hc'
    · exact h.2 c' (List.mem_of_mem_filter hc') hsame
    · rw [List.mem_singleton.mp hc'] at hsame ⊢
      rw [hlater.2.1, hlater.2.2]
      exact h.2 c hc (hlater.1.symm.trans hsame)

end Entry

namespace Store.Registered

variable {s : Store V}

/-- A revision in a registered store makes no other entry. -/
theorem faithful {a : Action V} (h : s.Registered) (hgenuine : (Occasion.mk s a).Genuine) :
    (Occasion.mk s a).Faithful := by
  rintro later rfl p hp
  obtain ⟨c, hc, hnumber, hid, hhooks⟩ := hgenuine
  obtain ⟨key, e⟩ := p
  cases e with
  | timed e => exact .refl _
  | custom x =>
    rw [Entry.revisedTo]
    split
    · next hsame =>
      have henrolled := (h.entries _ hp).2 c hc (hnumber ▸ hsame.symm)
      exact ⟨hsame.symm, hid.trans henrolled.1, hhooks.trans henrolled.2⟩
    · exact .refl _

/-- The references outside may change: what is new on record has a number that none had before. -/
theorem refer {owners : Owners V} (h : s.Registered) (hextends : s.owners.Extends owners) :
    ({ s with owners } : Store V).Registered := by
  refine ⟨fun c hc => ?_, fun p hp => (h.entries p hp).extends hextends⟩
  obtain ⟨-, made, hmade, hcustoms⟩ := id hextends
  rcases hcustoms c hc with hold | hnew
  · exact (h.customs c hold).extends hextends
  · refine ⟨(hmade c hnew).2, fun c' hc' hsame => ?_⟩
    rcases hcustoms c' hc' with hold' | hnew'
    · have hearlier : c'.number < s.owners.fresh := (h.customs c' hold').1
      have hlater := (hmade c hnew).1
      omega
    · rw [Option.mem_unique hnew' hnew]
      exact ⟨rfl, rfl⟩

/-- A custom entry on record may be revised, there and in the store. -/
theorem revise {later c : CustomEntry V} (h : s.Registered) (hc : c ∈ s.owners.customs)
    (hlater : (Entry.custom later).Continues (.custom c))
    (hfaithful : ∀ p ∈ s.entries, (p.2.revisedTo later).Continues p.2) :
    (s.reviseCustom later).Registered := by
  refine ⟨fun c' hc' => ?_, fun p hp => ?_⟩
  · rcases List.mem_append.mp hc' with hc' | hc'
    · exact (h.customs c' (List.mem_of_mem_filter hc')).enroll hc hlater
    · rw [List.mem_singleton.mp hc']
      exact ((h.customs c hc).of_continues hlater).enroll hc hlater
  · obtain ⟨q, hq, rfl⟩ := List.mem_map.mp hp
    exact ((h.entries q hq).of_continues (hfaithful q hq)).enroll hc hlater

/-- Genuine actions keep a store registered. -/
theorem act {o : Occasion V} (h : o.before.Registered) (hnodup : o.before.keys.Nodup)
    (hgenuine : o.Genuine) : o.after.Registered := by
  by_cases hoperation : o.isOperation
  · have howners := o.owners_eq hnodup hoperation
    refine ⟨howners ▸ h.customs, fun p hp => howners ▸ ?_⟩
    obtain ⟨e, he | he, hcontinues⟩ := o.continues hnodup hoperation p hp
    · obtain ⟨t, haction⟩ := Occasion.action_of_mem_entered he
      rw [Occasion.Genuine, haction] at hgenuine
      have henrolled : e.Enrolled o.before.owners := by
        cases e with
        | timed e => trivial
        | custom c => exact h.customs c hgenuine
      exact henrolled.of_continues hcontinues
    · exact (h.entries _ he).of_continues hcontinues
  · obtain ⟨s, a⟩ := o
    cases a with
    | refer owners => exact h.refer hgenuine
    | revise later =>
      have hfaithful := h.faithful hgenuine later rfl
      obtain ⟨c, hc, hlater⟩ := hgenuine
      exact h.revise hc hlater hfaithful
    | delegateTo | arm => exact ⟨h.customs, h.entries⟩
    | put | get | uncache | uncacheLike | sweep | drain => exact absurd rfl hoperation

/-- In the course of a genuine script no revision makes another entry. -/
theorem follow_faithful {entered : List (String × Entry V)} {untold : Nat} {script : List (Action V)}
    (h : s.Registered) (hledger : Ledger entered untold s)
    (hgenuine : ∀ o ∈ s.history script, o.Genuine) : ∀ o ∈ s.history script, o.Faithful := by
  induction script generalizing s entered untold with
  | nil => exact fun _ ho => nomatch ho
  | cons a rest ih =>
    obtain ⟨hfirst, hrest⟩ := List.forall_mem_cons.mp hgenuine
    have hfaithful := h.faithful hfirst
    have hafter := h.act (o := ⟨s, a⟩) hledger.nodup hfirst
    exact List.forall_mem_cons.mpr ⟨hfaithful, ih hafter (hledger.act (o := ⟨s, a⟩) hfaithful) hrest⟩

end Store.Registered

namespace Session

variable {s : Session V}

/-- Removing entries is genuine. -/
theorem genuine_of_isRemoval {st : Store V} {script : List (Action V)}
    (h : ∀ a ∈ script, a.isRemoval) : ∀ o ∈ st.history script, o.Genuine := by
  intro o ho
  have hremoval := h _ (Store.action_mem_of_mem_history ho)
  obtain ⟨met, a⟩ := o
  cases a <;> trivial

/-- Setting references and then putting a usual entry is genuine if the references are. -/
theorem genuine_of_refer_put {owners : Owners V} (h : s.owners.Extends owners) (t : WallTime)
    (key : String) (e : TimedEntry V) :
    ∀ o ∈ s.cache.store.history [.refer owners, .put t key (.timed e)], o.Genuine :=
  List.forall_mem_cons.mpr ⟨h, List.forall_mem_singleton.mpr trivial⟩

/-- Revising the custom entry that is on record under a name is genuine. -/
theorem reviseCustom_genuine (id : Name) (expired : Option Bool) (value : Option (Option V)) :
    ∀ o ∈ s.cache.store.history (s.reviseCustomActions id expired value), o.Genuine := by
  rw [reviseCustomActions]
  cases hfind : s.owners.custom? id with
  | none => exact List.forall_mem_nil _
  | some c =>
    have hc : c ∈ s.owners.customs := List.mem_of_find?_eq_some hfind
    cases value with
    | none => exact List.forall_mem_singleton.mpr ⟨c, hc, rfl, rfl, rfl⟩
    | some v =>
      refine List.forall_mem_cons.mpr ⟨?_, List.forall_mem_singleton.mpr ⟨c, ?_, rfl, rfl, rfl⟩⟩
      · cases v with
        | none => exact Owners.extends_of_customs (Nat.le_refl _) rfl
        | some v => exact Owners.extends_of_customs (Nat.le_succ _) rfl
      · cases v <;> exact hc

/-- A look-up is genuine, whoever keeps the value. -/
theorem get_genuine (key : String) (keep : Option Name) :
    ∀ o ∈ s.cache.store.history (s.performActions (.get key keep)), o.Genuine := by
  refine List.forall_mem_cons.mpr ⟨trivial, List.forall_mem_singleton.mpr ?_⟩
  change (s.cache.store.get s.cache.wall key).state.owners.Extends (s.get key keep).1.owners
  have hstore : (s.cache.get key).state.store = (s.cache.store.get s.cache.wall key).state :=
    Cache.touching_store _ _
  rw [← hstore, get]
  cases (s.cache.get key).result with
  | error p => exact Owners.extends_of_customs (Nat.le_refl _) rfl
  | ok found =>
    cases found with
    | none => exact Owners.extends_of_customs (Nat.le_refl _) rfl
    | some cell => cases keep <;> exact Owners.extends_of_customs (Nat.le_refl _) rfl

/-- What a command does by itself is genuine. -/
theorem perform_genuine (s : Session V) (c : Command V) :
    ∀ o ∈ s.cache.store.history (s.performActions c), o.Genuine := by
  have hsingle {owners : Owners V} (h : s.owners.Extends owners) :
      ∀ o ∈ s.cache.store.history [.refer owners], o.Genuine := List.forall_mem_singleton.mpr h
  have hnew (value : V) : s.owners.Extends (s.owners.allocate value).1 :=
    Owners.extends_of_customs (Nat.le_succ _) rfl
  have hsame {α : Type} {found : Option α} {f : α → Owners V}
      (h : ∀ a, (f a).fresh = s.owners.fresh ∧ (f a).customs = s.owners.customs) :
      s.owners.Extends ((found.map f).getD s.owners) := by
    cases found with
    | none => exact Owners.extends_of_customs (Nat.le_refl _) rfl
    | some a => exact Owners.extends_of_customs (Nat.le_of_eq (h a).1.symm) (h a).2
  cases c with
  | store key value ttl listener => exact genuine_of_refer_put (hnew value) _ _ _
  | storeEntry key entryKey value ttl expires listener =>
    exact genuine_of_refer_put (hnew value) _ _ _
  | storeHeld key holding ttl =>
    rw [performActions, putHeldActions]
    cases hmake : holding.make? s.owners with
    | none => exact List.forall_mem_nil _
    | some made => exact genuine_of_refer_put (Owners.extends_of_make? hmake) _ _ _
  | storeCustom key entryKey id expired value hooks =>
    refine List.forall_mem_cons.mpr ⟨s.owners.extends_makeCustom .., ?_⟩
    exact List.forall_mem_singleton.mpr (List.mem_append_right _ (List.mem_singleton_self _))
  | reviseCustom id expired value => exact reviseCustom_genuine id expired value
  | get key keep => exact get_genuine key keep
  | own name value => exact hsingle (hnew value)
  | soften handle value => exact hsingle (hnew value)
  | softenOwned handle owner => exact hsingle (hsame fun _ => ⟨rfl, rfl⟩)
  | refer index holding =>
    refine hsingle ?_
    rw [perform]
    dsimp only [owners, mapOwners, mapStore]
    cases hmake : holding.make? s.cache.store.owners with
    | none => exact Owners.extends_of_customs (Nat.le_refl _) rfl
    | some made => exact (Owners.extends_of_make? hmake : s.owners.Extends made.1)
  | copy source target => exact hsingle (hsame fun _ => ⟨rfl, rfl⟩)
  | keepValue source owner => exact hsingle (hsame fun _ => ⟨rfl, rfl⟩)
  | share source target => exact hsingle (s.owners.extends_share source target)
  | drop label => exact hsingle (s.owners.extends_drop label)
  | reclaim handle => exact hsingle (s.owners.extends_reclaim handle)
  | uncacheLike | sweep | drain | advance | shutdown | datagram | groupDatagram | send =>
    exact genuine_of_isRemoval fun _ => isRemoval_of_mem_performActions rfl
  | uncache | setDelegate | arm => exact List.forall_mem_singleton.mpr trivial
  | readSoft | size | stats | useAge | skew | ensureSweeper | running | settings | setHost | listen
  | unlisten | listenerAlive => exact List.forall_mem_nil _

/-- Everything that happens in the course of a session is genuine. -/
theorem history_genuine (s : Session V) (commands : List (Command V)) :
    ∀ o ∈ s.history commands, o.Genuine := by
  induction commands generalizing s with
  | nil => exact fun _ ho => nomatch ho
  | cons c rest ih =>
    have hactions : ∀ o ∈ s.cache.store.history (s.actions c), o.Genuine := by
      rw [actions, Store.history_append]
      refine List.forall_mem_append.mpr ⟨perform_genuine s c, genuine_of_isRemoval ?_⟩
      exact fun _ => Cache.isRemoval_of_mem_settleActions
    rw [history, script, Store.history_append, ← step_store]
    exact List.forall_mem_append.mpr ⟨hactions, ih _⟩

/-- In the course of a new session no revision makes another entry of those in the store. -/
theorem opened_faithful (settings : Settings) (hosted : Bool) (host : Host) (wall : WallTime)
    (commands : List (Command V)) :
    ∀ o ∈ (opened settings hosted host wall : Session V).history commands, o.Faithful :=
  (Store.createdAt_registered wall).follow_faithful (Store.createdAt_ledger wall)
    (history_genuine (opened settings hosted host wall) commands)

end Session

end TimedCache
