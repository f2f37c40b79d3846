import Mathlib.Data.List.Induction
import TimedCache.Proofs.Store.Effects

/-!
# What happens to a store

Everything that is done to a store is an action: an operation at some time, or a change of what
surrounds it. A script is a list of actions, and its history is each action together with the
store that it met. While no alarm is set and no custom entry is put, every action leaves a calm
store calm, and what it does to the entry under a key can be said without the other keys.
-/

namespace TimedCache

/-- An operation on a store at some time, or a change of what surrounds it. -/
inductive Action (V : Type) where
  | put (t : WallTime) (key : String) (e : Entry V)
  | get (t : WallTime) (key : String)
  | uncache (t : WallTime) (key : String)
  | uncacheLike (t : WallTime) (pattern : String)
  | sweep (t : WallTime)
  | drain (t : WallTime)
  | refer (owners : Owners V)
  | revise (later : CustomEntry V)
  | delegateTo (delegate : Option Name)
  | arm (alarm : Alarm String)

variable {V : Type}

namespace Action

/-- The time of an operation. -/
def time? : Action V → Option WallTime
  | .put t .. | .get t _ | .uncache t _ | .uncacheLike t _ | .sweep t | .drain t => some t
  | _ => none

/-- The action sets no alarm and does not deal in custom entries. -/
def isPlain : Action V → Bool
  | .put _ _ (.custom _) | .revise _ | .arm _ => false
  | _ => true

/-- The action sets no alarm. -/
def isQuiet : Action V → Bool
  | .arm _ => false
  | _ => true

/-- Plain actions set no alarm. -/
theorem isQuiet_of_isPlain {a : Action V} (h : a.isPlain) : a.isQuiet := by
  cases a <;> first | rfl | cases h

end Action

/-- An action together with the store that it met. -/
structure Occasion (V : Type) where
  before : Store V
  action : Action V

namespace Store

/-- The store after an action, whether the operation returned or not. -/
def act (s : Store V) : Action V → Store V
  | .put t key e => (s.put t key e).state
  | .get t key => (s.get t key).state
  | .uncache t key => (s.uncache t key).state
  | .uncacheLike t pattern => (s.uncacheLike t pattern).state
  | .sweep t => (s.sweep t).state
  | .drain t => (s.drain t).state
  | .refer owners => { s with owners }
  | .revise later => s.reviseCustom later
  | .delegateTo delegate => { s with delegate }
  | .arm alarm => { s with alarms := s.alarms ++ [alarm] }

/-- The operation of an action returns; a change of what surrounds the store always does. -/
def returns (s : Store V) : Action V → Bool
  | .put t key e => (s.put t key e).returned
  | .get t key => (s.get t key).returned
  | .uncache t key => (s.uncache t key).returned
  | .uncacheLike t pattern => (s.uncacheLike t pattern).returned
  | .sweep t => (s.sweep t).returned
  | .drain t => (s.drain t).returned
  | .refer _ | .revise _ | .delegateTo _ | .arm _ => true

/-- The store after the actions of a script, one after the other. -/
def follow (s : Store V) (script : List (Action V)) : Store V := script.foldl act s

/-- The actions of a script with the stores that they met. -/
def history (s : Store V) : List (Action V) → List (Occasion V)
  | [] => []
  | a :: rest => ⟨s, a⟩ :: (s.act a).history rest

end Store

namespace Occasion

/-- The store after the action. -/
def after (o : Occasion V) : Store V := o.before.act o.action

/-- The operation of the action returned. -/
def returned (o : Occasion V) : Bool := o.before.returns o.action

end Occasion

namespace Store

theorem follow_append (s : Store V) (first second : List (Action V)) :
    s.follow (first ++ second) = (s.follow first).follow second := List.foldl_append ..

theorem history_append (s : Store V) (first second : List (Action V)) :
    s.history (first ++ second) = s.history first ++ (s.follow first).history second := by
  induction first generalizing s with
  | nil => rfl
  | cons a rest ih => simp only [List.cons_append, history, ih, follow, List.foldl_cons]

variable {s : Store V}

/-- The actions of a history are those of the script. -/
theorem map_action_history (s : Store V) (script : List (Action V)) :
    (s.history script).map Occasion.action = script := by
  induction script generalizing s with
  | nil => rfl
  | cons a rest ih => rw [history, List.map_cons, ih]

/-- An action of a history is one of the script. -/
theorem action_mem_of_mem_history {script : List (Action V)} {o : Occasion V}
    (h : o ∈ s.history script) : o.action ∈ script :=
  s.map_action_history script ▸ List.mem_map_of_mem h

/-- What happened first is the beginning of all that happened. -/
theorem history_initial (s : Store V) {script script' : List (Action V)} (h : script <+: script') :
    s.history script <+: s.history script' := by
  obtain ⟨rest, rfl⟩ := h
  rw [history_append]
  exact List.prefix_append _ _

/-- What holds of a store and is kept by every occasion of its history holds at the end. -/
theorem history_induction {P : List (Occasion V) → Store V → Prop} {C : Occasion V → Prop}
    (hstart : P [] s)
    (hstep : ∀ past (met : Store V) a, P past met → C ⟨met, a⟩ → P (past ++ [⟨met, a⟩]) (met.act a))
    {script : List (Action V)} (hallowed : ∀ o ∈ s.history script, C o) :
    P (s.history script) (s.follow script) := by
  induction script using List.reverseRecOn with
  | nil => exact hstart
  | append_singleton script a ih =>
    rw [history_append] at hallowed ⊢
    rw [follow_append]
    obtain ⟨hpast, hlast⟩ := List.forall_mem_append.mp hallowed
    exact hstep _ _ a (ih hpast) (hlast _ (List.mem_singleton_self _))

/-- Actions that set no alarm keep a store calm. -/
theorem Calm.act_of_isQuiet (hs : s.Calm) {a : Action V} (ha : a.isQuiet) : (s.act a).Calm := by
  cases a with
  | put t key e =>
    obtain ⟨log, h⟩ := hs.put_eq t key e
    rw [Store.act, h]
    exact hs.turned (hs.append_nodup key e) _ log
  | get t key =>
    rw [Store.act]
    cases hfind : s.find? key with
    | none =>
      rw [hs.get_eq_of_absent t hfind]
      exact hs.turned hs.nodup _ _
    | some e =>
      cases hlive : e.isLive (s.moment []) t.stamp with
      | true =>
        obtain ⟨log, h⟩ := hs.get_eq_of_live t hfind hlive
        rw [h]
        exact hs.turned (alter_keys s key _ ▸ hs.nodup) _ log
      | false =>
        obtain ⟨log, h⟩ := hs.get_eq_of_dead t hfind hlive
        rw [h]
        exact hs.turned (hs.erase_nodup key) _ log
  | uncache t key =>
    obtain ⟨log, h⟩ := hs.uncache_eq t key
    rw [Store.act, h]
    exact hs.turned (hs.erase_nodup key) _ log
  | uncacheLike t pattern =>
    obtain ⟨log, h⟩ := hs.uncacheLike_eq t pattern
    rw [Store.act, h]
    exact hs.turned (nodup_keys_filter hs.nodup _) _ log
  | sweep t =>
    obtain ⟨log, h⟩ := hs.sweep_eq t
    rw [Store.act, h]
    exact hs.turned (nodup_keys_filter hs.nodup _) _ log
  | drain t =>
    obtain ⟨log, h⟩ := hs.drain_eq t
    rw [Store.act, h]
    have hnone : (([] : List (String × Entry V)).map Prod.fst).Nodup := List.nodup_nil
    exact hs.turned hnone _ log
  | revise later =>
    have hkeys : (s.reviseCustom later).keys = s.keys := List.map_map
    have hsize : (s.reviseCustom later).size = s.size := List.length_map _
    exact ⟨hs.quiet, hkeys ▸ hs.nodup, hsize ▸ hs.counted, hsize ▸ hs.bounded⟩
  | refer | delegateTo => exact ⟨hs.quiet, hs.nodup, hs.counted, hs.bounded⟩
  | arm alarm => cases ha

/-- Plain actions keep a store calm. -/
theorem Calm.act (hs : s.Calm) {a : Action V} (ha : a.isPlain) : (s.act a).Calm :=
  hs.act_of_isQuiet (Action.isQuiet_of_isPlain ha)

/-- A script that sets no alarm keeps a store calm. -/
theorem Calm.follow_of_isQuiet (hs : s.Calm) {script : List (Action V)}
    (hscript : ∀ a ∈ script, a.isQuiet) : (s.follow script).Calm := by
  induction script generalizing s with
  | nil => exact hs
  | cons a rest ih =>
    obtain ⟨ha, hrest⟩ := List.forall_mem_cons.mp hscript
    exact ih (hs.act_of_isQuiet ha) hrest

/-- A plain script keeps a store calm. -/
theorem Calm.follow (hs : s.Calm) {script : List (Action V)} (hscript : ∀ a ∈ script, a.isPlain) :
    (s.follow script).Calm := hs.follow_of_isQuiet fun a ha => Action.isQuiet_of_isPlain (hscript a ha)

section Find

variable (t : WallTime) (key other : String) (e : Entry V) (pattern : String)

/-- A put is found under its key. -/
theorem Calm.find?_put (hs : s.Calm) : (s.act (.put t key e)).find? other
    = if other = key then some e else s.find? other := by
  obtain ⟨log, h⟩ := hs.put_eq t key e
  rw [Store.act, h]
  change ((s.erase key).append key e).find? other = _
  rw [find?_append, find?_erase]
  by_cases hkey : other = key <;> simp [hkey]

/-- A look-up keeps the entry under its key only if it is live, and notes the access. -/
theorem Calm.find?_get (hs : s.Calm) : (s.act (.get t key)).find? other
    = if other = key then
        ((s.find? key).filter (Entry.isLive (s.moment []) t.stamp)).map (Entry.accessed t.stamp)
      else s.find? other := by
  rw [Store.act]
  cases hfind : s.find? key with
  | none =>
    rw [hs.get_eq_of_absent t hfind]
    change s.find? other = _
    by_cases hkey : other = key <;> simp [hkey, hfind]
  | some e =>
    cases hlive : e.isLive (s.moment []) t.stamp with
    | true =>
      obtain ⟨log, h⟩ := hs.get_eq_of_live t hfind hlive
      rw [h]
      change (s.alter key (Entry.accessed t.stamp)).find? other = _
      rw [find?_alter]
      by_cases hkey : other = key <;> simp [hkey, hfind, hlive, Option.filter_some]
    | false =>
      obtain ⟨log, h⟩ := hs.get_eq_of_dead t hfind hlive
      rw [h]
      change (s.erase key).find? other = _
      rw [find?_erase]
      by_cases hkey : other = key <;> simp [hkey, hlive, Option.filter_some]

/-- Nothing is found under a key that was removed. -/
theorem Calm.find?_uncache (hs : s.Calm) : (s.act (.uncache t key)).find? other
    = if other = key then none else s.find? other := by
  obtain ⟨log, h⟩ := hs.uncache_eq t key
  rw [Store.act, h]
  exact s.find?_erase key other

/-- Nothing is found under the keys that start with a removed prefix. -/
theorem Calm.find?_uncacheLike (hs : s.Calm) : (s.act (.uncacheLike t pattern)).find? key
    = if startsWith pattern key then none else s.find? key := by
  obtain ⟨log, h⟩ := hs.uncacheLike_eq t pattern
  rw [Store.act, h]
  change (s.entries.filter fun p => !startsWith pattern p.1).lookup key = _
  rw [lookup_filter_key s.entries fun k => !startsWith pattern k]
  cases startsWith pattern key <;> rfl

/-- A sweep keeps what is not expired. -/
theorem Calm.find?_sweep (hs : s.Calm) : (s.act (.sweep t)).find? key
    = (s.find? key).filter fun e => !e.isExpired (s.moment []) t.stamp := by
  obtain ⟨log, h⟩ := hs.sweep_eq t
  rw [Store.act, h]
  exact lookup_filter hs.nodup (fun p => !p.2.isExpired (s.moment []) t.stamp) key

/-- Nothing is found after a drain. -/
theorem Calm.find?_drain (hs : s.Calm) : (s.act (.drain t)).find? key = none := by
  obtain ⟨log, h⟩ := hs.drain_eq t
  rw [Store.act, h]
  rfl

end Find

end Store

end TimedCache
