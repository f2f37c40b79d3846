import TimedCache.Proofs.Returned
import TimedCache.Proofs.Store.History

/-!
# Alarms that do not go off

An operation that returns met no alarm that waits for one of its calls, so it does what it would do
if no alarm were set at all. What is known of operations that nothing can interrupt is thereby known
of all operations that nothing did interrupt.
-/

namespace TimedCache.Store

variable {V α β : Type}

/-- The store without its alarms. -/
def muted (s : Store V) : Store V := { s with alarms := [] }

/-- If the first operation returns, the second one does the same without the alarms. -/
def Echoes (r r' : Op V α) : Prop := r.returned → r' = ⟨r.state.muted, r.result⟩

namespace Echoes

theorem done (s : Store V) (a : α) : Echoes (.done s a) (.done s.muted a) := fun _ => rfl

theorem andThen {r r' : Op V α} {next next' : Store V → α → Op V β} (h : Echoes r r')
    (hnext : ∀ s a, Echoes (next s a) (next' s.muted a)) :
    Echoes (r.andThen next) (r'.andThen next') := by
  intro hreturned
  have hfirst := Ran.returned_of_andThen hreturned
  obtain ⟨a, ha⟩ := Ran.exists_of_returned hfirst
  have ha' : r'.result = .ok a := h hfirst ▸ ha
  rw [Ran.andThen_of_ok ha] at hreturned ⊢
  rw [Ran.andThen_of_ok ha', h hfirst]
  exact hnext r.state a hreturned

/-- The state that is left is that of the first operation without the alarms. -/
theorem state_eq {r r' : Op V α} (h : Echoes r r') (hreturned : r.returned) :
    r.state.muted = r'.state := (congrArg Ran.state (h hreturned)).symm

/-- The results are the same. -/
theorem result_eq {r r' : Op V α} (h : Echoes r r') (hreturned : r.returned) :
    r.result = r'.result := (congrArg Ran.result (h hreturned)).symm

end Echoes

variable (s : Store V) (t : WallTime) (key : String) (e : Entry V) (inFlight : List (Holder V))

theorem notify_echoes (x : Event V) : Echoes (s.notify x) (s.muted.notify x) := by
  intro hreturned
  rw [notify] at hreturned ⊢
  dsimp only at hreturned ⊢
  cases htrip : Alarm.trip? x.call s.alarms with
  | none => simp [notify, htrip, muted, Alarm.trip?]
  | some rest =>
    rw [htrip] at hreturned
    cases hreturned

theorem announce_echoes (phase : Phase) :
    Echoes (s.announce t phase key e inFlight) (s.muted.announce t phase key e inFlight) :=
  (s.notify_echoes _).andThen fun s _ => s.notify_echoes _

theorem discard_echoes : Echoes (s.discard t key e inFlight) (s.muted.discard t key e inFlight) :=
  (s.announce_echoes t key e _ _).andThen fun s _ => .done s.observe ()

theorem displace_echoes (incoming : List (Holder V)) :
    Echoes (s.displace t key incoming) (s.muted.displace t key incoming) := by
  have hfind : s.muted.find? key = s.find? key := rfl
  rw [displace, displace, hfind]
  cases s.find? key with
  | none => exact .done s ()
  | some e => exact (s.erase key).discard_echoes t key e incoming

theorem put_echoes : Echoes (s.put t key e) (s.muted.put t key e) := by
  apply Echoes.andThen
  · exact (s.count (Stats.touch t.stamp)).displace_echoes t key e.holders
  · intro s _
    apply Echoes.andThen
    · exact (s.append key e).announce_echoes t key e [] .cached
    · exact fun s _ => .done _ ()

theorem noteAccess_echoes : Echoes (s.noteAccess t key e) (s.muted.noteAccess t key e) := by
  cases e with
  | timed e => exact .done _ ()
  | custom c => exact s.notify_echoes _

theorem get_echoes : Echoes (s.get t key) (s.muted.get t key) := by
  have hfind : (s.muted.count (Stats.touch t.stamp)).find? key
      = (s.count (Stats.touch t.stamp)).find? key := rfl
  rw [get, get]
  dsimp only
  rw [hfind]
  cases (s.count (Stats.touch t.stamp)).find? key with
  | none => exact .done _ none
  | some e =>
    dsimp only
    change Echoes _ (if e.isLive ((s.count (Stats.touch t.stamp)).moment []) t.stamp then _ else _)
    split
    · exact (noteAccess_echoes _ t key e).andThen fun _ _ => .done _ _
    · exact (discard_echoes _ t key e []).andThen fun _ _ => .done _ _

theorem uncache_echoes : Echoes (s.uncache t key) (s.muted.uncache t key) :=
  (s.count (Stats.touch t.stamp)).displace_echoes t key []

theorem removeEach_echoes (adjust : Stats → Stats) (keys : List String) :
    Echoes (removeEach t adjust keys s) (removeEach t adjust keys s.muted) := by
  induction keys generalizing s with
  | nil => exact .done s ()
  | cons key rest ih =>
    have hfind : s.muted.find? key = s.find? key := rfl
    rw [removeEach, removeEach, hfind]
    cases s.find? key with
    | none => exact ih s
    | some e => exact (((s.erase key).count adjust).discard_echoes t key e []).andThen fun s _ => ih s

theorem removeAll_echoes (adjust : Stats → Stats) (keys : List String) :
    Echoes (s.removeAll t adjust keys) (s.muted.removeAll t adjust keys) :=
  (s.removeEach_echoes t adjust keys).andThen fun _ _ => .done _ _

theorem discardEach_echoes (gone : List (String × Entry V)) :
    Echoes (discardEach t gone s) (discardEach t gone s.muted) := by
  induction gone generalizing s with
  | nil => exact .done s ()
  | cons p rest ih => exact (s.discard_echoes t p.1 p.2 _).andThen fun s _ => ih s

theorem drain_echoes : Echoes (s.drain t) (s.muted.drain t) :=
  (discardEach_echoes { s with entries := [] } t s.entries).andThen fun _ _ => .done _ _

end TimedCache.Store

namespace TimedCache

variable {V : Type}

namespace Occasion

/-- An action that returns does what it would do without the alarms. -/
theorem after_muted {o : Occasion V} (hquiet : o.action.isQuiet) (hreturned : o.returned) :
    o.after.muted = o.before.muted.act o.action := by
  obtain ⟨s, a⟩ := o
  cases a with
  | put t key e => exact (s.put_echoes t key e).state_eq hreturned
  | get t key => exact (s.get_echoes t key).state_eq hreturned
  | uncache t key => exact (s.uncache_echoes t key).state_eq hreturned
  | uncacheLike t pattern => exact (s.removeAll_echoes t id _).state_eq hreturned
  | sweep t => exact (s.removeAll_echoes t Stats.recordExpiration _).state_eq hreturned
  | drain t => exact (s.drain_echoes t).state_eq hreturned
  | refer | revise | delegateTo => rfl
  | arm alarm => cases hquiet

/-- A store that is calm but for its alarms stays so while no hook panics. -/
theorem calm_after {o : Occasion V} (hs : o.before.muted.Calm) (hreturned : o.returned) :
    o.after.muted.Calm := by
  by_cases hquiet : o.action.isQuiet
  · rw [after_muted hquiet hreturned]
    exact hs.act_of_isQuiet hquiet
  · obtain ⟨s, a⟩ := o
    cases a <;> first | exact hs | exact absurd rfl hquiet

end Occasion

end TimedCache
