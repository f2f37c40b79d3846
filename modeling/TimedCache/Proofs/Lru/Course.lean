import TimedCache.Proofs.Lru.Entries
import TimedCache.Proofs.Lru.Refinement

/-!
# The course of a command

A command owes calls to the listeners of the values that it brings in or takes out, in a certain order,
and the observer is called directly after each of them. A panic cuts the course of the calls short, at a
listener or at the observer after it. How many of the calls were made decides which entries are left, so
the command and that number are all there is to know about what a panic does.
-/

namespace TimedCache.Lru

variable {K V α β : Type}

/-- The call that tells the listener of an entry that the entry is gone. -/
def farewell (p : K × V × Option Name) : Call K := ⟨p.2.2, .uncached, p.1⟩

section Due

variable [DecidableEq K]

/-- The calls of listeners that a command owes, in order. -/
def due (capacity : Nat) (l : Recency K (V × Option Name)) : Command K V → List (Call K)
  | .put key value listener =>
    match l.lookup key with
    | some old => [farewell (key, old), ⟨listener, .cached, key⟩]
    | none => ⟨listener, .cached, key⟩
      :: ((l ++ [(key, value, listener)]).take (l.length + 1 - capacity)).map farewell
  | .remove key => (l.lookup key).toList.map fun old => farewell (key, old)
  | .clear => l.map farewell
  | _ => []

/-- The entries that a command leaves when it has made so many of the calls it owes. A replacement or a
removal is complete at its first call, while each entry that is evicted leaves directly before its own. -/
def left (l : Recency K (V × Option Name)) (made : Nat) : Command K V → Recency K (V × Option Name)
  | .put key value listener =>
    if (l.lookup key).isSome then Recency.use l key (value, listener)
    else (l ++ [(key, value, listener)]).drop (made - 1)
  | .get key => Recency.get l key
  | .remove key => Recency.remove l key
  | .clear => l.drop made
  | _ => l

variable {l : Recency K (V × Option Name)} {key : K} {old : V × Option Name}

theorem due_replace (capacity : Nat) (hkey : l.lookup key = some old) (value : V)
    (listener : Option Name) :
    due capacity l (.put key value listener) = [farewell (key, old), ⟨listener, .cached, key⟩] := by
  simp only [due, hkey]

theorem due_insert (capacity : Nat) (hkey : l.lookup key = none) (value : V) (listener : Option Name) :
    due capacity l (.put key value listener) = ⟨listener, .cached, key⟩
      :: ((l ++ [(key, value, listener)]).take (l.length + 1 - capacity)).map farewell := by
  simp only [due, hkey]

omit [DecidableEq K] in
/-- So many entries have to go when one is added. -/
theorem length_surplus (capacity : Nat) (l : Recency K (V × Option Name)) (e : K × V × Option Name) :
    ((l ++ [e]).take (l.length + 1 - capacity)).length = l.length + 1 - capacity := by
  rw [List.length_take, List.length_append, List.length_singleton, Nat.min_eq_left (Nat.sub_le _ _)]

/-- An insertion owes one call for the new value and one for each entry that has to go. -/
theorem length_due_insert (capacity : Nat) (hkey : l.lookup key = none) (value : V)
    (listener : Option Name) :
    (due capacity l (.put key value listener)).length = l.length + 1 - capacity + 1 := by
  rw [due_insert capacity hkey, List.length_cons, List.length_map, length_surplus]

theorem due_remove (capacity : Nat) (hkey : l.lookup key = some old) :
    due capacity l (.remove key) = [farewell (key, old)] := by
  simp only [due, hkey]
  rfl

theorem left_replace (hkey : l.lookup key = some old) (value : V) (listener : Option Name) (made : Nat) :
    left l made (.put key value listener) = Recency.use l key (value, listener) := by
  simp only [left, hkey, Option.isSome_some, if_true]

theorem left_insert (hkey : l.lookup key = none) (value : V) (listener : Option Name) (made : Nat) :
    left l made (.put key value listener) = (l ++ [(key, value, listener)]).drop (made - 1) := by
  simp only [left, hkey, Option.isSome_none, Bool.false_eq_true, if_false]

end Due

/-- The records of a listener's call and of the observer's directly after it. -/
def paired (observer : Option Name) (x : Call K) : List (Event K) :=
  [⟨.listener, x⟩, ⟨.observer, { x with who := observer }⟩]

/-- The records that the calls of listeners leave, where the observer's last call may be missing. -/
inductive Told (observer : Option Name) : List (Call K) → List (Event K) → Prop where
  | whole (calls : List (Call K)) : Told observer calls (calls.flatMap (paired observer))
  | cut (calls : List (Call K)) (x : Call K) :
    Told observer (calls ++ [x]) (calls.flatMap (paired observer) ++ [⟨.listener, x⟩])

/-- After calls that were recorded in full come further ones. -/
theorem Told.append {observer : Option Name} {later : List (Call K)} {events : List (Event K)}
    (h : Told observer later events) (calls : List (Call K)) :
    Told observer (calls ++ later) (calls.flatMap (paired observer) ++ events) := by
  cases h with
  | whole =>
    rw [← List.flatMap_append]
    exact .whole _
  | cut later x =>
    rw [← List.append_assoc, ← List.append_assoc, ← List.flatMap_append]
    exact .cut _ x

/-- An operation, begun with a certain observer and log, makes these calls and leaves these entries. If
it panics, it does so at the last of the calls. -/
structure Makes (capacity : Nat) (observer : Option Name) (log : List (Event K)) (calls : List (Call K))
    (l : Recency K (V × Option Name)) (ran : Op K V α) : Prop where
  holds : Holds capacity l ran.state
  observer_eq : ran.state.observer = observer
  told : ∃ events, Told observer calls events ∧ ran.state.log = log ++ events
  whole : ran.returned → ran.state.log = log ++ calls.flatMap (paired observer)
  panics : ∀ p, ran.result = .error p → ∃ x who, calls.getLast? = some x ∧ p = .armed who x.phase x.key

namespace Makes

variable {capacity : Nat} {observer : Option Name} {log : List (Event K)} {calls : List (Call K)}
  {l : Recency K (V × Option Name)} {c : Lru K V} {ran : Op K V α}

/-- An operation that only returns makes no calls. -/
theorem done (h : Holds capacity l c) (a : α) :
    Makes capacity c.observer c.log [] l (.done c a : Op K V α) :=
  ⟨h, rfl, ⟨[], .whole [], (List.append_nil _).symm⟩, fun _ => (List.append_nil _).symm,
    fun _ he => by cases he⟩

/-- After an operation that returned come the calls of the next one. -/
theorem andThen_of_ok (h : Makes capacity observer log calls l ran) {a : α}
    (hresult : ran.result = .ok a) {next : Lru K V → α → Op K V β} {later : List (Call K)}
    {l' : Recency K (V × Option Name)}
    (hnext : Makes capacity observer ran.state.log later l' (next ran.state a)) :
    Makes capacity observer log (calls ++ later) l' (ran.andThen next) := by
  have hwhole := h.whole (Ran.returned_of_ok hresult)
  obtain ⟨events, htold, hlog⟩ := hnext.told
  rw [Ran.andThen_of_ok hresult]
  refine ⟨hnext.holds, hnext.observer_eq, ⟨_, htold.append calls, ?_⟩, fun hreturned => ?_, fun p hp => ?_⟩
  · rw [hlog, hwhole, List.append_assoc]
  · rw [hnext.whole hreturned, hwhole, List.flatMap_append, List.append_assoc]
  · obtain ⟨x, who, hlast, he⟩ := hnext.panics p hp
    exact ⟨x, who, by rw [List.getLast?_append, hlast]; rfl, he⟩

/-- After an operation that panicked comes nothing. -/
theorem andThen_of_error (h : Makes capacity observer log calls l ran) {p : Panic K}
    (hresult : ran.result = .error p) (next : Lru K V → α → Op K V β) :
    Makes capacity observer log calls l (ran.andThen next) := by
  rw [Ran.andThen_of_error hresult]
  refine ⟨h.holds, h.observer_eq, h.told, fun hreturned => ?_, fun q hq => ?_⟩
  · cases hreturned
  · obtain rfl : p = q := by cases hq; rfl
    exact h.panics p hresult

/-- What only hands on a result makes no calls of its own. -/
theorem andThen_done (h : Makes capacity observer log calls l ran) (f : α → β) :
    Makes capacity observer log calls l (ran.andThen fun c a => .done c (f a)) := by
  cases hresult : ran.result with
  | error p => exact h.andThen_of_error hresult _
  | ok a =>
    have hlater := done h.holds (f a)
    rw [h.observer_eq] at hlater
    have hboth : Makes capacity observer log (calls ++ []) l (ran.andThen fun c a => .done c (f a)) :=
      h.andThen_of_ok hresult hlater
    rwa [List.append_nil] at hboth

end Makes

section Course

variable [DecidableEq K] {capacity : Nat} {c : Lru K V} {l : Recency K (V × Option Name)} {key : K}

/-- A hook call is recorded, and returns or panics with what it was told. -/
theorem notify_cases (c : Lru K V) (e : Event K) :
    ∃ alarms who, c.notify e = .done { c with alarms, log := c.log ++ [e] } ()
      ∨ c.notify e = ⟨{ c with alarms, log := c.log ++ [e] }, .error (.armed who e.call.phase e.call.key)⟩ := by
  unfold notify
  dsimp only
  split
  · exact ⟨c.alarms, "", .inl rfl⟩
  · exact ⟨_, _, .inr rfl⟩

/-- Telling of a transition makes one call and leaves the entries alone. -/
theorem Holds.announce (h : Holds capacity l c) (phase : Phase) (listener : Option Name) (key : K) :
    Makes capacity c.observer c.log [⟨listener, phase, key⟩] l (c.announce phase listener key) := by
  obtain ⟨alarms, who, hfirst | hfirst⟩ := notify_cases c ⟨.listener, listener, phase, key⟩
  · rw [Lru.announce, hfirst, Ran.done_andThen]
    obtain ⟨alarms', who', hsecond | hsecond⟩ := notify_cases
      { c with alarms, log := c.log ++ [⟨.listener, listener, phase, key⟩] }
      ⟨.observer, c.observer, phase, key⟩
    all_goals
      have hlog : c.log ++ [⟨.listener, listener, phase, key⟩] ++ [⟨.observer, c.observer, phase, key⟩]
          = c.log ++ [⟨listener, phase, key⟩].flatMap (paired c.observer) := List.append_assoc _ _ _
      rw [hsecond]
    · exact ⟨h.congr rfl rfl rfl, rfl, ⟨_, .whole _, hlog⟩, fun _ => hlog, fun _ he => by cases he⟩
    · refine ⟨h.congr rfl rfl rfl, rfl, ⟨_, .whole _, hlog⟩, fun _ => hlog, fun p he => ?_⟩
      cases he
      exact ⟨_, _, rfl, rfl⟩
  · rw [Lru.announce, hfirst, Ran.error_andThen]
    refine ⟨h.congr rfl rfl rfl, rfl, ⟨_, .cut [] _, rfl⟩, fun he => ?_, fun p he => ?_⟩
    · cases he
    · cases he
      exact ⟨_, _, rfl, rfl⟩

/-- Evicting takes out the first entry and makes the call that tells of it. -/
theorem Holds.evict {e : K × V × Option Name} (h : Holds capacity (e :: l) c) :
    Makes capacity c.observer c.log [farewell e] l c.evict := by
  obtain ⟨map, slab, hholds, hevict⟩ := h.evict_cons
  rw [hevict]
  exact ((hholds.announce .uncached e.2.2 e.1).andThen_done fun _ => e.2.1).andThen_done fun _ => ()

/-- Evicting while there are more entries than a bound, with fuel for each entry beyond it, takes out
entries from the front and makes the calls that tell of them, all of them if no panic stops it. -/
theorem Holds.evictWhile {condition : Lru K V → Bool} {bound fuel : Nat}
    (hcondition : ∀ (c : Lru K V) l, Holds capacity l c → (condition c ↔ bound < l.length))
    (h : Holds capacity l c) (hfuel : l.length ≤ bound + fuel) :
    ∃ gone ≤ l.length - bound,
      Makes capacity c.observer c.log ((l.take gone).map farewell) (l.drop gone)
          (evictWhile condition fuel c)
        ∧ ((evictWhile condition fuel c).returned → gone = l.length - bound) := by
  induction fuel generalizing c l with
  | zero =>
    refine ⟨0, Nat.zero_le _, .done h (), fun _ => ?_⟩
    omega
  | succ fuel ih =>
    rw [Lru.evictWhile]
    split
    · next hover =>
      have hlt := (hcondition c l h).mp hover
      obtain ⟨e, rest, rfl⟩ := List.exists_cons_of_length_pos (Nat.zero_lt_of_lt hlt)
      rw [List.length_cons] at hlt hfuel ⊢
      have hfirst := h.evict
      cases hresult : c.evict.result with
      | error p =>
        refine ⟨1, by omega, hfirst.andThen_of_error hresult _, fun hreturned => ?_⟩
        rw [Ran.andThen_of_error hresult] at hreturned
        cases hreturned
      | ok u =>
        obtain ⟨gone, hgone, hrest, hreturned⟩ := ih hfirst.holds (by omega)
        rw [hfirst.observer_eq] at hrest
        refine ⟨gone + 1, by omega, hfirst.andThen_of_ok hresult hrest, fun hdone => ?_⟩
        rw [Ran.andThen_of_ok hresult] at hdone
        have hall := hreturned hdone
        omega
    · next hover =>
      have hle := Nat.not_lt.mp ((hcondition c l h).not.mp hover)
      exact ⟨0, Nat.zero_le _, .done h (), fun _ => (Nat.sub_eq_zero_of_le hle).symm⟩

/-- The phase of the call at which a command panicked. -/
def Reply.panicPhase? : Reply K V → Option Phase
  | .panicked (.armed _ phase _) => some phase
  | _ => none

/-- A command has made so many of the calls it owes, and has left the entries that go with them. If it
panicked, it did so at the last of these calls. -/
structure Course (capacity : Nat) (l : Recency K (V × Option Name)) (command : Command K V) (c : Lru K V)
    (made : Nat) : Prop where
  made_le : made ≤ (due capacity l command).length
  holds : Holds capacity (left l made command) (c.step command).1
  observer_eq : (∀ name, command ≠ .setObserver name) → (c.step command).1.observer = c.observer
  told : ∃ events, Told c.observer ((due capacity l command).take made) events
    ∧ (c.step command).1.log = c.log ++ events
  returned : (c.step command).2.panicPhase? = none → made = (due capacity l command).length
    ∧ (c.step command).1.log = c.log ++ (due capacity l command).flatMap (paired c.observer)
  panicked : ∀ phase, (c.step command).2.panicPhase? = some phase →
    ∃ x, ((due capacity l command).take made).getLast? = some x ∧ x.phase = phase

/-- A command that is one operation takes the course of that operation. -/
theorem Makes.course {command : Command K V} {made : Nat} {ran : Op K V α} {reply : α → Reply K V}
    (h : Makes capacity c.observer c.log ((due capacity l command).take made) (left l made command) ran)
    (hmade : made ≤ (due capacity l command).length)
    (hreturned : ran.returned → made = (due capacity l command).length)
    (hstep : c.step command = answer ran reply) (hreply : ∀ a, (reply a).panicPhase? = none) :
    Course capacity l command c made := by
  have hphase : (answer ran reply).2.panicPhase? = none → ran.returned := fun hcalm => by
    cases hresult : ran.result with
    | ok a => exact Ran.returned_of_ok hresult
    | error p =>
      obtain ⟨x, who, -, rfl⟩ := h.panics p hresult
      simp only [answer, hresult, Reply.panicPhase?, reduceCtorEq] at hcalm
  refine ⟨hmade, hstep ▸ h.holds, fun _ => hstep ▸ h.observer_eq, hstep ▸ h.told, fun hcalm => ?_, fun phase hcut => ?_⟩
  · rw [hstep] at hcalm ⊢
    have hdone := hphase hcalm
    have hwhole := h.whole hdone
    rw [hreturned hdone, List.take_length] at hwhole
    exact ⟨hreturned hdone, hwhole⟩
  · rw [hstep] at hcut
    cases hresult : ran.result with
    | ok a => simp only [answer, hresult, hreply, reduceCtorEq] at hcut
    | error p =>
      obtain ⟨x, who, hlast, rfl⟩ := h.panics p hresult
      simp only [answer, hresult, Reply.panicPhase?, Option.some.injEq] at hcut
      exact ⟨x, hlast, hcut⟩

namespace Holds

/-- A command that owes no calls and leaves the log alone has taken its course. -/
theorem course_silent {command : Command K V} (hdue : due capacity l command = [])
    (hholds : Holds capacity (left l 0 command) (c.step command).1)
    (hobserver : (∀ name, command ≠ .setObserver name) → (c.step command).1.observer = c.observer)
    (hlog : (c.step command).1.log = c.log) (hreply : (c.step command).2.panicPhase? = none) :
    Course capacity l command c 0 := by
  have hsame : (c.step command).1.log = c.log ++ [] := by rw [hlog, List.append_nil]
  refine ⟨Nat.zero_le _, hholds, hobserver, ⟨[], .whole [], hsame⟩, fun _ => ?_, fun phase hcut => ?_⟩
  · rw [hdue]
    exact ⟨rfl, hsame⟩
  · rw [hreply] at hcut
    cases hcut

/-- Putting a key that is present first tells of the old value and then of the new one. -/
theorem course_replace (h : Holds capacity l c) {old : V × Option Name} (hkey : l.lookup key = some old)
    (value : V) (listener : Option Name) : ∃ made, Course capacity l (.put key value listener) c made := by
  obtain ⟨slab, hholds, hput⟩ := h.put_present hkey value listener
  have hstep : c.step (.put key value listener) = answer (c.put key value listener) .value := rfl
  have hdue := due_replace capacity hkey value listener
  have hfirst := hholds.announce .uncached old.2 key
  rw [hput] at hstep
  cases hresult : (Lru.announce { c with slab } .uncached old.2 key).result with
  | error p =>
    refine ⟨1, Makes.course ?_ (by simp [hdue]) ?_ hstep fun _ => rfl⟩
    · rw [hdue, left_replace hkey]
      exact hfirst.andThen_of_error hresult _
    · rw [Ran.andThen_of_error hresult]
      exact fun he => by cases he
  | ok u =>
    refine ⟨2, Makes.course ?_ (by rw [hdue]; rfl) (fun _ => by rw [hdue]; rfl) hstep fun _ => rfl⟩
    have hsecond := (hfirst.holds.announce .cached listener key).andThen_done fun _ => some old.1
    rw [hfirst.observer_eq] at hsecond
    rw [hdue, left_replace hkey]
    exact hfirst.andThen_of_ok hresult hsecond

/-- Putting a key that is absent first tells of its value and then of those that are evicted. -/
theorem course_insert (h : Holds capacity l c) (hkey : l.lookup key = none) (value : V)
    (listener : Option Name) : ∃ made, Course capacity l (.put key value listener) c made := by
  obtain ⟨map, slab, -, hholds, hput⟩ := h.put_absent hkey value listener
  have hstep : c.step (.put key value listener) = answer (c.put key value listener) .value := rfl
  have hlength := length_due_insert capacity hkey value listener
  have hfirst := hholds.announce .cached listener key
  rw [hput] at hstep
  cases hresult : (Lru.announce { c with map, slab } .cached listener key).result with
  | error p =>
    refine ⟨1, Makes.course ?_ (by omega) ?_ hstep fun _ => rfl⟩
    · rw [due_insert capacity hkey, left_insert hkey]
      exact hfirst.andThen_of_error hresult _
    · rw [Ran.andThen_of_error hresult]
      exact fun he => by cases he
  | ok u =>
    have hfuel : (l ++ [(key, value, listener)]).length
        ≤ capacity + (Lru.announce { c with map, slab } .cached listener key).state.size := by
      rw [hfirst.holds.length_eq]
      exact Nat.le_add_left _ _
    obtain ⟨gone, hgone, hevicts, hreturned⟩ :=
      hfirst.holds.evictWhile (fun _ _ h => h.isOverfull_iff) hfuel
    rw [List.length_append, List.length_singleton] at hgone hreturned
    rw [hfirst.observer_eq] at hevicts
    refine ⟨gone + 1, Makes.course ?_ (by omega) (fun hdone => ?_) hstep fun _ => rfl⟩
    · rw [due_insert capacity hkey, left_insert hkey, List.take_succ_cons, ← List.map_take,
        List.take_take, Nat.min_eq_left hgone]
      exact hfirst.andThen_of_ok hresult (hevicts.andThen_done fun _ => none)
    · rw [Ran.andThen_of_ok hresult] at hdone
      rw [hlength, hreturned (Ran.returned_of_andThen hdone)]

/-- Removing a key tells of its value, if it is present. -/
theorem course_remove (h : Holds capacity l c) (key : K) :
    ∃ made, Course capacity l (.remove key) c made := by
  have hstep : c.step (.remove key) = answer (c.remove key) .value := rfl
  cases hkey : l.lookup key with
  | none =>
    have hleft : left l 0 (.remove key) = l := Recency.remove_of_absent hkey
    rw [h.remove_absent hkey] at hstep
    exact ⟨0, course_silent (by simp only [due, hkey]; rfl) (by rw [hleft, hstep]; exact h)
      (fun _ => by rw [hstep]; rfl) (by rw [hstep]; rfl) (by rw [hstep]; rfl)⟩
  | some old =>
    obtain ⟨map, slab, hholds, hremove⟩ := h.remove_present hkey
    have hdue := due_remove capacity hkey
    rw [hremove] at hstep
    refine ⟨1, Makes.course ?_ (by rw [hdue]; rfl) (fun _ => by rw [hdue]; rfl) hstep fun _ => rfl⟩
    rw [hdue]
    exact ((hholds.announce .uncached old.2 key).andThen_done fun _ => old.1).andThen_done some

/-- Clearing tells of all entries in order. -/
theorem course_clear (h : Holds capacity l c) : ∃ made, Course capacity l .clear c made := by
  have hfuel : l.length ≤ 0 + c.slab.slots.length := by
    rw [Nat.zero_add]
    exact h.length_le_slots
  obtain ⟨gone, hgone, hevicts, hreturned⟩ := h.evictWhile (fun _ _ h => h.isSome_head_iff) hfuel
  have hdue : due capacity l (.clear : Command K V) = l.map farewell := rfl
  refine ⟨gone, Makes.course ?_ (by rw [hdue, List.length_map]; exact hgone)
    (fun hdone => by rw [hdue, List.length_map]; exact hreturned hdone)
    (rfl : c.step .clear = answer c.clear fun _ => .nothing) fun _ => rfl⟩
  rw [hdue, ← List.map_take]
  exact hevicts

/-- Reading a key owes no calls. -/
theorem course_get (h : Holds capacity l c) (key : K) : Course capacity l (.get key) c 0 := by
  have hstep : c.step (.get key) = answer (c.get key) .value := rfl
  cases hkey : l.lookup key with
  | none =>
    have hleft : left l 0 (.get key) = l := by simp only [left, Recency.get, hkey]
    rw [h.get_absent hkey] at hstep
    exact course_silent rfl (by rw [hleft, hstep]; exact h) (fun _ => by rw [hstep]; rfl)
      (by rw [hstep]; rfl) (by rw [hstep]; rfl)
  | some old =>
    have hleft : left l 0 (.get key) = Recency.use l key old := by simp only [left, Recency.get, hkey]
    obtain ⟨slab, hholds, hget⟩ := h.get_present hkey
    rw [hget] at hstep
    exact course_silent rfl (by rw [hleft, hstep]; exact hholds) (fun _ => by rw [hstep]; rfl)
      (by rw [hstep]; rfl) (by rw [hstep]; rfl)

/-- Every command makes some of the calls it owes, from the first one on, and leaves what goes with them. -/
theorem course (h : Holds capacity l c) (command : Command K V) :
    ∃ made, Course capacity l command c made := by
  cases command with
  | put key value listener =>
    cases hkey : l.lookup key with
    | none => exact h.course_insert hkey value listener
    | some old => exact h.course_replace hkey value listener
  | get key => exact ⟨0, h.course_get key⟩
  | remove key => exact h.course_remove key
  | clear => exact h.course_clear
  | peek | contains => exact ⟨0, course_silent rfl h (fun _ => rfl) rfl rfl⟩
  | arm => exact ⟨0, course_silent rfl (h.congr rfl rfl rfl) (fun _ => rfl) rfl rfl⟩
  | setObserver name =>
    exact ⟨0, course_silent rfl (h.congr rfl rfl rfl) (fun hne => absurd rfl (hne name)) rfl rfl⟩

end Holds

namespace Course

variable {command : Command K V} {made : Nat}

/-- A command that owes calls makes at least one. -/
theorem made_pos (h : Course capacity l command c made) (hdue : due capacity l command ≠ []) :
    0 < made := by
  rw [Nat.pos_iff_ne_zero]
  rintro rfl
  cases hphase : (c.step command).2.panicPhase? with
  | none => exact hdue (List.length_eq_zero_iff.mp (h.returned hphase).1.symm)
  | some phase =>
    obtain ⟨x, hx, -⟩ := h.panicked phase hphase
    cases hx

/-- A replacement returns when both calls are made, and else it panics at the last one made. -/
theorem replace_cases {old : V × Option Name} {value : V} {listener : Option Name}
    (h : Course capacity l (.put key value listener) c made) (hkey : l.lookup key = some old) :
    let phase? := (c.step (.put key value listener)).2.panicPhase?
    (made = 2 ∧ phase? ≠ some .uncached) ∨ (made = 1 ∧ phase? = some .uncached) := by
  intro phase?
  have hmade := h.made_le
  have hreturned := h.returned
  have hpanicked := h.panicked
  rw [due_replace capacity hkey] at hmade hreturned hpanicked
  cases hphase : phase? with
  | none => exact .inl ⟨(hreturned hphase).1, (Option.some_ne_none _).symm⟩
  | some phase =>
    obtain ⟨x, hx, rfl⟩ := hpanicked phase hphase
    rw [List.length_cons, List.length_singleton] at hmade
    obtain rfl | rfl | rfl : made = 0 ∨ made = 1 ∨ made = 2 := by omega
    · cases hx
    · cases hx
      exact .inr ⟨rfl, rfl⟩
    · cases hx
      exact .inl ⟨rfl, fun huncached => by cases huncached⟩

/-- An insertion returns when all calls are made, and else it panics at the last one made, which is for
the new value only if it is the first one. -/
theorem insert_cases {value : V} {listener : Option Name}
    (h : Course capacity l (.put key value listener) c made) (hkey : l.lookup key = none) :
    let phase? := (c.step (.put key value listener)).2.panicPhase?
    (made = l.length + 1 - capacity + 1 ∧ phase? = none) ∨ (made = 1 ∧ phase? = some .cached)
      ∨ (2 ≤ made ∧ phase? = some .uncached) := by
  intro phase?
  have hreturned := h.returned
  have hpanicked := h.panicked
  rw [length_due_insert capacity hkey] at hreturned
  rw [due_insert capacity hkey] at hpanicked
  cases hphase : phase? with
  | none => exact .inl ⟨(hreturned hphase).1, rfl⟩
  | some phase =>
    obtain ⟨x, hx, rfl⟩ := hpanicked phase hphase
    cases made using Nat.twoStepInduction with
    | zero => cases hx
    | one =>
      cases hx
      exact .inr (.inl ⟨rfl, rfl⟩)
    | more more =>
      have hmade := h.made_le
      rw [length_due_insert capacity hkey] at hmade
      -- something was evicted, so the last call is for an entry that left
      have hgone : ((l ++ [(key, value, listener)]).take (l.length + 1 - capacity)).take (more + 1) ≠ [] := by
        refine List.ne_nil_of_length_pos ?_
        rw [List.length_take, length_surplus]
        omega
      rw [List.take_succ_cons, ← List.map_take, List.getLast?_cons, List.getLast?_map,
        List.getLast?_eq_some_getLast hgone] at hx
      cases hx
      exact .inr (.inr ⟨Nat.le_add_left 2 more, rfl⟩)

end Course

end Course

/-- A command together with the cache that it met. -/
structure Occasion (K V : Type) where
  before : Lru K V
  command : Command K V

section Occasions

variable [DecidableEq K]

/-- The commands of a run with the caches that they met. -/
def occasions (c : Lru K V) : List (Command K V) → List (Occasion K V)
  | [] => []
  | command :: rest => ⟨c, command⟩ :: (c.step command).1.occasions rest

namespace Occasion

/-- The cache after the command. -/
def after (o : Occasion K V) : Lru K V := (o.before.step o.command).1

/-- The phase of the call at which the command panicked. -/
def panicPhase? (o : Occasion K V) : Option Phase := (o.before.step o.command).2.panicPhase?

/-- The command puts a key that is absent. -/
def inserts (o : Occasion K V) : Bool :=
  match o.command with
  | .put key _ _ => !o.before.contains key
  | _ => false

/-- An insertion is the put of a key without an entry. -/
theorem inserts_iff {o : Occasion K V} {capacity : Nat} (h : Holds capacity o.before.entries o.before) :
    o.inserts ↔ ∃ key value listener,
      o.command = .put key value listener ∧ o.before.entries.lookup key = none := by
  obtain ⟨c, command⟩ := o
  cases command with
  | put key value listener =>
    have hinserts : inserts ⟨c, .put key value listener⟩ = !(c.entries.lookup key).isSome := by
      rw [h.isSome_lookup]
      rfl
    rw [hinserts, Bool.not_eq_true', Option.isSome_eq_false_iff, Option.isNone_iff_eq_none]
    constructor
    · exact fun hkey => ⟨key, value, listener, rfl, hkey⟩
    · rintro ⟨_, _, _, hput, hkey⟩
      cases hput
      exact hkey
  | get | peek | contains | remove | clear | setObserver | arm => simp [inserts]

end Occasion

variable {capacity : Nat} {c : Lru K V} {commands : List (Command K V)}

/-- A cache that holds its entries does so after every command. -/
theorem Holds.step (h : Holds capacity c.entries c) (command : Command K V) :
    Holds capacity (c.step command).1.entries (c.step command).1 := by
  obtain ⟨made, hcourse⟩ := h.course command
  have hafter := hcourse.holds
  rwa [← hafter.entries] at hafter

/-- Every command of a run meets a cache that holds its entries. -/
theorem Holds.occasions (h : Holds capacity c.entries c) :
    ∀ o ∈ c.occasions commands, Holds capacity o.before.entries o.before := by
  induction commands generalizing c with
  | nil => exact List.forall_mem_nil _
  | cons command rest ih => exact List.forall_mem_cons.mpr ⟨h, ih (h.step command)⟩

/-- A run leads to a cache that holds its entries. -/
theorem Holds.run (h : Holds capacity c.entries c) (commands : List (Command K V)) :
    Holds capacity (c.run commands).entries (c.run commands) := by
  induction commands generalizing c with
  | nil => exact h
  | cons command rest ih => exact ih (h.step command)

end Occasions

end TimedCache.Lru
