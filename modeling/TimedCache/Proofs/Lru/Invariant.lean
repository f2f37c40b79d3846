import TimedCache.Proofs.Lru.Consistency

/-!
# Runs with panicking hooks keep a bounded cache consistent

Whatever commands are carried out and at whichever calls hooks panic, the cache stays
consistent: its map, its slots, the stack of vacant slots and the links agree. No
operation ever meets a vacant slot, so the only panics are those of hooks. Slots are only
added when none is vacant, so there are as many as the cache ever held entries at one
moment.
-/

namespace TimedCache.Lru

variable {K V α β : Type}

/-- Each command carried out, by the cache and the answer it leaves. -/
def history [DecidableEq K] (c : Lru K V) : List (Command K V) → List (Lru K V × Reply K V)
  | [] => []
  | command :: rest => c.step command :: (c.step command).1.history rest

/-- The most entries that a cache holds at one moment of a command: a new key is added
before older ones are evicted for it, and all else only removes entries. -/
def crest [DecidableEq K] (c : Lru K V) : Command K V → Nat
  | .put key value listener =>
    if c.contains key then c.size else ((c.inserted? key value listener).getD c).size
  | _ => c.size

/-- The most entries that a cache holds at one moment of a run. -/
def peak [DecidableEq K] (c : Lru K V) : List (Command K V) → Nat
  | [] => c.size
  | command :: rest => max (c.crest command) ((c.step command).1.peak rest)

/-- However an operation ends, it leaves a cache of a kind, and it met no vacant slot. -/
structure Keeps (P : Lru K V → Prop) (ran : Op K V α) : Prop where
  state : P ran.state
  intact : ∀ i, ran.result ≠ .error (.vacantSlot i)

/-- The cache is consistent and has a certain number of slots. -/
def Sound (slots : Nat) (c : Lru K V) : Prop :=
  ∃ order, c.Consistent order ∧ c.slab.slots.length = slots

variable {P : Lru K V → Prop} {c : Lru K V} {slots : Nat}

theorem Keeps.done {a : α} (h : P c) : Keeps P (.done c a) :=
  ⟨h, fun _ he => by cases he⟩

/-- Operations one after the other keep what each of them keeps. -/
theorem Keeps.andThen {ran : Op K V α} {next : Lru K V → α → Op K V β} (h : Keeps P ran)
    (hnext : ∀ c a, P c → Keeps P (next c a)) : Keeps P (ran.andThen next) := by
  obtain ⟨c, result⟩ := ran
  cases result with
  | ok a => exact hnext c a h.state
  | error p => exact ⟨h.state, fun i he => h.intact i (by cases he; rfl)⟩

theorem Sound.congr {c' : Lru K V} (h : Sound slots c) (hmap : c'.map = c.map)
    (hslab : c'.slab = c.slab) : Sound slots c' := by
  obtain ⟨order, hc, hlength⟩ := h
  exact ⟨order, hc.congr hmap hslab, hslab ▸ hlength⟩

/-- There are slots for all entries. -/
theorem Sound.size_le (h : Sound slots c) : c.size ≤ slots := by
  obtain ⟨order, hc, hlength⟩ := h
  exact hlength ▸ hc.size_le_slots

/-- Answering keeps what the operation keeps, and passes its panics on. -/
theorem Keeps.answer {ran : Op K V α} (h : Keeps P ran) {reply : α → Reply K V}
    (hreply : ∀ a p, reply a ≠ .panicked p) :
    P (answer ran reply).1 ∧ ∀ i, (answer ran reply).2 ≠ .panicked (.vacantSlot i) := by
  refine ⟨h.state, fun i he => ?_⟩
  rw [Lru.answer] at he
  dsimp only at he
  split at he
  · exact hreply _ _ he
  · rename_i p hp
    exact h.intact i (by rw [hp, Reply.panicked.inj he])

variable [DecidableEq K]

/-- A hook that panics does not do so because of a vacant slot. -/
theorem notify_intact (c : Lru K V) (e : Event K) (i : Nat) :
    (c.notify e).result ≠ .error (.vacantSlot i) := by
  unfold notify
  dsimp only
  split <;> intro he <;> cases he

/-- Telling of a transition keeps what does not depend on alarms and records. -/
theorem Keeps.announce (hP : ∀ (c : Lru K V) alarms log, P c → P { c with alarms, log }) (h : P c)
    (phase : Phase) (listener : Option Name) (key : K) : Keeps P (c.announce phase listener key) := by
  have hnotify {c : Lru K V} (h : P c) (e : Event K) : Keeps P (c.notify e) := by
    obtain ⟨alarms, log, hs⟩ := notify_state c e
    exact ⟨hs ▸ hP c alarms log h, notify_intact c e⟩
  exact (hnotify h _).andThen fun c _ hc => hnotify hc _

/-- Telling of a transition keeps the cache sound. -/
theorem Sound.announce (h : Sound slots c) (phase : Phase) (listener : Option Name) (key : K) :
    Keeps (Sound slots) (c.announce phase listener key) :=
  Keeps.announce (fun _ _ _ hc => hc.congr rfl rfl) h phase listener key

/-- Evicting keeps the cache sound. -/
theorem Sound.evict (h : Sound slots c) : Keeps (Sound slots) c.evict := by
  obtain ⟨order, hc, hlength⟩ := h
  cases order with
  | nil =>
    rw [hc.evict_nil]
    exact .done ⟨[], hc, hlength⟩
  | cons i ys =>
    obtain ⟨n, hn⟩ := hc.tidy.mem_iff.mp List.mem_cons_self
    have hfront : c.Consistent ([] ++ i :: ys) := hc
    obtain ⟨slab, hrelease, hc', -, hlength'⟩ := hfront.release_eq hn
    rw [hc.evict_eq hn, hrelease]
    refine ((Sound.announce ⟨ys, hc', hlength'.trans hlength⟩ _ _ _).andThen fun c _ hc => ?_).andThen
      fun c _ hc => .done hc
    exact .done hc

/-- Evicting again and again keeps the cache sound, for any condition and bound. -/
theorem Sound.evictWhile (condition : Lru K V → Bool) (fuel : Nat) (h : Sound slots c) :
    Keeps (Sound slots) (evictWhile condition fuel c) := by
  induction fuel generalizing c with
  | zero => exact .done h
  | succ fuel ih =>
    rw [Lru.evictWhile]
    split
    · exact h.evict.andThen fun c _ hc => ih hc
    · exact .done h

/-- Removing a key keeps the cache sound. -/
theorem Sound.remove (h : Sound slots c) (key : K) : Keeps (Sound slots) (c.remove key) := by
  obtain ⟨order, hc, hlength⟩ := h
  cases hkey : c.map.lookup key with
  | none =>
    rw [Lru.remove, hkey]
    exact .done ⟨order, hc, hlength⟩
  | some i =>
    obtain ⟨xs, ys, n, rfl, hn, rfl⟩ := hc.exists_split hkey
    obtain ⟨slab, hrelease, hc', -, hlength'⟩ := hc.release_eq hn
    rw [hc.remove_eq hn, hrelease]
    refine ((Sound.announce ⟨_, hc', hlength'.trans hlength⟩ _ _ _).andThen fun c _ hc => ?_).andThen
      fun c _ hc => .done hc
    exact .done hc

/-- Reading a key keeps the cache sound. -/
theorem Sound.get (h : Sound slots c) (key : K) : Keeps (Sound slots) (c.get key) := by
  obtain ⟨order, hc, hlength⟩ := h
  cases hkey : c.map.lookup key with
  | none =>
    rw [Lru.get, hkey]
    exact .done ⟨order, hc, hlength⟩
  | some i =>
    obtain ⟨xs, ys, n, rfl, hn, rfl⟩ := hc.exists_split hkey
    obtain ⟨slab, hget, hc', hrel⟩ := hc.get_eq hn
    rw [hget]
    exact .done ⟨_, hc', hrel.length.trans hlength⟩

/-- Putting a key leaves the cache sound, with a slot more if it held an entry in each. -/
theorem Sound.put (h : Sound slots c) (key : K) (value : V) (listener : Option Name) :
    Keeps (Sound (max slots (c.crest (.put key value listener)))) (c.put key value listener) := by
  have hsize := h.size_le
  obtain ⟨order, hc, hlength⟩ := h
  cases hkey : c.map.lookup key with
  | some i =>
    obtain ⟨xs, ys, n, rfl, hn, rfl⟩ := hc.exists_split hkey
    obtain ⟨slab, hreplace, hc', -, hlength'⟩ := hc.replace_eq hn value listener
    have hcrest : max slots (c.crest (.put n.key value listener)) = slots := by
      simp [crest, contains, hkey, hsize]
    rw [hcrest, Lru.put, hkey]
    change Keeps _ (c.replace i n.key value listener)
    rw [hreplace]
    exact (Sound.announce ⟨_, hc', hlength'.trans hlength⟩ _ _ _).andThen fun c _ hc =>
      (hc.announce _ _ _).andThen fun c _ hc => .done hc
  | none =>
    obtain ⟨slab, i, hinserted, hinsert, hc', -, hlength'⟩ := hc.insertNew_eq hkey value listener
    have hcrest : c.crest (.put key value listener) = c.size + 1 := by
      simp [crest, contains, hkey, hinserted, size]
    rw [hcrest, Lru.put, hkey]
    change Keeps _ (c.insertNew key value listener)
    rw [hinsert]
    exact (Sound.announce ⟨_, hc', by rw [← hlength]; exact hlength'⟩ _ _ _).andThen fun c _ hc =>
      (hc.evictWhile isOverfull c.size).andThen fun c _ hc => .done hc

/-- A command keeps the cache sound, with as many slots as its crest demands. -/
theorem Sound.step (h : Sound slots c) (command : Command K V) :
    Sound (max slots (c.crest command)) (c.step command).1 ∧
      ∀ i, (c.step command).2 ≠ .panicked (.vacantSlot i) := by
  have h' : Sound (max slots c.size) c := by rwa [Nat.max_eq_left h.size_le]
  cases command with
  | put key value listener => exact (h.put key value listener).answer fun _ _ he => by cases he
  | get key => exact (h'.get key).answer fun _ _ he => by cases he
  | remove key => exact (h'.remove key).answer fun _ _ he => by cases he
  | clear => exact (h'.evictWhile _ _).answer fun _ _ he => by cases he
  | peek key => exact ⟨h', fun _ he => by cases he⟩
  | contains key => exact ⟨h', fun _ he => by cases he⟩
  | setObserver name => exact ⟨h'.congr rfl rfl, fun _ he => by cases he⟩
  | arm alarm => exact ⟨h'.congr rfl rfl, fun _ he => by cases he⟩

/-- A run keeps the cache sound, and no command of it meets a vacant slot. -/
theorem Sound.run (h : Sound slots c) (commands : List (Command K V)) :
    Sound (max slots (c.peak commands)) (c.run commands) ∧
      ∀ answered ∈ c.history commands, ∀ i, answered.2 ≠ .panicked (.vacantSlot i) := by
  induction commands generalizing c slots with
  | nil => exact ⟨by rwa [peak, Nat.max_eq_left h.size_le], by simp [history]⟩
  | cons command rest ih =>
    obtain ⟨hstep, hintact⟩ := h.step command
    obtain ⟨hrun, hrest⟩ := ih hstep
    refine ⟨by rw [peak, ← max_assoc]; exact hrun, fun answered hmem => ?_⟩
    rcases List.mem_cons.mp hmem with rfl | hmem
    · exact hintact
    · exact hrest answered hmem

/-- After any run, whichever hooks panicked in it, the links spell all occupied slots, the map
sends their keys to them, every other slot is on the stack of vacant ones, and there are as
many slots as there ever were entries at one moment. All slot numbers in use are valid, the
walk along the chain misses no node, and no command met a vacant slot. -/
theorem run_consistent (capacity : Nat) (commands : List (Command K V)) :
    let c := (empty capacity).run commands
    ∃ order, c.Consistent order ∧ c.slab.chain.map some = order.map c.slab.node? ∧
      c.slab.slots.length = c.map.length + c.slab.free.length ∧
      c.slab.slots.length = (empty capacity).peak commands ∧
      (∀ i ∈ order ++ c.slab.free ++ c.map.map Prod.snd, i < c.slab.slots.length) ∧
      ∀ answered ∈ (empty capacity).history commands, ∀ i, answered.2 ≠ .panicked (.vacantSlot i) := by
  intro c
  have hempty : Sound 0 (empty capacity : Lru K V) := ⟨[], consistent_empty capacity, rfl⟩
  obtain ⟨⟨order, hc, hlength⟩, hintact⟩ := hempty.run commands
  refine ⟨order, hc, hc.tidy.chain, hc.length_eq, by simpa using hlength, fun i hi => ?_, hintact⟩
  have hslots : i ∈ order ++ c.slab.free := by
    rcases List.mem_append.mp hi with hi | hi
    · exact hi
    · exact List.mem_append_left _ (hc.perm.mem_iff.mp hi)
  exact List.mem_range.mp (hc.tidy.perm.mem_iff.mp hslots)

end TimedCache.Lru
