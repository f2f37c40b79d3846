import TimedCache.Proofs.Store.Shares

/-!
# Clients on disjoint keys

Any number of clients call a new store in turn, in any order and with any clock readings, and no call
reaches a key that a call of another client is about. Then no client can tell that there are others, and
what they leave and what is counted is what they would leave and count alone, taken together.
-/

namespace TimedCache.Store

variable {V ι : Type} [DecidableEq ι]

/-- A new store at the given time, with a delegate if there is one. -/
def openedWith (delegate : Option Name) (t : WallTime) : Store V := { createdAt t with delegate }

/-- No call reaches a key that a call of another client is about. -/
def Apart (schedule : List (ι × Action V)) : Prop :=
  ∀ p ∈ schedule, ∀ q ∈ schedule, p.1 ≠ q.1 → ∀ key ∈ q.2.key?, p.2.reaches key = false

instance (schedule : List (ι × Action V)) : Decidable (Apart schedule) :=
  inferInstanceAs (Decidable (∀ p ∈ schedule, ∀ q ∈ schedule, p.1 ≠ q.1 → ∀ key ∈ q.2.key?, _))

/-- A call of the client is about the key. -/
def claims (schedule : List (ι × Action V)) (i : ι) (key : String) : Bool :=
  schedule.any fun p => p.1 = i && p.2.key? == some key

section Apart

variable {schedule : List (ι × Action V)}

theorem claims_iff {i : ι} {key : String} :
    claims schedule i key = true ↔ ∃ p ∈ schedule, p.1 = i ∧ p.2.key? = some key := by
  simp [claims]

/-- A call reaches the key that it is about. -/
theorem reaches_of_key? {a : Action V} {key : String} (h : a.key? = some key) : a.reaches key := by
  cases a with
  | put | get | uncache => exact Option.some.inj h ▸ beq_self_eq_true _
  | _ => cases h

/-- No two clients have calls about one key. -/
theorem Apart.eq_of_claims (h : Apart schedule) {i j : ι} {key : String}
    (hi : claims schedule i key) (hj : claims schedule j key) : i = j := by
  obtain ⟨p, hp, rfl, hkey⟩ := claims_iff.mp hi
  obtain ⟨q, hq, rfl, hkey'⟩ := claims_iff.mp hj
  by_contra hne
  have hout := h p hp q hq hne key hkey'
  rw [reaches_of_key? hkey] at hout
  cases hout

/-- Every client keeps to the keys that its calls are about. -/
theorem Apart.keepsTo (h : Apart schedule) {p : ι × Action V} (hp : p ∈ schedule) (hcall : p.2.isCall) :
    KeepsTo (claims schedule) p.1 p.2 := by
  refine ⟨hcall, fun key hkey => claims_iff.mpr ⟨p, hp, rfl, hkey⟩, fun j hj key hclaims => ?_⟩
  obtain ⟨q, hq, rfl, hkey⟩ := claims_iff.mp hclaims
  exact h p hp q hq (Ne.symm hj) key hkey

end Apart

/-- A counter shows how often something happened that can happen once in a call, and that happens in
occasions alike or in neither. -/
structure Shows (counter : Stats → Nat) (happened : Occasion V → Nat) : Prop where
  counted : ∀ {past : List (Occasion V)} {s : Store V}, Tally past s →
    counter s.stats = Word.wrap (past.map happened).sum
  alike : ∀ o o' : Occasion V, o.Alike o' → happened o = happened o'
  once : ∀ {o : Occasion V}, o.action.isCall → happened o ≤ 1

section Counters

/-- The number of occasions of a kind, as a sum. -/
theorem countP_eq_sum (kind : Occasion V → Bool) (past : List (Occasion V)) :
    past.countP kind = (past.map fun o => (kind o).toNat).sum := by
  induction past with
  | nil => rfl
  | cons o rest ih =>
    rw [List.countP_cons, List.map_cons, List.sum_cons, ih, Nat.add_comm]
    cases kind o <;> rfl

theorem shows_puts : Shows Stats.puts fun o : Occasion V => o.isPut.toNat where
  counted h := h.puts.trans (congrArg _ (countP_eq_sum _ _))
  alike _ _ h := by simp only [Occasion.isPut, h.action]
  once _ := Bool.toNat_le _

theorem shows_hits : Shows Stats.hits fun o : Occasion V => o.isHit.toNat where
  counted h := h.hits.trans (congrArg _ (countP_eq_sum _ _))
  alike _ _ h := by rw [h.hit]
  once _ := Bool.toNat_le _

theorem shows_misses : Shows Stats.misses fun o : Occasion V => (o.isGet && !o.isHit).toNat where
  counted h := h.misses.trans (congrArg _ (countP_eq_sum _ _))
  alike _ _ h := by simp only [Occasion.isGet, h.action, h.hit]
  once _ := Bool.toNat_le _

theorem shows_expirations : Shows Stats.expirations (Occasion.expired : Occasion V → Nat) where
  counted h := h.expirations
  alike _ _ h := h.expired
  once {o} ho := by
    have hswept : o.swept = 0 := by
      obtain ⟨s, a⟩ := o
      cases a with
      | sweep t => cases ho
      | _ => rfl
    rw [Occasion.expired, hswept, Nat.zero_add]
    exact Bool.toNat_le _

namespace Shows

variable {counter : Stats → Nat} {happened : Occasion V → Nat}

/-- It does not happen more often than there are calls. -/
theorem sum_le (h : Shows counter happened) (s : Store V) {script : List (Action V)}
    (hscript : ∀ a ∈ script, a.isCall) : ((s.history script).map happened).sum ≤ script.length := by
  induction script generalizing s with
  | nil => exact Nat.le_refl 0
  | cons a rest ih =>
    obtain ⟨ha, hrest⟩ := List.forall_mem_cons.mp hscript
    have hfirst : happened ⟨s, a⟩ ≤ 1 := h.once ha
    have hlater := ih (s.act a) hrest
    rw [history, List.map_cons, List.sum_cons, List.length_cons]
    omega

variable [Fintype ι]

/-- What happened to all clients together is what happened to each of them. -/
theorem sum_history (h : Shows counter happened) {s : Store V} {schedule : List (ι × Action V)}
    (halike : ∀ i, List.Forall₂ Occasion.Alike (ofClient i (s.calls schedule))
      (s.history (ofClient i schedule))) :
    ((s.history (schedule.map Prod.snd)).map happened).sum
      = ∑ i, ((s.history (ofClient i schedule)).map happened).sum := by
  have hunique : ∀ p ∈ s.calls schedule, ∃! i, decide (p.1 = i) = true := fun p _ =>
    ⟨p.1, decide_eq_true rfl, fun i hi => (of_decide_eq_true hi).symm⟩
  rw [← map_snd_calls, List.map_map, sum_filter _ _ hunique]
  refine Finset.sum_congr rfl fun i _ => ?_
  rw [← Occasion.map_eq_of_alike h.alike (halike i), ofClient, List.map_map]

/-- A counter of a store that clients share shows the sum of what it would show for each of them alone,
as a word, and exactly so while a word can count the calls. -/
theorem sums_up (h : Shows counter happened) {s : Store V} (hs : s.Calm) (hnew : Tally [] s)
    {schedule : List (ι × Action V)} (hcalls : ∀ p ∈ schedule, p.2.isCall)
    (halike : ∀ i, List.Forall₂ Occasion.Alike (ofClient i (s.calls schedule))
      (s.history (ofClient i schedule))) :
    counter (s.follow (schedule.map Prod.snd)).stats
        = Word.wrap (∑ i, counter (s.follow (ofClient i schedule)).stats)
      ∧ (schedule.length < Word.bound → counter (s.follow (schedule.map Prod.snd)).stats
        = ∑ i, counter (s.follow (ofClient i schedule)).stats) := by
  let total (script : List (Action V)) : Nat := ((s.history script).map happened).sum
  have hcounted {script : List (Action V)} (hscript : ∀ a ∈ script, a.isCall) :
      counter (s.follow script).stats = Word.wrap (total script) :=
    h.counted (hnew.follow (hs.history_returned hscript))
  have hall : ∀ a ∈ schedule.map Prod.snd, a.isCall := List.forall_mem_map.mpr hcalls
  have hown (i : ι) : ∀ a ∈ ofClient i schedule, a.isCall :=
    List.forall_mem_map.mpr fun p hp => hcalls p (List.mem_filter.mp hp).1
  have hsum : total (schedule.map Prod.snd) = ∑ i, total (ofClient i schedule) := h.sum_history halike
  refine ⟨?_, fun hshort => ?_⟩
  · rw [hcounted hall, hsum, Finset.sum_congr rfl fun i _ => hcounted (hown i)]
    exact Finset.sum_nat_mod _ _ _
  · have hexact {script : List (Action V)} (hscript : ∀ a ∈ script, a.isCall)
        (hlength : script.length ≤ schedule.length) : counter (s.follow script).stats = total script := by
      have hle : total script ≤ script.length := h.sum_le s hscript
      rw [hcounted hscript, Word.wrap_of_lt (by omega)]
    have hlength (i : ι) : (ofClient i schedule).length ≤ schedule.length := by
      rw [ofClient, List.length_map]
      exact List.length_filter_le _ _
    rw [hexact hall (List.length_map _).le, hsum]
    exact Finset.sum_congr rfl fun i _ => (hexact (hown i) (hlength i)).symm

end Shows

end Counters

/-- The entries in a store that clients share are those in their shares. -/
theorem entries_eq_sum [Fintype ι] {owns : ι → String → Bool} {s : Store V} {mine : ι → Store V}
    (hshares : ∀ i, Share (owns i) s (mine i)) (howned : ∀ key ∈ s.keys, ∃ i, owns i key)
    (hunique : ∀ i j key, owns i key → owns j key → i = j) :
    (s.entries : Multiset (String × Entry V)) = ∑ i, ((mine i).entries : Multiset (String × Entry V)) := by
  have hcoe (l : List (String × Entry V)) :
      (l : Multiset (String × Entry V)) = (l.map fun p => ({p} : Multiset (String × Entry V))).sum := by
    induction l with
    | nil => rfl
    | cons p rest ih => rw [List.map_cons, List.sum_cons, ← ih]; rfl
  have howner : ∀ p ∈ s.entries, ∃! i, owns i p.1 = true := fun p hp => by
    obtain ⟨i, hi⟩ := howned p.1 (List.mem_map_of_mem hp)
    exact ⟨i, hi, fun j hj => hunique j i p.1 hj hi⟩
  rw [hcoe, sum_filter _ (fun i p => owns i p.1) howner]
  refine Finset.sum_congr rfl fun i _ => ?_
  rw [(hshares i).entries, ← hcoe]

/-- If no call reaches a key that a call of another client is about, the clients of a new store do not
notice each other, whatever the order of their calls and the readings of their clocks: every call is
answered as it would be if its client had a store of its own. The entries in the store are those in the
own stores together, and the counters show the sums of what theirs show. -/
theorem clients_do_not_interfere [Fintype ι] (delegate : Option Name) (t : WallTime)
    {schedule : List (ι × Action V)} (hcalls : ∀ p ∈ schedule, p.2.isCall) (hapart : Apart schedule) :
    let start : Store V := openedWith delegate t
    let shared := start.follow (schedule.map Prod.snd)
    let alone (i : ι) := start.follow (ofClient i schedule)
    (∀ i, (ofClient i (start.calls schedule)).map Occasion.answer
        = (start.history (ofClient i schedule)).map Occasion.answer)
      ∧ (shared.entries : Multiset (String × Entry V))
        = ∑ i, ((alone i).entries : Multiset (String × Entry V))
      ∧ ∀ counter ∈ [Stats.puts, Stats.hits, Stats.misses, Stats.expirations],
        counter shared.stats = Word.wrap (∑ i, counter (alone i).stats)
        ∧ (schedule.length < Word.bound → counter shared.stats = ∑ i, counter (alone i).stats) := by
  intro start shared alone
  have hcalm : start.Calm := ⟨rfl, List.nodup_nil, rfl, Nat.le_refl _⟩
  have hnew : Tally [] start := ⟨hcalm, rfl, rfl, rfl, rfl, rfl, rfl⟩
  have hnone : start.OwnsAll := fun _ hp => by cases hp
  have hfollow (i : ι) : Share (claims schedule i) shared (alone i)
      ∧ List.Forall₂ Occasion.Alike (ofClient i (start.calls schedule))
        (start.history (ofClient i schedule)) :=
    Share.follow ⟨hcalm, hnone, hcalm, rfl⟩ (fun _ hkey => by cases hkey)
      fun p hp => hapart.keepsTo hp (hcalls p hp)
  refine ⟨fun i => ?_, entries_eq_sum (fun i => (hfollow i).1) (fun key hkey => ?_)
    fun i j key => hapart.eq_of_claims, ?_⟩
  · exact Occasion.map_eq_of_alike (fun _ _ h => h.answer) (hfollow i).2
  · obtain hbefore | ⟨a, ha, hnamed⟩ :=
      hcalm.follow_keys hnone (List.forall_mem_map.mpr hcalls) hkey
    · cases hbefore
    · obtain ⟨p, hp, rfl⟩ := List.mem_map.mp ha
      exact ⟨p.1, claims_iff.mpr ⟨p, hp, rfl, hnamed⟩⟩
  · have halike (i : ι) := (hfollow i).2
    simp only [List.forall_mem_cons]
    exact ⟨shows_puts.sums_up hcalm hnew hcalls halike, shows_hits.sums_up hcalm hnew hcalls halike,
      shows_misses.sums_up hcalm hnew hcalls halike, shows_expirations.sums_up hcalm hnew hcalls halike,
      fun _ h => by cases h⟩

/-- One client's entries expire or are removed by prefix, and the other one's stay, though its clock is
behind. -/
def twoClients : List (Bool × Action Nat) :=
  [(false, .put 0 "a/x" (.timed (.create 0 "a/x" (.strong ⟨0, 10⟩) (.ofSeconds 1)))),
    (true, .put 9000 "b" (.timed { TimedEntry.create 9000 "b" (.strong ⟨1, 20⟩) (.ofSeconds 1) with
      listener := some "l" })),
    (false, .put 10 "a/y" (.timed (.create 10 "a/y" (.strong ⟨2, 30⟩) (.ofSeconds 0)))),
    (true, .get 5 "b"), (false, .get 5000 "a/x"), (true, .uncache 3 "c"), (false, .uncacheLike 20 "a/"),
    (true, .get 0 "c")]

/-- One entry is left, that of the second client, and one has expired, of the first client. -/
theorem clients_do_not_interfere_expiring :
    let start : Store Nat := openedWith (some "d") 0
    let shared := start.follow (twoClients.map Prod.snd)
    shared.keys = ["b"] ∧ shared.stats.expirations = 1
      ∧ shared.stats.expirations = ∑ i, (start.follow (ofClient i twoClients)).stats.expirations
      ∧ (ofClient true (start.calls twoClients)).map Occasion.answer
        = (start.history (ofClient true twoClients)).map Occasion.answer := by
  have hcalls : ∀ p ∈ twoClients, p.2.isCall := by decide
  have hapart : Apart twoClients := by decide +kernel
  obtain ⟨hanswers, -, hcounters⟩ := clients_do_not_interfere (some "d") 0 hcalls hapart
  obtain ⟨-, hexact⟩ := hcounters Stats.expirations (by simp)
  exact ⟨by decide +kernel, by decide +kernel, hexact (by decide), hanswers true⟩

end TimedCache.Store
