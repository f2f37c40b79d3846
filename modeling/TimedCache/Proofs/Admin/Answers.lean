import TimedCache.Proofs.Admin.Turns

/-!
# What a request for a key answers

After any requests, whatever time passed between them, a request for a key is answered with the value
that was submitted for it last, unless the key was removed since, or the cache was emptied, or the
lifetime of the value is over. All of that can be told by the requests, by when they came, by their
answers, and by the sweeper.
-/

namespace TimedCache.Admin.App

variable {app : App} {r : Request} {segment key : String}

/-- A request for a key comes to a look-up of that key. -/
theorem demand_of_get (hmethod : r.method = .get)
    (hroute : Route.ofTarget? r.target = some (.get segment))
    (hkey : Text.Percent.decode? segment = some key) : r.demand? = some (.get key) := by
  have hserves : (Route.get segment).serves r.method := by
    rw [hmethod]
    rfl
  rw [Request.demand?, hroute, Option.filter_some_pos (p := (Route.serves · r.method)) hserves,
    Option.bind_some, Route.demand?, hkey, Option.map_some]

/-- A value in an answer is the one that is told. -/
theorem value_inj {value value' : String}
    (h : Answer.success (.value key value) = .success (.value key value')) : value = value' := by
  simpa [Answer.success, Answer.json, Outcome.body] using h

/-- A request for a key is answered with the value of an entry that is under the key and not over, and
otherwise that the key is unknown. -/
theorem serve_get (hs : app.cache.store.Calm) (htimed : app.cache.store.AllTimed)
    (hmethod : r.method = .get) (hdemand : r.demand? = some (.get key)) :
    (∀ value, (app.serve r).result = .ok (.success (.value key value))
      ↔ ∃ e cell, app.cache.store.Holds key e
        ∧ ¬ e.IsOver (app.cache.store.moment []) app.cache.wall.stamp
        ∧ e.holder.resolve (app.cache.store.moment []) = some cell ∧ cell.value = value)
    ∧ ((∀ value, (app.serve r).result ≠ .ok (.success (.value key value))) →
      (app.serve r).result = .ok (.fault (.notFound key))) := by
  have hwhole (a : Answer) : r.present a = a := if_neg (by simp [hmethod])
  have hfound := (app.cache.touching_result fun s t => s.get t key).trans (hs.get_result app.cache.wall key)
  have hresult : (app.serve r).result = (app.get key).result.map r.present :=
    (serve_of_demand app hdemand).2
  rw [get, onCache, Cache.get, hfound, Except.map, Except.map, hwhole] at hresult
  -- what is found decides the answer
  have hiff (cell : Cell String) : _ ↔ ∃ e, app.cache.store.Holds key e
      ∧ ¬ e.IsOver (app.cache.store.moment []) app.cache.wall.stamp
      ∧ e.holder.resolve (app.cache.store.moment []) = some cell := htimed.found_iff
  rw [hresult]
  generalize ((app.cache.store.find? key).filter (Entry.isLive (app.cache.store.moment [])
    app.cache.wall.stamp)).bind (Entry.cell (app.cache.store.moment [])) = found at hiff ⊢
  cases found with
  | none =>
    refine ⟨fun value => iff_of_false (fun h => ?_) ?_, fun _ => rfl⟩
    · exact absurd (congrArg Answer.status (Except.ok.inj h)) (by decide : ¬ 404 = 200)
    · rintro ⟨e, cell, hheld, hserved, hcell, -⟩
      cases (hiff cell).mpr ⟨e, hheld, hserved, hcell⟩
  | some cell =>
    refine ⟨fun value => ⟨fun h => ?_, ?_⟩, fun h => absurd rfl (h cell.value)⟩
    · obtain ⟨e, hheld, hserved, hcell⟩ := (hiff cell).mp rfl
      exact ⟨e, cell, hheld, hserved, hcell, value_inj (Except.ok.inj h)⟩
    · rintro ⟨e, other, hheld, hserved, hcell, rfl⟩
      cases (hiff other).mpr ⟨e, hheld, hserved, hcell⟩
      rfl

/-- The entry that is made of a submitted value endures as long as its lifetime is not over. -/
theorem entryFor_endures_iff {record : SetRequest} {last : Int}
    (hlifetime : 1000 * record.ttl.getD app.defaultTtl < Word.bound) (hfrom : 0 ≤ app.cache.wall)
    (hto : app.cache.wall ≤ last) (hbound : last < Word.bound) : (app.entryFor record).Endures last
      ↔ record.ttl.getD app.defaultTtl = 0
        ∨ last ≤ app.cache.wall + 1000 * (record.ttl.getD app.defaultTtl : Nat) := by
  have hnow : (app.cache.wall.stamp : Int) = app.cache.wall := by
    rw [WallTime.stamp_eq_toNat (Int.lt_of_le_of_lt hto hbound)]
    exact Int.toNat_of_nonneg hfrom
  rw [TimedEntry.endures_iff rfl (Int.le_trans hfrom hto) hbound]
  refine (le_expiryOf_iff hlifetime (Int.le_trans hfrom hto) hbound).trans ?_
  rw [hnow]

/-- After any events of a new interface, a request for a key is answered with a value exactly if that is
the one that was submitted for the key last, with an answer of success, and since then the key was not
removed by itself or with a prefix, no sweeper has retired, the cache was not closed, and its lifetime
in seconds is not over, a lifetime of zero never being so. Otherwise it is answered that the key is
unknown. -/
theorem get_answers_latest (settings : Settings) (hosted : Bool) (host : Host) {wall : WallTime}
    (sender : Option Sender) (defaultTtl : Nat) (events : List Event) (hfrom : 0 ≤ wall)
    (hbound : ((opened settings hosted host wall sender defaultTtl).run events).cache.wall < Word.bound)
    (hlifetimes : ∀ o ∈ (opened settings hosted host wall sender defaultTtl).history events,
      ∀ key value ttl, o.Stores key value ttl → 1000 * ttl < Word.bound)
    {r : Request} (hmethod : r.method = .get) {segment key : String}
    (hroute : Route.ofTarget? r.target = some (.get segment))
    (hkey : Text.Percent.decode? segment = some key) :
    let start := opened settings hosted host wall sender defaultTtl
    let app := start.run events
    (∀ value, (app.serve r).result = .ok (.success (.value key value))
      ↔ ∃ earlier o later, ∃ ttl : Nat, start.history events = earlier ++ o :: later
        ∧ o.Stores key value ttl ∧ ¬ o.Retires ∧ (∀ o' ∈ later, ¬ o'.Ends key)
        ∧ (ttl = 0 ∨ app.cache.wall ≤ o.before.cache.wall + 1000 * ttl))
    ∧ ((∀ value, (app.serve r).result ≠ .ok (.success (.value key value))) →
      (app.serve r).result = .ok (.fault (.notFound key))) := by
  intro start app
  have hstart : start.cache.store.Calm := Store.createdAt_calm wall
  have hs : app.cache.store.Calm := run_calm hstart events
  obtain ⟨htimed, howns⟩ := run_entries hstart rfl events
  obtain ⟨hvalue, hnone⟩ := serve_get hs htimed hmethod (demand_of_get hmethod hroute hkey)
  refine ⟨fun value => (hvalue value).trans ?_, hnone⟩
  have hpresent : 0 ≤ app.cache.wall := Int.le_trans hfrom (start.wall_le_run events)
  have hmet {o : Turn} (ho : o ∈ start.history events) := before_of_mem_history hstart ho
  constructor
  · rintro ⟨e, cell, hheld, hserved, hcell, rfl⟩
    obtain ⟨own, hown⟩ := howns key e hheld
    rw [hown, Holder.resolve, Option.some.injEq] at hcell
    subst hcell
    have hendures : e.Endures app.cache.wall :=
      (TimedEntry.endures_iff hown hpresent hbound).mpr (Session.not_isOver_iff.mp hserved).1
    obtain ⟨earlier, o, later, hhistory, ⟨⟨record, hdemand, hfit, hsame, accessedAt, hmade⟩, hstays⟩, hlater⟩ :=
      (run_holds_iff hstart rfl hendures hfrom (Int.le_refl _)).mp hheld
    have ho : o ∈ start.history events := hhistory ▸ List.mem_append_right _ List.mem_cons_self
    have hstores : o.Stores key record.value (record.ttl.getD o.before.defaultTtl) :=
      (Turn.stores_iff (hmet ho).1).mpr ⟨record, hdemand, hfit, hsame, rfl, rfl⟩
    have hentry : o.before.entryFor record = { e with accessedAt } := Entry.timed.inj hmade
    have hvalue : own.value = record.value := by
      have hholder : Holder.strong (o.before.cache.store.owners.allocate record.value).2 = .strong own :=
        (congrArg TimedEntry.holder hentry).trans hown
      rw [← Holder.strong.inj hholder]
      rfl
    have hlifetime := (entryFor_endures_iff (hlifetimes o ho _ _ _ hstores)
      (Int.le_trans hfrom (hmet ho).2.1) (hmet ho).2.2 hbound).mp (hentry ▸ hendures)
    exact ⟨earlier, o, later, _, hhistory, hvalue ▸ hstores, hstays, hlater, hlifetime⟩
  · rintro ⟨earlier, o, later, ttl, hhistory, hstores, hstays, hlater, hlifetime⟩
    have ho : o ∈ start.history events := hhistory ▸ List.mem_append_right _ List.mem_cons_self
    have hshort := hlifetimes o ho key value ttl hstores
    obtain ⟨record, hdemand, hfit, hsame, hvalue, rfl⟩ := (Turn.stores_iff (hmet ho).1).mp hstores
    have hendures : (o.before.entryFor record).Endures app.cache.wall :=
      (entryFor_endures_iff hshort (Int.le_trans hfrom (hmet ho).2.1) (hmet ho).2.2 hbound).mpr hlifetime
    have hputs : o.Puts key (o.before.entryFor record) := ⟨record, hdemand, hfit, hsame, _, rfl⟩
    have hheld := (run_holds_iff hstart rfl hendures hfrom (Int.le_refl _)).mpr
      ⟨earlier, o, later, hhistory, ⟨hputs, hstays⟩, hlater⟩
    exact ⟨_, _, hheld, hendures _ _ hpresent (Int.le_refl _), rfl, hvalue⟩

/-- A value for a second, in the body of a request. -/
def submission : Request :=
  { method := .put, target := "/set", headers := [("content-type", "application/json")]
    body := "\x7b\"key\":\"a\",\"value\":\"x\",\"ttl\":1\x7d".toUTF8.toList }

/-- A removal of a prefix that the key does not have. -/
def otherRemoval : Request := { method := .delete, target := "/prefix/b" }

/-- A request for the key. -/
def lateLookUp : Request := { method := .get, target := "/get/a" }

/-- An interface whose sweeper makes a pass every 400 milliseconds. -/
def sweptApp : App :=
  opened { sweepInterval := ⟨0, 400000000⟩ } true { link := .connected } 0 none 300

/-- A whole second passes after the value was submitted. -/
def submissionRun : List Event := [.request submission, .request otherRemoval, .advance 1000]

/-- In the last millisecond of its second the value is still answered, and no pass of the sweeper has taken
it away. -/
theorem get_answers_latest_boundary : ((sweptApp.run submissionRun).serve lateLookUp).result
    = .ok (.success (.value "a" "x")) := by
  have hstart : sweptApp.cache.store.Calm := Store.createdAt_calm 0
  have hsubmitted : submission.demand? = some (.set ⟨"a", "x", some 1⟩) := by decide +kernel
  have hremoved : otherRemoval.demand? = some (.uncacheLike "b") := by decide +kernel
  have hlifetimes : ∀ o ∈ sweptApp.history submissionRun,
      ∀ key value ttl, o.Stores key value ttl → 1000 * ttl < Word.bound := by
    rintro o ho key value ttl ⟨r, answer, record, hevent, hdemand, -, -, -, -, rfl⟩
    rcases List.mem_cons.mp ho with rfl | ho
    · cases hevent
      cases hsubmitted.symm.trans hdemand
      decide
    rcases List.mem_cons.mp ho with rfl | ho
    · cases hevent
      cases hremoved.symm.trans hdemand
    · rw [List.mem_singleton.mp ho] at hevent
      cases hevent
  have hroute : Route.ofTarget? lateLookUp.target = some (.get "a") := by decide
  have hkey : Text.Percent.decode? "a" = some "a" := by decide +kernel
  have hbound : (sweptApp.run submissionRun).cache.wall < Word.bound := by decide +kernel
  refine ((get_answers_latest { sweepInterval := ⟨0, 400000000⟩ } true { link := .connected } none 300
    submissionRun (Int.le_refl 0) hbound hlifetimes rfl hroute hkey).1 "x").mpr ?_
  refine ⟨[], ⟨sweptApp, .request submission⟩, [⟨sweptApp.run (submissionRun.take 1), .request otherRemoval⟩,
    ⟨sweptApp.run (submissionRun.take 2), .advance 1000⟩], 1, rfl, ?_, ?_, ?_, .inr (by decide +kernel)⟩
  · exact (Turn.stores_iff hstart).mpr ⟨_, hsubmitted, by decide +kernel, rfl, rfl, rfl⟩
  · rintro ⟨-, hgone, -⟩
    revert hgone
    decide +kernel
  · refine List.forall_mem_cons.mpr ⟨?_, List.forall_mem_singleton.mpr ?_⟩
    · rw [Turn.ends_iff (run_calm hstart _)]
      rintro (⟨d, hdemand, hclears⟩ | ⟨-, hgone, -⟩ | hclosed)
      · cases hremoved.symm.trans hdemand
        revert hclears
        exact (by decide : ¬ "b".toList <+: "a".toList)
      · revert hgone
        decide +kernel
      · cases hclosed
    · rw [Turn.ends_iff (run_calm hstart _)]
      rintro (⟨d, hdemand, -⟩ | ⟨-, hgone, -⟩ | hclosed)
      · cases hdemand
      · revert hgone
        decide +kernel
      · cases hclosed

end TimedCache.Admin.App
