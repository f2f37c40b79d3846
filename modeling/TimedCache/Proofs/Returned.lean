import TimedCache.Hook

/-!
# Operations that return

An operation made of two steps has returned exactly when both steps have, the second one
from where the first one left.
-/

namespace TimedCache.Ran

variable {K σ α β : Type}

/-- After a first step that returned comes the second one. -/
theorem andThen_of_ok {r : Ran K σ α} {a : α} (h : r.result = .ok a) (next : σ → α → Ran K σ β) :
    r.andThen next = next r.state a := by
  rw [andThen, h]

/-- After a first step that panicked comes nothing. -/
theorem andThen_of_error {r : Ran K σ α} {p : Panic K} (h : r.result = .error p)
    (next : σ → α → Ran K σ β) : r.andThen next = ⟨r.state, .error p⟩ := by
  rw [andThen, h]

/-- An operation with a result returned. -/
theorem returned_of_ok {r : Ran K σ α} {a : α} (h : r.result = .ok a) : r.returned = true := by
  rw [returned, h]
  rfl

/-- An operation that panicked did not return. -/
theorem returned_of_error {r : Ran K σ α} {p : Panic K} (h : r.result = .error p) :
    r.returned = false := by
  rw [returned, h]
  rfl

/-- An operation that returned has a result. -/
theorem exists_of_returned {r : Ran K σ α} (h : r.returned) : ∃ a, r.result = .ok a := by
  cases hresult : r.result with
  | ok a => exact ⟨a, rfl⟩
  | error p => exact absurd (returned_of_error hresult) (by simp [h])

/-- If two steps returned, so did the first one. -/
theorem returned_of_andThen {r : Ran K σ α} {next : σ → α → Ran K σ β}
    (h : (r.andThen next).returned) : r.returned := by
  cases hresult : r.result with
  | ok a => exact returned_of_ok hresult
  | error p =>
    rw [andThen_of_error hresult] at h
    cases h

/-- Two steps return exactly if the first does and then the second. -/
theorem returned_andThen_iff {r : Ran K σ α} {next : σ → α → Ran K σ β} :
    (r.andThen next).returned ↔ ∃ a, r.result = .ok a ∧ (next r.state a).returned := by
  rw [andThen]
  cases r.result with
  | ok a => simp
  | error p => simp [returned, Except.isOk, Except.toBool]

/-- Two steps return together when the first returns and then the second does. -/
theorem andThen_eq_done {r : Ran K σ α} {next : σ → α → Ran K σ β} {s : σ} {b : β} :
    r.andThen next = done s b ↔ ∃ s' a, r = done s' a ∧ next s' a = done s b := by
  obtain ⟨s₁, result⟩ := r
  cases result with
  | ok a =>
    constructor
    · exact fun h => ⟨s₁, a, rfl, h⟩
    · rintro ⟨s', a', hr, h⟩
      cases hr
      exact h
  | error p =>
    constructor
    · exact fun h => by cases h
    · rintro ⟨s', a', hr, -⟩
      cases hr

end TimedCache.Ran
