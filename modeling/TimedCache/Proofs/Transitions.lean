import TimedCache.Hook

/-!
# Transitions in turn

What goes into a cache under a key goes out before the next one comes in. So the transitions that are
told of a key, with the one that an entry there still waits for, are so many times in and out again.
-/

namespace TimedCache.Event

/-- So many times in and out again. -/
def turns : Nat → List Phase
  | 0 => []
  | n + 1 => .cached :: .uncached :: turns n

theorem turns_succ (n : Nat) : turns (n + 1) = turns n ++ [.cached, .uncached] := by
  induction n with
  | zero => rfl
  | succ n ih => exact congrArg (fun rest => .cached :: .uncached :: rest) ih

/-- Going in and going out take turns. -/
theorem turns_getElem? {n i : Nat} {phase : Phase} (h : (turns n)[i]? = some phase) :
    phase = if i % 2 = 0 then .cached else .uncached := by
  induction n generalizing i with
  | zero => cases h
  | succ n ih =>
    cases i with
    | zero => exact (Option.some.inj h).symm
    | succ i =>
      cases i with
      | zero => exact (Option.some.inj h).symm
      | succ i =>
        have hparity : (i + 1 + 1) % 2 = i % 2 := Nat.add_mod_right i 2
        rw [hparity]
        exact ih h

variable {α : Type} {phases : List Phase} {entry : Option α} {n : Nat}

/-- The transitions told so far take turns too. -/
theorem alternating_of_turns (h : phases ++ entry.toList.map (fun _ => .uncached) = turns n) {i : Nat}
    {phase : Phase} (hphase : phases[i]? = some phase) :
    phase = if i % 2 = 0 then .cached else .uncached := by
  apply turns_getElem? (n := n)
  rw [← h, List.getElem?_append_left]
  · exact hphase
  · exact (List.getElem?_eq_some_iff.mp hphase).1

/-- There is an entry exactly if the last transition told was to go in. -/
theorem present_of_turns (h : phases ++ entry.toList.map (fun _ => .uncached) = turns n) :
    entry.isSome ↔ phases.getLast? = some .cached := by
  cases entry with
  | none =>
    rw [Option.toList_none, List.map_nil, List.append_nil] at h
    cases n with
    | zero => simp [h, turns]
    | succ n => simp [h, turns_succ]
  | some e =>
    cases n with
    | zero => simp [turns] at h
    | succ n =>
      have hphases : phases ++ [.uncached] = (turns n ++ [.cached]) ++ [.uncached] := by
        rw [turns_succ] at h
        simpa using h
      simp [List.append_cancel_right hphases]

end TimedCache.Event
