import RateDesk.Time.Clock

/-!
# Deadlines

* `after_eq_ok`, `after_eq_error` : a deadline is the sum of now and the delay, unless the clock
  cannot have it;
* `Overruns` : the clock has no reading some seconds from now.
-/

namespace RateDesk.Instant

variable {now due : Instant} {delay : Nat} {f : Fault}

theorem after_eq_ok : now.after delay = .ok due ↔ (now + delay) / 1000 < secondsBound ∧ due = now + delay := by
  unfold after
  split
  · simp_all [eq_comm]
  · rename_i h
    exact ⟨nofun, fun ⟨hlt, _⟩ => absurd hlt h⟩

theorem after_eq_error : now.after delay = .error f ↔ secondsBound ≤ (now + delay) / 1000 ∧ f = .deadline := by
  unfold after
  split
  · rename_i h
    exact ⟨nofun, fun ⟨hle, _⟩ => absurd h (Nat.not_lt_of_le hle)⟩
  · rename_i h
    have hle : secondsBound ≤ (now + delay) / 1000 := Nat.le_of_not_lt h
    simp [hle, eq_comm]

/-- Some seconds from now the clock has no reading. -/
def Overruns (now : Instant) (secs : Nat) : Prop := secondsBound ≤ now / 1000 + secs

theorem overruns_iff {secs : Nat} : now.Overruns secs ↔ secondsBound ≤ (now + secs * 1000) / 1000 := by
  rw [Overruns, Nat.add_mul_div_right now secs (by decide)]

theorem after_seconds_eq_error {secs : Nat} : now.after (secs * 1000) = .error f ↔ now.Overruns secs ∧ f = .deadline := by
  rw [after_eq_error, overruns_iff]

theorem not_overruns {secs : Nat} (h : now.after (secs * 1000) = .ok due) : ¬ now.Overruns secs := by
  intro hover
  rw [after_seconds_eq_error.2 ⟨hover, rfl⟩] at h
  cases h

end RateDesk.Instant
