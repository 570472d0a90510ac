/-! # What the parts of a step came to, when the outcome of the whole is known -/

namespace Js5

variable {ε δ α β : Type} {x : Except ε α}

theorem map_eq_ok {f : α → β} {v : β} (h : x.map f = .ok v) : ∃ u, x = .ok u ∧ v = f u := by
  cases x with
  | error e => cases h
  | ok u =>
    cases h
    exact ⟨u, rfl, rfl⟩

theorem map_eq_error {f : α → β} {e : ε} (h : x.map f = .error e) : x = .error e := by
  cases x with
  | error e' =>
    cases h
    rfl
  | ok u => cases h

theorem mapError_eq_ok {f : ε → δ} {v : α} (h : x.mapError f = .ok v) : x = .ok v := by
  cases x with
  | error reason => cases h
  | ok u =>
    cases h
    rfl

theorem mapError_eq_error {f : ε → δ} {e : δ} (h : x.mapError f = .error e) :
    ∃ reason, x = .error reason ∧ e = f reason := by
  cases x with
  | error reason =>
    cases h
    exact ⟨reason, rfl, rfl⟩
  | ok u => cases h

theorem bind_eq_ok {f : α → Except ε β} {v : β} (h : x.bind f = .ok v) : ∃ u, x = .ok u ∧ f u = .ok v := by
  cases x with
  | error e => cases h
  | ok u => exact ⟨u, rfl, h⟩

theorem bind_eq_error {f : α → Except ε β} {e : ε} (h : x.bind f = .error e) :
    x = .error e ∨ ∃ u, x = .ok u ∧ f u = .error e := by
  cases x with
  | error e' =>
    cases h
    exact .inl rfl
  | ok u => exact .inr ⟨u, rfl, h⟩

end Js5
