/-!
Computations that may fail: what the outcome of a whole says of its steps.
-/

namespace FlightCurve.Outcome

variable {ε ε' α β : Type}

/-- A sequence of two steps succeeds if the first one does, and the second one on its value. -/
theorem bind_eq_ok_iff {x : Except ε α} {f : α → Except ε β} {b : β} :
    (x >>= f) = .ok b ↔ ∃ a, x = .ok a ∧ f a = .ok b := by
  cases x with
  | error e =>
      constructor
      · intro h
        cases h
      · rintro ⟨a, h, _⟩
        cases h
  | ok a =>
      constructor
      · exact fun h => ⟨a, rfl, h⟩
      · rintro ⟨a', h, hf⟩
        cases h
        exact hf

/-- A sequence of two steps fails with the error of the first one, or with that of the second one on
its value. -/
theorem bind_eq_error_iff {x : Except ε α} {f : α → Except ε β} {e : ε} :
    (x >>= f) = .error e ↔ x = .error e ∨ ∃ a, x = .ok a ∧ f a = .error e := by
  cases x with
  | error e' =>
      constructor
      · intro h
        cases h
        exact .inl rfl
      · rintro (h | ⟨a, h, _⟩)
        · cases h
          rfl
        · cases h
  | ok a =>
      constructor
      · exact fun h => .inr ⟨a, rfl, h⟩
      · rintro (h | ⟨a', h, hf⟩)
        · cases h
        · cases h
          exact hf

/-- The values are the same under another description of the errors. -/
theorem mapError_eq_ok_iff {x : Except ε α} {g : ε → ε'} {a : α} :
    x.mapError g = .ok a ↔ x = .ok a := by
  cases x with
  | error e =>
      constructor <;>
      · intro h
        cases h
  | ok b =>
      constructor <;>
      · intro h
        cases h
        rfl

theorem mapError_eq_error_iff {x : Except ε α} {g : ε → ε'} {e' : ε'} :
    x.mapError g = .error e' ↔ ∃ e, x = .error e ∧ g e = e' := by
  cases x with
  | error e =>
      constructor
      · intro h
        cases h
        exact ⟨e, rfl, rfl⟩
      · rintro ⟨_, h, rfl⟩
        cases h
        rfl
  | ok a =>
      constructor
      · intro h
        cases h
      · rintro ⟨_, h, _⟩
        cases h

theorem map_eq_ok_iff {x : Except ε α} {g : α → β} {b : β} :
    x.map g = .ok b ↔ ∃ a, x = .ok a ∧ g a = b := by
  cases x with
  | error e =>
      constructor
      · intro h
        cases h
      · rintro ⟨_, h, _⟩
        cases h
  | ok a =>
      constructor
      · intro h
        cases h
        exact ⟨a, rfl, rfl⟩
      · rintro ⟨_, h, rfl⟩
        cases h
        rfl

/-- The errors are the same with other values. -/
theorem map_eq_error_iff {x : Except ε α} {g : α → β} {e : ε} :
    x.map g = .error e ↔ x = .error e := by
  cases x with
  | error e' =>
      constructor <;>
      · intro h
        cases h
        rfl
  | ok a =>
      constructor <;>
      · intro h
        cases h

theorem exists_eq_ok {x : Except ε α} (h : x.isOk = true) : ∃ a, x = .ok a := by
  cases x with
  | error e => cases h
  | ok a => exact ⟨a, rfl⟩

/-- The error of a computation, if it fails. -/
def error? : Except ε α → Option ε
  | .error e => some e
  | .ok _ => none

theorem error?_eq_some_iff {x : Except ε α} {e : ε} : error? x = some e ↔ x = .error e := by
  cases x with
  | error e' =>
      constructor <;>
      · intro h
        cases h
        rfl
  | ok a =>
      constructor <;>
      · intro h
        cases h

/-- If the second of two steps fails in one way only, so does the sequence, unless the first one
fails. -/
theorem error?_bind {x : Except ε α} {f : α → Except ε β} {r : Option ε}
    (h : ∀ a, x = .ok a → error? (f a) = r) : error? (x >>= f) = (error? x).or r := by
  cases x with
  | error e => rfl
  | ok a => exact h a rfl

/-- A last step that cannot fail leaves the error as it is. -/
theorem error?_bind_ok (x : Except ε α) (f : α → β) :
    error? (x >>= fun a => .ok (f a)) = error? x := by
  cases x <;> rfl

theorem error?_mapError (x : Except ε α) (g : ε → ε') :
    error? (x.mapError g) = (error? x).map g := by
  cases x <;> rfl

/-- Describing errors otherwise changes nothing but the errors of each step. -/
theorem mapError_bind (x : Except ε α) (f : α → Except ε β) (g : ε → ε') :
    (x >>= f).mapError g = x.mapError g >>= fun a => (f a).mapError g := by
  cases x <;> rfl

theorem map_toOption_eq_some_iff {x : Except ε α} {f : α → β} {b : β} :
    x.toOption.map f = some b ↔ ∃ a, x = .ok a ∧ f a = b := by
  cases x with
  | error e =>
      constructor
      · intro h
        cases h
      · rintro ⟨_, h, _⟩
        cases h
  | ok a =>
      constructor
      · intro h
        exact ⟨a, rfl, Option.some.inj h⟩
      · rintro ⟨_, h, rfl⟩
        cases h
        rfl

/-- Two computations have the same values, up to `f`, if each value of the one is one of the other,
and the other has none besides. -/
theorem map_toOption_eq {x : Except ε α} {y : Except ε' α} {f : α → β}
    (h : ∀ a, x = .ok a → ∃ b, y = .ok b ∧ f b = f a) (h' : ∀ b, y = .ok b → ∃ a, x = .ok a) :
    y.toOption.map f = x.toOption.map f := by
  cases hx : x with
  | ok a =>
      obtain ⟨b, rfl, hsame⟩ := h a hx
      exact congrArg some hsame
  | error e =>
      cases hy : y with
      | error e' => rfl
      | ok b =>
          obtain ⟨a, ha⟩ := h' b hy
          rw [hx] at ha
          cases ha

end FlightCurve.Outcome
