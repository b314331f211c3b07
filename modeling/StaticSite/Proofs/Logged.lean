import StaticSite.Log

/-!
Laws of computations that leave log records.

* `LawfulMonad (Logged ε)`: records are appended in order, so steps may be regrouped;
* `ok_bind`, `fail_bind`, `map_fail`: what a first step does to the rest;
* `bind_eq_ok`, `except_bind_eq_ok`: a result comes of both steps;
* `bind_eq_error`: a failure comes of one of them;
* `lift_bind`: steps without records may be taken together.
-/

namespace StaticSite.Logged

variable {ε α β : Type}

@[ext] theorem ext {x y : Logged ε α} (hl : x.log = y.log) (hr : x.result = y.result) :
    x = y := by
  cases x
  cases y
  exact congr (congrArg _ hl) hr

theorem bind_eq_andThen (x : Logged ε α) (f : α → Logged ε β) : x >>= f = x.andThen f := rfl

@[simp] theorem ok_eq_pure (a : α) : (ok a : Logged ε α) = pure a := rfl

theorem ok_bind (a : α) (f : α → Logged ε β) : ok a >>= f = f a := by
  apply ext <;> simp only [bind_eq_andThen, andThen, ok, List.nil_append]

@[simp] theorem fail_bind (e : ε) (f : α → Logged ε β) : fail e >>= f = fail e := rfl

@[simp] theorem map_fail (e : ε) (f : α → β) : f <$> (fail e : Logged ε α) = fail e := rfl

@[simp] theorem lift_ok (a : α) : (lift (.ok a) : Logged ε α) = pure a := rfl

@[simp] theorem lift_error (e : ε) : (lift (.error e) : Logged ε α) = fail e := rfl

theorem mk_error_bind (l : List LogRecord) (e : ε) (f : α → Logged ε β) :
    (⟨l, .error e⟩ : Logged ε α) >>= f = ⟨l, .error e⟩ := rfl

theorem mk_ok_bind (l : List LogRecord) (a : α) (f : α → Logged ε β) :
    (⟨l, .ok a⟩ : Logged ε α) >>= f = ⟨l ++ (f a).log, (f a).result⟩ := rfl

/-- A computation that gives a result has done both of its steps. -/
theorem bind_eq_ok {x : Logged ε α} {f : α → Logged ε β} {b : β} (h : (x >>= f).result = .ok b) :
    ∃ a, x.result = .ok a ∧ (f a).result = .ok b := by
  obtain ⟨l, r⟩ := x
  cases r with
  | error e => cases h
  | ok a => exact ⟨a, rfl, h⟩

/-- A computation that fails has failed in one of its steps. -/
theorem bind_eq_error {x : Logged ε α} {f : α → Logged ε β} {e : ε}
    (h : (x >>= f).result = .error e) :
    x.result = .error e ∨ ∃ a, x.result = .ok a ∧ (f a).result = .error e := by
  obtain ⟨l, r⟩ := x
  cases r with
  | error e' =>
    obtain rfl := Except.error.inj h
    exact .inl rfl
  | ok a => exact .inr ⟨a, rfl, h⟩

theorem result_bind_of_ok {x : Logged ε α} {a : α} (h : x.result = .ok a) (f : α → Logged ε β) :
    (x >>= f).result = (f a).result := by
  obtain ⟨l, r⟩ := x
  obtain rfl : r = .ok a := h
  rfl

theorem id_map_eq (x : Logged ε α) : id <$> x = x := by
  obtain ⟨l, r⟩ := x
  cases r with
  | error e => rfl
  | ok a => exact ext (List.append_nil l) rfl

theorem bind_assoc_eq {γ : Type} (x : Logged ε α) (f : α → Logged ε β) (g : β → Logged ε γ) :
    x >>= f >>= g = x >>= fun a => f a >>= g := by
  obtain ⟨l, r⟩ := x
  cases r with
  | error e => rfl
  | ok a =>
    cases h : (f a).result with
    | error e => simp [bind_eq_andThen, andThen, h]
    | ok b => simp [bind_eq_andThen, andThen, h, List.append_assoc]

theorem lift_bind (r : Except ε α) (f : α → Except ε β) :
    lift (r >>= f) = lift r >>= fun a => lift (f a) := by
  cases r with
  | error e => rfl
  | ok a => exact (ok_bind a fun a => lift (f a)).symm

/-- The law of `bind_eq_ok` for steps without records. -/
theorem except_bind_eq_ok {x : Except ε α} {f : α → Except ε β} {b : β} (h : x >>= f = .ok b) :
    ∃ a, x = .ok a ∧ f a = .ok b := by
  cases x with
  | error e => cases h
  | ok a => exact ⟨a, rfl, h⟩

theorem except_map_eq_ok {r : Except ε α} {f : α → β} {b : β} (h : r.map f = .ok b) :
    ∃ a, r = .ok a ∧ f a = b := by
  cases r with
  | error e => cases h
  | ok a => exact ⟨a, rfl, Except.ok.inj h⟩

theorem except_mapError_eq_ok_iff {ε' : Type} {r : Except ε α} {f : ε → ε'} {a : α} :
    r.mapError f = .ok a ↔ r = .ok a := by
  cases r with
  | error e => exact ⟨nofun, nofun⟩
  | ok b => exact ⟨fun h => by rw [Except.ok.inj h], fun h => by rw [Except.ok.inj h]; rfl⟩

instance : LawfulMonad (Logged ε) := LawfulMonad.mk' _ id_map_eq ok_bind bind_assoc_eq

end StaticSite.Logged
