import StaticSite.Expansion.Page
import StaticSite.Proofs.Logged

/-!
Runs that may ask a scope for a name.

A run that asks for nothing is the same in all scopes. A run that asks for a name stops in the empty
scope. To tell that it goes on where the name is bound, the failure alone is not enough: another
text that is read later, with a scope of its own, may miss the same name at the same place. But
such a text leaves a record first.

* `Stops`, `Late`: stopping at a missing name, and missing it only after a record has been left;
* `Reports`: a condition says whether a run asks for a name;
* `Reports.bind`, `Reports.after`, `Reports.map`: conditions for runs in sequence;
* `read_only_ne_unbound`: a reference does not miss a name that is bound.
-/

namespace StaticSite

/-! ## Scopes with one name -/

/-- The scope in which only one name is bound, to an empty list. -/
def Scope.only (x : String) : Scope := ⟨[(x, .list [])]⟩

namespace Scope

theorem get?_only_self (x : String) : (only x).get? x = some (.list []) := by
  simp [only, get?, Fields.get?]

theorem get?_only_of_ne {x y : String} (h : y ≠ x) : (only x).get? y = none := by
  have : (y == x) = false := by simpa using h
  simp [only, get?, Fields.get?, List.lookup_cons, this]

theorem list_empty (x : String) : empty.list x = .error (.unbound x) := rfl

theorem list_only_ne_unbound (x l : String) : (only x).list l ≠ .error (.unbound x) := by
  unfold list
  by_cases hl : l = x
  · rw [hl, get?_only_self]
    simp
  · rw [get?_only_of_ne hl]
    simpa using hl

theorem itemAt_ne_unbound (items : List Value) (l : String) (i : Nat) (x : String) :
    itemAt items l i ≠ .error (.unbound x) := by
  unfold itemAt
  split <;> simp

theorem bind_ne_error {ε α β : Type} {r : Except ε α} {f : α → Except ε β} {e : ε}
    (hr : r ≠ .error e) (hf : ∀ a, f a ≠ .error e) : (r >>= f) ≠ .error e := by
  cases r with
  | error e' => exact fun h => hr (by rw [Except.error.inj h])
  | ok a => exact hf a

/-- Where a name is bound, no reference fails because it is missing. -/
theorem read_only_ne_unbound (x : String) (t : Cursors) (r : Reference) :
    (only x).read t r ≠ .error (.unbound x) := by
  cases r with
  | name n =>
    unfold read
    by_cases hn : n = x
    · simp [hn, get?_only_self]
    · simpa [get?_only_of_ne hn] using hn
  | item l =>
    simp only [read]
    split
    · simp
    · refine bind_ne_error (list_only_ne_unbound x l) fun items =>
        bind_ne_error (itemAt_ne_unbound items l _ x) fun v => ?_
      split <;> intro h <;> cases h
  | field f l =>
    simp only [read]
    split
    · simp
    · refine bind_ne_error (list_only_ne_unbound x l) fun items =>
        bind_ne_error (itemAt_ne_unbound items l _ x) fun v => ?_
      cases v with
      | record fields =>
        dsimp only
        split <;> intro h <;> cases h
      | _ => intro h; cases h

end Scope

/-! ## Stopping at a missing name -/

/-- The name of which a failure says that the scope does not bind it. -/
def SiteError.missing? : SiteError → Option String
  | .unresolvedPlaceholder _ _ _ (.unbound x) => some x
  | .unresolvedList _ _ (.unbound x) => some x
  | _ => none

variable {α β : Type}

/-- A computation that misses a name only after it has left a record. -/
def Late (x : String) (y : Logged SiteError α) : Prop :=
  ∀ e, e.missing? = some x → y.result = .error e → y.log ≠ []

/-- In the empty scope the run stops because the name is missing, and where the name is bound it
goes on: it ends in another way, or not before it has left a further record. -/
def Stops (x : String) (run : Scope → Logged SiteError α) : Prop :=
  ∃ log e, e.missing? = some x ∧ run Scope.empty = ⟨log, .error e⟩ ∧
    ∃ log' r, run (Scope.only x) = ⟨log ++ log', r⟩ ∧ (r = .error e → log' ≠ [])

namespace Late

variable {x : String} {y : Logged SiteError α}

theorem pure (x : String) (a : α) : Late x (Pure.pure a) := by
  intro e _ h
  simp at h

theorem lift {r : Except SiteError α} (h : ∀ e, r = .error e → e.missing? ≠ some x) :
    Late x (Logged.lift r) :=
  fun e he heq => absurd he (h e heq)

theorem fail {e : SiteError} (h : e.missing? ≠ some x) :
    Late x (Logged.fail e : Logged SiteError α) :=
  .lift fun _ heq => Except.error.inj heq ▸ h

theorem of_log_ne_nil (h : y.log ≠ []) : Late x y := fun _ _ _ => h

/-- What has left a record is late. -/
theorem of_record (x : String) (record : LogRecord) (f : Unit → Logged SiteError α) :
    Late x ((⟨[record], .ok ()⟩ : Logged SiteError Unit) >>= f) :=
  of_log_ne_nil (by simp [Logged.mk_ok_bind])

theorem bind {f : α → Logged SiteError β} (hy : Late x y) (hf : ∀ a, Late x (f a)) :
    Late x (y >>= f) := by
  obtain ⟨log, r⟩ := y
  cases r with
  | error e' => exact fun e he heq => hy e he (by simpa [Logged.mk_error_bind] using heq)
  | ok a =>
    intro e he heq hnil
    rw [Logged.mk_ok_bind] at heq hnil
    exact hf a e he heq (List.append_eq_nil_iff.1 hnil).2

end Late

namespace Stops

variable {x : String}

theorem ne {run : Scope → Logged SiteError α} (h : Stops x run) :
    run Scope.empty ≠ run (Scope.only x) := by
  obtain ⟨log, e, -, hempty, log', r, honly, hr⟩ := h
  intro heq
  rw [hempty, honly] at heq
  injection heq with hlog hres
  exact hr hres.symm (by simpa using hlog)

theorem of_fail {run : Scope → Logged SiteError α} {e : SiteError} (he : e.missing? = some x)
    (hempty : run Scope.empty = .fail e) (honly : Late x (run (Scope.only x))) : Stops x run := by
  obtain ⟨y, hy⟩ : ∃ y, y = run (Scope.only x) := ⟨_, rfl⟩
  rw [← hy] at honly
  exact ⟨[], e, he, hempty, y.log, y.result, by rw [← hy, List.nil_append], honly e he⟩

/-- What comes before the lookup does not matter, if it is the same in all scopes. -/
theorem after {next : Scope → β → Logged SiteError α} (log : List LogRecord) (b : β)
    (h : Stops x fun sc => next sc b) :
    Stops x fun sc => (⟨log, .ok b⟩ : Logged SiteError β) >>= next sc := by
  obtain ⟨l, e, he, hempty, l', r, honly, hr⟩ := h
  refine ⟨log ++ l, e, he, ?_, l', r, ?_, hr⟩
  · simp only [Logged.mk_ok_bind, hempty]
  · simp only [Logged.mk_ok_bind, honly, List.append_assoc]

/-- What follows the lookup does not matter, if it is late. -/
theorem before {run : Scope → Logged SiteError α} {next : Scope → α → Logged SiteError β}
    (h : Stops x run) (hn : ∀ a, Late x (next (Scope.only x) a)) :
    Stops x fun sc => run sc >>= next sc := by
  obtain ⟨log, e, he, hempty, log', r, honly, hr⟩ := h
  refine ⟨log, e, he, by simp only [hempty, Logged.mk_error_bind], ?_⟩
  simp only [honly]
  cases r with
  | error e' => exact ⟨log', .error e', rfl, fun h => hr (by rw [Except.error.inj h])⟩
  | ok a =>
    refine ⟨log' ++ (next (Scope.only x) a).log, (next (Scope.only x) a).result, ?_, ?_⟩
    · rw [Logged.mk_ok_bind, List.append_assoc]
    · intro hres hnil
      exact hn a e he hres (List.append_eq_nil_iff.1 hnil).2

end Stops

/-! ## Conditions for asking -/

/-- The value is there and has the property. -/
def okAnd {ε α : Type} (r : Except ε α) (p : α → Bool) : Bool :=
  match r with
  | .ok a => p a
  | .error _ => false

/-- What is known of a run, if `asks` says whether it asks its scope for a name. -/
structure Reports (asks : Bool) (run : Scope → Logged SiteError α) : Prop where
  same : asks = false → ∀ s₁ s₂, run s₁ = run s₂
  stops : asks = true → ∃ x, Stops x run
  late : ∀ x, Late x (run (Scope.only x))

namespace Reports

theorem const {y : Logged SiteError α} (h : ∀ x, Late x y) : Reports false fun _ => y :=
  ⟨fun _ _ _ => rfl, fun h => absurd h Bool.false_ne_true, h⟩

theorem fail {e : SiteError} (h : e.missing? = none) :
    Reports false fun _ => (Logged.fail e : Logged SiteError α) :=
  const fun _ => .fail (by rw [h]; simp)

/-- A run that asks at once. -/
theorem of_fail {run : Scope → Logged SiteError α} {e : SiteError} {x : String}
    (he : e.missing? = some x) (hempty : run Scope.empty = .fail e)
    (hlate : ∀ x, Late x (run (Scope.only x))) : Reports true run :=
  ⟨fun h => absurd h.symm Bool.false_ne_true, fun _ => ⟨x, .of_fail he hempty (hlate x)⟩, hlate⟩

/-- One run after another asks for a name if the first does, or if the second does where the first
goes through. -/
theorem bind {asks : Bool} {run : Scope → Logged SiteError α} {p : α → Bool}
    {next : Scope → α → Logged SiteError β} (h : Reports asks run)
    (hn : ∀ a, (run Scope.empty).result = .ok a → Reports (p a) fun sc => next sc a)
    (hl : ∀ x a, Late x (next (Scope.only x) a)) :
    Reports (asks || okAnd (run Scope.empty).result p) fun sc => run sc >>= next sc := by
  refine ⟨fun hasks s₁ s₂ => ?_, fun hasks => ?_, fun x => (h.late x).bind (hl x)⟩
  · rw [Bool.or_eq_false_iff] at hasks
    simp only [h.same hasks.1 s₁ Scope.empty, h.same hasks.1 s₂ Scope.empty]
    generalize run Scope.empty = y at hn hasks
    obtain ⟨log, r⟩ := y
    cases r with
    | error e => rfl
    | ok a => simp only [Logged.mk_ok_bind, (hn a rfl).same hasks.2 s₁ s₂]
  · cases asks with
    | true =>
      obtain ⟨x, hx⟩ := h.stops rfl
      exact ⟨x, hx.before (hl x)⟩
    | false =>
      have hsame (sc : Scope) : run sc = run Scope.empty := h.same rfl sc Scope.empty
      rw [Bool.false_or] at hasks
      simp only [hsame]
      generalize run Scope.empty = y at hn hasks
      obtain ⟨log, r⟩ := y
      cases r with
      | error e => exact absurd hasks Bool.false_ne_true
      | ok a =>
        obtain ⟨x, hx⟩ := (hn a rfl).stops hasks
        exact ⟨x, .after log a hx⟩

/-- A run after something that does not see the scope. -/
theorem after {y : Logged SiteError α} {p : α → Bool} {next : Scope → α → Logged SiteError β}
    (h : ∀ x, Late x y) (hn : ∀ a, Reports (p a) fun sc => next sc a) :
    Reports (okAnd y.result p) fun sc => y >>= next sc := by
  have := (const h).bind (fun a _ => hn a) fun x a => (hn a).late x
  rwa [Bool.false_or] at this

/-- A run after a record. -/
theorem after_record {asks : Bool} {run : Scope → Logged SiteError α} (record : LogRecord)
    (h : Reports asks run) :
    Reports asks fun sc => (⟨[record], .ok ()⟩ : Logged SiteError Unit) >>= fun _ => run sc := by
  have hrecord (x : String) : Late x (⟨[record], .ok ()⟩ : Logged SiteError Unit) :=
    .of_log_ne_nil (List.cons_ne_nil record [])
  refine after (p := fun _ => asks) hrecord fun _ => ?_
  exact h

/-- Something after a run that does not see the scope. -/
theorem map {asks : Bool} {run : Scope → Logged SiteError α} (h : Reports asks run) (f : α → β) :
    Reports asks fun sc => run sc >>= fun a => pure (f a) := by
  have hpure (a : α) : Reports false fun _ => (pure (f a) : Logged SiteError β) :=
    const fun x => .pure x _
  have := h.bind (fun a _ => hpure a) fun x a => .pure x _
  have hfalse : okAnd (run Scope.empty).result (fun _ => false) = false := by
    cases (run Scope.empty).result <;> rfl
  rwa [hfalse, Bool.or_false] at this

end Reports

end StaticSite
