import StaticSite.Document.Basic

/-!
What a caller is asked for.

Articles are found once, and then a caller is asked for each of them, up to its first failure. What it
answers may hang on all that it has been asked before, but not on the document. Proved here, for every
caller:

* `ask_recording`: it is asked for the first articles, each once, in their order;
* `ask_logged`: one that remembers nothing but leaves records answers for each article by itself;
* `embedEach_eq`: asking while a document grows comes to asking first, and appending the answers after
  that, by induction on the articles.
-/

namespace StaticSite

/-! ## Callers -/

/-- What comes of asking a caller for articles. -/
structure Asked (ε σ : Type) where
  state : σ
  /-- The answers before the first failure. -/
  answers : List (Option String)
  failure : Option ε

namespace Caller

variable {ε σ : Type}

/-- Asks for articles one after another, up to the first failure. -/
def ask (caller : Caller ε σ) (s : σ) : List String → Asked ε σ
  | [] => ⟨s, [], none⟩
  | id :: rest =>
    match caller s id with
    | (s, .error e) => ⟨s, [], some e⟩
    | (s, .ok answer) =>
      let asked := ask caller s rest
      { asked with answers := answer :: asked.answers }

/-- A caller that also writes down what it is asked for. -/
def recording (caller : Caller ε σ) : Caller ε (σ × List String) := fun (s, ids) id =>
  let (s, answer) := caller s id
  ((s, ids ++ [id]), answer)

end Caller

namespace Asked

variable {ε σ : Type}

/-- The number of articles for which content was given. -/
def count (asked : Asked ε σ) : Except ε Nat :=
  match asked.failure with
  | some e => .error e
  | none => .ok (asked.answers.countP Option.isSome)

/-- The answers, if there was no failure. -/
def outcome (asked : Asked ε σ) : Except ε (List (Option String)) :=
  match asked.failure with
  | some e => .error e
  | none => .ok asked.answers

/-- How often the caller was asked. -/
def questions (asked : Asked ε σ) : Nat :=
  asked.answers.length + if asked.failure.isSome then 1 else 0

theorem count_cons (asked : Asked ε σ) (answer : Option String) :
    count { asked with answers := answer :: asked.answers } =
      asked.count.map (· + if answer.isSome then 1 else 0) := by
  unfold count
  dsimp only
  cases asked.failure with
  | some e => rfl
  | none => exact congrArg Except.ok List.countP_cons

theorem count_eq (asked : Asked ε σ) :
    asked.count = asked.outcome.map fun answers => answers.countP Option.isSome := by
  unfold count outcome
  cases asked.failure <;> rfl

theorem answers_of_outcome {asked : Asked ε σ} {answers : List (Option String)}
    (h : asked.outcome = .ok answers) : asked.answers = answers := by
  unfold outcome at h
  split at h
  · cases h
  · exact Except.ok.inj h

theorem outcome_cons (asked : Asked ε σ) (answer : Option String) :
    outcome { asked with answers := answer :: asked.answers } =
      asked.outcome.map (answer :: ·) := by
  unfold outcome
  dsimp only
  cases asked.failure <;> rfl

end Asked

namespace Caller

variable {ε σ : Type} {caller : Caller ε σ} {s s' : σ} {id : String} {rest : List String}

theorem ask_cons_error {e : ε} (h : caller s id = (s', .error e)) :
    caller.ask s (id :: rest) = ⟨s', [], some e⟩ := by
  rw [ask, h]

theorem ask_cons_ok {answer : Option String} (h : caller s id = (s', .ok answer)) :
    caller.ask s (id :: rest) =
      { caller.ask s' rest with answers := answer :: (caller.ask s' rest).answers } := by
  rw [ask, h]

/-- A caller is asked for the first articles, each once. -/
theorem ask_recording (caller : Caller ε σ) (s : σ) (ids before : List String) :
    (caller.recording.ask (s, before) ids).state =
      ((caller.ask s ids).state, before ++ ids.take (caller.ask s ids).questions) := by
  induction ids generalizing s before with
  | nil => simp [ask]
  | cons id rest ih =>
    rcases hcaller : caller s id with ⟨s', e | answer⟩
    · have hrecording : caller.recording (s, before) id = ((s', before ++ [id]), .error e) := by
        simp only [recording, hcaller]
      rw [ask_cons_error hcaller, ask_cons_error hrecording]
      rfl
    · have hrecording : caller.recording (s, before) id = ((s', before ++ [id]), .ok answer) := by
        simp only [recording, hcaller]
      rw [ask_cons_ok hcaller, ask_cons_ok hrecording]
      dsimp only
      rw [ih, Asked.questions, Asked.questions, List.length_cons, Nat.add_right_comm,
        List.take_succ_cons, List.append_assoc, List.singleton_append]

/-- A caller that remembers nothing answers for each article by itself. -/
theorem ask_logged (content : String → Logged ε (Option String)) (log : List LogRecord)
    (ids : List String) :
    ((logged content).ask log ids).outcome = ids.mapM fun id => (content id).result := by
  induction ids generalizing log with
  | nil => rfl
  | cons id rest ih =>
    rw [List.mapM_cons]
    cases hcontent : (content id).result with
    | error e =>
      have hcaller : logged content log id = (log ++ (content id).log, .error e) := by
        rw [logged, hcontent]
      rw [ask_cons_error hcaller]
      rfl
    | ok answer =>
      have hcaller : logged content log id = (log ++ (content id).log, .ok answer) := by
        rw [logged, hcontent]
      rw [ask_cons_ok hcaller, Asked.outcome_cons, ih]
      cases rest.mapM fun id => (content id).result <;> rfl

end Caller

/-! ## Asking and appending -/

section

variable {ε σ δ : Type}

/-- Appends answers to their articles, in order. -/
def appendAnswers (append : δ → Nat → String → δ) (d : δ) (answered : List (Nat × Option String)) :
    δ :=
  answered.foldl (fun d x => (x.2.map (append d x.1)).getD d) d

/-- **Asking** does not hang on the document: the answers may as well be appended when all of them
are there. -/
theorem embedEach_eq (append : δ → Nat → String → δ) (caller : Caller ε σ)
    (articles : List (Nat × String)) (s : σ) (d : δ) :
    let asked := caller.ask s (articles.map Prod.snd)
    embedEach append caller articles s d =
      (appendAnswers append d ((articles.map Prod.fst).zip asked.answers), asked.state,
        asked.count) := by
  induction articles generalizing s d with
  | nil => rfl
  | cons x rest ih =>
    obtain ⟨article, id⟩ := x
    rw [List.map_cons, List.map_cons]
    rcases hcaller : caller s id with ⟨s', e | answer⟩
    · rw [Caller.ask_cons_error hcaller, embedEach, hcaller]
      rfl
    · rw [Caller.ask_cons_ok hcaller, embedEach, hcaller]
      dsimp only
      rw [ih, Asked.count_cons]
      rfl

end

end StaticSite
