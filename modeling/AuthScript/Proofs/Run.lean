import AuthScript.Resolution.Run

/-!
# Laws of runs

A run gives a value exactly when every part of it does, so `bind_eq_ok` takes a run
apart from the outside in. What holds of two runs all along is a `Link`: a relation
between runs that sequencing keeps. A property of single runs that sequencing keeps
is the link of equal runs that have it (`Link.having`).
-/

namespace AuthScript

instance decidableEqExcept {ε α : Type} [DecidableEq ε] [DecidableEq α] : DecidableEq (Except ε α)
  | .ok a, .ok b => decidable_of_iff (a = b) (by simp)
  | .error a, .error b => decidable_of_iff (a = b) (by simp)
  | .ok _, .error _ => isFalse (by simp)
  | .error _, .ok _ => isFalse (by simp)

theorem except_isSome_iff {ε α : Type} {x : Except ε α} :
    x.toOption.isSome = true ↔ ∃ a, x = .ok a := by
  cases x <;> simp [Except.toOption]

theorem except_bind_eq_ok {ε α β : Type} {x : Except ε α} {f : α → Except ε β} {b : β} :
    x >>= f = .ok b ↔ ∃ a, x = .ok a ∧ f a = .ok b := by
  cases x with
  | error e => simp [bind, Except.bind]
  | ok a => simp [bind, Except.bind]

theorem except_map_eq_ok {ε α β : Type} {x : Except ε α} {f : α → β} {b : β} :
    f <$> x = .ok b ↔ ∃ a, x = .ok a ∧ f a = b := by
  cases x with
  | error e => simp [Functor.map, Except.map]
  | ok a => simp [Functor.map, Except.map]

theorem except_mapError_eq_ok {ε δ α : Type} {x : Except ε α} {f : ε → δ} {a : α} :
    x.mapError f = .ok a ↔ x = .ok a := by
  cases x with
  | error e =>
      have mapped : (Except.error e : Except ε α).mapError f = .error (f e) := rfl
      simp [mapped]
  | ok b =>
      have mapped : (Except.ok b : Except ε α).mapError f = .ok b := rfl
      simp [mapped]

theorem except_mapError_eq_error {ε δ α : Type} {x : Except ε α} {f : ε → δ} {d : δ} :
    x.mapError f = .error d ↔ ∃ e, x = .error e ∧ f e = d := by
  cases x with
  | error e =>
      have mapped : (Except.error e : Except ε α).mapError f = .error (f e) := rfl
      simp [mapped]
  | ok b =>
      have mapped : (Except.ok b : Except ε α).mapError f = .ok b := rfl
      simp [mapped]

theorem Event.steps_append (events events' : List Event) :
    steps (events ++ events') = steps events ++ steps events' := by
  simp [steps]

theorem Event.tree?_append (events events' : List Event) :
    tree? (events ++ events') = (tree? events).or (tree? events') :=
  List.findSome?_append

/-- The places at which scripts are entered, in order. -/
def Event.entries (events : List Event) : List Place :=
  events.filterMap fun
    | .entry place => some place
    | _ => none

theorem Event.mem_entries {events : List Event} {p : Place} :
    p ∈ entries events ↔ .entry p ∈ events := by
  unfold entries
  rw [List.mem_filterMap]
  constructor
  · rintro ⟨event, hevent, h⟩
    cases event with
    | entry place => exact Option.some.inj h ▸ hevent
    | line l => cases h
    | tree nodes => cases h
    | step s => cases h
  · intro h
    exact ⟨_, h, rfl⟩

namespace Run

theorem done_bind {α β : Type} (a : α) (f : α → Run β) : done a >>= f = f a := rfl

theorem fail_bind {α β : Type} (cause : Cause) (range : Range) (f : α → Run β) :
    fail cause range >>= f = fail cause range := rfl

theorem result_bind {α β : Type} (r : Run α) (f : α → Run β) :
    (r >>= f).result = r.result.bind fun a => (f a).result := by
  obtain ⟨events, result⟩ := r
  cases result <;> rfl

theorem bind_eq_ok {α β : Type} {r : Run α} {f : α → Run β} {b : β} :
    (r >>= f).result = .ok b ↔ ∃ a, r.result = .ok a ∧ (f a).result = .ok b := by
  rw [result_bind]
  cases h : r.result with
  | error e => simp [Except.bind]
  | ok a => simp [Except.bind]

theorem bind_eq_error {α β : Type} {r : Run α} {f : α → Run β} {h : Halt} :
    (r >>= f).result = .error h ↔
      r.result = .error h ∨ ∃ a, r.result = .ok a ∧ (f a).result = .error h := by
  rw [result_bind]
  cases hr : r.result with
  | error e => simp [Except.bind]
  | ok a => simp [Except.bind]

theorem mem_events_bind {α β : Type} {r : Run α} {f : α → Run β} {e : Event} :
    e ∈ (r >>= f).events ↔
      e ∈ r.events ∨ ∃ a, r.result = .ok a ∧ e ∈ (f a).events := by
  obtain ⟨events, result⟩ := r
  cases result with
  | error h => simp [bind_error]
  | ok a => simp [bind_ok]

@[simp] theorem result_done {α : Type} (a : α) : (done a).result = .ok a := rfl

@[simp] theorem result_fail {α : Type} (cause : Cause) (range : Range) :
    (fail cause range : Run α).result = .error (.failed ⟨cause, range, [], []⟩) := rfl

@[simp] theorem result_tell (level : Log.Level) (category : Log.Category) (message : Bytes) :
    (tell level category message).result = .ok () := rfl

@[simp] theorem result_tree (nodes : List Node) : (tree nodes).result = .ok () := rfl

@[simp] theorem result_ofLogged {α : Type} (l : Logged α) : (ofLogged l).result = .ok l.value := rfl

theorem ofExcept_eq_ok {α : Type} {e : Except CompileError α} {a : α} :
    (ofExcept e).result = .ok a ↔ e = .ok a := by
  cases e <;> simp [ofExcept]

theorem within_eq_ok {α : Type} {r : Run α} {id : Bytes} {a : α} :
    (r.within id).result = .ok a ↔ r.result = .ok a := by
  obtain ⟨events, result⟩ := r
  cases result with
  | ok b => rfl
  | error h => cases h <;> simp [within]

@[simp] theorem events_within {α : Type} (r : Run α) (id : Bytes) :
    (r.within id).events = r.events := by
  obtain ⟨events, result⟩ := r
  cases result with
  | ok b => rfl
  | error h => cases h <;> rfl

theorem within_eq_failed {α : Type} {r : Run α} {id : Bytes} {e : CompileError} :
    (r.within id).result = .error (.failed e) ↔
      ∃ own, r.result = .error (.failed own) ∧ own.within id = e := by
  obtain ⟨events, result⟩ := r
  cases result with
  | ok b => simp [within]
  | error h => cases h <;> simp [within]

/-- A relation between runs that is kept by running one thing after another. The
second parts need to be related only where both first parts give the same value. -/
structure Link where
  Rel : {α : Type} → Run α → Run α → Prop
  done : ∀ {α : Type} (a : α), Rel (.done a) (.done a)
  bind : ∀ {α β : Type} {r r' : Run α} {f f' : α → Run β}, Rel r r' →
    (∀ a, r.result = .ok a → r'.result = .ok a → Rel (f a) (f' a)) → Rel (r >>= f) (r' >>= f')

/-- Equal runs. -/
def Link.equal : Link where
  Rel r r' := r = r'
  done _ := rfl
  bind := by
    intro α β r r' f f' hr hf
    subst hr
    obtain ⟨events, result⟩ := r
    cases result with
    | error h => rfl
    | ok a => rw [bind_ok, bind_ok, hf a rfl rfl]

/-- Equal runs with a property that sequencing keeps. -/
def Link.having (P : {α : Type} → Run α → Prop) (done : ∀ {α : Type} (a : α), P (.done a))
    (bind : ∀ {α β : Type} {r : Run α} {f : α → Run β}, P r →
      (∀ a, r.result = .ok a → P (f a)) → P (r >>= f)) : Link where
  Rel r r' := r = r' ∧ P r
  done a := ⟨rfl, done a⟩
  bind := by
    rintro α β r _ f f' ⟨rfl, hr⟩ hf
    have same : r >>= f = r >>= f' := Link.equal.bind rfl fun a ha _ => (hf a ha ha).1
    exact ⟨same, bind hr fun a ha => (hf a ha ha).2⟩

end Run

end AuthScript
