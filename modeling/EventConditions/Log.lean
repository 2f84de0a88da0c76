/-!
# Actions that log

An action ends with a value or fails, and in both cases leaves the records it logged up to then.
`Logged` keeps the two apart: `records` only grows along a sequence of actions, and `result` is what
the same sequence gives in `Except` when nobody listens. The lemmas `result_pure`, `result_bind` and
their kin say so; with them a statement about results never mentions records.
-/

namespace EventConditions

/-- How severe a record is. -/
inductive Level where
  | error
  | warn
  | info
  | debug
  | trace
  deriving DecidableEq

namespace Level

/-- The rank of a level; the most severe one comes first. -/
def rank : Level → Nat
  | .error => 0
  | .warn => 1
  | .info => 2
  | .debug => 3
  | .trace => 4

/-- The level's name in a log. -/
def text : Level → String
  | .error => "ERROR"
  | .warn => "WARN"
  | .info => "INFO"
  | .debug => "DEBUG"
  | .trace => "TRACE"

end Level

/-- One line of a log. -/
structure Record where
  level : Level
  text : String
  deriving DecidableEq

/-- The records that a reader of the given level sees: those of that level and the more severe
ones. -/
def Record.visibleAt (level : Level) (records : List Record) : List Record :=
  records.filter fun r => r.level.rank ≤ level.rank

/-- What an action leaves behind: the records it logged, in order, and its value or failure. -/
structure Logged (ε α : Type) where
  records : List Record
  result : Except ε α

@[simp] theorem ok_bind {ε α β : Type} (a : α) (f : α → Except ε β) :
    (Except.ok a >>= f) = f a := rfl

@[simp] theorem error_bind {ε α β : Type} (e : ε) (f : α → Except ε β) :
    (Except.error e >>= f) = .error e := rfl

/-- A sequence of two steps gives a value exactly when both do. -/
theorem bind_eq_ok_iff {ε α β : Type} {x : Except ε α} {f : α → Except ε β} {b : β} :
    (x >>= f) = .ok b ↔ ∃ a, x = .ok a ∧ f a = .ok b := by
  cases x <;> simp

/-- A map of which each step gives a value gives the list of the values. -/
theorem mapM_eq_pure {m : Type → Type} [Monad m] [LawfulMonad m] {α β : Type} {f : α → m β}
    {value : α → β} {xs : List α} (h : ∀ x ∈ xs, f x = pure (value x)) :
    xs.mapM f = pure (xs.map value) := by
  induction xs with
  | nil => rfl
  | cons x rest ih =>
    rw [List.mapM_cons, h x List.mem_cons_self, pure_bind,
      ih fun y hy => h y (List.mem_cons_of_mem x hy), pure_bind, List.map_cons]

namespace Logged

variable {ε ε' α β : Type}

/-- Runs one action and then, unless it failed, the next one on its value. -/
def andThen (x : Logged ε α) (f : α → Logged ε β) : Logged ε β :=
  match x.result with
  | .ok a => ⟨x.records ++ (f a).records, (f a).result⟩
  | .error e => ⟨x.records, .error e⟩

instance : Monad (Logged ε) where
  pure a := ⟨[], .ok a⟩
  bind := andThen

/-- Logs one record. -/
def log (level : Level) (text : String) : Logged ε Unit :=
  ⟨[⟨level, text⟩], .ok ()⟩

/-- Logs the given records. -/
def logAll (records : List Record) : Logged ε Unit :=
  ⟨records, .ok ()⟩

/-- Fails without logging. -/
def fail (e : ε) : Logged ε α :=
  ⟨[], .error e⟩

/-- An outcome that was reached silently. -/
def ofExcept (x : Except ε α) : Logged ε α :=
  ⟨[], x⟩

/-- Makes the failure of an action a value. -/
def attempt (x : Logged ε α) : Logged ε' (Except ε α) :=
  ⟨x.records, .ok x.result⟩

@[simp] theorem result_pure (a : α) : (pure a : Logged ε α).result = .ok a := rfl

@[simp] theorem result_bind (x : Logged ε α) (f : α → Logged ε β) :
    (x >>= f).result = x.result >>= fun a => (f a).result := by
  obtain ⟨records, result⟩ := x
  cases result <;> rfl

/-- After an action that gave a value, the result is that of the next action on it. -/
theorem result_bind_of_ok {x : Logged ε α} {a : α} (h : x.result = .ok a) (f : α → Logged ε β) :
    (x >>= f).result = (f a).result := by
  rw [result_bind, h]
  rfl

/-- A sequence of two actions gives a value exactly when both do. -/
theorem result_bind_eq_ok_iff {x : Logged ε α} {f : α → Logged ε β} {b : β} :
    (x >>= f).result = .ok b ↔ ∃ a, x.result = .ok a ∧ (f a).result = .ok b := by
  constructor
  · intro h
    cases hx : x.result with
    | error e =>
      rw [result_bind, hx] at h
      cases h
    | ok a => exact ⟨a, rfl, result_bind_of_ok hx f ▸ h⟩
  · rintro ⟨a, hx, hf⟩
    rw [result_bind_of_ok hx, hf]

/-- A sequence of two actions fails exactly when the first one does, or gives a value on which the
second one does. -/
theorem result_bind_eq_error_iff {x : Logged ε α} {f : α → Logged ε β} {e : ε} :
    (x >>= f).result = .error e ↔
      x.result = .error e ∨ ∃ a, x.result = .ok a ∧ (f a).result = .error e := by
  rw [result_bind]
  cases x.result <;> simp

@[simp] theorem result_map (f : α → β) (x : Logged ε α) :
    (f <$> x).result = f <$> x.result := by
  obtain ⟨records, result⟩ := x
  cases result <;> rfl

@[simp] theorem result_log (level : Level) (text : String) :
    (log level text : Logged ε Unit).result = .ok () := rfl

@[simp] theorem result_logAll (records : List Record) :
    (logAll records : Logged ε Unit).result = .ok () := rfl

@[simp] theorem result_fail (e : ε) : (fail e : Logged ε α).result = .error e := rfl

@[simp] theorem result_ofExcept (x : Except ε α) : (ofExcept x).result = x := rfl

@[simp] theorem result_attempt (x : Logged ε α) :
    (attempt x : Logged ε' (Except ε α)).result = .ok x.result := rfl

end Logged

end EventConditions
