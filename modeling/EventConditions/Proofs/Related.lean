import EventConditions.Log

/-!
# Related actions

Two actions are related by what they end with: they log the same records, and either fail in the
same way or give values that a relation `R` holds of (`Logged.Rel R`). Sequences of related actions
are related again (`Logged.Rel.bind`), so two runs are compared step by step, and what has to be
found is the relation between their states.
-/

namespace EventConditions

namespace Logged

variable {ε α β α' β' : Type}

/-- Actions that log the same, and fail alike or give values that `R` relates. -/
inductive Rel (R : α → β → Prop) : Logged ε α → Logged ε β → Prop
  | ok {records a b} : R a b → Rel R ⟨records, .ok a⟩ ⟨records, .ok b⟩
  | error {records e} : Rel R ⟨records, .error e⟩ ⟨records, .error e⟩

/-- States that `R` relates, with the same outcome. -/
structure SameOutcome {γ : Type} (R : α → β → Prop) (s : α × γ) (t : β × γ) : Prop where
  state : R s.1 t.1
  outcome : t.2 = s.2

namespace Rel

variable {R : α → β → Prop} {S : α' → β' → Prop} {x : Logged ε α} {y : Logged ε β}

theorem pure {a : α} {b : β} (h : R a b) :
    Rel R (Pure.pure a : Logged ε α) (Pure.pure b : Logged ε β) :=
  .ok h

theorem refl (x : Logged ε α) : Rel Eq x x := by
  obtain ⟨records, _ | a⟩ := x
  · exact .error
  · exact .ok rfl

/-- Related actions, each followed by what is related if their values are. -/
theorem bind {f : α → Logged ε α'} {g : β → Logged ε β'} (h : Rel R x y)
    (hnext : ∀ a b, R a b → Rel S (f a) (g b)) : Rel S (x >>= f) (y >>= g) := by
  cases h with
  | error => exact .error
  | @ok records a b hab =>
    have hfg := hnext a b hab
    show Rel S ⟨records ++ (f a).records, (f a).result⟩ ⟨records ++ (g b).records, (g b).result⟩
    generalize f a = s at hfg ⊢
    generalize g b = t at hfg ⊢
    cases hfg with
    | ok hst => exact .ok hst
    | error => exact .error

/-- Two actions after the same one. -/
theorem after {z : Logged ε α} {f : α → Logged ε α'} {g : α → Logged ε β'}
    (h : ∀ a, Rel S (f a) (g a)) : Rel S (z >>= f) (z >>= g) :=
  (refl z).bind fun a _ hab => hab ▸ h a

/-- A last step that only changes the form of a value. -/
theorem pure_right {T : α → β' → Prop} {g : β → β'} (h : Rel R x y)
    (hg : ∀ a b, R a b → T a (g b)) : Rel T x (y >>= fun b => Pure.pure (g b)) := by
  cases h with
  | error => exact .error
  | @ok records a b hab =>
    show Rel T ⟨records, .ok a⟩ ⟨records ++ [], .ok (g b)⟩
    rw [List.append_nil]
    exact .ok (hg a b hab)

/-- An action that is related to one that gives a value gives one too. -/
theorem exists_ok (h : Rel R x y) {a : α} (hx : x.result = .ok a) :
    ∃ b, y.result = .ok b ∧ R a b := by
  cases h with
  | error => cases hx
  | ok hab =>
    cases hx
    exact ⟨_, rfl, hab⟩

/-- What is the same of related values is the same of the results. -/
theorem map_eq {γ : Type} {f : α → γ} {g : β → γ} (h : Rel R x y) (hfg : ∀ a b, R a b → g b = f a) :
    y.result.map g = x.result.map f := by
  cases h with
  | error => rfl
  | ok hab => exact congrArg Except.ok (hfg _ _ hab)

end Rel

end Logged

end EventConditions
