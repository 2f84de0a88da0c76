import EventConditions.Error
import EventConditions.Event
import EventConditions.Log
import EventConditions.NameIndex
import EventConditions.State

/-!
# Matchers

A matcher looks at one event on its own: it asks for a tag and for predicates on single fields. The
matchers of a configuration form a `MatcherSet`, in which each has a name of its own and the index
of its position. The set gives one verdict per matcher for every event.
-/

namespace EventConditions

/-- A test of one event field. A missing field passes neither test. -/
inductive Predicate where
  /-- The field is there and has the value. -/
  | equals (field : FieldId) (value : Value)
  /-- The field is there and has another value. -/
  | differs (field : FieldId) (value : Value)
  deriving DecidableEq

/-- The event passes the test. -/
def Predicate.test (e : Event) : Predicate → Bool
  | .equals field value => e.get? field == some value
  | .differs field value =>
    match e.get? field with
    | some v => v != value
    | none => false

/-- A named test of whole events. -/
structure Matcher where
  name : String
  /-- The tag an event must have. -/
  tag : UInt32
  /-- The tests on its fields, all of which it must pass. -/
  predicates : List Predicate := []
  deriving DecidableEq

/-- What the matcher says about an event. -/
def Matcher.verdict (m : Matcher) (e : Event) : Verdict :=
  .ofBool (e.tag == m.tag && m.predicates.all (Predicate.test e))

/-- Matchers with distinct names, in index order. -/
structure MatcherSet where
  matchers : List Matcher := []
  distinct : (matchers.map Matcher.name).Nodup := by simp

namespace MatcherSet

/-- The set of the given matchers, in the order given. The first repeated name is refused. -/
def ofList (matchers : List Matcher) : Logged Error MatcherSet :=
  match h : firstRepeated? [] (matchers.map Matcher.name) with
  | some name => do
    Logged.log .warn s!"duplicate matcher {name}"
    Logged.fail { cause := .duplicateMatcher name }
  | none => pure ⟨matchers, firstRepeated?_nil_eq_none_iff.1 h⟩

/-- The number of matchers. -/
def size (s : MatcherSet) : Nat :=
  s.matchers.length

/-- The index of each matcher's name. -/
def names (s : MatcherSet) : NameIndex :=
  .ofNames (s.matchers.map Matcher.name)

/-- The matcher of the given name, with its index. -/
def get? (s : MatcherSet) (name : String) : Option (Nat × Matcher) :=
  match s.names.get? name with
  | some i => s.matchers[i]?.map (i, ·)
  | none => none

/-- Some matcher asks for the tag. -/
def listensTo (s : MatcherSet) (tag : UInt32) : Bool :=
  s.matchers.any (·.tag == tag)

/-- Every matcher's verdict on an event, in index order. -/
def verdicts (s : MatcherSet) (e : Event) : Array Verdict :=
  (s.matchers.map (·.verdict e)).toArray

/-- Computes the verdicts and logs how many matchers matched. -/
def judge {ε : Type} (s : MatcherSet) (e : Event) : Logged ε (Array Verdict) := do
  let verdicts := s.verdicts e
  let matched := verdicts.toList.countP Verdict.isMatched
  Logged.log .trace s!"tag {e.tag} matched {matched} of {s.size} matchers"
  return verdicts

end MatcherSet

end EventConditions
