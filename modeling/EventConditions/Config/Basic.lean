import EventConditions.Condition
import EventConditions.Error
import EventConditions.Matcher

/-!
# Configurations

A configuration lists matchers and conditions, both in index order, and bounds their numbers.
-/

namespace EventConditions

/-- Upper bounds on the size of a configuration. -/
structure Limits where
  maxMatchers : UInt64 := 500
  maxConditions : UInt64 := 300
  /-- How many slices a simple condition may hold at once. -/
  maxSlices : UInt64 := 800
  deriving DecidableEq

/-- Everything a pipeline is built from. -/
structure Config where
  matchers : List Matcher := []
  conditions : List Condition := []
  limits : Limits := {}
  deriving DecidableEq

/-- Checks the numbers of matchers and conditions against the limits, matchers first. -/
def Config.validate (c : Config) : Except Error Unit :=
  let matchers := c.matchers.length
  let conditions := c.conditions.length
  if c.limits.maxMatchers.toNat < matchers then
    .error { cause := .tooManyMatchers c.limits.maxMatchers.toNat matchers }
  else if c.limits.maxConditions.toNat < conditions then
    .error { cause := .tooManyConditions c.limits.maxConditions.toNat conditions }
  else .ok ()

end EventConditions
