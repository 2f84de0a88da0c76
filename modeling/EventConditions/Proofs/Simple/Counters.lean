import EventConditions.Proofs.Graph.Sweep
import EventConditions.Proofs.Slices

/-!
# Slices are independent counters

A simple condition by itself, fed one event after the other. It keeps a table of counts, into which
slices are put and from which they are erased. As long as no start is dropped, that table does what
one counter for every key there is would do, each looking only at the events that concern its own
key and at those that stop all (`Simple.count_takeAll`).

The argument is one step long: what serving a request does to one count is told by that count alone
(`Simple.count_serve`). A run follows by induction. Two things could still come between the table
and the counters, a stored count of zero and a count that is cut off; there is none of the former
(`Slices.Counted`), and it takes more events than there are for the latter.
-/

namespace EventConditions

/-! ## A simple condition by itself -/

/-- An event with the verdicts on it. -/
structure Judged where
  event : Event
  verdicts : Array Verdict

namespace Simple

/-- There is a verdict on every matcher that the condition reads. -/
def Covered (s : Simple) (x : Judged) : Prop :=
  ∀ m ∈ s.matchers, m < x.verdicts.size

instance (s : Simple) (x : Judged) : Decidable (s.Covered x) :=
  inferInstanceAs (Decidable (∀ m ∈ s.matchers, _))

/-- Takes one event, and tells what it did. -/
def take (s : Simple) (x : Judged) : Except Fault (Simple × Outcome) := do
  let request ← s.request x.event x.verdicts
  return s.serve request

/-- Takes events in order, and tells what each of them did. -/
def takeAll (s : Simple) : List Judged → Except Fault (Simple × List Outcome)
  | [] => .ok (s, [])
  | x :: rest => do
    let (s, outcome) ← s.take x
    let (s, outcomes) ← takeAll s rest
    return (s, outcome :: outcomes)

/-- In a pass, a simple condition takes the event by itself. -/
theorem turn_eq_take {n : Nat} {sweep : Sweep n} {i : Fin n} {x : Resolved n} {s : Simple}
    (hx : (sweep.nodes.entry i).resolved? = some x) (hrule : x.rule = .simple s) (e : Event)
    (verdicts : Array Verdict) :
    (sweep.turn e verdicts i).result = do
      let (s, outcome) ← s.take ⟨e, verdicts⟩
      return sweep.settle i (.simple s) (outcome.state.getD x.aggregate) outcome.slicesMoved := by
  rw [Sweep.turn, hx, take]
  simp only [hrule, Logged.result_bind, Logged.result_ofExcept, Logged.result_logAll]
  cases s.request e verdicts <;> rfl

variable {s t : Simple} {x : Judged} {key : Key}

theorem take_eq_ok_iff {outcome : Outcome} : s.take x = .ok (t, outcome) ↔
    ∃ request, s.request x.event x.verdicts = .ok request ∧ s.serve request = (t, outcome) := by
  rw [take, bind_eq_ok_iff]
  exact exists_congr fun request => and_congr_right fun _ => by
    constructor
    · exact Except.ok.inj
    · exact congrArg Except.ok

theorem takeAll_cons_eq_ok_iff {rest : List Judged} {outcomes : List Outcome} :
    s.takeAll (x :: rest) = .ok (t, outcomes) ↔ ∃ request others,
      s.request x.event x.verdicts = .ok request ∧
      (s.serve request).1.takeAll rest = .ok (t, others) ∧
      outcomes = (s.serve request).2 :: others := by
  rw [takeAll, bind_eq_ok_iff]
  constructor
  · rintro ⟨⟨s₁, outcome⟩, htake, h⟩
    obtain ⟨request, hrequest, hserve⟩ := take_eq_ok_iff.1 htake
    obtain ⟨⟨t₁, others⟩, hrest, h⟩ := bind_eq_ok_iff.1 h
    obtain ⟨rfl, rfl⟩ := Prod.mk.inj (Except.ok.inj h)
    exact ⟨request, others, hrequest, by rwa [hserve], by rw [hserve]⟩
  · rintro ⟨request, others, hrequest, hrest, rfl⟩
    refine ⟨s.serve request, take_eq_ok_iff.2 ⟨request, hrequest, rfl⟩, ?_⟩
    exact bind_eq_ok_iff.2 ⟨(t, others), hrest, rfl⟩

/-- What reads only the settings is the same after a request. -/
theorem covered_serve (request : Request) : (s.serve request).1.Covered x ↔ s.Covered x := by
  rw [serve_fst]
  rfl

/-! ## Starts that are dropped -/

/-- The request is a start for which there is no room. -/
def Drops (s : Simple) : Request → Prop
  | .start key => s.slices.drops s.maxSlices key = true
  | _ => False

instance (s : Simple) : (request : Request) → Decidable (s.Drops request)
  | .start _ => inferInstanceAs (Decidable (_ = true))
  | .nothing | .sliceless | .stop _ | .stopAll => inferInstanceAs (Decidable False)

/-- No start among the events is dropped. -/
def DropsNone (s : Simple) : List Judged → Prop
  | [] => True
  | x :: rest => ∀ request, s.request x.event x.verdicts = .ok request →
      ¬ s.Drops request ∧ (s.serve request).1.DropsNone rest

instance decidableDropsNone : (s : Simple) → (history : List Judged) → Decidable (s.DropsNone history)
  | _, [] => inferInstanceAs (Decidable True)
  | s, x :: rest =>
    match hrequest : s.request x.event x.verdicts with
    | .error _ => .isTrue fun _ h => nomatch hrequest.symm.trans h
    | .ok request =>
      have := decidableDropsNone (s.serve request).1 rest
      decidable_of_iff (¬ s.Drops request ∧ (s.serve request).1.DropsNone rest)
        ⟨fun h _ h' => Except.ok.inj (hrequest.symm.trans h') ▸ h, fun h => h request hrequest⟩

/-- A request makes one slice more at most. -/
theorem size_serve_le (request : Request) : (s.serve request).1.slices.size ≤ s.slices.size + 1 := by
  cases request with
  | nothing => exact Nat.le_succ _
  | sliceless => exact Nat.le_succ _
  | start key => exact Slices.size_start_le
  | stop key => exact Nat.le_succ_of_le Slices.size_stop_le
  | stopAll => exact Nat.zero_le _

/-- Where there is room for one more slice, no start is dropped. -/
theorem not_drops_of_size_lt (h : s.slices.size < s.maxSlices) (request : Request) :
    ¬ s.Drops request := by
  cases request with
  | start key => simp [Drops, Slices.drops, h]
  | _ => exact not_false

/-- Where there is room for a slice per event, no start is dropped. -/
theorem dropsNone_of_size_add_length_le {history : List Judged}
    (h : s.slices.size + history.length ≤ s.maxSlices) : s.DropsNone history := by
  induction history generalizing s with
  | nil => trivial
  | cons x rest ih =>
    intro request _
    rw [List.length_cons] at h
    have hsize := s.size_serve_le request
    refine ⟨not_drops_of_size_lt (by omega) request, ih ?_⟩
    have hlimit : (s.serve request).1.maxSlices = s.maxSlices := by rw [serve_fst]
    omega

/-! ## One counter -/

/-- What serving a request makes of the count of one slice. -/
def recount (s : Simple) (key : Key) : Request → Nat → Nat
  | .nothing, count => count
  | .sliceless, count => count
  | .start started, count => if key = started then Slices.raised s.countNesting count else count
  | .stop stopped, count => if key = stopped then Slices.lowered s.countNesting count else count
  | .stopAll, _ => 0

/-- What is served changes the count of each slice by itself, unless it is a start that is
dropped. -/
theorem count_serve (hcounted : s.slices.Counted) {request : Request} (hroom : ¬ s.Drops request) :
    (s.serve request).1.slices.count key = s.recount key request (s.slices.count key) := by
  cases request with
  | nothing => rfl
  | sliceless => rfl
  | start started =>
    refine (hcounted.count_start (Bool.eq_false_iff.2 hroom)).trans ?_
    exact ite_congr rfl (fun hkey => by rw [hkey]) fun _ => rfl
  | stop stopped =>
    refine Slices.count_stop.trans ?_
    exact ite_congr rfl (fun hkey => by rw [hkey]) fun _ => rfl
  | stopAll => rfl

/-- What an event does to the counter of one key. A stop of all keys sets it to zero. Of the other
events it looks only at those of its own key, where a stop goes before a start. -/
def counter (s : Simple) (key : Key) (count : Nat) (x : Judged) : Nat :=
  let matched := matchedIn x.verdicts
  if s.stopAll.any matched then 0
  else if x.event.key? s.dimensions = some key then
    if s.stop.any matched then if s.countNesting then count - 1 else 0
    else if s.start.any matched then
      if count = 0 then 1 else if s.countNesting then count + 1 else count
    else count
  else count

theorem counter_serve (request : Request) : (s.serve request).1.counter = s.counter := by
  rw [serve_fst]
  rfl

/-- One event raises a counter by one at most. -/
theorem counter_le (key : Key) (count : Nat) (x : Judged) : s.counter key count x ≤ count + 1 := by
  unfold counter
  dsimp only
  split_ifs <;> omega

/-- The counter does what is asked of the condition, while no count is cut off. -/
theorem recount_asked {count : Nat} (hlow : count < Slices.maxCount) :
    s.recount key (s.asked x.event (matchedIn x.verdicts)) count = s.counter key count x := by
  have hraised : Slices.raised s.countNesting count =
      if count = 0 then 1 else if s.countNesting then count + 1 else count := by
    rw [Slices.raised, Nat.min_eq_left hlow]
  -- the cases come in the order in which the condition reads its matchers
  unfold asked counter
  dsimp only
  by_cases hstopAll : s.stopAll.any (matchedIn x.verdicts) = true
  · rw [if_pos hstopAll, if_pos hstopAll, recount]
  rw [if_neg hstopAll, if_neg hstopAll]
  cases hkey : x.event.key? s.dimensions with
  | none =>
    simp only [reduceCtorEq, if_false]
    split_ifs <;> rfl
  | some found =>
    simp only [Option.some.injEq, eq_comm (a := found)]
    by_cases hstop : s.stop.any (matchedIn x.verdicts) = true
    · simp only [hstop, Bool.not_true, Bool.and_false, Bool.false_eq_true, if_false, if_true]
      rfl
    · by_cases hstart : s.start.any (matchedIn x.verdicts) = true
      · simp only [hstop, hstart, Bool.not_true, Bool.false_and, Bool.false_eq_true, if_false,
          if_true, recount, hraised]
      · simp only [hstop, hstart, Bool.not_false, Bool.and_self, if_true, Bool.false_eq_true,
          if_false, recount, ite_self]

/-! ## Runs -/

/-- With verdicts on all matchers that are read, every event is taken. -/
theorem exists_takeAll {history : List Judged} (hcovered : ∀ x ∈ history, s.Covered x) :
    ∃ t outcomes, s.takeAll history = .ok (t, outcomes) := by
  induction history generalizing s with
  | nil => exact ⟨s, [], rfl⟩
  | cons x rest ih =>
    obtain ⟨hx, hrest⟩ := List.forall_mem_cons.1 hcovered
    have hrequest := request_eq_ok (e := x.event) hx
    obtain ⟨t, outcomes, hrun⟩ := ih fun y hy => (covered_serve _).2 (hrest y hy)
    exact ⟨t, _, takeAll_cons_eq_ok_iff.2 ⟨_, outcomes, hrequest, hrun, rfl⟩⟩

/-- From any slices on, a run in which no start is dropped and no count can be cut off does to the
count of each slice what its counter does. -/
theorem count_of_takeAll {history : List Judged} {outcomes : List Outcome}
    (hrun : s.takeAll history = .ok (t, outcomes)) (hcounted : s.slices.Counted)
    (hroom : s.DropsNone history)
    (hlow : ∀ key, s.slices.count key + history.length ≤ Slices.maxCount) (key : Key) :
    t.slices.count key = history.foldl (s.counter key) (s.slices.count key) := by
  -- by the events, from the slices that the first of them leaves
  induction history generalizing s outcomes with
  | nil =>
    obtain ⟨rfl, -⟩ := Prod.mk.inj (Except.ok.inj hrun)
    rfl
  | cons x rest ih =>
    obtain ⟨request, others, hrequest, hrest, -⟩ := takeAll_cons_eq_ok_iff.1 hrun
    obtain ⟨hkept, hroom'⟩ := hroom request hrequest
    have hcount : ∀ key, (s.serve request).1.slices.count key =
        s.counter key (s.slices.count key) x := by
      intro key
      have hlow := hlow key
      rw [List.length_cons] at hlow
      rw [count_serve hcounted hkept, eq_asked_of_request hrequest, recount_asked (by omega)]
    have hlow' : ∀ key, (s.serve request).1.slices.count key + rest.length ≤ Slices.maxCount := by
      intro key
      have hlow := hlow key
      have hle := s.counter_le key (s.slices.count key) x
      rw [List.length_cons] at hlow
      rw [hcount]
      omega
    rw [ih hrest (counted_serve hcounted request) hroom' hlow', hcount, counter_serve,
      List.foldl_cons]

/-- **Slices are independent counters.** A simple condition that holds nothing takes any events with
verdicts on its matchers. If no start is dropped, each slice then has the count that its own counter
comes to, and the events are fewer than a count can tell apart. -/
theorem count_takeAll (hnone : s.slices = {}) {history : List Judged}
    (hcovered : ∀ x ∈ history, s.Covered x) (hlength : history.length < UInt32.size)
    (hroom : s.DropsNone history) :
    ∃ t outcomes, s.takeAll history = .ok (t, outcomes) ∧
      ∀ key, t.slices.count key = history.foldl (s.counter key) 0 := by
  have hzero : ∀ key, s.slices.count key = 0 := by
    intro key
    rw [hnone]
    rfl
  have hlow : ∀ key, s.slices.count key + history.length ≤ Slices.maxCount := by
    intro key
    rw [hzero, Nat.zero_add]
    exact Nat.le_of_lt_succ hlength
  obtain ⟨t, outcomes, hrun⟩ := exists_takeAll hcovered
  refine ⟨t, outcomes, hrun, fun key => ?_⟩
  rw [count_of_takeAll hrun (hnone ▸ Slices.counted_empty) hroom hlow, hzero]

/-- Logins by user, of two users at most: the start, the stop and the stop of all are the first
three matchers. -/
def logins : Simple where
  start := some 0
  stop := some 1
  stopAll := some 2
  dimensions := [1]
  maxSlices := 2

/-- An event of a user with the verdicts on start, stop and stop of all. -/
def loginBy (user : Int64) (start stop stopAll : Bool) : Judged where
  event := { tag := 7, fields := [(1, .int user)] }
  verdicts := #[.ofBool start, .ofBool stop, .ofBool stopAll]

/-- Users come and go, two at a time. All are stopped once, one is counted twice, a stop goes before
a start, an event does not say of whom it is, and one user takes the place of another. -/
theorem count_takeAll_logins :
    let history : List Judged := [loginBy 5 true false false, loginBy 8 true false true,
      loginBy 5 true false false, loginBy 6 true false false, loginBy 5 true false false,
      loginBy 6 true true false, loginBy 7 true false false,
      ⟨{ tag := 7 }, #[.matched, .matched, .notMatched]⟩, loginBy 5 false true false]
    logins.slices = {} ∧ (∀ x ∈ history, logins.Covered x) ∧ history.length < UInt32.size ∧
      logins.DropsNone history ∧ ∃ t outcomes, logins.takeAll history = .ok (t, outcomes) ∧
        t.slices.count ⟨[(1, .int 5)]⟩ = 1 ∧ t.slices.count ⟨[(1, .int 6)]⟩ = 0 ∧
        t.slices.count ⟨[(1, .int 7)]⟩ = 1 := by
  intro history
  have hcovered : ∀ x ∈ history, logins.Covered x := by decide
  have hroom : logins.DropsNone history := by decide
  obtain ⟨t, outcomes, hrun, hcount⟩ := count_takeAll rfl hcovered (by decide) hroom
  refine ⟨rfl, hcovered, by decide, hroom, t, outcomes, hrun, ?_, ?_, ?_⟩
  · rw [hcount]
    decide
  · rw [hcount]
    decide
  · rw [hcount]
    decide

end Simple

end EventConditions
