import EventConditions.Proofs.Simple.Counters

/-!
# What the limit of slices costs

The limit of a simple condition drops starts of slices that are not held yet once as many as allowed
are. So a condition with a limit may hold fewer slices than one without, and count them lower,
because it took some of them in later. It never holds others or counts one higher
(`Simple.takeAll_withLimit`): the counts with the limit stay below those without, step by step
(`Simple.Within.serve`), since raising and lowering a count keep the order of counts and a dropped
start leaves a count of zero.

Here "without" is a limit of as many slices as there are events, which drops nothing. Of two limits
that both drop starts the lower one need not hold less: it may have kept for a later slice the place
that the higher one gave away.
-/

namespace EventConditions

namespace Simple

variable {s t u : Simple} {request : Request}

/-- The condition with another limit. -/
def withLimit (s : Simple) (limit : Nat) : Simple :=
  { s with maxSlices := limit }

/-- The state that the condition comes to if events do to it in turn what is told of them. -/
def stateAfter (s : Simple) (outcomes : List Outcome) : State :=
  outcomes.foldl (fun state outcome => outcome.state.getD state) s.initial.state

/-- The two conditions differ at most in their limits and in the slices they hold. -/
def SameSettings (t u : Simple) : Prop :=
  { t with maxSlices := u.maxSlices, slices := u.slices } = u

theorem SameSettings.serve (h : t.SameSettings u) (request : Request) :
    (t.serve request).1.SameSettings (u.serve request).1 := by
  rw [serve_fst t, serve_fst u]
  exact congrArg (fun v : Simple => { v with slices := (u.serve request).1.slices }) h

theorem SameSettings.request_eq (h : t.SameSettings u) (e : Event) (verdicts : Array Verdict) :
    t.request e verdicts = u.request e verdicts := by
  rw [← h]
  rfl

/-! ## Counts below one another -/

/-- The first condition counts no slice higher than the second, and they have the same settings. -/
structure Within (t u : Simple) : Prop where
  settings : t.SameSettings u
  counted : t.slices.Counted
  counted_above : u.slices.Counted
  count_le : ∀ key, t.slices.count key ≤ u.slices.count key

theorem recount_mono {key : Key} {c d : Nat} (h : c ≤ d) :
    s.recount key request c ≤ s.recount key request d := by
  cases request with
  | nothing => exact h
  | sliceless => exact h
  | start started =>
    simp only [recount]
    split_ifs
    · exact Slices.raised_mono h
    · exact h
  | stop stopped =>
    simp only [recount]
    split_ifs
    · exact Slices.lowered_mono h
    · exact h
  | stopAll => exact Nat.le_refl 0

/-- Where a start is dropped, its slice counts zero and no count changes. -/
theorem count_serve_of_drops (h : s.Drops request) (key : Key) :
    (s.serve request).1.slices.count key ≤ s.recount key request (s.slices.count key) := by
  cases request with
  | start started =>
    have hzero : s.slices.count started = 0 := Slices.count_eq_zero_of_drops h
    have hsame : (s.serve (.start started)).1.slices = s.slices :=
      congrArg Prod.fst (Slices.start_eq_of_drops h s.countNesting)
    rw [hsame, recount]
    split_ifs with hkey
    · rw [hkey, hzero]
      exact Nat.zero_le _
    · exact Nat.le_refl _
  | _ => exact h.elim

/-- Whatever is asked, counts stay below those of a condition that drops nothing. -/
theorem Within.serve (h : t.Within u) (hroom : ¬ u.Drops request) :
    (t.serve request).1.Within (u.serve request).1 where
  settings := h.settings.serve request
  counted := counted_serve h.counted request
  counted_above := counted_serve h.counted_above request
  count_le key := by
    have hbelow : (t.serve request).1.slices.count key ≤
        t.recount key request (t.slices.count key) := by
      by_cases hdrops : t.Drops request
      · exact count_serve_of_drops hdrops key
      · exact Nat.le_of_eq (count_serve h.counted hdrops)
    have hsame : t.recount key request = u.recount key request := by
      rw [← h.settings]
      rfl
    calc (t.serve request).1.slices.count key
        ≤ t.recount key request (t.slices.count key) := hbelow
      _ ≤ t.recount key request (u.slices.count key) := recount_mono (h.count_le key)
      _ = (u.serve request).1.slices.count key := by rw [hsame, count_serve h.counted_above hroom]

/-- What is held below is held above. -/
theorem Within.mem_keys (h : t.Within u) {key : Key} (hkey : key ∈ t.slices.keys) :
    key ∈ u.slices.keys :=
  h.counted_above.mem_keys_iff.2 (Nat.lt_of_lt_of_le (h.counted.mem_keys_iff.1 hkey) (h.count_le key))

/-- Whatever the events, counts stay below those of a condition that drops nothing, which takes all
events that the other one takes. -/
theorem Within.takeAll (h : t.Within u) {history : List Judged} (hroom : u.DropsNone history)
    {t' : Simple} {outcomes : List Outcome} (hrun : t.takeAll history = .ok (t', outcomes)) :
    ∃ u' outcomes', u.takeAll history = .ok (u', outcomes') ∧ t'.Within u' := by
  induction history generalizing t u outcomes with
  | nil =>
    obtain ⟨rfl, -⟩ := Prod.mk.inj (Except.ok.inj hrun)
    exact ⟨u, [], rfl, h⟩
  | cons x rest ih =>
    obtain ⟨request, others, hrequest, hrest, -⟩ := takeAll_cons_eq_ok_iff.1 hrun
    rw [h.settings.request_eq] at hrequest
    obtain ⟨hkept, hroom'⟩ := hroom request hrequest
    obtain ⟨u', outcomes', hrun', hwithin⟩ := ih (h.serve hkept) hroom' hrest
    exact ⟨u', _, takeAll_cons_eq_ok_iff.2 ⟨request, outcomes', hrequest, hrun', rfl⟩, hwithin⟩

/-! ## While the limit is not exceeded -/

/-- What is held after a request shows whether a limit would have dropped it. -/
theorem serve_eq_of_size_le (hsettings : t.SameSettings u) (hslices : t.slices = u.slices)
    (hroom : ¬ u.Drops request) (hsize : (u.serve request).1.slices.size ≤ t.maxSlices) :
    (t.serve request).1.slices = (u.serve request).1.slices ∧
      (t.serve request).2 = (u.serve request).2 := by
  have hnesting : t.countNesting = u.countNesting := by rw [← hsettings]
  cases request with
  | nothing => exact ⟨hslices, rfl⟩
  | sliceless => exact ⟨hslices, rfl⟩
  | start key =>
    have hdrops : u.slices.drops u.maxSlices key = false := Bool.eq_false_iff.2 hroom
    have hdrops' : u.slices.drops t.maxSlices key = false := Slices.drops_of_size_start_le hdrops hsize
    have hstart : t.slices.start t.countNesting t.maxSlices key =
        u.slices.start u.countNesting u.maxSlices key := by
      rw [hslices, hnesting]
      exact Slices.start_eq_of_drops_eq (hdrops'.trans hdrops.symm)
    simp only [serve, aggregate, hstart, and_self]
  | stop key => simp only [serve, aggregate, hslices, hnesting, and_self]
  | stopAll => simp only [serve, hslices, and_self]

/-- As long as no more slices are held than a limit allows, the limit makes no difference. -/
theorem takeAll_eq_of_size_le (hsettings : t.SameSettings u) (hslices : t.slices = u.slices)
    {history : List Judged} (hroom : u.DropsNone history) {t' u' : Simple}
    {outcomes outcomes' : List Outcome} (hrun : t.takeAll history = .ok (t', outcomes))
    (hrun' : u.takeAll history = .ok (u', outcomes'))
    (hsize : ∀ before, before <+: history → ∀ v told, u.takeAll before = .ok (v, told) →
      v.slices.size ≤ t.maxSlices) : t'.slices = u'.slices ∧ outcomes = outcomes' := by
  induction history generalizing t u outcomes outcomes' with
  | nil =>
    obtain ⟨rfl, rfl⟩ := Prod.mk.inj (Except.ok.inj hrun)
    obtain ⟨rfl, rfl⟩ := Prod.mk.inj (Except.ok.inj hrun')
    exact ⟨hslices, rfl⟩
  | cons x rest ih =>
    obtain ⟨request, others, hrequest, hrest, rfl⟩ := takeAll_cons_eq_ok_iff.1 hrun
    obtain ⟨request', others', hrequest', hrest', rfl⟩ := takeAll_cons_eq_ok_iff.1 hrun'
    rw [hsettings.request_eq, hrequest'] at hrequest
    obtain rfl := Except.ok.inj hrequest
    obtain ⟨hkept, hroom'⟩ := hroom request' hrequest'
    have hearlier : ∀ before, before <+: rest → ∀ v told,
        (u.serve request').1.takeAll before = .ok (v, told) → v.slices.size ≤ t.maxSlices := by
      intro before hbefore v told hv
      exact hsize (x :: before) ((List.prefix_cons_inj x).2 hbefore) v _
        (takeAll_cons_eq_ok_iff.2 ⟨request', told, hrequest', hv, rfl⟩)
    obtain ⟨hslices', houtcome⟩ := serve_eq_of_size_le hsettings hslices hkept
      (hearlier [] List.nil_prefix _ [] rfl)
    have hlimit : (t.serve request').1.maxSlices = t.maxSlices := by rw [serve_fst]
    obtain ⟨hend, htold⟩ := ih (hsettings.serve request') hslices' hroom' hrest hrest'
      (hlimit ▸ hearlier)
    exact ⟨hend, by rw [houtcome, htold]⟩

/-! ## States -/

/-- After any events the state goes with the slices. -/
theorem backs_takeAll {history : List Judged} {outcomes : List Outcome} {state : State}
    (h : s.slices.Backs state) (hrun : s.takeAll history = .ok (t, outcomes)) :
    t.slices.Backs (outcomes.foldl (fun state outcome => outcome.state.getD state) state) := by
  induction history generalizing s outcomes state with
  | nil =>
    obtain ⟨rfl, rfl⟩ := Prod.mk.inj (Except.ok.inj hrun)
    exact h
  | cons x rest ih =>
    obtain ⟨request, others, -, hrest, rfl⟩ := takeAll_cons_eq_ok_iff.1 hrun
    rw [List.foldl_cons]
    exact ih (backs_serve h request) hrest

/-- **What the limit costs.** A simple condition that holds nothing takes the same events under any
limit and under one of as many slices as there are events. After any of them, that is for all
`history` that are no longer than `most`, no slice counts higher under the former, so none is held
that is not held under the latter, and the condition holds under the latter if it does under the
former. As long as no more slices are held without than allowed, both do the same. -/
theorem takeAll_withLimit (hnone : s.slices = {}) (limit : Nat) {history : List Judged} {most : Nat}
    (hmost : history.length ≤ most) :
    ((∀ x ∈ history, s.Covered x) →
      ∃ t outcomes, (s.withLimit limit).takeAll history = .ok (t, outcomes)) ∧
    ∀ t outcomes, (s.withLimit limit).takeAll history = .ok (t, outcomes) →
      ∃ u outcomes', (s.withLimit most).takeAll history = .ok (u, outcomes') ∧
        (∀ key, t.slices.count key ≤ u.slices.count key) ∧
        (∀ key ∈ t.slices.keys, key ∈ u.slices.keys) ∧
        (s.stateAfter outcomes = .holds → s.stateAfter outcomes' = .holds) ∧
        ((∀ before, before <+: history → ∀ v told, (s.withLimit most).takeAll before = .ok (v, told) →
          v.slices.size ≤ limit) → t.slices = u.slices ∧ outcomes = outcomes') := by
  refine ⟨fun hcovered => exists_takeAll hcovered, fun t outcomes hrun => ?_⟩
  have hcounted : s.slices.Counted := hnone ▸ Slices.counted_empty
  have hwithin : (s.withLimit limit).Within (s.withLimit most) :=
    ⟨rfl, hcounted, hcounted, fun _ => Nat.le_refl _⟩
  have hroom : (s.withLimit most).DropsNone history := by
    refine dropsNone_of_size_add_length_le ?_
    show s.slices.size + history.length ≤ most
    rw [hnone]
    exact (Nat.zero_add history.length).symm ▸ hmost
  have hbacks : ∀ m, (s.withLimit m).slices.Backs s.initial.state :=
    fun _ => show s.slices.Backs _ from hnone ▸ Slices.backs_initial s.initial
  obtain ⟨u, outcomes', hrun', hbelow⟩ := hwithin.takeAll hroom hrun
  refine ⟨u, outcomes', hrun', hbelow.count_le, fun _ => hbelow.mem_keys, fun hholds => ?_, ?_⟩
  · obtain ⟨key, hkey⟩ := Slices.isEmpty_eq_false_iff.1 ((backs_takeAll (hbacks limit) hrun).1 hholds)
    exact (backs_takeAll (hbacks most) hrun').2
      (Slices.isEmpty_eq_false_iff.2 ⟨key, hbelow.mem_keys hkey⟩)
  · exact takeAll_eq_of_size_le hwithin.settings rfl hroom hrun hrun'

/-- While one user is in there is no room for another, who is let in later and counted lower. -/
theorem takeAll_withLimit_logins :
    let history : List Judged := [loginBy 5 true false false, loginBy 6 true false false,
      loginBy 6 true false false, loginBy 5 false true false, loginBy 6 true false false]
    logins.slices = {} ∧ history.length ≤ 5 ∧ (∀ x ∈ history, logins.Covered x) ∧
      ∃ t outcomes u outcomes', (logins.withLimit 1).takeAll history = .ok (t, outcomes) ∧
        (logins.withLimit 5).takeAll history = .ok (u, outcomes') ∧
        (∀ key, t.slices.count key ≤ u.slices.count key) ∧
        t.slices.count ⟨[(1, .int 6)]⟩ = 1 ∧ u.slices.count ⟨[(1, .int 6)]⟩ = 3 ∧
        logins.stateAfter outcomes = .holds ∧ logins.stateAfter outcomes' = .holds := by
  intro history
  have hcovered : ∀ x ∈ history, logins.Covered x := by decide
  have hmost : history.length ≤ 5 := by decide
  obtain ⟨htakes, hcosts⟩ := takeAll_withLimit (s := logins) rfl 1 hmost
  obtain ⟨t, outcomes, hrun⟩ := htakes hcovered
  obtain ⟨u, outcomes', hrun', hcount, -, hstate, -⟩ := hcosts t outcomes hrun
  have hfive : ∀ v told, (logins.withLimit 5).takeAll history = .ok (v, told) →
      v.slices.count ⟨[(1, .int 6)]⟩ = 3 := by
    rintro v told ⟨⟩
    decide
  have hone : t.slices.count ⟨[(1, .int 6)]⟩ = 1 ∧ logins.stateAfter outcomes = .holds := by
    cases hrun
    decide
  exact ⟨rfl, hmost, hcovered, t, outcomes, u, outcomes', hrun, hrun', hcount, hone.1,
    hfive u outcomes' hrun', hone.2, hstate hone.2⟩

/-- Of two limits that both drop starts, the lower one may keep a place for a user for whom the
higher one has none left. -/
example :
    let history : List Judged := [loginBy 5 true false false, loginBy 6 true false false,
      loginBy 5 false true false, loginBy 6 true false false, loginBy 7 true false false,
      loginBy 6 false true false, loginBy 8 true false false]
    let heldUnder := fun limit => ((logins.withLimit limit).takeAll history).toOption.map
      fun (t, _) => t.slices.count ⟨[(1, .int 8)]⟩
    heldUnder 1 = some 1 ∧ heldUnder 2 = some 0 := by
  decide

end Simple

end EventConditions
