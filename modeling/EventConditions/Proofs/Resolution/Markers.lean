import EventConditions.Graph.Markers
import EventConditions.Proofs.Related
import EventConditions.Proofs.Resolution.Walk

/-!
# Markers and paths

From clear markers on, a walk with markers does the same as one that is told its path, and leaves
clear markers, however it ends: `Resolver.resumeMarked_mirrors`. What carries the proof is that a
walk that succeeds gives back the markers it was given, so that the marked conditions are those on
the path whenever a child is looked at (`Resolver.Mirrors`).
-/

namespace EventConditions

variable {n : Nat}

theorem unmark_cons_self {marked : List (Fin n)} {i : Fin n} (h : i ∉ marked) :
    unmark (i :: marked) i = marked := by
  rw [unmark, List.filter_cons_of_neg (by simp), ← unmark, unmark_eq_self h]

namespace Resolver

/-! ## The path is what is marked -/

/-- What a walk with markers comes to, next to one that is told its path: the same, and where that
is a success, the markers that are left are those on `path`. -/
structure Mirrored {α M : Type} (marks : M → List (Fin n)) (path : List (Fin n))
    (s : Progress n × Except Error α) (t : M × Progress n × Except Error α) : Prop where
  same : t.2 = s
  kept : ∀ a, s.2 = .ok a → marks t.1 = path

/-- The action with markers does what the other one does. -/
abbrev Mirrors {α M : Type} (marks : M → List (Fin n)) (path : List (Fin n)) :
    Logged Fault (Progress n × Except Error α) →
      Logged Fault (M × Progress n × Except Error α) → Prop :=
  Logged.Rel (Mirrored marks path)

/-- Actions that fail alike at once. -/
theorem mirrors_error {α M : Type} {marks : M → List (Fin n)} {path : List (Fin n)} (m : M)
    (p : Progress n) (e : Error) :
    Mirrors (α := α) marks path (pure (p, .error e)) (pure (m, p, .error e)) :=
  .pure ⟨rfl, fun _ ho => by cases ho⟩

variable {r : Resolver} {conditions : Table n Condition}

/-- Children are settled alike, if each single child is. -/
theorem settleChildrenMarked_mirrors {name : String} {path : List (Fin n)}
    {settle : (child : Fin n) → child ∉ path → Progress n →
      Logged Fault (Progress n × Except Error (Resolved n))}
    {settle' : (marked : Marked path) → (child : Fin n) → child ∉ marked.val → Progress n →
      Logged Fault (Marked path × Progress n × Except Error (Resolved n))}
    (hsettle : ∀ child off p,
      Mirrors Subtype.val path (settle child off p) (settle' (.only path) child off p))
    (names : List String) (p : Progress n) :
    Mirrors Subtype.val path (r.settleChildren name path settle names p)
      (r.settleChildrenMarked name path settle' names (.only path) p) := by
  induction names generalizing p with
  | nil => exact .pure ⟨rfl, fun _ _ => rfl⟩
  | cons childName rest ih =>
    rw [settleChildren, settleChildrenMarked]
    cases r.conditionIndex.get? childName with
    | none => exact .after fun _ => mirrors_error _ _ _
    | some index =>
      dsimp only
      by_cases inside : index < n
      · rw [dif_pos inside, dif_pos inside]
        by_cases hit : (⟨index, inside⟩ : Fin n) ∈ path
        · have marked : (Marked.only path).val.contains ⟨index, inside⟩ = true :=
            List.contains_iff_mem.2 hit
          rw [dif_pos hit, dif_pos marked]
          exact .after fun _ => mirrors_error _ _ _
        · have unmarked : ¬ (Marked.only path).val.contains ⟨index, inside⟩ = true :=
            fun h => hit (List.contains_iff_mem.1 h)
          rw [dif_neg hit, dif_neg unmarked]
          refine (hsettle _ hit p).bind ?_
          rintro ⟨p, o⟩ ⟨m, p', o'⟩ ⟨hsame, hkept⟩
          cases hsame
          cases o with
          | error e => exact mirrors_error _ _ _
          | ok x =>
            obtain rfl : m = Marked.only path := Subtype.ext (hkept x rfl)
            refine (ih p).bind ?_
            rintro ⟨p, others⟩ ⟨m, p', others'⟩ ⟨hsame, hkept⟩
            cases hsame
            refine .pure ⟨rfl, fun xs hxs => ?_⟩
            cases others with
            | error e => cases hxs
            | ok ys => exact hkept ys rfl
      · rw [dif_neg inside, dif_neg inside]
        exact .error

/-- Settling ends alike if the marked conditions are the one at hand and those on its path. -/
theorem finishMarked_mirrors (name : String) {path : List (Fin n)} {i : Fin n} (off : i ∉ path)
    (marks : Marked (i :: path)) (p : Progress n) (o : Except Error (Resolved n))
    (h : ∀ x, o = .ok x → marks.val = i :: path) :
    Mirrors Subtype.val path (ending name i p o) (finishMarked name marks p o) := by
  cases o with
  | error e => exact mirrors_error _ _ _
  | ok x =>
    refine .after fun _ => .pure ⟨rfl, fun _ _ => ?_⟩
    show unmark marks.val i = path
    rw [h x rfl, unmark_cons_self off]

/-- A condition that is reached along a path is settled alike by markers on that path. -/
theorem settleMarked_mirrors (path : List (Fin n)) :
    ∀ i (off : i ∉ path) p, Mirrors Subtype.val path (r.settle conditions path i off p)
      (r.settleMarked conditions path i p) := by
  induction hm : offPath path using Nat.strongRecOn generalizing path with
  | _ m ih =>
    subst hm
    intro i off p
    rw [settle, settleMarked]
    cases (p.nodes.entry i).resolved? with
    | some x => exact .pure ⟨rfl, fun _ _ => rfl⟩
    | none =>
      dsimp only
      let now : Marked (i :: path) := .only (i :: path)
      cases (conditions.entry i).spec.defect? with
      | some defect =>
        exact finishMarked_mirrors (conditions.entry i).name off now p
          (.error { cause := .invalidCondition (conditions.entry i).name defect.message })
          fun _ h => by cases h
      | none =>
        cases (conditions.entry i).spec with
        | simple spec => exact .after fun o => finishMarked_mirrors _ off now p o fun _ _ => rfl
        | combination operator names =>
          refine (settleChildrenMarked_mirrors (fun child hit p => ?_) names p).bind ?_
          · have hchild := ih _ (offPath_cons_lt off) (i :: path) rfl child hit p
            exact hchild.pure_right fun _ _ h => ⟨h.same, h.kept⟩
          · rintro ⟨p, o⟩ ⟨m, p', o'⟩ ⟨hsame, hkept⟩
            cases hsame
            refine finishMarked_mirrors _ off m p _ fun x hx => ?_
            cases o with
            | error e => cases hx
            | ok children => exact hkept children rfl

/-- From clear markers on, conditions are settled alike one after the other. -/
theorem settleAllMarked_mirrors (r : Resolver) (conditions : Table n Condition)
    (roots : List (Fin n)) (p : Progress n) :
    Mirrors id [] (r.settleAll conditions roots p) (r.settleAllMarked conditions roots [] p) := by
  induction roots generalizing p with
  | nil => exact .pure ⟨rfl, fun _ _ => rfl⟩
  | cons i rest ih =>
    rw [settleAll, settleAllMarked]
    refine (settleMarked_mirrors [] i List.not_mem_nil p).bind ?_
    rintro ⟨p, o⟩ ⟨m, p', o'⟩ ⟨hsame, hkept⟩
    cases hsame
    cases o with
    | error e => exact mirrors_error _ _ _
    | ok x =>
      have hclear : m.val = [] := hkept x rfl
      dsimp only
      rw [hclear]
      exact ih p

/-- **Markers are always clear.** From clear markers on, an attempt at resolving with markers logs
and does what one that is told the path does, and leaves clear markers. -/
theorem resumeMarked_mirrors (r : Resolver) (nodes : Table n (Node n)) (schedule : Schedule) :
    Logged.Rel (fun s t => t = (s.1, { schedule := s.2.1 }, s.2.2))
      (r.resume nodes schedule) (r.resumeMarked nodes { schedule }) := by
  rw [resume, resumeMarked, advance]
  by_cases hsize : schedule.size = n
  · rw [if_pos hsize, if_pos hsize]
    cases r.layout nodes with
    | error e => exact .pure (by simp)
    | ok conditions =>
      refine (settleAllMarked_mirrors r conditions (List.finRange n) { nodes }).bind ?_
      rintro ⟨p, o⟩ ⟨m, p', o'⟩ ⟨hsame, hkept⟩
      cases hsame
      cases o with
      | error e => exact .pure rfl
      | ok u =>
        obtain rfl : m = [] := hkept u rfl
        exact .pure rfl
  · rw [if_neg hsize, if_neg hsize]
    exact .pure rfl

end Resolver

end EventConditions
