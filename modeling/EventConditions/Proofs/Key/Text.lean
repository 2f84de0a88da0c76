import EventConditions.Key
import EventConditions.Proofs.Text.Quoted

/-!
# What is written of a key tells the key

The text of a key shows its fields and where it ends (`Key.legible_text`), whatever characters there
are in the values: the first character of a value tells its type, a number ends where none of its
characters follows, and in a quoted text no bar, colon or bracket can be taken for one of the key.
So two keys that are written alike are the same (`Key.text_inj`), and a log that names a slice names
one only.
-/

namespace EventConditions

open Text

namespace Value

/-- The text of such a value may begin with the character. -/
def Begins (c : Char) : Value → Prop
  | .int _ => isNumeral c = true
  | .bool _ => c = 't' ∨ c = 'f'
  | .str _ => c = '"'

theorem begins_text (v : Value) : ∃ c tail, v.text.toList = c :: tail ∧ v.Begins c := by
  cases v with
  | int v => exact exists_cons_int v.toInt
  | bool v =>
    cases v with
    | false => exact ⟨'f', _, rfl, .inr rfl⟩
    | true => exact ⟨'t', _, rfl, .inl rfl⟩
  | str v => exact ⟨'"', _, String.toList_ofList, rfl⟩

/-- Values whose texts begin alike have the same type. -/
theorem Begins.sameType {c : Char} {v w : Value} (hv : v.Begins c) (hw : w.Begins c) :
    (∃ i j, v = .int i ∧ w = .int j) ∨ (∃ a b, v = .bool a ∧ w = .bool b) ∨
      ∃ s t, v = .str s ∧ w = .str t := by
  have hnumeral : isNumeral 't' = false ∧ isNumeral 'f' = false ∧ isNumeral '"' = false := by decide
  cases v <;> cases w <;> grind [Begins]

theorem legible_bool : Legible (fun _ => True) fun b : Bool => (text (.bool b)).toList := by
  intro a b rest rest' _ _ h
  cases a with
  | false =>
    cases b with
    | false => exact ⟨rfl, List.append_cancel_left h⟩
    | true => exact absurd (List.cons.inj h).1 (by decide)
  | true =>
    cases b with
    | false => exact absurd (List.cons.inj h).1 (by decide)
    | true => exact ⟨rfl, List.append_cancel_left h⟩

theorem legible_str : Legible (fun _ => True) fun s : String => (text (.str s)).toList := by
  have htext : (fun s : String => (text (.str s)).toList) =
      fun s => ['"'] ++ (Quoted.encode s.toList ++ ['"']) :=
    funext fun _ => String.toList_ofList
  rw [htext]
  exact (legible_quoted.comp fun _ _ => String.toList_inj.1).behind ['"']

/-- The text of a value ends where no character of a number follows. -/
theorem legible_text :
    Legible (fun rest => ∀ c ∈ rest.head?, isNumeral c = false) fun v : Value => v.text.toList := by
  intro v w rest rest' hrest hrest' h
  obtain ⟨c, tail, hvtext, hv⟩ := v.begins_text
  obtain ⟨d, tail', hwtext, hw⟩ := w.begins_text
  have hcd : c = d := by
    simp only [hvtext, hwtext, List.cons_append, List.cons.injEq] at h
    exact h.1
  subst hcd
  obtain ⟨i, j, rfl, rfl⟩ | ⟨a, b, rfl, rfl⟩ | ⟨s, t, rfl, rfl⟩ := hv.sameType hw
  · obtain ⟨hij, hend⟩ := legible_int hrest hrest' h
    exact ⟨congrArg Value.int (Int64.toInt_inj.1 hij), hend⟩
  · obtain ⟨rfl, hend⟩ := legible_bool trivial trivial h
    exact ⟨rfl, hend⟩
  · obtain ⟨rfl, hend⟩ := legible_str trivial trivial h
    exact ⟨rfl, hend⟩

end Value

namespace Key

theorem toList_fieldText (x : FieldId × Value) :
    (fieldText x).toList = (toString x.1.toNat).toList ++ ([':'] ++ x.2.text.toList) := by
  rw [fieldText, String.toList_append, String.toList_append, List.append_assoc]
  rfl

/-- A field ends where no character of a number follows. -/
theorem legible_fieldText :
    Legible (fun rest => ∀ c ∈ rest.head?, isNumeral c = false)
      fun x : FieldId × Value => (fieldText x).toList := by
  have hnumber := legible_nat.comp fun _ _ => UInt32.toNat_inj.1
  rw [funext toList_fieldText]
  refine hnumber.pair Value.legible_text fun rest c hc => ?_
  obtain rfl : ':' = c := Option.some.inj hc
  rfl

/-- The fields behind the first one, each with its bar, and the bracket that closes the key. -/
def tailText (fields : List (FieldId × Value)) : List Char :=
  fields.flatMap (fun x => ['|'] ++ (fieldText x).toList) ++ [']']

/-- Neither a bar nor the closing bracket goes on a number. -/
theorem not_isNumeral_tailText (fields : List (FieldId × Value)) (rest : List Char) :
    ∀ c ∈ (tailText fields ++ rest).head?, isNumeral c = false := by
  cases fields with
  | nil =>
    rintro c ⟨⟩
    rfl
  | cons x fields =>
    rintro c ⟨⟩
    rfl

theorem legible_tailText : Legible (fun _ => True) tailText := by
  refine (legible_fieldText.behind ['|']).list (fun x => ⟨'|', _, rfl, by decide⟩) fun fields rest => ?_
  have hnext := not_isNumeral_tailText fields rest
  rwa [tailText, List.append_assoc] at hnext

/-- Joined lists are the first one, and each other one behind its separator. -/
theorem intercalate_eq_flatMap {α : Type} (separator xs : List α) (rest : List (List α)) :
    separator.intercalate (xs :: rest) = xs ++ rest.flatMap (separator ++ ·) := by
  induction rest generalizing xs with
  | nil => simp
  | cons ys rest ih =>
    rw [List.intercalate_cons_cons, ih, List.flatMap_cons, List.append_assoc, List.append_assoc]

theorem toList_text_nil : (⟨[]⟩ : Key).text.toList = ['[', ']'] := rfl

theorem toList_text_cons (x : FieldId × Value) (fields : List (FieldId × Value)) :
    (⟨x :: fields⟩ : Key).text.toList = '[' :: ((fieldText x).toList ++ tailText fields) := by
  have hfields : (fields.map fieldText).map String.toList = fields.map fun x => (fieldText x).toList :=
    List.map_map
  rw [text, String.toList_append, String.toList_append, String.toList_intercalate, List.map_cons,
    List.map_cons, hfields]
  show '[' :: (['|'].intercalate _ ++ [']']) = _
  rw [intercalate_eq_flatMap, List.flatMap_map, List.append_assoc]
  rfl

/-- **The text of a key tells the key**, and where it ends. -/
theorem legible_text : Legible (fun _ => True) fun k : Key => k.text.toList := by
  have hopen : ∀ x fields (rest rest' : List Char),
      (⟨[]⟩ : Key).text.toList ++ rest ≠ (⟨x :: fields⟩ : Key).text.toList ++ rest' := by
    intro x fields rest rest' h
    obtain ⟨c, tail, htail, hc⟩ := exists_cons_nat x.1.toNat
    rw [toList_text_nil, toList_text_cons, toList_fieldText, htail] at h
    have hbracket : ']' = c := (List.cons.inj (List.cons.inj h).2).1
    exact absurd hc (hbracket ▸ by decide)
  rintro ⟨xs⟩ ⟨ys⟩ rest rest' - - h
  cases xs with
  | nil =>
    cases ys with
    | nil => exact ⟨rfl, List.append_cancel_left h⟩
    | cons y ys => exact absurd h (hopen y ys rest rest')
  | cons x xs =>
    cases ys with
    | nil => exact absurd h.symm (hopen x xs rest' rest)
    | cons y ys =>
      simp only [toList_text_cons, List.cons_append, List.append_assoc, List.cons.injEq, true_and] at h
      obtain ⟨rfl, hbehind⟩ := legible_fieldText (not_isNumeral_tailText xs rest)
        (not_isNumeral_tailText ys rest') h
      obtain ⟨rfl, hend⟩ := legible_tailText trivial trivial hbehind
      exact ⟨rfl, hend⟩

/-- **Keys that are written alike are the same.** -/
theorem text_inj {a b : Key} : a.text = b.text ↔ a = b := by
  refine ⟨fun h => ?_, congrArg text⟩
  have hlists : a.text.toList ++ [] = b.text.toList ++ [] := by rw [h]
  exact (legible_text trivial trivial hlists).1

/-- A text that is written like the end of one field and the beginning of another is still one
text. -/
example : (⟨[(1, .str "a\"|2:\"b")]⟩ : Key).text = "[1:\"a\\\"|2:\\\"b\"]" ∧
    (⟨[(1, .str "a"), (2, .str "b")]⟩ : Key).text = "[1:\"a\"|2:\"b\"]" := by
  decide

end Key

end EventConditions
