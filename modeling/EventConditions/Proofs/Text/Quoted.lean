import Mathlib.Tactic.SplitIfs
import EventConditions.Text.Quoted

/-!
# Written forms that can be told apart

A written form is `Legible` if it shows what was written and where it ends, whatever of what may
follow does follow. Such forms can be put one after the other without a length in front: the first
one ends where it shows, and the rest is what follows it. Numbers are legible in front of anything
that does not go on like a number (`legible_int`), and one character of a quoted text in front of
anything at all, since each way of writing it begins and ends by itself
(`Quoted.legible_encodeChar`).

Forms one after the other, closed by a character that begins none of them, are legible as a list
(`Legible.list`). The quoted text is a list of characters, closed by the quote (`legible_quoted`).
-/

namespace EventConditions.Text

/-- In front of what may follow, what is written tells what it was and where it ends. -/
def Legible {α : Type} (follows : List Char → Prop) (write : α → List Char) : Prop :=
  ∀ ⦃x y : α⦄ ⦃rest rest' : List Char⦄, follows rest → follows rest' →
    write x ++ rest = write y ++ rest' → x = y ∧ rest = rest'

namespace Legible

variable {α β : Type} {follows : List Char → Prop} {write : α → List Char}

/-- A form that keeps to a class of characters ends where another character follows. -/
theorem of_class {p : Char → Bool} (hwrite : Function.Injective write)
    (hclass : ∀ x, ∀ c ∈ write x, p c = true) :
    Legible (fun rest => ∀ c ∈ rest.head?, p c = false) write := by
  have hspan : ∀ (x : α) (rest : List Char), (∀ c ∈ rest.head?, p c = false) →
      (write x ++ rest).takeWhile p = write x := by
    intro x rest hrest
    rw [List.takeWhile_append_of_pos (hclass x)]
    cases rest with
    | nil => exact List.append_nil _
    | cons c tail => rw [List.takeWhile_cons_of_neg (by simp [hrest c rfl]), List.append_nil]
  intro x y rest rest' hrest hrest' h
  have hfront : write x = write y := by
    rw [← hspan x rest hrest, h, hspan y rest' hrest']
  obtain rfl := hwrite hfront
  exact ⟨rfl, List.append_cancel_left h⟩

/-- What is told by another thing is written as that thing is. -/
theorem comp {f : β → α} (h : Legible follows write) (hf : Function.Injective f) :
    Legible follows fun x => write (f x) := by
  intro x y rest rest' hrest hrest' heq
  obtain ⟨hxy, hend⟩ := h hrest hrest' heq
  exact ⟨hf hxy, hend⟩

/-- Every form may have the same characters in front. -/
theorem behind (h : Legible follows write) (front : List Char) :
    Legible follows fun x => front ++ write x := by
  intro x y rest rest' hrest hrest' heq
  simp only [List.append_assoc] at heq
  exact h hrest hrest' (List.append_cancel_left heq)

/-- Of two things with a separator between them, the first one may be written so that it ends
there. -/
theorem pair {follows' : List Char → Prop} {write' : β → List Char} {separator : List Char}
    (hfirst : Legible follows write) (hsecond : Legible follows' write')
    (hseparator : ∀ rest, follows (separator ++ rest)) :
    Legible follows' fun x : α × β => write x.1 ++ (separator ++ write' x.2) := by
  rintro ⟨x₁, x₂⟩ ⟨y₁, y₂⟩ rest rest' hrest hrest' h
  simp only [List.append_assoc] at h
  obtain ⟨rfl, hsecondary⟩ := hfirst (hseparator _) (hseparator _) h
  obtain ⟨rfl, hend⟩ := hsecond hrest hrest' (List.append_cancel_left hsecondary)
  exact ⟨rfl, hend⟩

/-- Forms one after the other are legible up to a character that begins none of them. -/
theorem list {close : Char} (h : Legible follows write)
    (hhead : ∀ x, ∃ c tail, write x = c :: tail ∧ c ≠ close)
    (hfollows : ∀ (xs : List α) rest, follows (xs.flatMap write ++ close :: rest)) :
    Legible (fun _ => True) fun xs : List α => xs.flatMap write ++ [close] := by
  have hopen : ∀ x rest rest', close :: rest ≠ write x ++ rest' := by
    intro x rest rest' heq
    obtain ⟨c, tail, htail, hne⟩ := hhead x
    rw [htail, List.cons_append] at heq
    exact hne (List.cons.inj heq).1.symm
  intro xs ys rest rest' _ _ heq
  simp only [List.append_assoc, List.singleton_append] at heq
  induction xs generalizing ys with
  | nil =>
    cases ys with
    | nil => exact ⟨rfl, (List.cons.inj heq).2⟩
    | cons y ys =>
      rw [List.flatMap_nil, List.nil_append, List.flatMap_cons, List.append_assoc] at heq
      exact absurd heq (hopen _ _ _)
  | cons x xs ih =>
    cases ys with
    | nil =>
      rw [List.flatMap_nil, List.nil_append, List.flatMap_cons, List.append_assoc] at heq
      exact absurd heq.symm (hopen _ _ _)
    | cons y ys =>
      simp only [List.flatMap_cons, List.append_assoc] at heq
      obtain ⟨rfl, hbehind⟩ := h (hfollows xs rest) (hfollows ys rest') heq
      obtain ⟨rfl, hend⟩ := ih hbehind
      exact ⟨rfl, hend⟩

end Legible

/-! ## Numbers -/

/-- A character that decimal numbers are written with. -/
def isNumeral (c : Char) : Bool :=
  c.isDigit || c == '-'

theorem toList_nat (n : Nat) : (toString n).toList = Nat.toDigits 10 n := by
  rw [Nat.toString_eq_repr, Nat.toList_repr]

theorem toList_negSucc (n : Nat) :
    (toString (Int.negSucc n)).toList = '-' :: (toString (n + 1)).toList :=
  String.toList_append

theorem isDigit_of_mem_nat {n : Nat} {c : Char} (h : c ∈ (toString n).toList) :
    c.isDigit = true := by
  rw [toList_nat] at h
  exact Nat.isDigit_of_mem_toDigits (by decide) (by decide) h

theorem isNumeral_of_mem_nat {n : Nat} {c : Char} (h : c ∈ (toString n).toList) :
    isNumeral c = true := by
  rw [isNumeral, isDigit_of_mem_nat h, Bool.true_or]

theorem isNumeral_of_mem_int {i : Int} {c : Char} (h : c ∈ (toString i).toList) :
    isNumeral c = true := by
  cases i with
  | ofNat n => exact isNumeral_of_mem_nat h
  | negSucc n =>
    rw [toList_negSucc, List.mem_cons] at h
    rcases h with rfl | h
    · rfl
    · exact isNumeral_of_mem_nat h

theorem exists_cons_nat (n : Nat) :
    ∃ c tail, (toString n).toList = c :: tail ∧ isNumeral c = true := by
  cases h : (toString n).toList with
  | nil => exact absurd ((toList_nat n).symm.trans h) Nat.toDigits_ne_nil
  | cons c tail => exact ⟨c, tail, rfl, isNumeral_of_mem_nat (h ▸ List.mem_cons_self)⟩

theorem exists_cons_int (i : Int) :
    ∃ c tail, (toString i).toList = c :: tail ∧ isNumeral c = true := by
  cases i with
  | ofNat n => exact exists_cons_nat n
  | negSucc n => exact ⟨'-', _, toList_negSucc n, rfl⟩

/-- The digits tell the number, in every base that there are digits for. -/
theorem toDigits_injective {b : Nat} (hb : 1 < b) (hdigits : b ≤ 16) :
    Function.Injective (Nat.toDigits b) := by
  have hdigit : ∀ m < 16, ∀ n < 16, Nat.digitChar m = Nat.digitChar n → m = n := by decide
  intro m
  -- the last digit is the remainder, those before it are the digits of the quotient
  induction m using Nat.strongRecOn with
  | ind m ih =>
    intro n h
    rw [Nat.toDigits_eq_if hb, Nat.toDigits_eq_if (n := n) hb] at h
    split_ifs at h with hm hn hn
    · exact hdigit m (by omega) n (by omega) (List.cons.inj h).1
    · exact absurd (congrArg List.length h) (by simp [Nat.toDigits_ne_nil])
    · exact absurd (congrArg List.length h) (by simp [Nat.toDigits_ne_nil])
    · obtain ⟨hquotient, hlast⟩ := List.append_inj' h rfl
      have hdiv : m / b = n / b := ih (m / b) (Nat.div_lt_self (by omega) hb) hquotient
      have hsmall : ∀ k, k % b < 16 := fun k => Nat.lt_of_lt_of_le (Nat.mod_lt k (by omega)) hdigits
      have hmod : m % b = n % b := hdigit _ (hsmall m) _ (hsmall n) (List.cons.inj hlast).1
      rw [← Nat.div_add_mod m b, hdiv, hmod, Nat.div_add_mod]

theorem toList_nat_injective : Function.Injective fun n : Nat => (toString n).toList := by
  simp only [toList_nat]
  exact toDigits_injective (by decide) (by decide)

/-- The sign tells negative numbers from others, since it is no digit. -/
theorem toList_int_injective : Function.Injective fun i : Int => (toString i).toList := by
  have hsign : ∀ m n : Nat, (toString m).toList ≠ '-' :: (toString (n + 1)).toList := by
    intro m n h
    exact absurd (isDigit_of_mem_nat (h ▸ List.mem_cons_self)) (by decide)
  intro i j h
  cases i with
  | ofNat m =>
    cases j with
    | ofNat n => exact congrArg Int.ofNat (toList_nat_injective h)
    | negSucc n => exact absurd (h.trans (toList_negSucc n)) (hsign m n)
  | negSucc m =>
    cases j with
    | ofNat n => exact absurd (h.symm.trans (toList_negSucc m)) (hsign n m)
    | negSucc n =>
      have hrest := (toList_negSucc m).symm.trans (h.trans (toList_negSucc n))
      have hnat : m + 1 = n + 1 := toList_nat_injective (List.cons.inj hrest).2
      rw [Nat.succ.inj hnat]

/-- A number ends where none of its characters follows. -/
theorem legible_int :
    Legible (fun rest => ∀ c ∈ rest.head?, isNumeral c = false) fun i : Int => (toString i).toList :=
  .of_class toList_int_injective fun _ _ => isNumeral_of_mem_int

theorem legible_nat :
    Legible (fun rest => ∀ c ∈ rest.head?, isNumeral c = false) fun n : Nat => (toString n).toList :=
  .of_class toList_nat_injective fun _ _ => isNumeral_of_mem_nat

theorem ne_brace_of_mem_toDigits {n : Nat} {c : Char} (h : c ∈ Nat.toDigits 16 n) : c ≠ '\x7d' := by
  have hdigit : ∀ a < 16, Nat.digitChar a ≠ '\x7d' := by decide
  induction n using Nat.strongRecOn with
  | ind n ih =>
    rw [Nat.toDigits_eq_if (by decide)] at h
    split_ifs at h with hn
    · rw [List.mem_singleton.1 h]
      exact hdigit n hn
    · rcases List.mem_append.1 h with h | h
      · exact ih (n / 16) (by omega) h
      · rw [List.mem_singleton.1 h]
        exact hdigit _ (Nat.mod_lt _ (by decide))

/-- Hexadecimal digits end where the brace that closes them follows. -/
theorem legible_hexadecimal :
    Legible (fun rest => ∀ c ∈ rest.head?, (c != '\x7d') = false) (Nat.toDigits 16) :=
  .of_class (toDigits_injective (by decide) (by decide)) fun _ _ h =>
    bne_iff_ne.2 (ne_brace_of_mem_toDigits h)

/-! ## Quoted text -/

namespace Quoted

/-- The characters that have an escape letter, with that letter. -/
def escapes : List (Char × Char) :=
  [('"', '"'), ('\\', '\\'), ('\t', 't'), ('\r', 'r'), ('\n', 'n'), ('\x00', '0')]

theorem mem_escapes {c letter : Char} (h : escapeLetter? c = some letter) : (c, letter) ∈ escapes := by
  unfold escapeLetter? at h
  split at h <;> cases h <;> decide

/-- The ways a character is written. -/
inductive Spells (c : Char) : List Char → Prop
  | letter {letter : Char} : (c, letter) ∈ escapes → Spells c ['\\', letter]
  | digits : Spells c ('\\' :: 'u' :: '\x7b' :: (Nat.toDigits 16 c.toNat ++ ['\x7d']))
  | plain : c ≠ '"' → c ≠ '\\' → Spells c [c]

theorem spells_encodeChar (c : Char) : Spells c (encodeChar c) := by
  unfold encodeChar
  cases hletter : escapeLetter? c with
  | some letter => exact .letter (mem_escapes hletter)
  | none =>
    dsimp only
    split_ifs
    · exact .digits
    · refine .plain ?_ ?_
      · rintro rfl
        exact absurd hletter (by decide)
      · rintro rfl
        exact absurd hletter (by decide)

/-- No character is written so that it begins like the end of the text. -/
theorem Spells.head {c : Char} {cs : List Char} (h : Spells c cs) :
    ∃ d tail, cs = d :: tail ∧ d ≠ '"' := by
  cases h with
  | letter _ => exact ⟨'\\', _, rfl, by decide⟩
  | digits => exact ⟨'\\', _, rfl, by decide⟩
  | plain hquote _ => exact ⟨c, _, rfl, hquote⟩

/-- Each way of writing a character begins unlike the others, and shows where it ends. -/
theorem Spells.legible {c d : Char} {cs ds rest rest' : List Char} (hc : Spells c cs)
    (hd : Spells d ds) (h : cs ++ rest = ds ++ rest') : c = d ∧ rest = rest' := by
  have hsame : ∀ x ∈ escapes, ∀ y ∈ escapes, x.2 = y.2 → x.1 = y.1 := by decide
  have hdigits : ∀ x ∈ escapes, x.2 ≠ 'u' := by decide
  cases hc with
  | letter hc =>
    cases hd with
    | letter hd =>
      obtain ⟨hletter, hrest⟩ := List.cons.inj (List.cons.inj h).2
      exact ⟨hsame _ hc _ hd hletter, hrest⟩
    | digits => exact absurd (List.cons.inj (List.cons.inj h).2).1 (hdigits _ hc)
    | plain _ hback => exact absurd (List.cons.inj h).1.symm hback
  | digits =>
    cases hd with
    | letter hd => exact absurd (List.cons.inj (List.cons.inj h).2).1.symm (hdigits _ hd)
    | digits =>
      simp only [List.cons_append, List.append_assoc, List.cons.injEq, true_and] at h
      obtain ⟨hnat, hrest⟩ := legible_hexadecimal (by simp) (by simp) h
      exact ⟨Char.toNat_inj.1 hnat, (List.cons.inj hrest).2⟩
    | plain _ hback => exact absurd (List.cons.inj h).1.symm hback
  | plain _ hback =>
    cases hd with
    | letter _ => exact absurd (List.cons.inj h).1 hback
    | digits => exact absurd (List.cons.inj h).1 hback
    | plain _ _ => exact List.cons.inj h

theorem legible_encodeChar : Legible (fun _ => True) encodeChar :=
  fun c d _ _ _ _ h => (spells_encodeChar c).legible (spells_encodeChar d) h

end Quoted

/-- A quoted text is legible in front of anything: nothing in it is written like its end. -/
theorem legible_quoted : Legible (fun _ => True) fun cs => Quoted.encode cs ++ ['"'] :=
  Quoted.legible_encodeChar.list (fun c => (Quoted.spells_encodeChar c).head) fun _ _ => trivial

end EventConditions.Text
