import Mathlib.Data.List.TakeWhile
import Mathlib.Tactic.Common
/-!
# Text, as Python reads it

White space, `strip`, and the lines a text file reads back as, over lists
of characters.
-/

namespace Emporos

namespace Text

/-- `str.isspace` of one character. -/
def isSpace (c : Char) : Bool :=
  c = ' ' ∨ ('\t' ≤ c ∧ c ≤ '\r') ∨ ('\x1c' ≤ c ∧ c ≤ '\x1f') ∨ c = '\u0085' ∨ c = '\u00a0' ∨
    c = '\u1680' ∨ ('\u2000' ≤ c ∧ c ≤ '\u200a') ∨ c = '\u2028' ∨ c = '\u2029' ∨ c = '\u202f' ∨
    c = '\u205f' ∨ c = '\u3000'

/-- `text.strip()`. -/
def strip (text : List Char) : List Char :=
  ((text.dropWhile isSpace).reverse.dropWhile isSpace).reverse

/-- There is something left of the text once it is stripped. -/
def isMeaningful (text : String) : Bool := text.toList.any fun c => !isSpace c

/-- Reading a text file turns every line end into a line feed. -/
def universalNewlines : List Char → List Char
  | [] => []
  | '\r' :: '\n' :: rest => '\n' :: universalNewlines rest
  | '\r' :: rest => '\n' :: universalNewlines rest
  | c :: rest => c :: universalNewlines rest

/-- The text cut at its line feeds. -/
def lines : List Char → List (List Char)
  | [] => [[]]
  | c :: rest =>
      if c = '\n' then [] :: lines rest
      else match lines rest with
        | [] => [[c]]
        | line :: others => (c :: line) :: others

/-- What is left of a text after a prefix, if it has it. -/
def afterPrefix (start text : List Char) : Option (List Char) :=
  if start.isPrefixOf text then some (text.drop start.length) else none

@[simp] theorem isSpace_lineFeed : isSpace '\n' = true := by decide

@[simp] theorem isSpace_carriageReturn : isSpace '\r' = true := by decide

/-! ## A last line -/

theorem lines_append (a b : List Char) : lines (a ++ '\n' :: b) = lines a ++ lines b := by
  induction a with
  | nil => rfl
  | cons c a ih =>
      by_cases hc : c = '\n'
      · simp [lines, hc, ih]
      · rw [List.cons_append, lines, if_neg hc, ih, lines, if_neg hc]
        cases ha : lines a with
        | nil =>
            have : lines a ≠ [] := by
              cases a with
              | nil => simp [lines]
              | cons x a => rw [lines]; split_ifs <;> [simp; (split <;> simp)]
            exact absurd ha this
        | cons line others => rfl

theorem lines_eq_self {a : List Char} (h : '\n' ∉ a) : lines a = [a] := by
  induction a with
  | nil => rfl
  | cons c a ih =>
      rw [List.mem_cons, not_or] at h
      rw [lines, if_neg (Ne.symm h.1), ih h.2]

theorem universalNewlines_eq_self {a : List Char} (h : '\r' ∉ a) : universalNewlines a = a := by
  fun_induction universalNewlines a with
  | case1 => rfl
  | case2 => simp at h
  | case3 => simp at h
  | case4 c rest _ _ ih =>
      rw [ih fun hmem => h (List.mem_cons_of_mem _ hmem)]

/-- A line feed that was written stays one, and swallows a carriage return
before it. -/
theorem universalNewlines_append (a b : List Char) :
    ∃ a', universalNewlines (a ++ '\n' :: b) = a' ++ '\n' :: universalNewlines b ∧
      (universalNewlines a = a' ∨ universalNewlines a = a' ++ ['\n']) := by
  fun_induction universalNewlines a with
  | case1 => exact ⟨[], rfl, Or.inl rfl⟩
  | case2 rest ih =>
      obtain ⟨a', ha, hrest⟩ := ih
      exact ⟨'\n' :: a', by simp [universalNewlines, ha], by simpa using hrest⟩
  | case3 rest hne ih =>
      cases rest with
      | nil => exact ⟨[], rfl, Or.inr rfl⟩
      | cons c rest =>
          obtain ⟨a', ha, hrest⟩ := ih
          have hc : c ≠ '\n' := fun hc => hne rest (by rw [hc])
          refine ⟨'\n' :: a', ?_, by simpa using hrest⟩
          rw [List.cons_append, List.cons_append, universalNewlines, ← List.cons_append, ha]
          · rfl
          · intro rest' heq
            exact hc (List.cons.inj heq).1
  | case4 c rest h₁ h₂ ih =>
      obtain ⟨a', ha, hrest⟩ := ih
      refine ⟨c :: a', ?_, by simpa using hrest⟩
      rw [List.cons_append, universalNewlines, ha]
      · rfl
      · intro rest' hc heq
        exact h₂ hc
      · exact h₂

/-- A text without line ends reads back as it stands, behind any other. -/
theorem universalNewlines_append_line {a b : List Char} (hb : '\r' ∉ b)
    (hhead : b.head? ≠ some '\n') : universalNewlines (a ++ b) = universalNewlines a ++ b := by
  fun_induction universalNewlines a with
  | case1 => exact universalNewlines_eq_self hb
  | case2 rest ih => simp [universalNewlines, ih]
  | case3 rest hne ih =>
      rw [List.cons_append, universalNewlines, ih]
      · rfl
      · intro rest' heq
        cases rest with
        | nil => exact hhead (by rw [show b = '\n' :: rest' from heq]; rfl)
        | cons c rest => exact hne rest (by rw [(List.cons.inj heq).1])
  | case4 c rest h₁ h₂ ih =>
      rw [List.cons_append, universalNewlines, ih]
      · rfl
      · intro rest' hc heq
        exact h₂ hc
      · exact h₂

/-- A text without a line feed goes on with the last line. -/
theorem lines_append_line (a : List Char) {b : List Char} (hb : '\n' ∉ b) :
    ∃ before last, lines a = before ++ [last] ∧ lines (a ++ b) = before ++ [last ++ b] := by
  induction a with
  | nil => exact ⟨[], [], rfl, lines_eq_self hb⟩
  | cons c a ih =>
      obtain ⟨before, last, ha, hab⟩ := ih
      by_cases hc : c = '\n'
      · exact ⟨[] :: before, last, by simp [lines, hc, ha], by simp [lines, hc, hab]⟩
      · cases before with
        | nil => exact ⟨[], c :: last, by simp [lines, hc, ha], by simp [lines, hc, hab]⟩
        | cons line before =>
            exact ⟨(c :: line) :: before, last, by simp [lines, hc, ha], by simp [lines, hc, hab]⟩

/-- Stripping a text that ends in a line of its own leaves that line. -/
theorem strip_footer {first last : Char} (a middle : List Char) (hfirst : isSpace first = false)
    (hlast : isSpace last = false) :
    strip (a ++ '\n' :: (first :: middle ++ [last] ++ ['\n']))
      = (a ++ ['\n']).dropWhile isSpace ++ (first :: middle ++ [last]) := by
  have hdrop : (a ++ '\n' :: (first :: middle ++ [last] ++ ['\n'])).dropWhile isSpace
      = (a ++ ['\n']).dropWhile isSpace ++ (first :: middle ++ [last] ++ ['\n']) := by
    rw [List.append_cons, List.dropWhile_append]
    split_ifs with hempty
    · rw [List.isEmpty_iff.mp hempty]
      simp [hfirst]
    · rfl
  rw [strip, hdrop]
  simp [hlast]

/-! ## Numbered texts -/

theorem repr_injective : Function.Injective Nat.repr := fun m n h => by
  have hdigits : Nat.toDigits 10 m = Nat.toDigits 10 n := by
    rw [← Nat.toList_repr, ← Nat.toList_repr, h]
  have hvalue := congrArg (fun digits => Nat.ofDigitChars 10 digits 0) hdigits
  simpa using hvalue

/-- The value of padded digits is the value of the digits. -/
theorem ofDigitChars_padded (width n : ℕ) :
    Nat.ofDigitChars 10 (List.leftpad width '0' (Nat.toDigits 10 n)) 0 = n := by
  unfold List.leftpad
  generalize width - (Nat.toDigits 10 n).length = k
  have hsplit : Nat.ofDigitChars 10 (List.replicate k '0' ++ Nat.toDigits 10 n) 0 =
      Nat.ofDigitChars 10 (Nat.toDigits 10 n) (Nat.ofDigitChars 10 (List.replicate k '0') 0) :=
    Nat.ofDigitChars_append 0
  have hzeros : Nat.ofDigitChars 10 (List.replicate k '0') 0 = 10 ^ k * 0 :=
    Nat.ofDigitChars_replicate_zero
  exact (hsplit.trans (congrArg (Nat.ofDigitChars 10 (Nat.toDigits 10 n)) hzeros)).trans
    Nat.ofDigitChars_ten_toDigits

theorem padded_injective {width : ℕ} :
    Function.Injective fun n => List.leftpad width '0' (Nat.toDigits 10 n) := fun m n h => by
  have hvalue := congrArg (fun digits => Nat.ofDigitChars 10 digits 0) h
  exact (ofDigitChars_padded width m).symm.trans (hvalue.trans (ofDigitChars_padded width n))

theorem dash_not_mem_digits {n : ℕ} : '-' ∉ Nat.toDigits 10 n := fun h => by
  have := Nat.isDigit_of_mem_toDigits (by decide) (by decide) h
  exact absurd this (by decide)

/-- Where the last mark of a text stands is told by what is behind it. -/
theorem append_cons_inj {α : Type} {c : α} {a b x y : List α} (hx : c ∉ x) (hy : c ∉ y)
    (h : a ++ c :: x = b ++ c :: y) : a = b ∧ x = y := by
  rcases List.append_eq_append_iff.mp h with ⟨rest, rfl, hrest⟩ | ⟨rest, rfl, hrest⟩
  · cases rest with
    | nil => exact ⟨by simp, (List.cons.inj hrest).2⟩
    | cons d rest => exact absurd ((List.cons.inj hrest).2 ▸ by simp) hx
  · cases rest with
    | nil => exact ⟨by simp, (List.cons.inj hrest).2.symm⟩
    | cons d rest => exact absurd ((List.cons.inj hrest).2 ▸ by simp) hy

/-- A text and a number behind a dash can be told apart. -/
theorem numbered_inj {a b : String} {m n : ℕ} (h : s!"{a}-{m}" = s!"{b}-{n}") : a = b ∧ m = n := by
  have hlist : a.toList ++ '-' :: Nat.toDigits 10 m = b.toList ++ '-' :: Nat.toDigits 10 n := by
    have := congrArg String.toList h
    simpa [ToString.toString] using this
  obtain ⟨hab, hmn⟩ := append_cons_inj dash_not_mem_digits dash_not_mem_digits hlist
  refine ⟨String.toList_inj.mp hab, repr_injective ?_⟩
  rw [← String.toList_inj, Nat.toList_repr, Nat.toList_repr, hmn]

end Text

end Emporos
