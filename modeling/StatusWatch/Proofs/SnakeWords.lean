import Mathlib
import StatusWatch.Metrics.SnakeCase

/-!
# Words in snake case

Whatever the text, its snake case is made of small letters, digits and single underscores
between them, and it keeps every letter and digit of the text in its place.

- `IsSnake`: the texts that are in snake case.
- `snakeWords_of_isSnake`, `trimUnderscores_of_isSnake`: these are left as they are.
- `mem_snakeWords`, `isChain_snakeWords`, `filter_snakeWords`: what the words of any text
  have for them, whatever precedes them.
- `snakeCase_eq_self_iff`: only texts in snake case are left as they are.
- `snake_case_normal`: all of it together.

Mathlib is imported whole for the lemmas on the case of ASCII letters, which no module of it
imports on its own.
-/

namespace StatusWatch

/-! ## Characters -/

/-- A small letter, a digit or an underscore. -/
def IsSnakeChar (c : Char) : Prop := c.isLower = true ∨ c.isDigit = true ∨ c = '_'

/-- At most one of two neighbours is an underscore. -/
def NotBothUnderscores (a b : Char) : Prop := a = '_' → b ≠ '_'

theorem not_isUpper_of_isDigit {c : Char} (h : c.isDigit = true) : ¬ c.isUpper = true := by
  simp only [Char.isDigit, ↓Char.isValue, Char.reduceVal, ge_iff_le, UInt32.le_iff_toNat_le,
    UInt32.reduceToNat, Char.toNat_val, Bool.and_eq_true, decide_eq_true_eq, Char.isUpper,
    Bool.decide_and, not_and, not_le] at h ⊢
  omega

theorem not_isUpper_of_isSnakeChar {c : Char} (h : IsSnakeChar c) : ¬ c.isUpper = true := by
  rcases h with h | h | rfl
  · exact Char.not_isUpper_of_isLower h
  · exact not_isUpper_of_isDigit h
  · decide

theorem isAlphanum_of_isSnakeChar {c : Char} (h : IsSnakeChar c) (hc : c ≠ '_') :
    c.isAlphanum = true := by
  rcases h with h | h | h
  · simp [Char.isAlphanum, Char.isAlpha, h]
  · simp [Char.isAlphanum, h]
  · exact absurd h hc

/-- Letters stay letters in lower case, and digits stay what they are. -/
theorem isAlphanum_toLower {c : Char} (h : c.isAlphanum = true) :
    c.toLower.isLower = true ∨ c.toLower.isDigit = true := by
  rcases Bool.or_eq_true_iff.mp h with h | h
  · exact Or.inl ((Char.isLower_toLower_eq_isAlpha c).trans h)
  · rw [Char.toLower_eq_of_not_isUpper (not_isUpper_of_isDigit h)]
    exact Or.inr h

theorem toLower_ne_underscore {c : Char} (h : c.isAlphanum = true) : c.toLower ≠ '_' := by
  intro hc
  have := isAlphanum_toLower h
  rw [hc] at this
  revert this
  decide

/-! ## Texts in snake case -/

/-- Small letters, digits and single underscores between them. -/
structure IsSnake (cs : List Char) : Prop where
  chars : ∀ c ∈ cs, IsSnakeChar c
  first : cs.head? ≠ some '_'
  last : cs.getLast? ≠ some '_'
  single : cs.IsChain NotBothUnderscores

/-! ## Words -/

section Words

variable (before : Option Char) (joined : Bool) (cs : List Char)

theorem mem_snakeWords : ∀ c ∈ snakeWords before joined cs, IsSnakeChar c := by
  have hlower : ∀ {c : Char}, (!c.isAlphanum) ≠ true → IsSnakeChar c.toLower := fun h =>
    (isAlphanum_toLower (by simpa using h)).imp_right Or.inl
  fun_induction snakeWords before joined cs with
  | case1 => exact fun _ h => absurd h List.not_mem_nil
  | case2 before c rest _ ih => exact ih
  | case3 before joined c rest _ _ ih =>
    exact List.forall_mem_cons.mpr ⟨Or.inr (Or.inr rfl), ih⟩
  | case4 before joined c rest hc _ ih =>
    exact List.forall_mem_cons.mpr ⟨Or.inr (Or.inr rfl), List.forall_mem_cons.mpr ⟨hlower hc, ih⟩⟩
  | case5 before joined c rest hc _ ih => exact List.forall_mem_cons.mpr ⟨hlower hc, ih⟩

/-- No underscore is written right after another one. -/
theorem head?_snakeWords : (snakeWords before true cs).head? ≠ some '_' := by
  induction cs generalizing before with
  | nil => simp [snakeWords]
  | cons c rest ih =>
    cases hc : c.isAlphanum with
    | false =>
      have hskip : snakeWords before true (c :: rest) = snakeWords (some c) true rest := by
        simp [snakeWords, hc]
      rw [hskip]
      exact ih (some c)
    | true =>
      have hkeep : snakeWords before true (c :: rest) =
          c.toLower :: snakeWords (some c) false rest := by
        simp [snakeWords, hc]
      rw [hkeep, List.head?_cons]
      exact fun h => toLower_ne_underscore hc (Option.some.inj h)

theorem isChain_snakeWords : (snakeWords before joined cs).IsChain NotBothUnderscores := by
  have hne : ∀ {c : Char}, (!c.isAlphanum) ≠ true → c.toLower ≠ '_' := fun h =>
    toLower_ne_underscore (by simpa using h)
  fun_induction snakeWords before joined cs with
  | case1 => exact List.IsChain.nil
  | case2 before c rest _ ih => exact ih
  | case3 before joined c rest _ _ ih =>
    -- an underscore was just written, so the rest does not begin with one
    refine List.isChain_cons.mpr ⟨fun d hd _ hunderscore => ?_, ih⟩
    exact head?_snakeWords (some c) rest (hunderscore ▸ hd)
  | case4 before joined c rest hc _ ih =>
    refine List.isChain_cons.mpr ⟨fun d hd _ => ?_, List.isChain_cons.mpr
      ⟨fun d _ hunderscore => absurd hunderscore (hne hc), ih⟩⟩
    rw [← Option.some.inj hd]
    exact hne hc
  | case5 before joined c rest hc _ ih =>
    exact List.isChain_cons.mpr ⟨fun d _ hunderscore => absurd hunderscore (hne hc), ih⟩

/-- Every letter and digit is kept, in lower case, and no other is written. -/
theorem filter_snakeWords : (snakeWords before joined cs).filter Char.isAlphanum =
    (cs.filter Char.isAlphanum).map Char.toLower := by
  have hunderscore : ('_' : Char).isAlphanum = false := by decide
  have hlower : ∀ {c : Char}, c.isAlphanum = true → c.toLower.isAlphanum = true := fun h => by
    rcases isAlphanum_toLower h with h | h <;> simp [Char.isAlphanum, Char.isAlpha, h]
  fun_induction snakeWords before joined cs with
  | case1 => rfl
  | case2 before c rest hc ih => simp_all
  | case3 before joined c rest hc _ ih => simp_all
  | case4 before joined c rest hc _ ih => simp_all
  | case5 before joined c rest hc _ ih => simp_all

end Words

/-- A text in snake case is its own words. -/
theorem snakeWords_of_isSnake (cs : List Char) : ∀ (before : Option Char) (joined : Bool),
    (∀ c ∈ cs, IsSnakeChar c) → cs.IsChain NotBothUnderscores →
      (joined = true → cs.head? ≠ some '_') → snakeWords before joined cs = cs := by
  induction cs with
  | nil => exact fun _ _ _ _ _ => rfl
  | cons c rest ih =>
    intro before joined hchars hsingle hhead
    obtain ⟨hc, hrest⟩ := List.forall_mem_cons.mp hchars
    obtain ⟨hnext, hrestSingle⟩ := List.isChain_cons.mp hsingle
    have hupper := not_isUpper_of_isSnakeChar hc
    -- an underscore is kept, as none was written right before it
    by_cases hunderscore : c = '_'
    · subst hunderscore
      have hjoined : joined = false := Bool.eq_false_iff.mpr fun h => hhead h rfl
      have hwords : snakeWords before joined ('_' :: rest) =
          '_' :: snakeWords (some '_') true rest := by
        simp [snakeWords, hjoined]
      rw [hwords, ih _ _ hrest hrestSingle fun _ h => hnext '_' h rfl rfl]
    · have hwords : snakeWords before joined (c :: rest) =
          c.toLower :: snakeWords (some c) false rest := by
        simp [snakeWords, isAlphanum_of_isSnakeChar hc hunderscore, hupper]
      rw [hwords, ih _ _ hrest hrestSingle fun h => absurd h Bool.false_ne_true,
        Char.toLower_eq_of_not_isUpper hupper]

/-! ## Ends -/

theorem head?_dropWhile_underscore (cs : List Char) :
    (cs.dropWhile (· = '_')).head? ≠ some '_' := by
  induction cs with
  | nil => simp
  | cons c rest ih => by_cases hc : c = '_' <;> simp [hc, ih]

theorem filter_dropWhile_underscore (cs : List Char) :
    (cs.dropWhile (· = '_')).filter Char.isAlphanum = cs.filter Char.isAlphanum := by
  induction cs with
  | nil => rfl
  | cons c rest ih =>
    by_cases hc : c = '_'
    · subst hc
      simpa using ih
    · simp [hc]

theorem dropWhile_underscore_of_head? {cs : List Char} (h : cs.head? ≠ some '_') :
    cs.dropWhile (· = '_') = cs := by
  cases cs with
  | nil => rfl
  | cons c rest =>
    have hc : c ≠ '_' := fun e => h (congrArg some e)
    simp [hc]

/-- Trimming drops a part from the start and a part from the end. -/
theorem trimUnderscores_isPrefix (cs : List Char) :
    trimUnderscores cs <+: cs.dropWhile (· = '_') := by
  rw [← List.reverse_suffix, trimUnderscores, List.reverse_reverse]
  exact List.dropWhile_suffix _

theorem trimUnderscores_isInfix (cs : List Char) : trimUnderscores cs <:+: cs :=
  (trimUnderscores_isPrefix cs).isInfix.trans (List.dropWhile_suffix _).isInfix

theorem isSnake_trimUnderscores {cs : List Char} (hchars : ∀ c ∈ cs, IsSnakeChar c)
    (hsingle : cs.IsChain NotBothUnderscores) : IsSnake (trimUnderscores cs) where
  chars c hc := hchars c ((trimUnderscores_isInfix cs).subset hc)
  first := by
    obtain ⟨rest, hrest⟩ := trimUnderscores_isPrefix cs
    intro h
    refine head?_dropWhile_underscore cs ?_
    rw [← hrest, List.head?_append, h, Option.some_or]
  last := by
    rw [trimUnderscores, List.getLast?_reverse]
    exact head?_dropWhile_underscore _
  single := hsingle.infix (trimUnderscores_isInfix cs)

theorem filter_trimUnderscores (cs : List Char) :
    (trimUnderscores cs).filter Char.isAlphanum = cs.filter Char.isAlphanum := by
  rw [trimUnderscores, List.filter_reverse, filter_dropWhile_underscore, List.filter_reverse,
    List.reverse_reverse, filter_dropWhile_underscore]

theorem trimUnderscores_of_isSnake {cs : List Char} (h : IsSnake cs) : trimUnderscores cs = cs := by
  have hlast : cs.reverse.head? ≠ some '_' := by
    rw [List.head?_reverse]
    exact h.last
  rw [trimUnderscores, dropWhile_underscore_of_head? h.first,
    dropWhile_underscore_of_head? hlast, List.reverse_reverse]

/-! ## The snake case of a text -/

theorem isSnake_snakeCase (text : String) : IsSnake (snakeCase text).toList := by
  rw [snakeCase, String.toList_ofList]
  exact isSnake_trimUnderscores (mem_snakeWords _ _ _) (isChain_snakeWords _ _ _)

/-- The texts that are left as they are are those in snake case. -/
theorem snakeCase_eq_self_iff {text : String} : snakeCase text = text ↔ IsSnake text.toList := by
  constructor
  · intro h
    rw [← h]
    exact isSnake_snakeCase text
  · intro h
    rw [snakeCase,
      snakeWords_of_isSnake _ _ _ h.chars h.single fun h => absurd h Bool.false_ne_true,
      trimUnderscores_of_isSnake h, String.ofList_toList]

/-- The letters and digits of a text. -/
def lettersAndDigits (text : String) : List Char := text.toList.filter Char.isAlphanum

theorem lettersAndDigits_snakeCase (text : String) :
    lettersAndDigits (snakeCase text) = (lettersAndDigits text).map Char.toLower := by
  rw [lettersAndDigits, snakeCase, String.toList_ofList, filter_trimUnderscores,
    filter_snakeWords]
  rfl

/-- The snake case of a text is in snake case, has the letters and digits of the text in lower
case and in their order, and is its own snake case, as are all texts in snake case and no
others. -/
theorem snake_case_normal (text : String) :
    IsSnake (snakeCase text).toList ∧
      lettersAndDigits (snakeCase text) = (lettersAndDigits text).map Char.toLower ∧
      snakeCase (snakeCase text) = snakeCase text ∧
      (snakeCase text = text ↔ IsSnake text.toList) :=
  ⟨isSnake_snakeCase text, lettersAndDigits_snakeCase text,
    snakeCase_eq_self_iff.mpr (isSnake_snakeCase text), snakeCase_eq_self_iff⟩

end StatusWatch
