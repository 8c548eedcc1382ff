import Mathlib
import TypedSfc.Text.Casing

/-!
# Spelling a name again

A name in kebab-case has no capitals, so that it is its own kebab-case. The camelCase of a name need not be its own: a hyphen that stood
before another one and a letter now stands before the capital of that letter, and goes as well when the name is spelled again.

The lemmas about the case of a character (`Char.toLower_eq_of_not_isUpper` and its like), which the spellings of kebab-case names rest on as
well, are in no part of Mathlib but the whole.
-/

namespace TypedSfc

namespace Text

/-! ## Kebab-case -/

/-- Characters of which none is a capital stay as they are. -/
theorem hyphenChars_eq_self {cs : List Char} (h : ∀ c ∈ cs, c.isUpper = false) (inWord : Bool) : hyphenChars inWord cs = cs := by
  induction cs generalizing inWord with
  | nil => rfl
  | cons c cs ih =>
    have hc := h c (by simp)
    rw [hyphenChars, hc, Char.toLower_eq_of_not_isUpper (by simp [hc]), ih fun d hd => h d (by simp [hd])]
    rfl

/-- No capital is left in kebab-case. -/
theorem isUpper_of_mem_hyphenChars {cs : List Char} {inWord : Bool} : ∀ c ∈ hyphenChars inWord cs, c.isUpper = false := by
  induction cs generalizing inWord with
  | nil => simp [hyphenChars]
  | cons d cs ih =>
    intro c hc
    rw [hyphenChars, List.mem_append] at hc
    rcases hc with hc | hc
    · split at hc
      · rcases List.mem_cons.1 hc with rfl | hc
        · rfl
        · obtain rfl := List.mem_singleton.1 hc
          exact Char.isUpper_toLower_eq_false d
      · obtain rfl := List.mem_singleton.1 hc
        exact Char.isUpper_toLower_eq_false d
    · exact ih c hc

/-- The kebab-case of a name is its own kebab-case. -/
@[simp]
theorem hyphenate_hyphenate (s : String) : hyphenate (hyphenate s) = hyphenate s := by
  rw [hyphenate, hyphenate, String.toList_ofList, hyphenChars_eq_self isUpper_of_mem_hyphenChars]

/-! ## CamelCase -/

theorem length_camelChars_le (cs : List Char) : (camelChars cs).length ≤ cs.length := by
  fun_induction camelChars cs <;> simp only [List.length_cons, List.length_nil] at * <;> omega

/-- Characters are in camelCase when no hyphen of theirs stands before a word character. -/
theorem camelChars_eq_self_iff (cs : List Char) :
    camelChars cs = cs ↔ cs.IsChain fun c d => ¬(c = '-' ∧ isWord d = true) := by
  fun_induction camelChars cs with
  | case1 => simp
  | case2 c => simp
  | case3 c d cs h ih =>
    -- A hyphen that goes makes the name shorter.
    have hshort : d.toUpper :: camelChars cs ≠ c :: d :: cs := by
      intro heq
      have hlength := congrArg List.length heq
      have hle := length_camelChars_le cs
      simp only [List.length_cons] at hlength
      omega
    have hcd : c = '-' ∧ isWord d = true := by simpa using h
    exact iff_of_false hshort fun hchain => (List.isChain_cons_cons.1 hchain).1 hcd
  | case4 c d cs h ih =>
    have hcd : c = '-' → isWord d = false := by simpa using h
    simpa [ih] using fun _ => hcd

/-- A name is its own camelCase when no hyphen in it stands before a word character. -/
theorem camelize_eq_self_iff (s : String) : camelize s = s ↔ s.toList.IsChain fun c d => ¬(c = '-' ∧ isWord d = true) := by
  rw [← camelChars_eq_self_iff, camelize, ← String.toList_inj, String.toList_ofList]

end Text

end TypedSfc
