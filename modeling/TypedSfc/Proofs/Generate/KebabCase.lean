import TypedSfc.Proofs.Generate.ListenerNames
import TypedSfc.Proofs.Text.Spellings

/-!
# From camelCase back to kebab-case

CamelCase drops a hyphen by looking at the character behind it, and kebab-case writes one by looking at the character before a capital. So
a name comes back just when it has no capitals and each hyphen that is dropped stands behind a word character and before a small letter:
there its capital is met on the way back, and what stood before the hyphen is before it. Names in kebab-case have only such hyphens.
-/

namespace TypedSfc

namespace Text

variable {c d : Char} {cs out : List Char} {inWord : Bool}

/-! ## One character -/

theorem isWord_of_isLower (h : c.isLower = true) : isWord c = true := by simp [isWord, Char.isAlphanum, Char.isAlpha, h]

@[simp]
theorem isWord_toUpper (c : Char) : isWord c.toUpper = isWord c := by
  by_cases h : c.isLower = true
  · have hupper : c.toUpper.isUpper = true := by simp [Char.isAlpha, h]
    rw [isWord_of_isLower h]
    simp [isWord, Char.isAlphanum, Char.isAlpha, hupper]
  · rw [Char.toUpper_eq_of_not_isLower h]

theorem isUpper_of_isDigit (h : c.isDigit = true) : c.isUpper = false := by
  have hle : c.val ≤ '9'.val := of_decide_eq_true (Bool.and_eq_true_iff.1 h).2
  have hlt : c.val < 'A'.val := UInt32.lt_of_le_of_lt hle (by decide)
  simpa [Char.isUpper] using fun hge => absurd hge (UInt32.not_le.2 hlt)

theorem toLower_ne_of_isUpper (h : c.isUpper = true) : c.toLower ≠ c := by
  intro heq
  have hsmall := Char.isUpper_toLower_eq_false c
  rw [heq, h] at hsmall
  cases hsmall

/-- A character that was kept is met again unless it is a capital, and the way back goes on behind it. -/
theorem hyphenChars_cons_eq_iff :
    hyphenChars inWord (c :: out) = c :: cs ↔ c.isUpper = false ∧ hyphenChars (isWord c) out = cs := by
  by_cases hc : c.isUpper = true
  · have hhyphen : '-' ≠ c := by
      rintro rfl
      cases hc
    cases inWord <;> simp [hyphenChars, hc, toLower_ne_of_isUpper hc, hhyphen]
  · rw [hyphenChars, Char.toLower_eq_of_not_isUpper hc]
    simp [hc]

/-- The capital of a word character becomes a hyphen and the character just when that is a small letter, met behind a word character. -/
theorem hyphenChars_toUpper_cons_eq_iff (hd : isWord d = true) :
    hyphenChars inWord (d.toUpper :: out) = '-' :: d :: cs ↔ (d.isLower = true ∧ inWord = true) ∧ hyphenChars true out = cs := by
  rw [hyphenChars, isWord_toUpper, hd, Char.isUpper_toUpper_eq_isAlpha, Char.toLower_toUpper_eq_toLower]
  by_cases hmet : d.isAlpha = true ∧ inWord = true
  · obtain ⟨halpha, rfl⟩ := hmet
    have hsmall : d.toLower = d ↔ d.isLower = true := by
      constructor
      · intro heq
        rw [← heq, Char.isLower_toLower_eq_isAlpha, halpha]
      · exact fun h => Char.toLower_eq_of_not_isUpper (Char.not_isUpper_of_isLower h)
    simp [halpha, hsmall]
  · have hhyphen : d.toLower ≠ '-' := fun h => ne_hyphen_of_isWord hd (eq_of_toLower_eq (by decide) h)
    have hnot : ¬(d.isLower = true ∧ inWord = true) := fun h => hmet ⟨by simp [Char.isAlpha, h.1], h.2⟩
    have hplain : (d.isAlpha && inWord) = false := by simpa using hmet
    simp [hplain, hhyphen, hnot]

/-! ## Whole names -/

/-- Each hyphen before a word character stands behind a word character and before a small letter; `inWord` tells whether a word character
comes before the text. -/
def Joined (inWord : Bool) (cs : List Char) : Prop :=
  ∀ front d back, cs = front ++ '-' :: d :: back → isWord d = true →
    d.isLower = true ∧ (front.getLast?.map isWord).getD inWord = true

theorem joined_nil : Joined inWord [] := by
  intro front d back heq
  simp at heq

theorem joined_cons_iff : Joined inWord (c :: cs) ↔
    (c = '-' → ∀ d ∈ cs.head?, isWord d = true → d.isLower = true ∧ inWord = true) ∧ Joined (isWord c) cs := by
  have hlast (front : List Char) : ((c :: front).getLast?.map isWord).getD inWord = (front.getLast?.map isWord).getD (isWord c) := by
    cases h : front.getLast? <;> simp [List.getLast?_cons, h]
  constructor
  · intro h
    constructor
    · rintro rfl d hd hword
      obtain ⟨back, rfl⟩ := List.head?_eq_some_iff.1 hd
      exact h [] d back rfl hword
    · intro front d back heq hword
      rw [← hlast]
      exact h (c :: front) d back (by rw [heq]; rfl) hword
  · rintro ⟨hfirst, hrest⟩ front d back heq hword
    cases front with
    | nil =>
      obtain ⟨rfl, rfl⟩ := List.cons.inj heq
      exact hfirst rfl d rfl hword
    | cons c' front =>
      obtain ⟨rfl, rfl⟩ := List.cons.inj heq
      rw [hlast]
      exact hrest front d back rfl hword

theorem joined_cons_iff_of_isWord (hc : isWord c = true) : Joined inWord (c :: cs) ↔ Joined true cs := by
  rw [joined_cons_iff, hc]
  exact and_iff_right fun heq => absurd heq (ne_hyphen_of_isWord hc)

/-- Characters come back from camelCase when none is a capital and each hyphen that goes stands between a word character and a small
letter. -/
theorem hyphenChars_camelChars_eq_self_iff (cs : List Char) (inWord : Bool) :
    hyphenChars inWord (camelChars cs) = cs ↔ (∀ c ∈ cs, c.isUpper = false) ∧ Joined inWord cs := by
  fun_induction camelChars cs generalizing inWord with
  | case1 => simp [hyphenChars, joined_nil]
  | case2 c =>
    rw [hyphenChars_cons_eq_iff, joined_cons_iff]
    simp [hyphenChars, joined_nil]
  | case3 c d cs h ih =>
    obtain ⟨rfl, hd⟩ : c = '-' ∧ isWord d = true := by simpa using h
    have hjoined : Joined inWord ('-' :: d :: cs) ↔ (d.isLower = true ∧ inWord = true) ∧ Joined true cs := by
      rw [joined_cons_iff, joined_cons_iff_of_isWord hd]
      simp [hd]
    rw [hyphenChars_toUpper_cons_eq_iff hd, ih, hjoined]
    have hsmall : d.isLower = true → d.isUpper = false := fun h => by simpa using Char.not_isUpper_of_isLower h
    simp only [List.forall_mem_cons, show '-'.isUpper = false from rfl, true_and]
    tauto
  | case4 c d cs h ih =>
    have hcd : c = '-' → isWord d = false := by simpa using h
    have hjoined : Joined inWord (c :: d :: cs) ↔ Joined (isWord c) (d :: cs) := by
      rw [joined_cons_iff]
      exact and_iff_right fun hc => by simp [hcd hc]
    rw [hyphenChars_cons_eq_iff, ih, hjoined, List.forall_mem_cons (l := d :: cs), and_assoc]

/-- A name comes back from camelCase when it has no capital and each hyphen that goes stands between a word character and a small
letter. -/
theorem hyphenate_camelize_eq_self_iff (s : String) :
    hyphenate (camelize s) = s ↔ (∀ c ∈ s.toList, c.isUpper = false) ∧ Joined false s.toList := by
  rw [← hyphenChars_camelChars_eq_self_iff, hyphenate, camelize, String.toList_ofList, ← String.toList_inj, String.toList_ofList]

/-- A digit has no capital, so that its hyphen is not met again. -/
example : hyphenate (camelize "foo-1") = "foo1" := by decide +kernel

/-- The capital of a word character at the start of a name is no boundary. -/
theorem hyphenate_capitalize {s : String} (h : s.toList.head?.all isWord = true) : hyphenate (capitalize s) = hyphenate s := by
  cases hs : s.toList with
  | nil =>
    unfold capitalize
    rw [hs, hyphenate, hyphenate, hs]
    rfl
  | cons c cs =>
    have hc : isWord c = true := by simpa [hs] using h
    rw [capitalize_of_cons hs, toUpper_of_isWord hc, hyphenate, hyphenate, String.toList_ofList, hs]
    simp [hyphenChars]

/-! ## Names in kebab-case -/

/-- A word of a name: small letters and digits, the first of them a letter. -/
def IsKebabWord : List Char → Prop
  | [] => False
  | c :: cs => c.isLower = true ∧ cs.all (fun d => d.isLower || d.isDigit) = true

/-- A name in kebab-case: one or more words, and a hyphen between two neighbours. -/
inductive IsKebab : List Char → Prop
  | one {w : List Char} (h : IsKebabWord w) : IsKebab w
  | more {w cs : List Char} (h : IsKebabWord w) (hcs : IsKebab cs) : IsKebab (w ++ '-' :: cs)

theorem IsKebabWord.exists_cons {w : List Char} (h : IsKebabWord w) : ∃ c cs, w = c :: cs ∧ c.isLower = true := by
  cases w with
  | nil => exact h.elim
  | cons c cs => exact ⟨c, cs, rfl, h.1⟩

theorem IsKebabWord.isLower_or {w : List Char} (h : IsKebabWord w) : ∀ c ∈ w, c.isLower = true ∨ c.isDigit = true := by
  cases w with
  | nil => simp
  | cons c cs =>
    have hmore : ∀ d ∈ cs, d.isLower = true ∨ d.isDigit = true := by simpa using h.2
    exact List.forall_mem_cons.2 ⟨.inl h.1, hmore⟩

theorem IsKebabWord.isWord {w : List Char} (h : IsKebabWord w) : ∀ c ∈ w, isWord c = true := by
  intro c hc
  rcases h.isLower_or c hc with hlower | hdigit
  · exact isWord_of_isLower hlower
  · simp [Text.isWord, Char.isAlphanum, hdigit]

theorem IsKebabWord.joined_append_iff {w : List Char} (h : IsKebabWord w) : Joined inWord (w ++ cs) ↔ Joined true cs := by
  obtain ⟨c, w, rfl, -⟩ := h.exists_cons
  obtain ⟨hc, hw⟩ := List.forall_mem_cons.1 h.isWord
  rw [List.cons_append, joined_cons_iff_of_isWord hc]
  clear h
  induction w with
  | nil => rfl
  | cons d w ih =>
    obtain ⟨hd, hw⟩ := List.forall_mem_cons.1 hw
    rw [List.cons_append, joined_cons_iff_of_isWord hd, ih hw]

namespace IsKebab

theorem exists_cons (h : IsKebab cs) : ∃ c rest, cs = c :: rest ∧ c.isLower = true := by
  cases h with
  | one h => exact h.exists_cons
  | more h hcs =>
    obtain ⟨c, w, rfl, hc⟩ := h.exists_cons
    exact ⟨c, w ++ '-' :: _, rfl, hc⟩

theorem isUpper_eq_false (h : IsKebab cs) : ∀ c ∈ cs, c.isUpper = false := by
  have hword {w : List Char} (hw : IsKebabWord w) : ∀ c ∈ w, c.isUpper = false := by
    intro c hc
    rcases hw.isLower_or c hc with hlower | hdigit
    · simpa using Char.not_isUpper_of_isLower hlower
    · exact isUpper_of_isDigit hdigit
  induction h with
  | one h => exact hword h
  | more h _ ih =>
    rw [List.forall_mem_append, List.forall_mem_cons]
    exact ⟨hword h, rfl, ih⟩

theorem joined (h : IsKebab cs) (inWord : Bool) : Joined inWord cs := by
  induction h generalizing inWord with
  | @one w h =>
    rw [← w.append_nil, h.joined_append_iff]
    exact joined_nil
  | more h hcs ih =>
    obtain ⟨c, rest, rfl, hc⟩ := hcs.exists_cons
    rw [h.joined_append_iff, joined_cons_iff]
    refine ⟨fun _ d hd _ => ⟨?_, rfl⟩, ih _⟩
    obtain rfl := Option.some.inj hd
    exact hc

/-- A name in kebab-case comes back from camelCase. -/
theorem hyphenate_camelize {name : String} (h : IsKebab name.toList) : hyphenate (camelize name) = name :=
  (hyphenate_camelize_eq_self_iff name).2 ⟨h.isUpper_eq_false, h.joined false⟩

/-- A name in kebab-case comes back from PascalCase. -/
theorem hyphenate_capitalize_camelize {name : String} (h : IsKebab name.toList) : hyphenate (capitalize (camelize name)) = name := by
  obtain ⟨c, rest, hname, hc⟩ := h.exists_cons
  have hword := isWord_of_isLower hc
  obtain ⟨more, hcamel⟩ := exists_camelize_cons hname (ne_hyphen_of_isWord hword)
  rw [hyphenate_capitalize (by simp [hcamel, hword]), h.hyphenate_camelize]

/-- A name in kebab-case is its own kebab-case. -/
theorem hyphenate_self {name : String} (h : IsKebab name.toList) : hyphenate name = name := by
  rw [hyphenate, hyphenChars_eq_self h.isUpper_eq_false, String.ofList_toList]

end IsKebab

end Text

end TypedSfc
