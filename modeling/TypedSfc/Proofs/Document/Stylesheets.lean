import TypedSfc.Document.Stylesheet
import TypedSfc.Proofs.Text.Places

/-!
# What is found in style sheets

Comments are made blanks before a style sheet is searched. A character is then as many bytes as before, so a character that is no blank
is at its own place.
-/

namespace TypedSfc

namespace Stylesheet

/-- What is taken while a property holds ends in front of what does not have it. -/
theorem takeWhile_append_cons {α : Type} {p : α → Bool} {as : List α} {b : α} (has : ∀ a ∈ as, p a = true) (hb : p b = false)
    (bs : List α) : (as ++ b :: bs).takeWhile p = as ∧ (as ++ b :: bs).dropWhile p = b :: bs := by
  have hnot : ¬p b = true := by simp [hb]
  rw [List.takeWhile_append_of_pos has, List.dropWhile_append_of_pos has, List.takeWhile_cons_of_neg hnot, List.dropWhile_cons_of_neg hnot]
  exact ⟨List.append_nil as, rfl⟩

/-- A letter or an underscore is a character of words. -/
theorem isWord_of_letter {c : Char} (h : c.isAlpha = true ∨ c = '_') : isWord c = true := by
  rcases h with h | rfl
  · simp [isWord, Char.isAlphanum, h]
  · rfl

/-- Each character of a text is kept, but perhaps for its case, or is made as many blanks as it has bytes. -/
inductive Blanks : List Char → List Char → Prop
  | nil : Blanks [] []
  | keep {c d : Char} {cs ds : List Char} (size_eq : d.utf8Size = c.utf8Size) (rest : Blanks cs ds) : Blanks (c :: cs) (d :: ds)
  | blank {c : Char} {cs ds : List Char} (rest : Blanks cs ds) : Blanks (c :: cs) (blank [c] ++ ds)

namespace Blanks

variable {cs ds : List Char}

/-- What is a blanked form of a text in small letters is one of the text itself. -/
theorem ofLower (h : Blanks (Text.lower cs) ds) : Blanks cs ds := by
  induction cs generalizing ds with
  | nil => exact h
  | cons c cs ih =>
    have hsize := Text.utf8Size_toLower c
    generalize hlower : Text.lower (c :: cs) = ls at h
    cases h with
    | nil => cases hlower
    | keep size_eq rest =>
      obtain ⟨rfl, rfl⟩ := List.cons.inj hlower
      exact .keep (size_eq.trans hsize) (ih rest)
    | blank rest =>
      obtain ⟨rfl, rfl⟩ := List.cons.inj hlower
      have hblank : Stylesheet.blank [c.toLower] = Stylesheet.blank [c] := by simp [Stylesheet.blank, hsize]
      rw [hblank]
      exact .blank (ih rest)

theorem size_blank (c : Char) : Text.size (Stylesheet.blank [c]) = c.utf8Size := by
  have hreplicate : ∀ n, Text.size (List.replicate n ' ') = n := by
    intro n
    induction n with
    | zero => rfl
    | succ n ih =>
      rw [List.replicate_succ, Text.size_cons, ih]
      exact Nat.add_comm 1 n
  rw [Stylesheet.blank, List.flatMap_singleton, hreplicate]

/-- What comes behind the blanks of a character comes behind all of them, if it begins with no blank. -/
theorem exists_behind_blank {c d : Char} {before rest : List Char} (hd : d ≠ ' ')
    (h : Stylesheet.blank [c] ++ ds = before ++ d :: rest) :
    ∃ before', before = Stylesheet.blank [c] ++ before' ∧ ds = before' ++ d :: rest := by
  rcases List.append_eq_append_iff.1 h with ⟨before', rfl, hbehind⟩ | ⟨mid, hmid, hbehind⟩
  · exact ⟨before', rfl, hbehind⟩
  · cases mid with
    | nil => exact ⟨[], by rw [hmid, List.append_nil, List.append_nil], hbehind.symm⟩
    | cons e mid =>
      obtain ⟨rfl, -⟩ := List.cons.inj hbehind
      have hmem : d ∈ Stylesheet.blank [c] := by simp [hmid]
      rw [Stylesheet.blank, List.flatMap_singleton] at hmem
      exact absurd (List.eq_of_mem_replicate hmem) hd

/-- A character that is no blank is between two places of the text. -/
theorem isPlace (h : Blanks cs ds) {n : Nat} {d : Char} {rest : List Char} (hd : d ≠ ' ') (hrest : Text.Rest ds n (d :: rest)) :
    Text.IsPlace cs n ∧ Text.IsPlace cs (n + d.utf8Size) := by
  have hcons : ∀ {c : Char} {cs : List Char} {k : Nat}, Text.IsPlace cs k → Text.IsPlace (c :: cs) (c.utf8Size + k) := by
    rintro c cs k ⟨more, before, rfl, rfl⟩
    exact ⟨more, c :: before, rfl, rfl⟩
  induction h generalizing n with
  | nil =>
    obtain ⟨before, heq, -⟩ := hrest
    simp at heq
  | @keep c d' cs ds size_eq behind ih =>
    obtain ⟨before, heq, rfl⟩ := hrest
    cases before with
    | nil =>
      obtain ⟨rfl, rfl⟩ := List.cons.inj heq
      refine ⟨Text.isPlace_zero _, ?_⟩
      have hplace := hcons (c := c) (Text.isPlace_zero cs)
      rwa [Text.size_nil, Nat.zero_add, size_eq]
    | cons e before =>
      obtain ⟨rfl, hbehind⟩ := List.cons.inj heq
      obtain ⟨hstart, hstop⟩ := ih ⟨before, hbehind, rfl⟩
      rw [Text.size_cons, size_eq, Nat.add_assoc]
      exact ⟨hcons hstart, hcons hstop⟩
  | @blank c cs ds behind ih =>
    obtain ⟨before, heq, rfl⟩ := hrest
    obtain ⟨before', rfl, hbehind⟩ := exists_behind_blank hd heq
    obtain ⟨hstart, hstop⟩ := ih ⟨before', hbehind, rfl⟩
    rw [Text.size_append, size_blank, Nat.add_assoc]
    exact ⟨hcons hstart, hcons hstop⟩

end Blanks

/-- Comments that are blanked leave the rest of a text where it is. -/
theorem blanks_blankComments (state : CommentState) (cs : List Char) : Blanks cs (blankComments state cs) := by
  induction cs generalizing state with
  | nil =>
    rw [blankComments]
    exact .nil
  | cons c cs ih =>
    have hkeep : ∀ state, Blanks (c :: cs) (c :: blankComments state cs) := fun state => .keep rfl (ih state)
    have hblank : ∀ state, Blanks (c :: cs) (blank [c] ++ blankComments state cs) := fun state => .blank (ih state)
    cases state with
    | code =>
      unfold blankComments
      dsimp only
      split <;> exact hkeep _
    | opening isBlock => exact hkeep _
    | block =>
      unfold blankComments
      dsimp only
      split
      · exact hkeep _
      · exact hblank _
    | ending => exact hkeep _
    | line =>
      unfold blankComments
      dsimp only
      split
      · rename_i hline
        rw [← eq_of_beq hline]
        exact hkeep _
      · exact hblank _
    | stopped => exact hkeep _

/-! ## What is found -/

/-- What is found at a place that reads a text is the text. -/
theorem refAt_eq {css t : List Char} {s : Span} (h : s.Reads css t) : refAt css s = ⟨String.ofList t, s.start⟩ := by
  rw [refAt, h.between_eq]

/-- The name of a class stands in the style sheet behind its dot. -/
theorem classNames_stand (css : String) :
    ∀ r ∈ classNames css, ∀ name, r.text.toList = '.' :: name → Text.StandsAt css.toList (r.offset + 1) name := by
  intro r hr name hname
  obtain ⟨s, -, rfl⟩ := List.mem_map.1 hr
  have htext : Text.between s.start s.stop css.toList = '.' :: name := by rwa [refAt, String.toList_ofList] at hname
  rcases Text.between_eq_nil_or s.start s.stop css.toList with hnil | ⟨hstands, -⟩
  · rw [hnil] at htext
    cases htext
  · rw [htext] at hstands
    exact (show Text.StandsAt css.toList s.start (['.'] ++ name) from hstands).right

end Stylesheet

end TypedSfc
