import Mathlib.Data.List.TakeWhile
import TypedSfc.Markup.Loop
import TypedSfc.Proofs.Markup.Describes

/-!
# Loop expressions describe their source

A loop expression is cut at its keyword and at its commas, and white space and parentheses are taken off both ends of a part. What is
left of a part is a beginning or an end of it, so its place follows from how much shorter it is.
-/

namespace TypedSfc

namespace Text

/-- Without the white space before it a text begins with something else. -/
theorem isSpace_head_trimStart (cs : List Char) : ∀ c ∈ (trimStart cs).head?, isSpace c = false := by
  intro c hc
  have hnot := List.head?_dropWhile_not isSpace cs
  rw [show (cs.dropWhile isSpace).head? = some c from hc] at hnot
  exact hnot

/-- White space is all that is taken from the end of a text, and what is left ends with something else. -/
theorem exists_trimEnd (cs : List Char) :
    ∃ back, cs = trimEnd cs ++ back ∧ (∀ c ∈ back, isSpace c = true) ∧ ∀ c ∈ (trimEnd cs).getLast?, isSpace c = false := by
  refine ⟨(cs.reverse.takeWhile isSpace).reverse, ?_, ?_, ?_⟩
  · rw [trimEnd, ← List.reverse_append, List.takeWhile_append_dropWhile, List.reverse_reverse]
  · intro c hc
    exact List.mem_takeWhile_imp (List.mem_reverse.1 hc)
  · rw [trimEnd, List.getLast?_reverse]
    exact isSpace_head_trimStart cs.reverse

end Text

namespace Markup

namespace Loop

variable {source : List Char} {pos : Nat}

/-! ## Ends of texts -/

theorem exists_append_trimStart (cs : List Char) : ∃ gap, cs = gap ++ Text.trimStart cs :=
  ⟨cs.takeWhile Text.isSpace, List.takeWhile_append_dropWhile.symm⟩

theorem exists_trimEnd_append (cs : List Char) : ∃ gap, cs = Text.trimEnd cs ++ gap :=
  (Text.exists_trimEnd cs).imp fun _ h => h.1

theorem exists_append_dropOpen (cs : List Char) : ∃ front, cs = front ++ dropOpen cs := by
  unfold dropOpen
  split
  · exact ⟨['('], rfl⟩
  · exact ⟨[], rfl⟩

theorem exists_dropClose_append (cs : List Char) : ∃ back, cs = dropClose cs ++ back := by
  unfold dropClose
  split
  · rename_i rest hreverse
    refine ⟨[')'], ?_⟩
    have hcs := congrArg List.reverse hreverse
    rwa [List.reverse_reverse, List.reverse_cons] at hcs
  · exact ⟨[], (List.append_nil cs).symm⟩

/-- What is left of a text without the white space around it stands where that is counted to. -/
theorem piece_describes {cs : List Char} (h : Text.StandsAt source pos cs) : ∀ e ∈ piece pos cs, e.Describes source := by
  intro e he
  unfold piece at he
  split at he
  · cases he
  · obtain rfl := Option.some.inj he
    have hstart := h.ending (exists_append_trimStart cs)
    have hown := hstart.beginning (exists_trimEnd_append (Text.trimStart cs))
    show Text.StandsAt source _ (String.ofList (Text.trim cs)).toList
    rw [String.toList_ofList]
    exact hown

/-! ## Cuts -/

/-- The source that follows a keyword ends the text. -/
theorem exists_append_of_afterKeyword {cs rest : List Char} (h : afterKeyword cs = some rest) : ∃ front, cs = front ++ rest := by
  unfold afterKeyword at h
  split at h
  · rename_i a b c cs
    split at h
    · split at h
      · cases h
      · obtain rfl := Option.some.inj h
        obtain ⟨gap, hgap⟩ := exists_append_trimStart (c :: cs)
        exact ⟨a :: b :: gap, congrArg (a :: b :: ·) hgap⟩
    · cases h
  · cases h

section

-- Whether a keyword follows is not to be looked into here: to compare the two sides by that takes very long.
attribute [local irreducible] afterKeyword

theorem splitKeyword_cons (before : List Char) (c : Char) (cs : List Char) :
    splitKeyword before (c :: cs) =
      if Text.isSpace c then
        match afterKeyword (Text.trimStart (c :: cs)) with
        | some rest => some (before.reverse, rest)
        | none => splitKeyword (c :: before) cs
      else splitKeyword (c :: before) cs := rfl

end

/-- What stands before the keyword begins the text, and the source ends it. -/
theorem exists_of_splitKeyword {before cs left right : List Char} (h : splitKeyword before cs = some (left, right)) :
    (∃ back, before.reverse ++ cs = left ++ back) ∧ ∃ front, before.reverse ++ cs = front ++ right := by
  induction cs generalizing before with
  | nil => cases h
  | cons c cs ih =>
    -- Past a character that is no cut, the character belongs to what stands before.
    have hpass : splitKeyword (c :: before) cs = some (left, right) →
        (∃ back, before.reverse ++ c :: cs = left ++ back) ∧ ∃ front, before.reverse ++ c :: cs = front ++ right := by
      intro hnext
      have hmove : before.reverse ++ c :: cs = (c :: before).reverse ++ cs := by simp
      rw [hmove]
      exact ih hnext
    rw [splitKeyword_cons] at h
    split at h
    · split at h
      · rename_i rest hkeyword
        obtain ⟨rfl, rfl⟩ := Prod.mk.inj (Option.some.inj h)
        obtain ⟨gap, hgap⟩ := exists_append_trimStart (c :: cs)
        obtain ⟨front, hfront⟩ := exists_append_of_afterKeyword hkeyword
        refine ⟨⟨c :: cs, rfl⟩, before.reverse ++ gap ++ front, ?_⟩
        rw [List.append_assoc, List.append_assoc, ← hfront, ← hgap]
      · exact hpass h
    · exact hpass h

theorem eq_of_splitLastComma {cs before rest : List Char} (h : splitLastComma cs = some (before, rest)) : cs = before ++ ',' :: rest := by
  induction cs generalizing before with
  | nil => cases h
  | cons c cs ih =>
    rw [splitLastComma] at h
    split at h
    · rename_i before' rest' hsplit
      obtain ⟨rfl, rfl⟩ := Prod.mk.inj (Option.some.inj h)
      rw [ih hsplit, List.cons_append]
    · split at h
      · rename_i hcomma
        obtain ⟨rfl, rfl⟩ := Prod.mk.inj (Option.some.inj h)
        rw [eq_of_beq hcomma, List.nil_append]
      · cases h

/-- The parts of an alias list stand behind each other, with a comma between. -/
theorem splitAliases_stands {cs : List Char} (h : Text.StandsAt source pos cs) :
    Text.StandsAt source pos (splitAliases cs).1 ∧
      ∀ k ∈ (splitAliases cs).2.1, Text.StandsAt source (pos + Text.size (splitAliases cs).1 + 1) k ∧
        ∀ i ∈ (splitAliases cs).2.2, Text.StandsAt source (pos + Text.size (splitAliases cs).1 + 1 + Text.size k + 1) i := by
  -- What stands before a comma, and what stands behind it.
  have hcut : ∀ {n : Nat} {t before rest : List Char}, Text.StandsAt source n t → splitLastComma t = some (before, rest) →
      Text.StandsAt source n before ∧ Text.StandsAt source (n + Text.size before + 1) rest := by
    intro n t before rest ht hsplit
    rw [eq_of_splitLastComma hsplit] at ht
    exact ⟨ht.left, (show Text.StandsAt source _ ([','] ++ _) from ht.right).right⟩
  unfold splitAliases
  split
  · exact ⟨h, by simp⟩
  · rename_i before last hlast
    obtain ⟨hbefore, hbehind⟩ := hcut h hlast
    split
    · exact ⟨h, by simp⟩
    · split
      · rename_i value key hkey
        obtain ⟨hvalue, hkey'⟩ := hcut hbefore hkey
        split
        · refine ⟨hbefore, ?_⟩
          intro k hk
          obtain rfl := Option.some.inj hk
          exact ⟨hbehind, by simp⟩
        · refine ⟨hvalue, ?_⟩
          intro k hk
          obtain rfl := Option.some.inj hk
          refine ⟨hkey', ?_⟩
          intro i hi
          obtain rfl := Option.some.inj hi
          have hsize : Text.size before = Text.size value + (1 + Text.size key) := by
            rw [eq_of_splitLastComma hkey, Text.size_append]
            rfl
          rw [hsize] at hbehind
          have hplace : pos + Text.size value + 1 + Text.size key + 1 = pos + (Text.size value + (1 + Text.size key)) + 1 := by omega
          rw [hplace]
          exact hbehind
      · refine ⟨hbefore, ?_⟩
        intro k hk
        obtain rfl := Option.some.inj hk
        exact ⟨hbehind, by simp⟩

/-! ## Loops -/

/-- What is read of a loop expression stands in the source where the expression does. -/
theorem parse_describes {e : Expression} (he : e.Describes source) : ∀ h ∈ parse e, h.Describes source := by
  intro h hh
  unfold parse at hh
  obtain ⟨⟨left, right⟩, hsplit, rfl⟩ := Option.map_eq_some_iff.1 hh
  obtain ⟨hleft, hright⟩ := exists_of_splitKeyword hsplit
  rw [List.reverse_nil, List.nil_append] at hleft hright
  have hsource := (Text.StandsAt.ending he hright).beginning (exists_trimEnd_append right)
  -- The alias list, step by step: without white space, one parenthesis on each side, and white space again.
  have hleft' := Text.StandsAt.beginning he hleft
  have hopen := (hleft'.ending (exists_append_trimStart left)).beginning (exists_trimEnd_append (Text.trimStart left))
  have hinner := (hopen.ending (exists_append_dropOpen _)).beginning (exists_dropClose_append _)
  have hlist := (hinner.ending (exists_append_trimStart _)).beginning (exists_trimEnd_append _)
  obtain ⟨hvalue, hkey⟩ := splitAliases_stands hlist
  refine ⟨?_, ?_, ?_, ?_⟩
  · intro s hs
    obtain rfl := Option.some.inj hs
    show Text.StandsAt source _ (String.ofList (Text.trimEnd right)).toList
    rw [String.toList_ofList]
    exact hsource
  · dsimp only
    exact piece_describes hvalue
  · intro k hk
    obtain ⟨t, ht, hpiece⟩ := Option.bind_eq_some_iff.1 hk
    exact piece_describes (hkey t ht).1 k hpiece
  · intro i hi
    obtain ⟨t, ht, hindex⟩ := Option.bind_eq_some_iff.1 hi
    obtain ⟨u, hu, hpiece⟩ := Option.bind_eq_some_iff.1 hindex
    exact piece_describes ((hkey t ht).2 u hu) i hpiece

end Loop

end Markup

end TypedSfc
