import TypedSfc.Proofs.Markup.Describes

/-!
# Directives describe their attribute

An attribute name is taken apart from its start: the mark, the argument, the modifiers. What is left behind each part stands where the
part ended, so every part stands at the offset that is kept with it.
-/

namespace TypedSfc

namespace Markup

namespace RawAttribute

variable {source : List Char} {pos : Nat}

/-- An attribute as written begins with its name, and its value stands at its offset. -/
structure Describes (source : List Char) (raw : RawAttribute) : Prop where
  span_fits : raw.span.Fits source
  nameOffset_eq : raw.nameOffset = raw.span.start
  name_stands : Text.StandsAt source raw.nameOffset raw.name.toList
  value_describes : ∀ v ∈ raw.value, v.Describes source
  value_behind : ∀ v ∈ raw.value, raw.span.start < v.offset
  value_followsQuote : ∀ v ∈ raw.value, v.FollowsQuote source

/-! ## Modifiers -/

/-- The parts around the dots stand at their positions; `part` is what came since the last dot. -/
theorem standsAt_of_mem_dotParts {part cs : List Char} {start : Nat} (h : Text.StandsAt source start (part.reverse ++ cs))
    (hpos : pos = start + Text.size part.reverse) : ∀ p ∈ dotParts pos part cs, Text.StandsAt source p.2 p.1 := by
  have hstart : pos - Text.size part = start := by
    rw [Text.size_reverse] at hpos
    omega
  induction cs generalizing pos part start with
  | nil =>
    intro p hp
    rw [dotParts, List.mem_singleton] at hp
    rw [hp, hstart]
    exact h.left
  | cons c cs ih =>
    intro p hp
    rw [dotParts] at hp
    split at hp
    · rcases List.mem_cons.1 hp with rfl | hp
      · rw [hstart]
        exact h.left
      · have hbehind : Text.StandsAt source (pos + c.utf8Size) ([].reverse ++ cs) := by
          have hright := h.right
          rw [← hpos] at hright
          change Text.StandsAt source pos ([c] ++ cs) at hright
          exact hright.right
        exact ih hbehind (by simp) (by simp) p hp
    · refine @ih _ (c :: part) start ?_ ?_ ?_ p hp
      · rw [List.reverse_cons, List.append_assoc]
        exact h
      · rw [List.reverse_cons, Text.size_append, ← Nat.add_assoc, ← hpos]
        rfl
      · rw [Text.size_cons]
        omega

theorem describes_of_mem_modifiersOf {cs : List Char} (h : Text.StandsAt source pos cs) :
    ∀ m ∈ modifiersOf pos cs, m.Describes source := by
  intro m hm
  obtain ⟨p, hp, hpm⟩ := List.mem_filterMap.1 hm
  have hstands := standsAt_of_mem_dotParts (h : Text.StandsAt source pos ([].reverse ++ cs)) (by simp) p hp
  split at hpm
  · cases hpm
  · obtain rfl := Option.some.inj hpm
    show Text.StandsAt source p.2 (String.ofList p.1).toList
    rw [String.toList_ofList]
    exact hstands

/-! ## Marks and arguments -/

/-- What follows the mark of a directive ends the name. -/
theorem exists_append_rest_of_mark? {cs : List Char} {m : Mark} (h : mark? cs = some m) : ∃ front, cs = front ++ m.rest := by
  unfold mark? at h
  split at h
  · rename_i cs
    dsimp only at h
    have hsplit := List.takeWhile_append_dropWhile (p := fun c : Char => !(c == ':' || c == '.')) (l := cs)
    split at h
    · cases h
    · rename_i rest hdrop _
      obtain rfl := Option.some.inj h
      rw [hdrop] at hsplit
      refine ⟨'v' :: '-' :: (cs.takeWhile (fun c : Char => !(c == ':' || c == '.')) ++ [':']), ?_⟩
      show 'v' :: '-' :: cs = 'v' :: '-' :: (cs.takeWhile (fun c : Char => !(c == ':' || c == '.')) ++ [':'] ++ rest)
      rw [List.append_assoc, List.singleton_append, hsplit]
    · obtain rfl := Option.some.inj h
      exact ⟨'v' :: '-' :: cs.takeWhile (fun c : Char => !(c == ':' || c == '.')), by simp⟩
  · obtain rfl := Option.some.inj h
    exact ⟨[':'], rfl⟩
  · obtain rfl := Option.some.inj h
    exact ⟨['@'], rfl⟩
  · obtain rfl := Option.some.inj h
    exact ⟨['#'], rfl⟩
  · obtain rfl := Option.some.inj h
    exact ⟨['.'], rfl⟩
  · cases h

/-- Only a leading dot stands for a modifier. -/
theorem implied_of_mark? {cs : List Char} {m : Mark} (h : mark? cs = some m) :
    ∀ w ∈ m.implied, w = "prop" ∧ ∃ rest, cs = '.' :: rest := by
  intro w hw
  unfold mark? at h
  split at h
  · dsimp only at h
    split at h
    · cases h
    · obtain rfl := Option.some.inj h
      cases hw
    · obtain rfl := Option.some.inj h
      cases hw
  · obtain rfl := Option.some.inj h
    cases hw
  · obtain rfl := Option.some.inj h
    cases hw
  · obtain rfl := Option.some.inj h
    cases hw
  · obtain rfl := Option.some.inj h
    exact ⟨List.mem_singleton.1 hw, _, rfl⟩
  · cases h

/-- An argument stands where it is said to, and what follows it ends the text. -/
theorem argument_describes (name : String) {cs : List Char} (h : Text.StandsAt source pos cs) :
    (∀ e ∈ (argument name pos cs).1, e.Describes source) ∧ ∃ front, cs = front ++ (argument name pos cs).2.1 := by
  unfold argument
  split
  · rename_i inner
    have hinner : Text.StandsAt source (pos + 1) inner := (show Text.StandsAt source pos (['['] ++ inner) from h).right
    have hsplit := List.takeWhile_append_dropWhile (p := (· != ']')) (l := inner)
    split
    · rename_i c rest hdrop
      rw [hdrop] at hsplit
      refine ⟨?_, '[' :: inner.takeWhile (· != ']') ++ [c], ?_⟩
      · intro e he
        obtain rfl := Option.some.inj he
        rw [← hsplit] at hinner
        show Text.StandsAt source (pos + 1) (String.ofList _).toList
        rw [String.toList_ofList]
        exact hinner.left
      · show '[' :: inner = '[' :: inner.takeWhile (· != ']') ++ [c] ++ rest
        rw [List.cons_append, List.cons_append, List.append_assoc, List.singleton_append, hsplit]
    · refine ⟨?_, '[' :: inner, by rw [List.append_nil]⟩
      intro e he
      obtain rfl := Option.some.inj he
      show Text.StandsAt source (pos + 1) (String.ofList inner).toList
      rw [String.toList_ofList]
      exact hinner
  · dsimp only
    generalize hown : (if name = "slot" then cs else cs.takeWhile (· != '.')) = own
    generalize hbehind : (if name = "slot" then [] else cs.dropWhile (· != '.')) = behind
    have hsplit : cs = own ++ behind := by
      subst hown hbehind
      split
      · rw [List.append_nil]
      · exact List.takeWhile_append_dropWhile.symm
    refine ⟨?_, own, hsplit⟩
    intro e he
    split at he
    · cases he
    · obtain rfl := Option.some.inj he
      rw [hsplit] at h
      show Text.StandsAt source pos (String.ofList _).toList
      rw [String.toList_ofList]
      exact h.left

/-! ## Properties -/

/-- A directive describes the attribute that it is read from, and its faults are noted there. -/
theorem directive?_describes {raw : RawAttribute} (h : raw.Describes source) :
    (∀ d ∈ raw.directive?.1, d.Describes source ∧ d.span = raw.span) ∧ ∀ e ∈ raw.directive?.2, e.span.Fits source := by
  unfold directive?
  split
  · exact ⟨by simp, by simp⟩
  · rename_i m hm
    obtain ⟨front, hfront⟩ := exists_append_rest_of_mark? hm
    have hrest : Text.StandsAt source (raw.nameOffset + (Text.size raw.name.toList - Text.size m.rest)) m.rest :=
      h.name_stands.ending ⟨front, hfront⟩
    dsimp only
    -- The argument, if the mark takes one, and what the modifiers are read from.
    generalize harg : (if m.takesArg then
        argument m.name (raw.nameOffset + (Text.size raw.name.toList - Text.size m.rest)) m.rest else (none, m.rest, false)) = arg
    have hargs : (∀ e ∈ arg.1, e.Describes source) ∧ ∃ front, m.rest = front ++ arg.2.1 := by
      subst harg
      split
      · exact argument_describes m.name hrest
      · exact ⟨by simp, [], rfl⟩
    obtain ⟨hdescribes, front', hfront'⟩ := hargs
    have hmodifiers : Text.StandsAt source (raw.nameOffset + (Text.size raw.name.toList - Text.size arg.2.1)) arg.2.1 :=
      h.name_stands.ending ⟨front ++ front', by rw [List.append_assoc, ← hfront', ← hfront]⟩
    refine ⟨?_, ?_⟩
    · intro d hd
      obtain rfl := Option.some.inj hd
      refine ⟨⟨h.span_fits, h.nameOffset_eq ▸ h.name_stands, hdescribes, ?_, ?_⟩, rfl⟩
      · intro e he
        obtain ⟨v, hv, rfl⟩ := Option.map_eq_some_iff.1 he
        exact h.value_describes v (Option.eq_some_of_filter_eq_some hv)
      · intro e he
        rcases List.mem_append.1 he with he | he
        · right
          obtain ⟨w, hw, rfl⟩ := List.mem_map.1 he
          obtain ⟨rfl, hdot⟩ := implied_of_mark? hm w hw
          exact ⟨by rw [h.nameOffset_eq], hdot⟩
        · left
          exact describes_of_mem_modifiersOf hmodifiers e he
    · intro e he
      split at he
      · rw [List.mem_singleton.1 he]
        exact h.span_fits
      · cases he

/-- A property describes the attribute that it is read from. -/
theorem property_describes {raw : RawAttribute} (h : raw.Describes source) :
    raw.property.1.Describes source ∧ raw.property.1.span = raw.span ∧ ∀ e ∈ raw.property.2, e.span.Fits source := by
  obtain ⟨hdirective, herrors⟩ := directive?_describes h
  unfold property
  split
  · rename_i d faults heq
    rw [heq] at hdirective herrors
    obtain ⟨hd, hspan⟩ := hdirective d rfl
    exact ⟨hd, hspan, herrors⟩
  · rename_i faults heq
    rw [heq] at herrors
    exact ⟨⟨h.span_fits, h.nameOffset_eq ▸ h.name_stands, h.value_describes⟩, rfl, herrors⟩

end RawAttribute

/-- The properties of attributes describe the source, each at the place of its attribute. -/
theorem Reader.properties_describe {source : List Char} {as : List RawAttribute} (h : ∀ a ∈ as, a.Describes source) :
    (∀ p ∈ (Reader.properties as).1, p.Describes source ∧ ∃ a ∈ as, p.span = a.span) ∧
      ∀ e ∈ (Reader.properties as).2, e.span.Fits source := by
  induction as with
  | nil => exact ⟨by simp [properties], by simp [properties]⟩
  | cons a as ih =>
    obtain ⟨hprops, herrors⟩ := ih fun b hb => h b (List.mem_cons_of_mem _ hb)
    obtain ⟨hdescribes, hspan, hfits⟩ := RawAttribute.property_describes (h a List.mem_cons_self)
    constructor
    · intro p hp
      rcases List.mem_cons.1 hp with rfl | hp
      · exact ⟨hdescribes, a, List.mem_cons_self, hspan⟩
      · obtain ⟨hp, b, hb, hb'⟩ := hprops p hp
        exact ⟨hp, b, List.mem_cons_of_mem _ hb, hb'⟩
    · intro e he
      rcases List.mem_append.1 he with he | he
      · exact hfits e he
      · exact herrors e he

end Markup

end TypedSfc
