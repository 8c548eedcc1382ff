import TypedSfc.Proofs.Markup.Origins

/-!
# How directives are spelled

A directive with `v-` begins with its name, and the others have the names of their marks. A computed argument has its bracket right
before it, and right behind it unless a fault was noted. Only the mark that stands for a modifier makes one that is not in the source.
-/

namespace TypedSfc

namespace Markup

variable {source : List Char}

/-- The spelling of a directive that was read; the brackets of its argument are a pair if they are `closed`. -/
structure Directive.Spelled (source : List Char) (closed : Prop) (d : Directive) : Prop where
  exp_later : ∀ x ∈ d.exp, 1 ≤ x.offset
  dynamic_later : ∀ a ∈ d.arg, a.isStatic = false → 1 ≤ a.offset
  dynamic_closed : closed → ∀ a ∈ d.arg, a.isStatic = false →
    Text.StandsAt source (a.offset - 1) ('[' :: (a.content.toList ++ [']']))
  name_stands : d.name ∉ ["slot", "on", "bind"] → Text.StandsAt source d.span.start ('v' :: '-' :: d.name.toList)
  modifiers_stand : d.name ≠ "bind" → ∀ m ∈ d.modifiers, m.Describes source

namespace RawAttribute

/-- The mark of a directive is `v-` and its name, or one of four that stand for names. -/
theorem name_of_mark? {cs : List Char} {m : Mark} (h : mark? cs = some m) :
    ((∃ rest, cs = 'v' :: '-' :: (m.name.toList ++ rest)) ∨ m.name ∈ ["slot", "on", "bind"]) ∧
      (m.implied ≠ [] → m.name = "bind") := by
  unfold mark? at h
  split at h
  · rename_i cs
    dsimp only at h
    have hsplit := List.takeWhile_append_dropWhile (p := fun c : Char => !(c == ':' || c == '.')) (l := cs)
    have hname : ∃ rest, 'v' :: '-' :: cs =
        'v' :: '-' :: ((String.ofList (cs.takeWhile fun c : Char => !(c == ':' || c == '.'))).toList ++ rest) := by
      refine ⟨cs.dropWhile fun c : Char => !(c == ':' || c == '.'), ?_⟩
      rw [String.toList_ofList, hsplit]
    split at h
    · cases h
    · obtain rfl := Option.some.inj h
      exact ⟨.inl hname, fun himplied => absurd rfl himplied⟩
    · obtain rfl := Option.some.inj h
      exact ⟨.inl hname, fun himplied => absurd rfl himplied⟩
  · obtain rfl := Option.some.inj h
    exact ⟨.inr (by simp), fun himplied => absurd rfl himplied⟩
  · obtain rfl := Option.some.inj h
    exact ⟨.inr (by simp), fun himplied => absurd rfl himplied⟩
  · obtain rfl := Option.some.inj h
    exact ⟨.inr (by simp), fun himplied => absurd rfl himplied⟩
  · obtain rfl := Option.some.inj h
    exact ⟨.inr (by simp), fun _ => rfl⟩
  · cases h

/-- A computed argument stands behind its bracket, and before the other one unless that is missing. -/
theorem dynamic_of_argument {name : String} {pos : Nat} {cs : List Char} {a : Expression} (ha : (argument name pos cs).1 = some a)
    (hdynamic : a.isStatic = false) : a.offset = pos + 1 ∧
      ((argument name pos cs).2.2 = false → ∃ behind, cs = '[' :: (a.content.toList ++ ']' :: behind)) := by
  unfold argument at ha ⊢
  split at ha
  · rename_i inner
    have hsplit := List.takeWhile_append_dropWhile (p := (· != ']')) (l := inner)
    split at ha
    · rename_i c rest hdrop
      obtain rfl := Option.some.inj ha
      refine ⟨rfl, fun _ => ⟨rest, ?_⟩⟩
      have hc : c = ']' := by
        have hne := List.head_dropWhile_not (· != ']') (by rw [hdrop]; exact List.cons_ne_nil c rest)
        simpa [hdrop] using hne
      rw [hdrop, hc] at hsplit
      rw [String.toList_ofList, hsplit]
    · rename_i hdrop
      obtain rfl := Option.some.inj ha
      exact ⟨rfl, fun hopen => by cases hopen⟩
  · dsimp only at ha
    generalize (if name = "slot" then cs else cs.takeWhile (· != '.')) = own at ha
    split at ha
    · cases ha
    · obtain rfl := Option.some.inj ha
      cases hdynamic

/-- A directive is spelled as its attribute is written. -/
theorem spelled_of_directive? {raw : RawAttribute} (h : raw.Describes source) {d : Directive} (hd : raw.directive?.1 = some d) :
    d.Spelled source (raw.directive?.2 = []) := by
  have hdescribes := ((directive?_describes h).1 d hd).1
  unfold directive? at hd ⊢
  split at hd
  · cases hd
  · rename_i m hm
    obtain ⟨hname, himplied⟩ := name_of_mark? hm
    obtain ⟨front, hfront⟩ := exists_append_rest_of_mark? hm
    have hrest : Text.StandsAt source (raw.nameOffset + (Text.size raw.name.toList - Text.size m.rest)) m.rest :=
      h.name_stands.ending ⟨front, hfront⟩
    dsimp only at hd ⊢
    generalize harg : (if m.takesArg then
        argument m.name (raw.nameOffset + (Text.size raw.name.toList - Text.size m.rest)) m.rest else (none, m.rest, false)) = arg
      at hd ⊢
    obtain ⟨a?, behind, isOpen⟩ := arg
    obtain rfl := Option.some.inj hd
    -- A computed argument only comes from a mark that takes one.
    have hdynamic : ∀ a ∈ a?, a.isStatic = false →
        a.offset = raw.nameOffset + (Text.size raw.name.toList - Text.size m.rest) + 1 ∧
          (isOpen = false → ∃ more, m.rest = '[' :: (a.content.toList ++ ']' :: more)) := by
      intro a ha hstatic
      split at harg
      · have hsome := congrArg Prod.fst harg
        rw [show a? = some a from ha] at hsome
        have hfound := dynamic_of_argument hsome hstatic
        rwa [harg] at hfound
      · obtain ⟨rfl, -⟩ := Prod.mk.inj harg
        cases ha
    refine ⟨?_, ?_, ?_, ?_, ?_⟩
    · intro x hx
      obtain ⟨v, hv, rfl⟩ := Option.map_eq_some_iff.1 hx
      have hbehind := h.value_behind v (Option.eq_some_of_filter_eq_some hv)
      show 1 ≤ v.offset
      omega
    · intro a ha hstatic
      have := (hdynamic a ha hstatic).1
      omega
    · intro hclosed a ha hstatic
      have hopen : isOpen = false := by
        cases isOpen with
        | false => rfl
        | true => simp at hclosed
      obtain ⟨hoffset, hcontent⟩ := hdynamic a ha hstatic
      obtain ⟨more, hmore⟩ := hcontent hopen
      rw [hoffset, Nat.add_sub_cancel]
      refine hrest.beginning ⟨more, ?_⟩
      rw [hmore, List.cons_append, List.append_assoc, List.singleton_append]
    · intro hother
      rcases hname with ⟨rest, hrest⟩ | hmark
      · refine h.nameOffset_eq ▸ h.name_stands.beginning ⟨rest, ?_⟩
        rw [hrest]
        rfl
      · exact absurd hmark hother
    · intro hbind m' hm'
      rcases hdescribes.modifiers_describe m' hm' with hstands | ⟨-, rest, hdot⟩
      · exact hstands
      · -- A name with a leading dot is that of a binding.
        have hmark : mark? raw.name.toList = some ⟨"bind", true, rest, ["prop"]⟩ := by
          rw [show raw.name.toList = '.' :: rest from hdot]
          rfl
        rw [hmark] at hm
        obtain rfl := Option.some.inj hm
        exact absurd rfl hbind

end RawAttribute

/-- The directives of an element that was read are spelled as they are written; without faults their brackets are closed. -/
theorem Element.IsRead.spelled {errors : List ParseError} {e : Element} (h : e.IsRead source errors) {d : Directive}
    (hd : Property.directive d ∈ e.props) : d.Spelled source (errors = []) := by
  obtain ⟨raw, hraw, hproperty, hfaults⟩ := h.props_read _ hd
  have hdirective : raw.directive?.1 = some d ∧ raw.property.2 = raw.directive?.2 := by
    unfold RawAttribute.property at hproperty ⊢
    split at hproperty
    · rename_i d' faults heq
      obtain rfl := Property.directive.inj hproperty
      exact ⟨by rw [heq], by rw [heq]⟩
    · cases hproperty
  obtain ⟨hlater, hdynamic, hclosed, hname, hmodifiers⟩ := RawAttribute.spelled_of_directive? hraw hdirective.1
  refine ⟨hlater, hdynamic, fun hnone => hclosed ?_, hname, hmodifiers⟩
  rw [← hdirective.2]
  exact List.subset_nil.1 (hnone ▸ hfaults)

end Markup

end TypedSfc
