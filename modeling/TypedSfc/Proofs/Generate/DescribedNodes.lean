import TypedSfc.Proofs.Generate.Capitals
import TypedSfc.Proofs.Markup.Spelling

/-!
# What nodes map that describe their source

A tree that describes its source has its parts where they are said to be, so they may be mapped in any sense. What is left to be asked
of a directive is that a computed argument has both its brackets, and that the name of a listener may be capitalized.
-/

namespace TypedSfc

variable {S : Sense} {texts : SourceId → List Char} {listens : String → Prop}

/-- What stands in a source may be mapped there. -/
theorem Permit.allows_place {source : SourceId} {o : Nat} (h : Text.IsPlace (texts source) o) :
    (Permit.ofSense S texts listens).allows "" source o := by
  obtain ⟨rest, hrest⟩ := h
  exact allows_of_has (S.has_of_standsAt (u := []) ⟨rest, hrest⟩)

namespace Markup

/-! ## Directives -/

/-- What a directive has beyond its description: a computed argument with both its brackets, and for a listener a name that may be
capitalized. -/
structure Directive.Suits (S : Sense) (listens : String → Prop) (source : List Char) (d : Directive) : Prop where
  dynamic_has : ∀ a ∈ d.arg, a.isStatic = false → S.has source (a.offset - 1) ('[' :: (a.content.toList ++ [']']))
  listens : d.name = "on" → ∀ a ∈ d.arg, a.isStatic = true → listens a.content ∧ listens (Generate.EventName.ofDirective d).event

section

variable {closed : Prop}

theorem Directive.Describes.permitted {d : Directive} (h : d.Describes (texts SourceId.template))
    (hs : d.Spelled (texts SourceId.template) closed) (hd : d.Suits S listens (texts SourceId.template)) :
    d.Permitted (.ofSense S texts listens) where
  allows_start := Permit.allows_place h.span_fits.start
  allows_stop := Permit.allows_place h.span_fits.stop
  exp_stands x hx := S.has_of_standsAt (h.exp_describes x hx)
  exp_binds := hs.exp_later
  arg_stands a ha := S.has_of_standsAt (h.arg_describes a ha)
  dynamic_stands a ha hstatic := by
    have hhas := hd.dynamic_has a ha hstatic
    have hlater := hs.dynamic_later a ha hstatic
    have hstop := S.has_stop hhas
    have hplace : a.offset - 1 + Text.size ('[' :: (a.content.toList ++ [']'])) = a.stop + 1 := by
      have hone : ('[' : Char).utf8Size = 1 ∧ Text.size [']'] = 1 := ⟨rfl, rfl⟩
      rw [Text.size_cons, Text.size_append, Text.size_toList, hone.1, hone.2]
      unfold Expression.stop
      omega
    rw [hplace] at hstop
    refine ⟨?_, Permit.allows_of_has hstop⟩
    show S.has _ _ ("[" ++ a.content ++ "]").toList
    rw [String.toList_append, String.toList_append, List.append_assoc]
    exact hhas
  name_stands hname := by
    have hstands := hs.name_stands (by simp only [List.mem_cons, not_or] at hname ⊢; exact ⟨hname.1, hname.2.1, hname.2.2.2⟩)
    show S.has _ _ ("v-" ++ d.name).toList
    rw [String.toList_append]
    exact S.has_of_standsAt hstands
  allows_rawName := by
    have hplace := h.name_stands.isPlace_stop
    rw [Text.size_toList] at hplace
    exact Permit.allows_place hplace
  allows_model hname := by
    have hstands := hs.name_stands (by rw [hname]; decide)
    rw [hname] at hstands
    exact Permit.allows_place hstands.isPlace_stop
  modifiers_stand hname m hm := by
    have hstands := hs.modifiers_stand hname m hm
    have hhas := S.has_of_standsAt hstands
    exact ⟨hhas, Permit.allows_of_marks (S.marks_mono (S.marks_of_has hhas) (by omega))⟩
  listens := hd.listens

theorem Attribute.Describes.permitted {a : Attribute} (h : a.Describes (texts SourceId.template)) :
    a.Permitted (.ofSense S texts listens) :=
  ⟨Permit.allows_place h.span_fits.stop, S.has_of_standsAt h.name_stands, fun v hv => S.has_of_standsAt (h.value_describes v hv)⟩

/-! ## Elements -/

/-- The name in a closing tag stands there. -/
theorem Element.standsAt_endTagOffset {source : List Char} {e : Element} (htag : e.tag.toList ≠ []) :
    ∀ o ∈ e.endTagOffset source, Text.StandsAt source o e.tag.toList := by
  intro o ho
  unfold endTagOffset at ho
  split at ho
  · cases ho
  · obtain ⟨head, hhead, ho⟩ := Option.bind_eq_some_iff.1 ho
    obtain ⟨close, -, ho⟩ := Option.bind_eq_some_iff.1 ho
    split at ho
    · rename_i hbegins
      obtain rfl := Option.some.inj ho
      simp only [Bool.and_eq_true] at hbegins
      obtain ⟨more, hmore⟩ := Text.begins_iff.1 hbegins.2
      rcases Text.after_eq_nil_or (close + 2) head with hnil | hrest
      · rw [hnil] at hmore
        exact absurd (List.append_eq_nil_iff.1 hmore.symm).1 htag
      · rw [hmore] at hrest
        have htrans := (Text.standsAt_of_slice hhead).1.trans ⟨more, hrest⟩
        rwa [Nat.zero_add] at htrans
    · cases ho

/-- A spelling of a tag is the tag itself, or the tag with its first letter in upper case. -/
theorem spelledAs_eq_or {tag constant : String} (htag : tag.toList.head?.any Char.isAlpha = true)
    (h : constant ∈ Generate.spellings tag) : Generate.spelledAs constant tag = tag ∨
      Generate.spelledAs constant tag = Text.capitalize tag ∧ (Text.capitalize tag).utf8ByteSize = tag.utf8ByteSize := by
  obtain ⟨c, cs, hcs, halpha⟩ : ∃ c cs, tag.toList = c :: cs ∧ c.isAlpha = true := by
    cases hcs : tag.toList with
    | nil => simp [hcs] at htag
    | cons c cs => exact ⟨c, cs, rfl, by simpa [hcs] using htag⟩
  have hhyphen : c ≠ '-' := by
    rintro rfl
    exact absurd halpha (by decide)
  obtain ⟨hupper, hsize⟩ := Text.toUpper_of_isAlpha halpha
  obtain ⟨rest, hrest⟩ := Text.exists_camelize_cons hcs hhyphen
  have hcapital : ∀ {t : String} {more : List Char}, t.toList = c :: more → Text.capitalize t = String.ofList (c.toUpper :: more) := by
    intro t more ht
    rw [Text.capitalize_of_cons ht, hupper]
    rfl
  have hspelled : ∀ {t : String} {d : Char} {more : List Char}, t.toList = d :: more →
      Generate.spelledAs t tag = String.ofList (d :: cs) := by
    intro t d more ht
    rw [Generate.spelledAs, ht, hcs]
    rfl
  have hown : String.ofList (c :: cs) = tag := by rw [← hcs, String.ofList_toList]
  rcases Generate.mem_addNew_iff.1 h with rfl | h
  · exact .inl ((hspelled hcs).trans hown)
  rcases Generate.mem_addNew_iff.1 h with rfl | h
  · exact .inl ((hspelled hrest).trans hown)
  obtain rfl := List.mem_singleton.1 h
  refine .inr ⟨?_, ?_⟩
  · rw [hcapital hcs, hspelled (by rw [hcapital hrest, String.toList_ofList])]
  · rw [hcapital hcs, Text.size_ofList, ← Text.size_toList tag, hcs, Text.size_cons, Text.size_cons, hsize]

/-- An element that was read may be mapped, if its directives suit. -/
theorem Element.Describes.permitted {r : Generate.Setting} (hP : (Permit.ofSense S texts listens).Lawful r) {errors : List ParseError}
    {e : Element} (h : e.Describes (texts SourceId.template)) (hread : e.IsRead (texts SourceId.template) errors)
    (hd : ∀ d, Property.directive d ∈ e.props → d.Suits S listens (texts SourceId.template)) :
    e.Permitted (.ofSense S texts listens) (texts SourceId.template) := by
  have hne : e.tag.toList ≠ [] := by
    intro hnil
    have hletter := hread.tag_letter
    simp [hnil] at hletter
  have htag : ∀ o ∈ e.tagOffset :: (e.endTagOffset (texts SourceId.template)).toList,
      S.has (texts SourceId.template) o e.tag.toList := by
    intro o ho
    rcases List.mem_cons.1 ho with rfl | ho
    · exact S.has_of_standsAt h.tag_stands
    · exact S.has_of_standsAt (Element.standsAt_endTagOffset hne o (Option.mem_toList.1 ho))
  refine ⟨Permit.allows_place h.span_fits.start, Permit.allows_place h.span_fits.stop, htag, ?_, ?_⟩
  · intro o ho constant hconstant
    rcases spelledAs_eq_or hread.tag_letter hconstant with heq | ⟨heq, hsize⟩
    · rw [heq]
      exact Code.partsAllowed hP (htag o ho)
    · rw [heq]
      exact Permit.partsAllowed_of_hears (S.hears_of_size_eq hsize) (htag o ho)
  · intro p hp
    cases p with
    | plain a => exact (show a.Describes _ from h.props_describe _ hp).permitted
    | directive d => exact (show d.Describes _ from h.props_describe _ hp).permitted (hread.spelled hp) (hd d hp)

end

end Markup

namespace Generate

open Markup (Branch Element LoopHead Node Siblings Branches)

/-! ## Comments -/

theorem trim_eq_append (cs : List Char) :
    ∃ before behind, cs = before ++ (Text.trim cs ++ behind) ∧ ∀ c ∈ before, Text.isSpace c = true := by
  obtain ⟨behind, hbehind⟩ := Markup.Loop.exists_trimEnd_append (Text.trimStart cs)
  refine ⟨cs.takeWhile Text.isSpace, behind, ?_, fun c hc => List.mem_takeWhile_imp hc⟩
  rw [Text.trim, ← hbehind, Text.trimStart, List.takeWhile_append_dropWhile]

/-- What a directive comment says comes behind its name, and there is no brace before it. -/
theorem exists_of_directiveComment? {data name : String} {content : List Char} (h : directiveComment? data = some (name, content)) :
    ∃ front, data.toList = front ++ content ∧ '{' ∉ front := by
  unfold directiveComment? at h
  extract_lets cs mark rest own at h
  split at h
  · rename_i hmark
    obtain ⟨more, hmore⟩ := List.isPrefixOf_iff_prefix.1 hmark
    have hrest : rest = more := by
      show cs.drop mark.length = more
      rw [← hmore]
      rfl
    split at h
    · cases h
    · obtain ⟨-, rfl⟩ := Prod.mk.inj (Option.some.inj h)
      have hdata : data.toList = data.toList.takeWhile Text.isSpace ++ (mark ++ (own ++ rest.dropWhile isDirectiveChar)) := by
        rw [show own ++ rest.dropWhile isDirectiveChar = rest from List.takeWhile_append_dropWhile, hrest, hmore]
        exact List.takeWhile_append_dropWhile.symm
      refine ⟨data.toList.takeWhile Text.isSpace ++ (mark ++ own), ?_, ?_⟩
      · conv_lhs => rw [hdata]
        simp only [List.append_assoc]
      · intro hbrace
        rcases List.mem_append.1 hbrace with hbrace | hbrace
        · exact absurd (List.mem_takeWhile_imp hbrace) (by decide)
        · rcases List.mem_append.1 hbrace with hbrace | hbrace
          · exact absurd hbrace (by decide)
          · exact absurd (List.mem_takeWhile_imp hbrace) (by decide)
  · cases h

/-- The type arguments that a comment gives stand behind the first brace in it. -/
theorem standsAt_of_genericOf? {span : Span} {data name : String} {content : List Char} {g : Generic}
    (hcomment : directiveComment? data = some (name, content)) (hg : genericOf? span data content = some g) :
    ∃ k, g.offset = span.start + 4 + k ∧ Text.StandsAt data.toList k g.content.toList := by
  obtain ⟨front, hdata, hfront⟩ := exists_of_directiveComment? hcomment
  obtain ⟨before, behind, hcontent, hbefore⟩ := trim_eq_append content
  unfold genericOf? at hg
  split at hg
  · rename_i inner htrim
    split at hg
    · rename_i hlast
      obtain ⟨brace, hbrace, rfl⟩ := Option.map_eq_some_iff.1 hg
      obtain ⟨own, rfl⟩ := List.getLast?_eq_some_iff.1 (eq_of_beq hlast)
      have hwhole : data.toList = (front ++ before) ++ '{' :: (own ++ '}' :: behind) := by
        rw [hdata, hcontent, htrim]
        simp
      have hnone : '{' ∉ front ++ before := by
        intro hmem
        rcases List.mem_append.1 hmem with hmem | hmem
        · exact hfront hmem
        · exact absurd (hbefore _ hmem) (by decide)
      have hfind := Text.find_append_cons hnone (own ++ '}' :: behind)
      rw [← hwhole] at hfind
      obtain rfl := Option.some.inj (hbrace.symm.trans hfind)
      refine ⟨Text.size (front ++ before) + 1, rfl, '}' :: behind, front ++ before ++ ['{'], ?_, Text.size_append ..⟩
      rw [hwhole]
      simp
    · cases hg
  · cases hg

/-- A comment of the template may be marked, and its type arguments stand in it. -/
theorem commentPermitted {span : Span} {data : String} (h : (Node.comment span data).Describes (texts SourceId.template)) :
    CommentPermitted (.ofSense S texts listens) span data := by
  refine ⟨Permit.allows_place h.fits.start, Permit.allows_place h.fits.stop, ?_⟩
  intro name content hcomment g hg
  obtain ⟨k, hk, hstands⟩ := standsAt_of_genericOf? hcomment hg
  show S.has _ _ _
  rw [hk]
  exact S.has_of_standsAt (h.comment_data.1.trans hstands)

/-! ## Interpolations -/

theorem size_eq_length_of_blank {cs : List Char} (h : ∀ c ∈ cs, Text.isAsciiBlank c = true) : Text.size cs = cs.length := by
  induction cs with
  | nil => rfl
  | cons c cs ih =>
    obtain ⟨hc, hcs⟩ := List.forall_mem_cons.1 h
    have hone : c.utf8Size = 1 := by
      simp only [Text.isAsciiBlank, Bool.or_eq_true, beq_iff_eq] at hc
      rcases hc with (((rfl | rfl) | rfl) | rfl) | rfl <;> decide
    rw [Text.size_cons, ih hcs, hone, List.length_cons, Nat.add_comm]

/-- Where the blanks before an expression begin is a place. -/
theorem isPlace_interpolationStart {source : List Char} {x : Markup.Expression} (h : x.Describes source) :
    Text.IsPlace source (interpolationStart source x) := by
  obtain ⟨more, before, hsource, hsize⟩ := h
  have hbetween : Text.between 0 x.offset source = before := by
    have hrest : Text.Rest source 0 (before ++ (x.content.toList ++ more)) := hsource ▸ Text.rest_zero source
    have heq := hrest.between_eq
    rwa [Nat.zero_add, hsize] at heq
  have hsplit : before = before.rdropWhile Text.isAsciiBlank ++ before.rtakeWhile Text.isAsciiBlank := by
    rw [List.rdropWhile, List.rtakeWhile, ← List.reverse_append, List.takeWhile_append_dropWhile, List.reverse_reverse]
  have hblank : ∀ c ∈ before.rtakeWhile Text.isAsciiBlank, Text.isAsciiBlank c = true := fun c hc => List.mem_rtakeWhile_imp hc
  have hlength : blanks before.reverse = Text.size (before.rtakeWhile Text.isAsciiBlank) := by
    rw [size_eq_length_of_blank hblank, List.rtakeWhile, List.length_reverse]
    rfl
  have hstart : interpolationStart source x = Text.size (before.rdropWhile Text.isAsciiBlank) := by
    rw [interpolationStart, hbetween, hlength, ← hsize]
    conv_lhs => rw [hsplit, Text.size_append]
    rw [← hsplit, Nat.add_sub_cancel]
  refine ⟨before.rtakeWhile Text.isAsciiBlank ++ (x.content.toList ++ more), before.rdropWhile Text.isAsciiBlank, ?_, hstart.symm⟩
  rw [← List.append_assoc, ← hsplit, hsource]

theorem interpolation_has {source : List Char} {x : Markup.Expression} (h : x.Describes source) :
    S.has source (interpolationStart source x) (interpolationText source x).toList := by
  obtain ⟨rest, hrest⟩ := isPlace_interpolationStart h
  rw [interpolationText, String.toList_ofList]
  exact S.has_between (S.has_of_standsAt ⟨rest, hrest⟩) _

/-! ## Loops -/

/-- The source of a loop stands in the template, and so do its names, from the first to the last. -/
theorem loopPermitted {h : LoopHead} (hh : h.Describes (texts SourceId.template)) :
    LoopPermitted (.ofSense S texts listens) (texts SourceId.template) h := by
  refine ⟨fun x hx => S.has_of_standsAt (hh.source_describes x hx), fun s hs => ?_⟩
  obtain ⟨first, hfirst, hs⟩ := Option.bind_eq_some_iff.1 hs
  obtain ⟨last, -, rfl⟩ := Option.map_eq_some_iff.1 hs
  have hdescribes : first.Describes (texts SourceId.template) := by
    rcases Option.or_eq_some_iff.1 hfirst with hvalue | ⟨-, hother⟩
    · exact hh.value_describes first hvalue
    · rcases Option.or_eq_some_iff.1 hother with hkey | ⟨-, hindex⟩
      · exact hh.key_describes first hkey
      · exact hh.index_describes first hindex
  exact Permit.allows_of_has (S.has_between (S.has_start (S.has_of_standsAt hdescribes)) _)

/-! ## Nodes -/

/-- Those among some elements that describe the template may be mapped. -/
def ElementsPermitted (S : Sense) (texts : SourceId → List Char) (listens : String → Prop) (xs : List Element) : Prop :=
  ∀ x ∈ xs, x.Describes (texts SourceId.template) → x.Permitted (.ofSense S texts listens) (texts SourceId.template)

mutual

/-- A node that describes the template may be mapped, if its elements may. -/
theorem nodePermitted {n : Node} (h : n.Describes (texts SourceId.template))
    (hheads : ElementsPermitted S texts listens n.heads) :
    NodePermitted (.ofSense S texts listens) (texts SourceId.template) n := by
  cases n with
  | comment span data => exact .comment (commentPermitted h)
  | text span data => exact .text
  | interpolation span x => exact .interpolation (interpolation_has h.expression)
  | element x children =>
    cases h with
    | element head below =>
      refine .element (hheads x List.mem_cons_self head) (siblingsPermitted below fun y hy => ?_)
      exact hheads y (List.mem_cons_of_mem x hy)
  | loop span head children =>
    cases h with
    | loop fits head below => exact .loop (loopPermitted head) (siblingsPermitted below hheads)
  | chain span bs =>
    cases h with
    | chain fits below =>
      obtain ⟨hcondition, hbelow⟩ := branchesPermitted below hheads
      exact .chain hcondition hbelow

theorem siblingsPermitted {ns : List Node} {lo hi : Nat} (h : Siblings (texts SourceId.template) lo ns hi)
    (hheads : ElementsPermitted S texts listens (Markup.nodeHeads ns)) :
    ∀ n ∈ ns, NodePermitted (.ofSense S texts listens) (texts SourceId.template) n := by
  cases ns with
  | nil => simp
  | cons n ns =>
    cases h with
    | cons le node behind =>
      refine List.forall_mem_cons.2 ⟨nodePermitted node fun x hx => ?_, siblingsPermitted behind fun x hx => ?_⟩
      · exact hheads x (List.mem_append_left _ hx)
      · exact hheads x (List.mem_append_right _ hx)

theorem branchesPermitted {bs : List Branch} {lo hi : Nat} (h : Branches (texts SourceId.template) lo bs hi)
    (hheads : ElementsPermitted S texts listens (Markup.branchHeads bs)) :
    (∀ b ∈ bs, ∀ x ∈ b.condition, (Permit.ofSense S texts listens).stands SourceId.template x.content x.offset) ∧
      ∀ b ∈ bs, ∀ n ∈ b.children, NodePermitted (.ofSense S texts listens) (texts SourceId.template) n := by
  cases bs with
  | nil => simp
  | cons b bs =>
    obtain ⟨span, x, children⟩ := b
    cases h with
    | cons le branch behind =>
      cases branch with
      | mk fits condition_describes below =>
        obtain ⟨hcondition, hbelow⟩ := branchesPermitted behind fun y hy => hheads y (List.mem_append_right _ hy)
        have hchildren := siblingsPermitted below fun y hy => hheads y (List.mem_append_left _ hy)
        exact ⟨List.forall_mem_cons.2 ⟨fun y hy => S.has_of_standsAt (condition_describes y hy), hcondition⟩,
          List.forall_mem_cons.2 ⟨hchildren, hbelow⟩⟩

end

end Generate

end TypedSfc
