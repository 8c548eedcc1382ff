import TypedSfc.Proofs.Generate.ComponentNames
import TypedSfc.Proofs.Generate.KebabCase

/-!
# Components under any spelling

A component may be written in kebab-case, in camelCase or in PascalCase. Where it is looked up by the kebab-case of its tag, the three are
one: a template whose tags are spelled in another way has the same roots, and a component that hands its attributes on is known as one.
-/

namespace TypedSfc

namespace Markup

/-! ## Templates with other tags -/

mutual

/-- A node whose elements have other tags. -/
def Node.respell (tagOf : Element → String) : Node → Node
  | .element e children => .element { e with tag := tagOf e } (respellAll tagOf children)
  | .text s data => .text s data
  | .comment s data => .comment s data
  | .interpolation s x => .interpolation s x
  | .chain s bs => .chain s (respellBranches tagOf bs)
  | .loop s h children => .loop s h (respellAll tagOf children)

/-- A branch whose elements have other tags. -/
def Branch.respell (tagOf : Element → String) : Branch → Branch
  | .mk s x children => .mk s x (respellAll tagOf children)

/-- Siblings whose elements have other tags. -/
def respellAll (tagOf : Element → String) : List Node → List Node
  | [] => []
  | n :: ns => n.respell tagOf :: respellAll tagOf ns

/-- Branches whose elements have other tags. -/
def respellBranches (tagOf : Element → String) : List Branch → List Branch
  | [] => []
  | b :: bs => b.respell tagOf :: respellBranches tagOf bs

end

end Markup

namespace Generate

open Markup (Branch Element Node respellAll respellBranches)

variable {tagOf : Element → String} {names : List String}

/-! ## Roots -/

theorem isMeaningful_respell (n : Node) : isMeaningful (n.respell tagOf) = isMeaningful n := by cases n <;> rfl

/-- No node comes or goes. -/
theorem length_filter_respellAll (ns : List Node) :
    ((respellAll tagOf ns).filter isMeaningful).length = (ns.filter isMeaningful).length := by
  induction ns with
  | nil => rfl
  | cons n ns ih =>
    rw [respellAll, List.filter_cons, List.filter_cons, isMeaningful_respell]
    split
    · rw [List.length_cons, List.length_cons, ih]
    · exact ih

mutual

/-- The roots of a node are told from the kebab-case of its tags. -/
theorem rootsOf_respell (h : ∀ e : Element, Text.hyphenate (tagOf e) = Text.hyphenate e.tag) (n : Node) :
    rootsOf names (n.respell tagOf) = rootsOf names n := by
  cases n with
  | element e children => simp only [Node.respell, rootsOf, h e, length_filter_respellAll, onlyRoots_respellAll h children]
  | text | comment | interpolation | loop => rfl
  | chain s bs => rw [Node.respell, rootsOf, rootsOf, branchRoots_respellBranches h bs]

theorem onlyRoots_respellAll (h : ∀ e : Element, Text.hyphenate (tagOf e) = Text.hyphenate e.tag) (ns : List Node) :
    onlyRoots names (respellAll tagOf ns) = onlyRoots names ns := by
  cases ns with
  | nil => rfl
  | cons n ns => rw [respellAll, onlyRoots, onlyRoots, isMeaningful_respell, rootsOf_respell h n, onlyRoots_respellAll h ns]

theorem branchRoots_respellBranches (h : ∀ e : Element, Text.hyphenate (tagOf e) = Text.hyphenate e.tag) (bs : List Branch) :
    branchRoots names (respellBranches tagOf bs) = branchRoots names bs := by
  cases bs with
  | nil => rfl
  | cons b bs =>
    obtain ⟨s, x, children⟩ := b
    rw [respellBranches, Branch.respell, branchRoots, branchRoots, length_filter_respellAll, onlyRoots_respellAll h children,
      branchRoots_respellBranches h bs]

end

/-- A template has the same roots when its tags have the same kebab-case. -/
theorem rootsOfAll_respellAll (h : ∀ e : Element, Text.hyphenate (tagOf e) = Text.hyphenate e.tag) (ns : List Node) :
    rootsOfAll names (respellAll tagOf ns) = rootsOfAll names ns := by
  rw [rootsOfAll, rootsOfAll, length_filter_respellAll, onlyRoots_respellAll h]

/-! ## Components -/

/-- The instance of a component is asked for under the kebab-case of its tag. -/
theorem componentInstance_respelled {e : Element} {c : Callee} {tag : String} (h : Text.hyphenate tag = Text.hyphenate c.code) :
    componentInstance { e with tag := tag } { c with code := tag } = componentInstance e c := by
  unfold componentInstance
  rw [h]
  rfl

/-! ## The spellings of a name -/

/-- Every casing of a name in kebab-case leads back to the name. -/
theorem hyphenate_of_mem_casings {name tag : String} (h : Text.IsKebab name.toList) (htag : tag ∈ casings name) :
    Text.hyphenate tag = name := by
  simp only [casings, List.mem_cons, List.not_mem_nil, or_false] at htag
  rcases htag with rfl | rfl | rfl
  · exact h.hyphenate_capitalize_camelize
  · exact h.hyphenate_camelize
  · exact h.hyphenate_self

/-- Elements called by some casing of a name are called by one of its casings again, and all others by their own tag. -/
def Respells (name : String) (tagOf : Element → String) : Prop :=
  ∀ e : Element, tagOf e = e.tag ∨ e.tag ∈ casings name ∧ tagOf e ∈ casings name

theorem Respells.hyphenate_eq {name : String} (hname : Text.IsKebab name.toList) (h : Respells name tagOf) (e : Element) :
    Text.hyphenate (tagOf e) = Text.hyphenate e.tag := by
  rcases h e with heq | ⟨htag, hother⟩
  · rw [heq]
  · rw [hyphenate_of_mem_casings hname htag, hyphenate_of_mem_casings hname hother]

/-- A name in kebab-case comes back from camelCase and from PascalCase, so that no two names share one of them. Whichever of the three a
component is called by, at every place on its own: the template has the same roots, the instance of the component is asked for in the same
way, and a model finds the same rule unless there is one for that very spelling. -/
theorem casings_of_kebab {name : String} (h : Text.IsKebab name.toList) :
    (Text.hyphenate (Text.camelize name) = name ∧ Text.hyphenate (Text.capitalize (Text.camelize name)) = name) ∧
    (∀ other : String, Text.IsKebab other.toList → Text.camelize other = Text.camelize name ∨
      Text.capitalize (Text.camelize other) = Text.capitalize (Text.camelize name) → other = name) ∧
    (∀ (tagOf : Element → String) (names : List String) (ns : List Node), Respells name tagOf →
      rootsOfAll names (respellAll tagOf ns) = rootsOfAll names ns) ∧
    ∀ tag ∈ casings name, Text.hyphenate tag = name ∧
      (∀ (e : Element) (c : Callee), componentInstance { e with tag := tag } { c with code := tag } =
        componentInstance { e with tag := name } { c with code := name }) ∧
      ∀ (e : Element) (tags : Keyed Options.Rule), ruleFor { e with tag := tag } tags = (tags.get? tag).or (tags.get? name) := by
  refine ⟨⟨h.hyphenate_camelize, h.hyphenate_capitalize_camelize⟩, ?_, ?_, ?_⟩
  · rintro other hother (heq | heq)
    · rw [← hother.hyphenate_camelize, heq, h.hyphenate_camelize]
    · rw [← hother.hyphenate_capitalize_camelize, heq, h.hyphenate_capitalize_camelize]
  · exact fun tagOf names ns hrespells => rootsOfAll_respellAll (hrespells.hyphenate_eq h) ns
  · intro tag htag
    have hback := hyphenate_of_mem_casings h htag
    have hsame : Text.hyphenate tag = Text.hyphenate name := by rw [hback, h.hyphenate_self]
    refine ⟨hback, fun e c => ?_, fun e tags => ?_⟩
    · exact componentInstance_respelled (e := { e with tag := name }) (c := { c with code := name }) hsame
    · rw [ruleFor, hback]

/-- A component within itself, around a paragraph. -/
def nested (outer inner : String) : List Node :=
  [.element ⟨⟨0, 62⟩, outer, .component, [], false, 12⟩
    [.element ⟨⟨12, 49⟩, inner, .component, [], false, 24⟩ [.element ⟨⟨24, 36⟩, "p", .native, [], false, 27⟩ []]]]

/-- The component is called in PascalCase at the start of a template and in camelCase elsewhere. -/
def calledByPlace (e : Element) : String :=
  if e.tag = "tab-bar2-x" then if e.span.start = 0 then "TabBar2X" else "tabBar2X" else e.tag

theorem casings_of_kebab_nested : Text.IsKebab "tab-bar2-x".toList ∧ Respells "tab-bar2-x" calledByPlace ∧
    Text.hyphenate "TabBar2X" = "tab-bar2-x" ∧
    rootsOfAll ["tab-bar2-x"] (nested "TabBar2X" "tabBar2X") = [some 0, some 12, some 24] := by
  have hname : "tab-bar2-x".toList = ['t', 'a', 'b'] ++ '-' :: (['b', 'a', 'r', '2'] ++ '-' :: ['x']) := by decide +kernel
  have hkebab : Text.IsKebab "tab-bar2-x".toList := by
    rw [hname]
    exact .more ⟨rfl, rfl⟩ (.more ⟨rfl, rfl⟩ (.one ⟨rfl, rfl⟩))
  have hpascal : Text.capitalize (Text.camelize "tab-bar2-x") = "TabBar2X" := by decide +kernel
  have hcamel : Text.camelize "tab-bar2-x" = "tabBar2X" := by decide +kernel
  have hrespells : Respells "tab-bar2-x" calledByPlace := by
    intro e
    unfold calledByPlace casings
    rw [hpascal, hcamel]
    by_cases htag : e.tag = "tab-bar2-x"
    · refine .inr ⟨by simp [htag], ?_⟩
      rw [if_pos htag]
      split <;> simp
    · exact .inl (if_neg htag)
  have hown : rootsOfAll ["tab-bar2-x"] (nested "tab-bar2-x" "tab-bar2-x") = [some 0, some 12, some 24] := by decide +kernel
  obtain ⟨⟨-, hback⟩, -, hroots, -⟩ := casings_of_kebab hkebab
  refine ⟨hkebab, hrespells, ?_, (hroots _ _ _ hrespells).trans hown⟩
  rw [← hpascal]
  exact hback

end Generate

end TypedSfc
