import Mathlib.Data.List.Basic
import TypedSfc.Markup.Fold

/-!
# Directives that are taken

Taking a directive from an element finds the first of its name and leaves the others where they are. Of several takings each takes one
directive at most, so an element is known by the names that were asked for.
-/

namespace TypedSfc

namespace Markup

/-- Whether a property is a directive of a name. -/
def Property.isDirective (name : String) : Property → Bool
  | .directive d => d.name == name
  | .plain _ => false

namespace Element

/-- A directive that is found is one of the properties. -/
theorem mem_of_directive {e : Element} {name : String} {d : Directive} (h : e.directive name = some d) :
    Property.directive d ∈ e.props ∧ d.name = name := by
  obtain ⟨p, hp, hname⟩ := List.exists_of_findSome?_eq_some h
  cases p with
  | plain a => cases hname
  | directive d' =>
    dsimp only at hname
    split at hname
    · rename_i hd
      obtain rfl := Option.some.inj hname
      exact ⟨hp, hd⟩
    · cases hname

/-- The element without its first directive of a name. -/
def without (e : Element) (name : String) : Element := { e with props := e.props.eraseP (·.isDirective name) }

@[simp] theorem kind_without (e : Element) (name : String) : (e.without name).kind = e.kind := rfl

/-- An element is another without some directives, at most one for each of the names. -/
structure Trims (names : List String) (e e' : Element) : Prop where
  same : e' = { e with props := e'.props }
  inOrder : e'.props.Sublist e.props
  taken : ∃ ds : List Directive, e.props.Perm (e'.props ++ ds.map .directive) ∧ (ds.map (·.name)).Sublist names

variable {names names' : List String} {e e' e'' : Element}

theorem Trims.refl (e : Element) : Trims [] e e := ⟨rfl, List.Sublist.refl _, [], by simp, by simp⟩

theorem Trims.mono (h : Trims names e e') (hnames : names.Sublist names') : Trims names' e e' := by
  obtain ⟨ds, hperm, hsub⟩ := h.taken
  exact ⟨h.same, h.inOrder, ds, hperm, hsub.trans hnames⟩

theorem Trims.trans (h : Trims names e e') (h' : Trims names' e' e'') : Trims (names ++ names') e e'' := by
  obtain ⟨ds, hperm, hsub⟩ := h.taken
  obtain ⟨ds', hperm', hsub'⟩ := h'.taken
  refine ⟨?_, h'.inOrder.trans h.inOrder, ds ++ ds', ?_, ?_⟩
  · rw [h'.same, h.same]
  · have hboth : (e'.props ++ ds.map Property.directive).Perm (e''.props ++ ds'.map .directive ++ ds.map .directive) :=
      hperm'.append_right _
    refine hperm.trans (hboth.trans ?_)
    rw [List.map_append, List.append_assoc]
    exact List.perm_append_comm.append_left _
  · rw [List.map_append]
    exact hsub.append hsub'

theorem trims_without (e : Element) (name : String) : Trims [name] e (e.without name) := by
  refine ⟨rfl, List.eraseP_sublist, ?_⟩
  rcases List.exists_or_eq_self_of_eraseP (·.isDirective name) e.props with hsame | ⟨p, front, back, -, hp, hprops, herase⟩
  · refine ⟨[], ?_, by simp⟩
    rw [without, hsame]
    simp
  · cases p with
    | plain a => cases hp
    | directive d =>
      refine ⟨[d], ?_, ?_⟩
      · rw [without, herase, hprops]
        simpa using List.perm_middle.trans (List.perm_append_singleton _ _).symm
      · rw [List.map_singleton, show d.name = name from eq_of_beq hp]

theorem directive_without_of_ne (e : Element) {name other : String} (hne : other ≠ name) :
    (e.without other).directive name = e.directive name := by
  unfold without directive
  dsimp only
  induction e.props with
  | nil => rfl
  | cons p ps ih =>
    by_cases hp : p.isDirective other = true
    · rw [List.eraseP_cons_of_pos hp]
      cases p with
      | plain a => cases hp
      | directive d =>
        have hd : d.name ≠ name := fun h => hne ((eq_of_beq hp).symm.trans h)
        simp [hd]
    · rw [List.eraseP_cons_of_neg hp, List.findSome?_cons, ih, List.findSome?_cons]

/-- An element without a directive of a name loses none. -/
theorem without_of_directive_eq_none {name : String} (h : e.directive name = none) : e.without name = e := by
  have hnone : e.props.eraseP (·.isDirective name) = e.props := by
    refine List.eraseP_of_forall_not fun p hp => ?_
    have hp := List.findSome?_eq_none_iff.1 h p hp
    cases p with
    | plain a => simp [Property.isDirective]
    | directive d => simpa [Property.isDirective] using hp
  rw [without, hnone]

end Element

theorem takeDirective_eq (name : String) (ps : List Property) :
    takeDirective name ps = (ps.findSome? fun
      | .directive d => if d.name = name then some d else none
      | .plain _ => none).map fun d => (d, ps.eraseP (·.isDirective name)) := by
  induction ps with
  | nil => rfl
  | cons p ps ih =>
    cases p with
    | plain a =>
      rw [takeDirective, ih, List.findSome?_cons, List.eraseP_cons_of_neg (by simp [Property.isDirective]), Option.map_map]
      rfl
    | directive d =>
      rw [takeDirective.eq_def]
      dsimp only
      split
      · rename_i hd
        simp [hd, Property.isDirective]
      · rename_i hd
        have hkeep : (Property.directive d :: ps).eraseP (·.isDirective name) = .directive d :: ps.eraseP (·.isDirective name) :=
          List.eraseP_cons_of_neg (by simpa [Property.isDirective] using hd)
        rw [ih, hkeep, List.findSome?_cons_of_isNone (by simp [hd]), Option.map_map]
        rfl

theorem Element.take_eq (e : Element) (name : String) : e.take name = (e.directive name).map fun d => (d, e.without name) := by
  rw [take, takeDirective_eq, Option.map_map]
  rfl

/-- A directive is taken just when it is found, and the element is left without it. -/
theorem Element.take_eq_some_iff {e e' : Element} {name : String} {d : Directive} :
    e.take name = some (d, e') ↔ e.directive name = some d ∧ e' = e.without name := by
  rw [take_eq]
  constructor
  · intro h
    obtain ⟨d', hd, heq⟩ := Option.map_eq_some_iff.1 h
    obtain ⟨rfl, rfl⟩ := Prod.mk.inj heq
    exact ⟨hd, rfl⟩
  · rintro ⟨hd, rfl⟩
    rw [hd]
    rfl

end Markup

end TypedSfc
