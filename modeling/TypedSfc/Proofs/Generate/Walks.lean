import TypedSfc.Proofs.Generate.Nodes
import TypedSfc.Proofs.Generate.PermittedExpressions
import TypedSfc.Proofs.Generate.PermittedTemplates

/-!
# How a template is walked

The nodes of a template are written one within another, so that the walk of a list of nodes begins somewhere in the middle of what its
parent does. Where a generator that is put around another one has the inner one begin is told by what the whole does with any inner
one: that there is such a state, and only one, makes it a relation which follows the walk into the tree.
-/

namespace TypedSfc

namespace Generate

open Markup (Branch Element Fragment LoopHead Node)

/-! ## Where an inner generator begins -/

/-- From the state `s` a generator that is put around another one has it begin in the state `t`: how the whole ends depends on what the
inner one makes of `t` alone, and holds all that is written then. -/
def Begins (c : Gen Unit → Gen Unit) (r : Setting) (s t : State) : Prop :=
  ∃ behind : State → State, (∀ u, u.code.segments <+: (behind u).code.segments) ∧
    ∀ inner, ((c inner).after r s).2 = behind (inner.after r t).2

section

variable {c : Gen Unit → Gen Unit} {r : Setting} {s t t' : State}

/-- There is one state at most in which the inner generator begins: an inner one that writes much elsewhere, and nothing in that state,
shows the two apart. -/
theorem Begins.unique (h : Begins c r s t) (h' : Begins c r s t') : t = t' := by
  classical
  obtain ⟨behind, -, heq⟩ := h
  obtain ⟨behind', hkept, heq'⟩ := h'
  by_contra hne
  let long : State := { code := { segments := List.replicate ((behind {}).code.segments.length + 1) (.text "") } }
  have hhere : behind {} = behind' (if t' = t then {} else long) := by
    have hwhole := (heq (modify fun u => if u = t then {} else long)).symm.trans (heq' (modify fun u => if u = t then {} else long))
    have hshort : (((modify fun u => if u = t then {} else long : Gen Unit)).after r t).2 = {} := if_pos rfl
    rw [hshort] at hwhole
    exact hwhole
  rw [if_neg (Ne.symm hne)] at hhere
  have hle := (hkept long).length_le
  rw [← hhere, List.length_replicate] at hle
  omega

/-- A generator that makes steps within one node before the inner one has it begin behind them. -/
theorem Surrounds.exists_begins (hc : ∀ e, Surrounds .everything r e c) (s : State) :
    ∃ t, Begins c r s t ∧ s.Extends .everything t := by
  obtain ⟨t, behind, hextends, -, hbehind, heq⟩ := hc s.code.effect s rfl (noted_everything s)
  refine ⟨t, ⟨fun u => (behind u).2, fun u => ?_, fun inner => ?_⟩, hextends⟩
  · obtain ⟨as, has, -⟩ := (hbehind u (noted_everything u)).1.code_extends.segments_eq
    exact ⟨as, has.symm⟩
  · rw [heq]

/-- What begins behind such steps begins in a state that they lead to. -/
theorem Begins.extends (h : Begins c r s t) (hc : ∀ e, Surrounds .everything r e c) : s.Extends .everything t := by
  obtain ⟨t', h', hextends⟩ := Surrounds.exists_begins hc s
  rwa [h.unique h']

/-- A generator that was run before the one around. -/
theorem Begins.andThen {α : Type} {g : Gen α} {c : α → Gen Unit → Gen Unit} (h : Begins (c (g.after r s).1) r (g.after r s).2 t) :
    Begins (fun inner => g >>= fun a => c a inner) r s t := h

/-- A generator behind the one around, which leaves what was written as it is. -/
theorem Begins.before {k : Unit → Gen Unit} (h : Begins c r s t) (hk : ∀ u, Keeps 0 (k u)) :
    Begins (fun inner => c inner >>= k) r s t := by
  obtain ⟨behind, hkept, heq⟩ := h
  refine ⟨fun u => ((k ()).after r (behind u)).2, fun u => (hkept u).trans ?_, fun inner => ?_⟩
  · obtain ⟨as, has, -⟩ := hk () r (behind u) (.nil _ _)
    exact ⟨as, has.symm⟩
  · show ((k ()).after r ((c inner).after r s).2).2 = _
    rw [heq]

end

/-! ## The lists of nodes within a node -/

/-- A chain around the contents of one of its branches. -/
def chainAround (before : List Branch) (x : Option Markup.Expression) (after : List Branch) (inner : Gen Unit) : Gen Unit :=
  keepingGuards do
    branches true before
    branch before.isEmpty x inner
    branches false after

/-- A node holds a list of nodes, around which it writes something; the nodes `led` were written before in the same node. -/
inductive Holds : Node → (Gen Unit → Gen Unit) → (led children : List Node) → Prop
  | element (x : Element) (children : List Node) : Holds (.element x children) (element x (!children.isEmpty)) [] children
  | loop (span : Span) (h : LoopHead) (children : List Node) : Holds (.loop span h children) (loop h) [] children
  | branch (span own : Span) (before : List Branch) (x : Option Markup.Expression) (children : List Node) (after : List Branch) :
      Holds (.chain span (before ++ .mk own x children :: after)) (chainAround before x after) (before.flatMap Branch.children) children

theorem branches_append (isFirst : Bool) (as bs : List Branch) :
    branches isFirst (as ++ bs) = branches isFirst as >>= fun _ => branches (isFirst && as.isEmpty) bs := by
  induction as generalizing isFirst with
  | nil => simp [branches]
  | cons a as ih =>
    obtain ⟨span, x, children⟩ := a
    rw [List.cons_append, branches, branches, ih, Bool.false_and]
    simp

/-- What a node writes is what it writes around each list of nodes in it, put around that list. -/
theorem Holds.inside_eq {n : Node} {c : Gen Unit → Gen Unit} {led children : List Node} (h : Holds n c led children) :
    inside n = c (nodes children) := by
  cases h with
  | element | loop => rfl
  | branch span own before x children after =>
    rw [inside, branches_append, chainAround, Bool.true_and, branches]

/-! ## Walks -/

/-- While a template is written, with group tokens that go on from a buffer, the nodes `ns` are walked from the state `s` on; the nodes
`led` are those that were walked before in the same node. -/
inductive Walked (r : Setting) (code : Code) (f : Fragment) : (led ns : List Node) → State → Prop
  | root {s : State} (outside : code.effect = none) (begins : Begins templateAround r { code := code } s) : Walked r code f [] f.nodes s
  | within {led before after led' children : List Node} {n : Node} {c : Gen Unit → Gen Unit} {s t u : State}
      (walked : Walked r code f led (before ++ n :: after) s) (entered : enter.after r ((nodes before).after r s).2 = (true, t))
      (holds : Holds n c led' children) (begins : Begins c r t u) : Walked r code f led' children u

section

variable {r : Setting} {s t u : State}

theorem surrounds_templateAround_everything (e : Option Effect) : Surrounds .everything r e templateAround :=
  surrounds_templateAround (Permit.lawful_everything r)

theorem surrounds_branch_everything (e : Option Effect) (isFirst : Bool) (x : Option Markup.Expression) :
    Surrounds .everything r e (branch isFirst x) := surrounds_branch (Permit.lawful_everything r) isFirst fun _ _ => trivial

/-- Where the nodes of a branch are walked in the branch alone, they are walked behind the branches before it. -/
theorem Begins.chainAround {before : List Branch} {x : Option Markup.Expression} (after : List Branch)
    (h : Begins (branch before.isEmpty x) r ((branches true before).after r s).2 t) :
    Begins (Generate.chainAround before x after) r s t := by
  have hbranches := Begins.andThen (c := fun _ inner => branch before.isEmpty x inner >>= fun _ => branches false after)
    (h.before fun _ => keeps_branches false after)
  exact hbranches.before (k := fun _ => modify fun u => { u with guards := u.guards.take s.guards.length })
    fun _ => keeps_modify fun _ => rfl

/-- The nodes of a branch are walked behind the branches before it, and behind its own condition. -/
theorem exists_begins_chainAround (before : List Branch) (x : Option Markup.Expression) (after : List Branch) (t : State) :
    ∃ u, Begins (chainAround before x after) r t u ∧ ((branches true before).after r t).2.Extends .everything u := by
  obtain ⟨u, hbegins, hextends⟩ := Surrounds.exists_begins (fun e => surrounds_branch_everything (r := r) e before.isEmpty x)
    ((branches true before).after r t).2
  exact ⟨u, hbegins.chainAround after, hextends⟩

/-- The nodes of a loop are walked behind its names and what it runs over. -/
theorem exists_begins_loop (h : LoopHead) (t : State) : ∃ u, Begins (loop h) r t u := by
  obtain ⟨u, hbegins, -⟩ := Surrounds.exists_begins (r := r) (c := loop h)
    (fun _ => surrounds_loop (Permit.lawful_everything r) ⟨fun _ _ => trivial, fun _ _ => trivial⟩) t
  exact ⟨u, hbegins⟩

/-- The nodes of an element or of a loop are walked behind steps within it, and those of a branch behind the branches before it. -/
theorem Holds.extends {n : Node} {c : Gen Unit → Gen Unit} {led children : List Node} (h : Holds n c led children)
    (hne : children ≠ []) (hbegins : Begins c r t u) :
    (led = [] ∧ t.Extends .everything u) ∨ ∃ before : List Branch, led = before.flatMap Branch.children ∧
      ((branches true before).after r t).2.Extends .everything u := by
  cases h with
  | element x children =>
    have hfull : (!children.isEmpty) = true := by simpa using hne
    rw [hfull] at hbegins
    exact .inl ⟨rfl, hbegins.extends fun _ => surrounds_element (Permit.lawful_everything r) (elementPermitted_everything r.source x)⟩
  | loop span h children =>
    exact .inl ⟨rfl, hbegins.extends fun _ =>
      surrounds_loop (Permit.lawful_everything r) ⟨fun _ _ => trivial, fun _ _ => trivial⟩⟩
  | branch span own before x children after =>
    obtain ⟨u', hbegins', hextends⟩ := exists_begins_chainAround (r := r) before x after t
    exact .inr ⟨before, rfl, hbegins.unique hbegins' ▸ hextends⟩

theorem State.Extends.sound {P : Permit} (h : s.Extends P t) (hs : s.Sound P) (ht : t.Noted P) : t.Sound P := (h.grows hs ht).sound

/-- Wherever a list of nodes is walked from, the effect in force is that of the frames that are open, and their numbers are told apart. -/
theorem Walked.sound {code : Code} {f : Fragment} {led ns : List Node} (h : Walked r code f led ns s) (hne : ns ≠ []) :
    s.Sound .everything := by
  induction h with
  | @root s outside begins =>
    have hstart : ({ code := code } : State).Sound .everything :=
      ⟨outside, by simp [numbersOf], by simp [numbersOf], noted_everything _, by simp, by simp⟩
    exact (begins.extends surrounds_templateAround_everything).sound hstart (noted_everything _)
  | @within _ before _ _ _ _ _ s _ _ walked entered holds begins ih =>
    have hbefore := (grown_nodes_everything r before s (ih (by simp))).sound
    have hentered := (hbefore.enter (r := r)).1
    rw [entered] at hentered
    rcases holds.extends hne begins with ⟨-, hextends⟩ | ⟨before, -, hextends⟩
    · exact hextends.sound hentered (noted_everything _)
    · exact hextends.sound (grown_branches_everything r true before _ hentered).sound (noted_everything _)

/-- The nodes of a template are walked from some state on. -/
theorem exists_walked (r : Setting) (code : Code) (hcode : code.effect = none) (f : Fragment) : ∃ s, Walked r code f [] f.nodes s := by
  obtain ⟨s, hbegins, -⟩ := Surrounds.exists_begins (surrounds_templateAround_everything (r := r)) { code := code }
  exact ⟨s, .root hcode hbegins⟩

/-- So are the nodes of a branch of a chain that is entered, behind those of the branches before it. -/
theorem Walked.exists_branch {code : Code} {f : Fragment} {led children : List Node} (before after : List Node) (bs bs' : List Branch)
    {span own : Span} {x : Option Markup.Expression}
    (h : Walked r code f led (before ++ .chain span (bs ++ .mk own x children :: bs') :: after) s)
    (entered : (enter.after r ((nodes before).after r s).2).1 = true) : ∃ u, Walked r code f (bs.flatMap Branch.children) children u := by
  obtain ⟨u, hbegins, -⟩ := exists_begins_chainAround (r := r) bs x bs' (enter.after r ((nodes before).after r s).2).2
  exact ⟨u, .within h (Prod.ext entered rfl) (.branch span own bs x children bs') hbegins⟩

end

end Generate

end TypedSfc
