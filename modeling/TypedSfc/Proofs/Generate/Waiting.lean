import Mathlib.Data.List.DropRight
import TypedSfc.Markup.Template
import TypedSfc.Proofs.Generate.Walks

/-!
# Directive comments wait for the next node

A comment waits for the node behind it, and every node that is entered takes all comments that wait. Those are the comments at the end
of what was written before it in the same node; the branches of a chain are written one after another in one node, so that comments at
the end of a branch wait for the first node of the next branch.
-/

namespace TypedSfc

namespace Generate

open Markup (Branch Fragment Node)

variable {r : Setting} {s t : State}

/-! ## Comments that wait -/

/-- The comments that wait behind one more node. -/
def waitBehind (cs : List (Span × String)) (n : Node) : List (Span × String) :=
  match comment? n with
  | some c => cs ++ [c]
  | none => []

/-- The comments at the end of a list of nodes, behind any other node. -/
def commentsBehind (ns : List Node) : List (Span × String) := (ns.rtakeWhile fun n => (comment? n).isSome).filterMap comment?

theorem commentsBehind_concat (ns : List Node) (n : Node) : commentsBehind (ns ++ [n]) = waitBehind (commentsBehind ns) n := by
  unfold commentsBehind waitBehind
  cases hn : comment? n with
  | none => rw [List.rtakeWhile_concat_neg _ _ _ (by simp [hn])]; rfl
  | some c =>
    rw [List.rtakeWhile_concat_pos _ _ _ (by simp [hn]), List.filterMap_append, List.filterMap_cons, hn]
    rfl

/-- Behind more nodes, the comments that wait are those at the end of all. -/
theorem foldl_waitBehind (as bs : List Node) : bs.foldl waitBehind (commentsBehind as) = commentsBehind (as ++ bs) := by
  induction bs using List.reverseRecOn with
  | nil => rw [List.append_nil, List.foldl_nil]
  | append_singleton bs n ih => rw [List.foldl_concat, ih, ← List.append_assoc, commentsBehind_concat]

/-! ## What waits in the course of a walk -/

theorem pending_leave : (leave.after r s).2.pending = [] := by
  rw [leave, after_get_bind]
  cases s.frames.head?.bind (·.expects) <;> rfl

theorem pending_enter : (enter.after r s).2.pending = [] := by
  rw [after_enter]
  dsimp only
  cases (frameOf s.nextExpectation {} s.pending).2 <;> rfl

/-- A node takes the comments that wait, whether it is passed over or not. -/
theorem pending_asNode (g : Gen Unit) : ((asNode g).after r s).2.pending = [] := by
  have hrun : (asNode g).after r s =
      ((if (enter.after r s).1 then g >>= fun _ => leave else pure () : Gen Unit)).after r (enter.after r s).2 := rfl
  rw [hrun]
  split
  · exact pending_leave
  · exact pending_enter

theorem pending_node (n : Node) : ((node n).after r s).2.pending = waitBehind s.pending n := by
  cases n with
  | comment span data => rfl
  | text | interpolation | element | loop | chain => exact pending_asNode _

theorem pending_nodes (ns : List Node) : ((nodes ns).after r s).2.pending = ns.foldl waitBehind s.pending := by
  induction ns generalizing s with
  | nil => rfl
  | cons n ns ih =>
    rw [List.foldl_cons, ← pending_node (r := r)]
    exact ih

/-- The comments at the end of a branch wait for the next branch. -/
theorem pending_branches (isFirst : Bool) (bs : List Branch) :
    ((branches isFirst bs).after r s).2.pending = (bs.flatMap Branch.children).foldl waitBehind s.pending := by
  induction bs generalizing s isFirst with
  | nil => rfl
  | cons b bs ih =>
    obtain ⟨span, x, children⟩ := b
    obtain ⟨t, behind, hextends, -, hbehind, heq⟩ :=
      surrounds_branch_everything (r := r) s.code.effect isFirst x s rfl (noted_everything s)
    have hbranch : ((branch isFirst x (nodes children)).after r s).2.pending = children.foldl waitBehind s.pending := by
      rw [heq, (hbehind _ (noted_everything _)).1.pending_eq, pending_nodes, hextends.pending_eq]
    rw [List.flatMap_cons, List.foldl_append, show Branch.children (.mk span x children) = children from rfl, ← hbranch]
    exact ih false

/-- Where a list of nodes is walked from, the comments wait that are at the end of what was walked before in the same node. -/
theorem Walked.pending_eq {code : Code} {f : Fragment} {led ns : List Node} (h : Walked r code f led ns s) (hne : ns ≠ []) :
    s.pending = commentsBehind led := by
  cases h with
  | root outside begins => exact (begins.extends surrounds_templateAround_everything).pending_eq
  | @within _ before _ _ _ _ _ s t _ walked entered holds begins =>
    have hentered := pending_enter (r := r) (s := ((nodes before).after r s).2)
    rw [entered] at hentered
    rcases holds.extends hne begins with ⟨rfl, hextends⟩ | ⟨before, rfl, hextends⟩
    · exact hextends.pending_eq.trans hentered
    · rw [hextends.pending_eq, pending_branches, hentered]
      exact foldl_waitBehind [] _

/-- Where a node is walked, the comments wait that are at the end of what was walked before it in the same node. -/
theorem Walked.pending_before {code : Code} {f : Fragment} {led before after : List Node} {n : Node}
    (h : Walked r code f led (before ++ n :: after) s) : ((nodes before).after r s).2.pending = commentsBehind (led ++ before) := by
  rw [pending_nodes, h.pending_eq (by simp), foldl_waitBehind]

/-! ## Directive comments -/

/-- The directive comments among some comments. -/
def directivesOf (cs : List (Span × String)) : List (Span × String) := cs.filter fun c => (directiveComment? c.2).isSome

/-- Only directive comments make a frame. -/
theorem frameOf_directivesOf (next : Nat) (x : Frame) (cs : List (Span × String)) :
    frameOf next x (directivesOf cs) = frameOf next x cs := by
  induction cs generalizing next x with
  | nil => rfl
  | cons c cs ih =>
    obtain ⟨span, data⟩ := c
    cases hc : directiveComment? data with
    | none =>
      rw [directivesOf, List.filter_cons_of_neg (by simp [hc]), frameOf.eq_2 next x span data cs, hc]
      exact ih next x
    | some d =>
      rw [directivesOf, List.filter_cons_of_pos (by simp [hc]), frameOf, frameOf.eq_2 next x span data cs, hc]
      dsimp only
      split
      · rfl
      all_goals exact ih _ _

/-- The comments behind two lists are those behind the second, and those behind the first too if the second is nothing but comments. -/
theorem commentsBehind_append (as bs : List Node) :
    commentsBehind (as ++ bs) = (if bs.all fun n => (comment? n).isSome then commentsBehind as else []) ++ commentsBehind bs := by
  induction bs using List.reverseRecOn with
  | nil => simp [commentsBehind]
  | append_singleton bs n ih =>
    rw [← List.append_assoc, commentsBehind_concat, commentsBehind_concat, ih]
    cases hn : comment? n with
    | none => simp [waitBehind, hn]
    | some c => simp [waitBehind, hn]

/-- Entering a node takes the directive comments that wait, and nothing else of what waits. -/
theorem enter_directivesOf (s : State) : enter.after r { s with pending := directivesOf s.pending } = enter.after r s := by
  rw [after_enter, after_enter]
  dsimp only
  rw [frameOf_directivesOf]

/-- A node is entered with the directive comments at the end of what was walked before it in the same node. They are those directly
before it in its own list if and only if there was no directive comment at the end of what was walked before that list, or some other
node is before it in its list. Only the branches of a chain have anything walked before their lists. -/
theorem Walked.directives_iff {code : Code} {f : Fragment} {led before after : List Node} {n : Node}
    (h : Walked r code f led (before ++ n :: after) s) :
    let outside := ((nodes before).after r s).2
    enter.after r outside = enter.after r { outside with pending := directivesOf (commentsBehind (led ++ before)) } ∧
      directivesOf outside.pending = directivesOf (commentsBehind (led ++ before)) ∧
      (directivesOf outside.pending = directivesOf (commentsBehind before) ↔
        directivesOf (commentsBehind led) = [] ∨ ∃ x ∈ before, comment? x = none) := by
  have hwaiting := h.pending_before
  dsimp only
  refine ⟨?_, congrArg directivesOf hwaiting, ?_⟩
  · rw [← hwaiting, enter_directivesOf]
  rw [hwaiting, commentsBehind_append]
  by_cases hall : (before.all fun n => (comment? n).isSome) = true
  · have hnone : ¬∃ x ∈ before, comment? x = none := by
      rintro ⟨x, hx, hcomment⟩
      have hsome := List.all_eq_true.1 hall x hx
      rw [hcomment] at hsome
      cases hsome
    rw [if_pos hall, directivesOf, List.filter_append]
    simp [hnone, directivesOf]
  · rw [if_neg hall, List.nil_append]
    refine iff_of_true rfl (.inr ?_)
    simpa using hall

/-- The nodes of the second branch of a chain that is the first node of a template are walked behind those of the first branch. -/
theorem exists_walked_second (r : Setting) {f : Fragment} {span own own' : Span} {x x' : Option Markup.Expression}
    {children children' : List Node} {bs : List Branch} {ns : List Node}
    (h : f.nodes = .chain span (.mk own x children :: .mk own' x' children' :: bs) :: ns) :
    ∃ s, Walked r {} f children children' s := by
  obtain ⟨s, hroot⟩ := exists_walked r {} rfl f
  have hpending : s.pending = [] := hroot.pending_eq (by simp [h])
  rw [h] at hroot
  have hentered : (enter.after r ((nodes []).after r s).2).1 = true := by
    rw [after_enter, show ((nodes []).after r s).2 = s from rfl, hpending]
    rfl
  obtain ⟨u, hu⟩ := Walked.exists_branch [] ns [.mk own x children] bs hroot hentered
  exact ⟨u, by simpa [Branch.children] using hu⟩

/-- A setting in which nothing is known. -/
def bareSetting : Setting := .ofOptions default

/-- A chain whose first branch ends with a directive comment, which waits for the first node of the second branch. -/
def chainWithComment : Fragment :=
  ⟨[.chain ⟨0, 63⟩ [.mk ⟨0, 50⟩ (some ⟨"a", 16, false⟩) [.comment ⟨19, 39⟩ " @vue-ignore "],
    .mk ⟨50, 63⟩ none [.text ⟨60, 61⟩ "b"]]], ⟨0, 63⟩⟩

theorem directives_iff_chainWithComment :
    ∃ s, Walked bareSetting {} chainWithComment [.comment ⟨19, 39⟩ " @vue-ignore "] [.text ⟨60, 61⟩ "b"] s ∧
      directivesOf s.pending = [(⟨19, 39⟩, " @vue-ignore ")] := by
  obtain ⟨s, hs⟩ := exists_walked_second bareSetting (f := chainWithComment) rfl
  have hs' : Walked bareSetting {} chainWithComment [.comment ⟨19, 39⟩ " @vue-ignore "] ([] ++ .text ⟨60, 61⟩ "b" :: []) s := hs
  obtain ⟨-, hwaiting, -⟩ := Walked.directives_iff hs'
  exact ⟨s, hs, hwaiting.trans (by decide +kernel)⟩

/-- The comment in the first branch of a chain, and the element in the second one. -/
def secondBranch? : List Node → Option ((Span × String) × Markup.Element × List Node)
  | [.chain _ [.mk _ _ [.comment c data], .mk _ _ [.element x children]]] => some ((c, data), x, children)
  | _ => none

theorem nodes_of_secondBranch {ns : List Node} {c : Span × String} {x : Markup.Element} {children : List Node}
    (h : secondBranch? ns = some (c, x, children)) :
    ∃ span own own' e e', ns = [.chain span [.mk own e [.comment c.1 c.2], .mk own' e' [.element x children]]] := by
  unfold secondBranch? at h
  split at h
  · cases h
    exact ⟨_, _, _, _, _, rfl⟩
  · cases h

/-- A template in which a directive comment at the end of one branch is taken by the element of the next branch, before which its own
list has no comment. -/
theorem directives_of_next_branch :
    let f := (Markup.parseTemplate "<template v-if=\"a\"><!-- @vue-ignore --></template><p v-else :k=\"b\"/>").1
    ∃ (s : State) (x : Markup.Element) (children : List Node),
      Walked bareSetting {} f [.comment ⟨19, 39⟩ " @vue-ignore "] ([] ++ .element x children :: []) s ∧ x.span = ⟨50, 68⟩ ∧
        directivesOf ((nodes []).after bareSetting s).2.pending = [(⟨19, 39⟩, " @vue-ignore ")] ∧
        directivesOf (commentsBehind []) = [] := by
  intro f
  have hshape : (secondBranch? f.nodes).map (fun b => (b.1, b.2.1.span)) = some ((⟨19, 39⟩, " @vue-ignore "), ⟨50, 68⟩) := by
    decide +kernel
  obtain ⟨⟨c, x, children⟩, hbranch, heq⟩ := Option.map_eq_some_iff.1 hshape
  obtain ⟨rfl, hspan⟩ := Prod.mk.inj heq
  obtain ⟨span, own, own', e, e', hnodes⟩ := nodes_of_secondBranch hbranch
  obtain ⟨s, hs⟩ := exists_walked_second bareSetting hnodes
  refine ⟨s, _, _, hs, hspan, ?_, rfl⟩
  rw [show ((nodes []).after bareSetting s).2 = s from rfl, hs.pending_eq (List.cons_ne_nil _ _)]
  decide +kernel

end Generate

end TypedSfc
