import TypedSfc.Proofs.Markup.Folds
import TypedSfc.Proofs.Markup.Siblings
import TypedSfc.Markup.Template

/-!
# The chains of a tree

The chains of a folded tree are told from the raw siblings: an element that starts one, and behind it, white space and comments aside,
the elements that go on with it. The condition of each branch is the expression of the directive that makes it one, so that a branch has
none when its directive has no expression, and a `v-else` never has one. A chain goes on behind a `v-else`: it is a conditional statement
just when its first branch and all but its last have conditions.
-/

namespace TypedSfc

namespace Markup

mutual

/-- The chains of a node by their branches, an outer one before those in it. -/
def Node.chainsIn : Node → List (List Branch)
  | .element _ children => chainsInAll children
  | .text .. | .comment .. | .interpolation .. => []
  | .chain _ bs => bs :: chainsInBranches bs
  | .loop _ _ children => chainsInAll children

/-- The chains in a branch. -/
def Branch.chainsIn : Branch → List (List Branch)
  | .mk _ _ children => chainsInAll children

/-- The chains of siblings. -/
def chainsInAll : List Node → List (List Branch)
  | [] => []
  | n :: ns => n.chainsIn ++ chainsInAll ns

/-- The chains in branches. -/
def chainsInBranches : List Branch → List (List Branch)
  | [] => []
  | b :: bs => b.chainsIn ++ chainsInBranches bs

end

@[simp] theorem chainsInAll_nil : chainsInAll [] = [] := rfl

@[simp] theorem chainsInAll_cons (n : Node) (ns : List Node) : chainsInAll (n :: ns) = n.chainsIn ++ chainsInAll ns := rfl

@[simp] theorem chainsInAll_append (ns ms : List Node) : chainsInAll (ns ++ ms) = chainsInAll ns ++ chainsInAll ms := by
  induction ns with
  | nil => rfl
  | cons n ns ih => rw [List.cons_append, chainsInAll_cons, ih, chainsInAll_cons, List.append_assoc]

@[simp] theorem chainsInBranches_nil : chainsInBranches [] = [] := rfl

@[simp] theorem chainsInBranches_cons (b : Branch) (bs : List Branch) :
    chainsInBranches (b :: bs) = chainsInAll b.children ++ chainsInBranches bs := by
  cases b
  rfl

@[simp] theorem chainsInBranches_append (bs cs : List Branch) :
    chainsInBranches (bs ++ cs) = chainsInBranches bs ++ chainsInBranches cs := by
  induction bs with
  | nil => rfl
  | cons b bs ih => rw [List.cons_append, chainsInBranches_cons, ih, chainsInBranches_cons, List.append_assoc]

/-! ## Conditions -/

/-- The conditions of the branches of a chain. -/
def conditions (bs : List Branch) : List (Option Expression) := bs.map (·.condition)

/-- The conditions of the branches with which siblings go on with a chain that stands open before them. -/
def nextConditions : List Node → List (Option Expression)
  | .text _ data :: ns => if Text.isBlank data.toList then nextConditions ns else []
  | .comment .. :: ns => nextConditions ns
  | .element e _ :: ns => if e.goesOn then e.elseCondition :: nextConditions ns else []
  | _ => []

mutual

/-- The chains that raw siblings make, by their conditions: at this node before others. -/
def Node.statements (chained : Bool) (next : List Node) : Node → List (List (Option Expression))
  | .element e children =>
    (if e.starts && !(chained && e.goesOn) then [e.ifCondition :: nextConditions next] else []) ++ statementsAll false children
  | n => n.chainsIn.map conditions

/-- The chains that raw siblings make, by their conditions. -/
def statementsAll (chained : Bool) : List Node → List (List (Option Expression))
  | [] => []
  | n :: ns => n.statements chained ns ++ statementsAll (n.chains chained) ns

end

namespace Folded

/-- A raw node, and the node with what is below it folded: the chains below are those that the raw nodes make. -/
inductive Chains : Node → Folded → Prop
  | element {e : Element} {children below : List Node} {errors : List ParseError}
      (chains_eq : (chainsInAll below).map conditions = statementsAll false children) : Chains (.element e children) ⟨.element e below, errors⟩
  | other {n : Node} (h : ∀ e children, n ≠ .element e children) : Chains n ⟨n, []⟩

theorem Chains.chains_node {n : Node} {f : Folded} (h : Chains n f) (chained : Bool) : n.chains chained = f.node.chains chained := by
  cases h <;> rfl

theorem chainsIn_wrapLoop (e : Element) (children : List Node) : (wrapLoop e children).node.chainsIn = chainsInAll children := by
  unfold wrapLoop
  split
  · rfl
  · dsimp only [Node.chainsIn]
    split
    · rfl
    · simp [Node.chainsIn]

theorem chainsIn_branch (e : Element) (children : List Node) (condition : Option Expression) :
    (branch e children condition).1.condition = condition ∧
      chainsInAll (branch e children condition).1.children = chainsInAll children := by
  unfold branch
  split
  · exact ⟨rfl, rfl⟩
  · exact ⟨rfl, by simp [Branch.children, chainsIn_wrapLoop]⟩

/-- The chains of a chain that stands open before siblings, itself with the branches that it takes from them. -/
def Pending.statements (p : Pending) (next : List Node) : List (List (Option Expression)) :=
  (conditions p.branches ++ nextConditions next) :: (chainsInBranches p.branches).map conditions

theorem enter_statements {n : Node} {f : Folded} (h : Chains n f) (next : List Node) :
    (chainsInAll (enter f.node).2.1).map conditions ++ (enter f.node).1.elim [] (·.statements next) = n.statements false next := by
  cases h with
  | @element e children below errors hchains =>
    rw [enter_element, Node.statements, ← hchains]
    cases hslot : e.isSlotTemplate with
    | true => simp [Element.starts, hslot, Node.chainsIn]
    | false =>
      cases hstarts : e.starts with
      | true => simp [chainsIn_branch, Pending.statements, conditions]
      | false => simp [chainsIn_wrapLoop]
  | other h =>
    cases n with
    | element e children => exact absurd rfl (h e children)
    | text s data =>
      simp only [enter, Node.statements, Node.chainsIn]
      split <;> simp [Node.chainsIn]
    | comment | interpolation | chain | loop => simp [enter, Node.statements, Node.chainsIn]

theorem continues_statements {p : Pending} (hp : chainsInAll p.comments = []) {n : Node} {f : Folded} (h : Chains n f) (next : List Node) :
    match continues p f.node with
    | some x => n.chains true = true ∧ chainsInAll x.1.comments = [] ∧
        x.1.statements next = p.statements (n :: next) ++ n.statements true next
    | none => nextConditions (n :: next) = [] ∧ n.chains true = n.chains false ∧ n.statements true next = n.statements false next := by
  cases h with
  | @element e children below errors hchains =>
    dsimp only
    rw [continues_element]
    cases hgoes : e.goesOn with
    | true =>
      rw [if_pos rfl]
      refine ⟨by simp [Node.chains, Element.isBranch, hgoes], rfl, ?_⟩
      simp [Pending.statements, nextConditions, hgoes, Node.statements, ← hchains, chainsIn_branch, conditions]
    | false => exact ⟨by simp [nextConditions, hgoes], by simp [Node.chains, Element.isBranch, hgoes], by simp [Node.statements, hgoes]⟩
  | other h =>
    cases n with
    | element e children => exact absurd rfl (h e children)
    | text s data =>
      cases hblank : Text.isBlank data.toList with
      | true => simp [continues, hblank, hp, Node.chains, Node.statements, Node.chainsIn, Pending.statements, nextConditions]
      | false => simp [continues, hblank, Node.chains, Node.statements, nextConditions]
    | comment s data => simp [continues, hp, Node.chains, Node.statements, Node.chainsIn, Pending.statements, nextConditions]
    | interpolation | chain | loop => simp [continues, Node.chains, Node.statements, nextConditions]

/-- The chains of linked siblings: the one that stood open before them, and those that they make. -/
theorem link_statements {ns : List Node} {fs : List Folded} (h : List.Forall₂ Chains ns fs) {p : Option Pending}
    (hp : ∀ q ∈ p, chainsInAll q.comments = []) :
    (chainsInAll (link p fs).1).map conditions = p.elim [] (·.statements ns) ++ statementsAll p.isSome ns := by
  refine link_induction (P := fun p ns fs => (∀ q ∈ p, chainsInAll q.comments = []) →
    (chainsInAll (link p fs).1).map conditions = p.elim [] (·.statements ns) ++ statementsAll p.isSome ns) h
    ?ends ?begins ?goesOn ?stops p hp
  case ends =>
    intro p hp
    cases p with
    | none => rfl
    | some p => simp [link, Pending.nodes, Pending.statements, nextConditions, Node.chainsIn, statementsAll, hp p rfl]
  case begins =>
    intro n f ns fs hf ih _
    have henter := enter_statements hf ns
    have hrest := ih fun q hq => by rw [comments_enter hq]; rfl
    rw [isSome_enter, ← hf.chains_node] at hrest
    rw [link_begins]
    dsimp only
    rw [chainsInAll_append, List.map_append, hrest, ← List.append_assoc, henter]
    rfl
  case goesOn =>
    intro p n f ns fs x hf hx ih hp
    have hcontinues := continues_statements (hp p rfl) hf ns
    rw [hx] at hcontinues
    obtain ⟨hopen, hcomments, hstatements⟩ := hcontinues
    have hrest := ih fun q hq => Option.some.inj hq ▸ hcomments
    rw [link_goesOn hx]
    dsimp only
    rw [hrest]
    simp only [Option.elim_some, Option.isSome_some, statementsAll, hopen, hstatements, List.append_assoc]
  case stops =>
    intro p n f ns fs hf hx ih hp
    have hcontinues := continues_statements (hp p rfl) hf ns
    rw [hx] at hcontinues
    obtain ⟨hnext, hopen, hstatements⟩ := hcontinues
    have hrest := ih (by simp)
    rw [link_stops hx]
    dsimp only
    rw [chainsInAll_append, List.map_append, hrest]
    simp [Pending.nodes, Pending.statements, Node.chainsIn, statementsAll, hnext, hopen, hstatements, hp p rfl]

end Folded

mutual

theorem Node.chains_folded (n : Node) : Folded.Chains n n.folded := by
  cases n with
  | element e children =>
    rw [Node.folded]
    exact .element (Folded.link_statements (Node.chains_foldedAll children) (by simp))
  | text | comment | interpolation | chain | loop =>
    rw [Node.folded_of_ne_element (by simp)]
    exact .other (by simp)

theorem Node.chains_foldedAll (ns : List Node) : List.Forall₂ Folded.Chains ns (Node.foldedAll ns) := by
  cases ns with
  | nil => exact .nil
  | cons n ns => exact .cons n.chains_folded (Node.chains_foldedAll ns)

end

/-- The chains of the folded siblings are those that the raw ones make. -/
theorem Node.chains_fold (ns : List Node) : (chainsInAll (Node.fold ns).1).map conditions = statementsAll false ns :=
  Folded.link_statements (Node.chains_foldedAll ns) (by simp)

/-! ## Conditional statements -/

/-- Whether conditions are those of one conditional statement: the first is there, and of the others only the last may be missing. -/
def isStatement {α : Type} (cs : List (Option α)) : Bool := cs.head?.any (·.isSome) && cs.dropLast.all (·.isSome)

/-- Which of the conditions are there is all that counts. -/
theorem isStatement_eq {α : Type} (cs : List (Option α)) :
    isStatement cs = ((cs.map (·.isSome)).head?.any id && (cs.map (·.isSome)).dropLast.all id) := by
  rw [isStatement, List.head?_map, Option.any_map, ← List.map_dropLast, List.all_map]
  rfl

/-- Whether the directives of an element leave the chain a statement in which the element is a branch: only a branch that goes on with a
chain may be without a condition, and the chain may not go on behind it. -/
def Element.isSound (chained : Bool) (next : List Node) (e : Element) : Bool :=
  if chained && e.goesOn then e.elseCondition.isSome || !goOn next else !e.starts || e.ifCondition.isSome

mutual

/-- Whether an element before others and those below it are sound. -/
def Node.sound (chained : Bool) (next : List Node) : Node → Bool
  | .element e children => e.isSound chained next && soundAll false children
  | n => n.chainsIn.all (isStatement ∘ conditions)

/-- Whether the elements among siblings and below them are sound. -/
def soundAll (chained : Bool) : List Node → Bool
  | [] => true
  | n :: ns => n.sound chained ns && soundAll (n.chains chained) ns

end

/-- Siblings go on with a chain by one branch at least. -/
theorem goOn_eq_false_iff (ns : List Node) : goOn ns = false ↔ nextConditions ns = [] := by
  fun_induction nextConditions ns with
  | case1 s data ns hblank ih => rw [goOn, hblank, Bool.true_and, ih]
  | case2 s data ns hblank => simp [goOn, hblank]
  | case3 s data ns ih => rw [goOn, ih]
  | case4 e children ns hgoes ih => simp [goOn, hgoes]
  | case5 e children ns hgoes => simp [goOn, hgoes]
  | case6 ns htext hcomment helement =>
    cases ns with
    | nil => simp [goOn]
    | cons n ns =>
      cases n with
      | text s data => exact absurd rfl (htext s data ns)
      | comment s data => exact absurd rfl (hcomment s data ns)
      | element e children => exact absurd rfl (helement e children ns)
      | interpolation | chain | loop => simp [goOn]

/-- Whether the branches with which siblings go on leave a chain a statement. -/
def nextSound (ns : List Node) : Bool := (nextConditions ns).dropLast.all (·.isSome)

theorem all_dropLast_cons (c : Option Expression) (ns : List Node) :
    (c :: nextConditions ns).dropLast.all (·.isSome) = ((c.isSome || !goOn ns) && nextSound ns) := by
  cases hgo : goOn ns with
  | false => simp [nextSound, (goOn_eq_false_iff ns).1 hgo]
  | true =>
    have hne : nextConditions ns ≠ [] := fun h => by simp [(goOn_eq_false_iff ns).2 h] at hgo
    simp [nextSound, List.dropLast_cons_of_ne_nil hne]

mutual

theorem Node.all_statements (n : Node) (chained : Bool) (next : List Node) :
    ((n.statements chained next).all isStatement && (!chained || nextSound (n :: next))) =
      (n.sound chained next && (!n.chains chained || nextSound next)) := by
  cases n with
  | element e children =>
    have hbelow : (statementsAll false children).all isStatement = soundAll false children := by
      simpa using all_statementsAll children false
    rw [Node.statements, List.all_append, hbelow, Node.sound, Node.chains, Element.isBranch, Element.isSound]
    cases hon : chained && e.goesOn with
    | true =>
      -- One more branch of the chain that stands open.
      obtain ⟨rfl, hgoes⟩ := Bool.and_eq_true_iff.1 hon
      have hsound : nextSound (.element e children :: next) = ((e.elseCondition.isSome || !goOn next) && nextSound next) := by
        rw [nextSound, nextConditions, if_pos hgoes, all_dropLast_cons]
      rw [hsound]
      cases e.elseCondition.isSome <;> cases goOn next <;> cases soundAll false children <;> simp
    | false =>
      -- No chain goes on with the element, so that what stands open before it is a statement as it is.
      have hsound : (!chained || nextSound (.element e children :: next)) = true := by
        cases chained with
        | false => rfl
        | true => simp [nextSound, nextConditions, show e.goesOn = false from hon]
      rw [hsound]
      cases e.starts with
      | true =>
        have hstatement : isStatement (e.ifCondition :: nextConditions next) = (e.ifCondition.isSome && nextSound next) := by
          rw [isStatement, all_dropLast_cons, List.head?_cons, Option.any_some]
          cases e.ifCondition.isSome <;> simp
        simp [hstatement, Bool.and_comm, Bool.and_left_comm]
      | false => simp
  | text s data => cases hblank : Text.isBlank data.toList <;> simp [Node.statements, Node.sound, Node.chains, Node.chainsIn, nextSound, nextConditions, hblank]
  | comment s data => simp [Node.statements, Node.sound, Node.chains, Node.chainsIn, nextSound, nextConditions]
  | interpolation | chain | loop => simp [Node.statements, Node.sound, Node.chains, nextSound, nextConditions]

theorem all_statementsAll (ns : List Node) (chained : Bool) :
    ((statementsAll chained ns).all isStatement && (!chained || nextSound ns)) = soundAll chained ns := by
  cases ns with
  | nil => simp [statementsAll, soundAll, nextSound, nextConditions]
  | cons n ns =>
    have hn := n.all_statements chained ns
    calc ((statementsAll chained (n :: ns)).all isStatement && (!chained || nextSound (n :: ns)))
        = ((statementsAll (n.chains chained) ns).all isStatement &&
            ((n.statements chained ns).all isStatement && (!chained || nextSound (n :: ns)))) := by
          rw [statementsAll, List.all_append, Bool.and_left_comm, Bool.and_assoc]
      _ = (n.sound chained ns && ((statementsAll (n.chains chained) ns).all isStatement && (!n.chains chained || nextSound ns))) := by
          rw [hn, Bool.and_left_comm]
      _ = soundAll chained (n :: ns) := by rw [all_statementsAll ns, soundAll]

end

/-! ## Chains that are read -/

/-- Nodes that are read hold no chains. -/
theorem Reader.chainsInAll_nodes (fuel : Nat) (opened : List String) (r : Reader) : chainsInAll (nodes fuel opened r).1 = [] := by
  induction fuel generalizing r opened with
  | zero => rfl
  | succ fuel ih =>
    rw [nodes]
    split
    · rfl
    · dsimp only
      split
      · rfl
      · exact ih _ _
    · exact ih _ _
    · rw [chainsInAll_cons, ih, List.append_nil, interpolation]
      split <;> rfl
    · split
      · dsimp only
        split
        · simp [Node.chainsIn, ih]
        · split
          · simp only [chainsInAll_cons, Node.chainsIn, ih, List.append_nil]
            split <;> rfl
          · simp [Node.chainsIn, ih]
      · simp [text, Node.chainsIn, ih]

mutual

theorem Node.ne_nil_of_mem_statements {n : Node} (hn : n.chainsIn = []) (chained : Bool) (next : List Node) :
    ∀ cs ∈ n.statements chained next, cs ≠ [] := by
  cases n with
  | element e children =>
    rw [Node.statements]
    intro cs hcs
    rcases List.mem_append.1 hcs with hcs | hcs
    · split at hcs
      · rw [List.mem_singleton.1 hcs]
        exact List.cons_ne_nil _ _
      · cases hcs
    · exact ne_nil_of_mem_statementsAll hn false cs hcs
  | text | comment => simp [Node.statements, Node.chainsIn]
  | interpolation | chain | loop => simp [Node.statements, hn]

/-- Every chain that raw siblings make has a branch, if they hold none. -/
theorem ne_nil_of_mem_statementsAll {ns : List Node} (hns : chainsInAll ns = []) (chained : Bool) :
    ∀ cs ∈ statementsAll chained ns, cs ≠ [] := by
  cases ns with
  | nil => simp [statementsAll]
  | cons n ns =>
    obtain ⟨hn, hns⟩ := List.append_eq_nil_iff.1 hns
    intro cs hcs
    rcases List.mem_append.1 hcs with hcs | hcs
    · exact Node.ne_nil_of_mem_statements hn chained ns cs hcs
    · exact ne_nil_of_mem_statementsAll hns _ cs hcs

end

/-- The raw nodes of a source. -/
def rawNodes (source : String) : List Node := (Reader.nodes ((Reader.new source).size + 1) [] (Reader.new source)).1

/-- The chains of the tree of a source. -/
def chainsOf (source : String) : List (List Branch) := chainsInAll (parseTemplate source).1.nodes

/-- The chains of a source by their conditions: those that the raw nodes make, each of one branch at least; all of them are statements just
when the raw elements are sound. -/
theorem parseTemplate_chains (source : String) :
    (chainsOf source).map conditions = statementsAll false (rawNodes source) ∧ (∀ bs ∈ chainsOf source, bs ≠ []) ∧
      ((∀ bs ∈ chainsOf source, isStatement (conditions bs) = true) ↔ soundAll false (rawNodes source) = true) := by
  have hchains : (chainsOf source).map conditions = statementsAll false (rawNodes source) := Node.chains_fold (rawNodes source)
  refine ⟨hchains, ?_, ?_⟩
  · intro bs hbs hnil
    have hmem : conditions bs ∈ statementsAll false (rawNodes source) := hchains ▸ List.mem_map_of_mem hbs
    exact ne_nil_of_mem_statementsAll (Reader.chainsInAll_nodes _ _ _) false _ hmem (by rw [hnil]; rfl)
  · have hsound := all_statementsAll (rawNodes source) false
    rw [← hchains] at hsound
    rw [← hsound]
    simp

end Markup

end TypedSfc
