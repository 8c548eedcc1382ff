import TypedSfc.Markup.Node
import TypedSfc.Proofs.Markup.Folds
import TypedSfc.Proofs.Markup.Siblings
import TypedSfc.Text.Space

/-!
# What folding keeps

Spread out again, with what chains and loops hold in their place, a folded tree is the tree that was read, less what folding leaves out:
texts of white space, comments between two branches of a chain, templates that only carry a chain or a loop, and directives that are
taken. What is left out is told from the siblings alone: whether a chain stands open before them, and whether what is behind goes on
with it.
-/

namespace TypedSfc

namespace Markup

/-! ## Trees without chains and loops -/

mutual

/-- A node with what chains and loops hold in their place. -/
def Node.spread : Node → List Node
  | .element e children => [.element e (spreadAll children)]
  | .text s data => [.text s data]
  | .comment s data => [.comment s data]
  | .interpolation s x => [.interpolation s x]
  | .chain _ bs => spreadBranches bs
  | .loop _ _ children => spreadAll children

/-- What a branch holds. -/
def Branch.spread : Branch → List Node
  | .mk _ _ children => spreadAll children

/-- Siblings with what chains and loops hold in their place. -/
def spreadAll : List Node → List Node
  | [] => []
  | n :: ns => n.spread ++ spreadAll ns

/-- What branches hold. -/
def spreadBranches : List Branch → List Node
  | [] => []
  | b :: bs => b.spread ++ spreadBranches bs

end

mutual

/-- The interpolations and the texts of a node that are no white space, in the order of the document. -/
def Node.contents : Node → List Node
  | .element _ children => contentsAll children
  | .text s data => if Text.isBlank data.toList then [] else [.text s data]
  | .comment .. => []
  | .interpolation s x => [.interpolation s x]
  | .chain _ bs => contentsBranches bs
  | .loop _ _ children => contentsAll children

/-- The interpolations and texts of a branch. -/
def Branch.contents : Branch → List Node
  | .mk _ _ children => contentsAll children

/-- The interpolations and texts of siblings. -/
def contentsAll : List Node → List Node
  | [] => []
  | n :: ns => n.contents ++ contentsAll ns

/-- The interpolations and texts of branches. -/
def contentsBranches : List Branch → List Node
  | [] => []
  | b :: bs => b.contents ++ contentsBranches bs

end

@[simp] theorem spreadAll_nil : spreadAll [] = [] := rfl

@[simp] theorem spreadAll_cons (n : Node) (ns : List Node) : spreadAll (n :: ns) = n.spread ++ spreadAll ns := rfl

@[simp] theorem spreadAll_append (ns ms : List Node) : spreadAll (ns ++ ms) = spreadAll ns ++ spreadAll ms := by
  induction ns with
  | nil => rfl
  | cons n ns ih => rw [List.cons_append, spreadAll_cons, ih, spreadAll_cons, List.append_assoc]

@[simp] theorem spreadBranches_nil : spreadBranches [] = [] := rfl

@[simp] theorem spreadBranches_cons (b : Branch) (bs : List Branch) : spreadBranches (b :: bs) = b.spread ++ spreadBranches bs := rfl

@[simp] theorem spreadBranches_append (bs cs : List Branch) : spreadBranches (bs ++ cs) = spreadBranches bs ++ spreadBranches cs := by
  induction bs with
  | nil => rfl
  | cons b bs ih => rw [List.cons_append, spreadBranches_cons, ih, spreadBranches_cons, List.append_assoc]

@[simp] theorem contentsAll_nil : contentsAll [] = [] := rfl

@[simp] theorem contentsAll_cons (n : Node) (ns : List Node) : contentsAll (n :: ns) = n.contents ++ contentsAll ns := rfl

@[simp] theorem contentsAll_append (ns ms : List Node) : contentsAll (ns ++ ms) = contentsAll ns ++ contentsAll ms := by
  induction ns with
  | nil => rfl
  | cons n ns ih => rw [List.cons_append, contentsAll_cons, ih, contentsAll_cons, List.append_assoc]

mutual

/-- Chains and loops have no interpolations and texts of their own. -/
theorem Node.contents_spread (n : Node) : contentsAll n.spread = n.contents := by
  cases n with
  | element e children =>
    rw [Node.spread, contentsAll_cons, Node.contents, contentsAll_spreadAll, contentsAll_nil, List.append_nil, Node.contents]
  | text | comment | interpolation => simp [Node.spread]
  | chain s bs => rw [Node.spread, Node.contents, contentsAll_spreadBranches]
  | loop s h children => rw [Node.spread, Node.contents, contentsAll_spreadAll]

theorem contentsAll_spreadAll (ns : List Node) : contentsAll (spreadAll ns) = contentsAll ns := by
  cases ns with
  | nil => rfl
  | cons n ns => rw [spreadAll_cons, contentsAll_append, n.contents_spread, contentsAll_spreadAll, contentsAll_cons]

theorem contentsAll_spreadBranches (bs : List Branch) : contentsAll (spreadBranches bs) = contentsBranches bs := by
  cases bs with
  | nil => rfl
  | cons b bs =>
    cases b with
    | mk s c children =>
      rw [spreadBranches_cons, contentsAll_append, Branch.spread, contentsAll_spreadAll, contentsAll_spreadBranches,
        contentsBranches, Branch.contents]

end

/-! ## What is left of siblings -/

namespace Element

/-- Whether an element is a template that only carries its branch or its loop. -/
def isUnwrapped (chained : Bool) (e : Element) : Bool :=
  e.kind == .template && !e.isSlotTemplate && (e.isBranch chained || (e.directive "for").isSome)

/-- The element without the directives that are taken from it. -/
def trimmed (chained : Bool) (e : Element) : Element :=
  if e.isSlotTemplate then e
  else if chained && e.goesOn then (e.without e.elseName).without "for"
  else if e.starts then (e.without "if").without "for"
  else ((e.without "else-if").without "else").without "for"

/-- What is left of an element whose children leave some nodes. -/
def left (chained : Bool) (e : Element) (children : List Node) : List Node :=
  if e.isUnwrapped chained then children else [.element (e.trimmed chained) children]

/-- The faults of the directives that go on with no chain. -/
def strays (chained : Bool) (e : Element) : List ParseError := if e.isSlotTemplate || e.isBranch chained then [] else e.elses

end Element

mutual

/-- What is left of a node before others. -/
def Node.kept (chained : Bool) (next : List Node) : Node → List Node
  | .element e children => e.left chained (keptAll false children)
  | .text s data => if Text.isBlank data.toList then [] else [.text s data]
  | .comment s data => if chained && goOn next then [] else [.comment s data]
  | n => n.spread

/-- What is left of siblings. -/
def keptAll (chained : Bool) : List Node → List Node
  | [] => []
  | n :: ns => n.kept chained ns ++ keptAll (n.chains chained) ns

end

mutual

/-- The strays of a node and of what is below it. -/
def Node.strays (chained : Bool) : Node → List ParseError
  | .element e children => straysAll false children ++ e.strays chained
  | _ => []

/-- The strays among siblings and below them. -/
def straysAll (chained : Bool) : List Node → List ParseError
  | [] => []
  | n :: ns => n.strays chained ++ straysAll (n.chains chained) ns

end

mutual

/-- Interpolations are left where they are, and so are texts that are no white space. -/
theorem Node.contents_kept (n : Node) (chained : Bool) (next : List Node) : contentsAll (n.kept chained next) = n.contents := by
  cases n with
  | element e children =>
    have hbelow := contentsAll_keptAll children false
    rw [Node.kept, Element.left]
    split
    · exact hbelow
    · rw [contentsAll_cons, Node.contents, hbelow, contentsAll_nil, List.append_nil, Node.contents]
  | text s data =>
    rw [Node.kept, Node.contents]
    split
    · rfl
    · rename_i hblank
      simp [Node.contents, hblank]
  | comment s data =>
    rw [Node.kept, Node.contents]
    split <;> rfl
  | interpolation s x => rfl
  | chain s bs => exact Node.contents_spread _
  | loop s h children => exact Node.contents_spread _

theorem contentsAll_keptAll (ns : List Node) (chained : Bool) : contentsAll (keptAll chained ns) = contentsAll ns := by
  cases ns with
  | nil => rfl
  | cons n ns => rw [keptAll, contentsAll_append, n.contents_kept, contentsAll_keptAll, contentsAll_cons]

end

/-! ## Elements -/

/-- Whether a fault is a stray. -/
def ParseError.isStray (e : ParseError) : Bool :=
  match e.fault with
  | .missingIf _ => true
  | _ => false

namespace Element

variable {e : Element} {chained : Bool}

theorem trims_trimmed (chained : Bool) (e : Element) : Trims ["if", "else-if", "else", "for"] e (e.trimmed chained) := by
  unfold trimmed
  split
  · exact (Trims.refl e).mono (by simp)
  · split
    · refine ((e.trims_without _).trans (Element.trims_without _ "for")).mono ?_
      unfold elseName
      split <;> decide
    · split
      · exact ((e.trims_without "if").trans (Element.trims_without _ "for")).mono (by decide)
      · exact (((e.trims_without "else-if").trans (Element.trims_without _ "else")).trans (Element.trims_without _ "for")).mono
          (by decide)

/-- A template that fills a slot stays as it is. -/
theorem left_of_isSlotTemplate (h : e.isSlotTemplate = true) (chained : Bool) (children : List Node) :
    e.left chained children = [.element e children] := by
  simp [left, isUnwrapped, trimmed, h]

/-- Where an element does not go on with a chain, it does not matter whether one stands open. -/
theorem isBranch_of_goesOn_eq_false (h : e.goesOn = false) : e.isBranch true = e.isBranch false := by
  simp [isBranch, h]

theorem left_of_goesOn_eq_false (h : e.goesOn = false) (children : List Node) : e.left true children = e.left false children := by
  simp [left, isUnwrapped, trimmed, isBranch, h]

theorem filter_elses (e : Element) : e.elses.filter ParseError.isStray = e.elses := by
  refine List.filter_eq_self.2 fun x hx => ?_
  obtain ⟨name, -, hname⟩ := List.mem_filterMap.1 hx
  obtain ⟨d, -, rfl⟩ := Option.map_eq_some_iff.1 hname
  rfl

theorem strays_of_goesOn_eq_false (h : e.goesOn = false) : e.strays true = e.strays false := by
  simp [strays, isBranch, h]

end Element

namespace Folded

variable {e : Element} {children : List Node}

theorem spread_wrapLoop (e : Element) (children : List Node) :
    (wrapLoop e children).node.spread =
        (if e.kind == .template && (e.directive "for").isSome then spreadAll children
        else [.element (e.without "for") (spreadAll children)]) ∧
      (wrapLoop e children).errors.filter ParseError.isStray = [] := by
  unfold wrapLoop
  rw [Element.take_eq]
  cases hfor : e.directive "for" with
  | none => simp [Node.spread, Element.without_of_directive_eq_none hfor]
  | some d =>
    have hkind : (e.without "for").kind = e.kind := rfl
    constructor
    · simp only [Option.map_some, Node.spread, hkind, Option.isSome_some, Bool.and_true, beq_iff_eq]
      split <;> simp [Node.spread]
    · dsimp only [Option.map_some]
      split <;> rfl

theorem spread_branch (e : Element) (children : List Node) (condition : Option Expression) :
    (branch e children condition).1.spread =
        (if e.kind == .template then spreadAll children else [.element (e.without "for") (spreadAll children)]) ∧
      (branch e children condition).2.filter ParseError.isStray = [] := by
  obtain ⟨hspread, herrors⟩ := spread_wrapLoop e children
  unfold branch
  split
  · rename_i hunwrap
    rw [Bool.and_eq_true] at hunwrap
    exact ⟨by rw [Branch.spread, if_pos (by simpa using hunwrap.1)], rfl⟩
  · rename_i hwrap
    refine ⟨?_, herrors⟩
    rw [Branch.spread, spreadAll_cons, hspread, spreadAll_nil, List.append_nil]
    -- A template that is not unwrapped by its branch has a loop, which unwraps it.
    cases hkind : e.kind == TagKind.template with
    | false => rfl
    | true =>
      have hfor : (e.directive "for").isSome = true := by
        simpa [eq_of_beq hkind, Option.isSome_iff_ne_none] using hwrap
      rw [hfor]
      rfl

/-! ## Siblings -/

/-- A raw node, and the node with what is below it folded. -/
inductive Keeps : Node → Folded → Prop
  | element {e : Element} {children below : List Node} {errors : List ParseError} (spread_eq : spreadAll below = keptAll false children)
      (strays_eq : errors.filter ParseError.isStray = straysAll false children) :
      Keeps (.element e children) ⟨.element e below, errors⟩
  | other {n : Node} (h : ∀ e children, n ≠ .element e children) : Keeps n ⟨n, []⟩

theorem Keeps.chains_eq {n : Node} {f : Folded} (h : Keeps n f) (chained : Bool) : n.chains chained = f.node.chains chained := by
  cases h <;> rfl

/-- What a chain that may go on leaves before siblings. -/
def Pending.spread (p : Pending) (next : List Node) : List Node :=
  spreadBranches p.branches ++ if goOn next then [] else spreadAll p.comments

theorem Pending.spreadAll_nodes (p : Pending) : spreadAll p.nodes = p.spread [] := rfl

/-- What an element leaves that begins anew: it is in the chain that it starts, or before it. -/
theorem enter_element_keeps (e : Element) (below next : List Node) :
    spreadAll (enter (.element e below)).2.1 ++ (enter (.element e below)).1.elim [] (·.spread next) = e.left false (spreadAll below) ∧
      (enter (.element e below)).2.2.filter ParseError.isStray = e.strays false := by
  rw [enter_element]
  cases hslot : e.isSlotTemplate with
  | true => simp [Element.left_of_isSlotTemplate hslot, Element.strays, hslot, Node.spread]
  | false =>
    cases hstarts : e.starts with
    | true =>
      obtain ⟨hbranch, hfaults⟩ := spread_branch (e.without "if") below e.ifCondition
      simp [hslot, hstarts, Element.isBranch, Element.left, Element.isUnwrapped, Element.trimmed, Element.strays, hbranch, hfaults,
        Pending.spread]
    | false =>
      have hfor : ((e.without "else-if").without "else").directive "for" = e.directive "for" :=
        (Element.directive_without_of_ne _ (by decide)).trans (Element.directive_without_of_ne _ (by decide))
      obtain ⟨hloop, hfaults⟩ := spread_wrapLoop ((e.without "else-if").without "else") below
      rw [hfor] at hloop
      simp [hslot, hstarts, Element.isBranch, Element.left, Element.isUnwrapped, Element.trimmed, Element.strays, hloop, hfaults,
        e.filter_elses]

/-- What a node leaves that begins anew. -/
theorem enter_keeps {n : Node} {f : Folded} (h : Keeps n f) (next : List Node) :
    spreadAll (enter f.node).2.1 ++ (enter f.node).1.elim [] (·.spread next) = n.kept false next ∧
      (f.errors ++ (enter f.node).2.2).filter ParseError.isStray = n.strays false := by
  cases h with
  | @element e children below errors hspread hstrays =>
    obtain ⟨hleft, hfaults⟩ := enter_element_keeps e below next
    rw [List.filter_append, hstrays, hfaults, Node.kept, ← hspread]
    exact ⟨hleft, rfl⟩
  | other h =>
    cases n with
    | element e children => exact absurd rfl (h e children)
    | text s data =>
      simp only [enter, Node.kept, Node.strays]
      split <;> simp [Node.spread]
    | comment | interpolation | chain | loop => simp [enter, Node.kept, Node.strays, Node.spread]

/-- A node behind a chain goes on with it and leaves what it leaves there, or it might as well stand alone. -/
theorem continues_keeps (p : Pending) {n : Node} {f : Folded} (h : Keeps n f) (next : List Node) :
    match continues p f.node with
    | some x => n.chains true = true ∧ x.1.spread next = p.spread (n :: next) ++ n.kept true next ∧
        (f.errors ++ x.2).filter ParseError.isStray = n.strays true
    | none => goOn (n :: next) = false ∧ n.chains true = n.chains false ∧ n.kept true next = n.kept false next ∧
        n.strays true = n.strays false := by
  cases h with
  | @element e children below errors hspread hstrays =>
    dsimp only
    rw [continues_element]
    cases hgoes : e.goesOn with
    | true =>
      have hslot : e.isSlotTemplate = false := by
        rw [Element.goesOn, Bool.and_eq_true, Bool.not_eq_true'] at hgoes
        exact hgoes.1
      obtain ⟨hbranch, hfaults⟩ := spread_branch (e.without e.elseName) below e.elseCondition
      rw [if_pos rfl]
      refine ⟨by simp [Node.chains, Element.isBranch, hgoes], ?_, ?_⟩
      · simp [Pending.spread, goOn, hgoes, Node.kept, ← hspread, hbranch, Element.left, Element.isUnwrapped, Element.isBranch,
          Element.trimmed, hslot]
      · simp [hfaults, hstrays, Node.strays, Element.strays, Element.isBranch, hgoes]
    | false =>
      exact ⟨hgoes, Element.isBranch_of_goesOn_eq_false hgoes, Element.left_of_goesOn_eq_false hgoes _,
        by rw [Node.strays, Node.strays, Element.strays_of_goesOn_eq_false hgoes]⟩
  | other h =>
    cases n with
    | element e children => exact absurd rfl (h e children)
    | text s data =>
      cases hblank : Text.isBlank data.toList with
      | true => simp [continues, hblank, Node.chains, Node.kept, Node.strays, Pending.spread, goOn]
      | false => simp [continues, hblank, Node.chains, Node.kept, Node.strays, goOn]
    | comment s data =>
      cases hgoes : goOn next <;> simp [continues, hgoes, Node.chains, Node.kept, Node.strays, Node.spread, Pending.spread, goOn]
    | interpolation | chain | loop => simp [continues, Node.chains, Node.kept, Node.strays, goOn]

/-- What linked siblings leave: the chain that stood open before them, and what is left of them behind it. -/
theorem link_keeps {ns : List Node} {fs : List Folded} (h : List.Forall₂ Keeps ns fs) (p : Option Pending) :
    spreadAll (link p fs).1 = p.elim [] (·.spread ns) ++ keptAll p.isSome ns ∧
      (link p fs).2.filter ParseError.isStray = straysAll p.isSome ns := by
  refine link_induction (P := fun p ns fs => spreadAll (link p fs).1 = p.elim [] (·.spread ns) ++ keptAll p.isSome ns ∧
    (link p fs).2.filter ParseError.isStray = straysAll p.isSome ns) h ?ends ?begins ?goesOn ?stops p
  case ends =>
    intro p
    cases p with
    | none => exact ⟨rfl, rfl⟩
    | some p => exact ⟨(List.append_nil _).symm, rfl⟩
  case begins =>
    rintro n f ns fs hf ⟨hrest, hstrays⟩
    obtain ⟨hleft, hfaults⟩ := enter_keeps hf ns
    rw [isSome_enter, ← hf.chains_eq] at hrest hstrays
    rw [link_begins]
    dsimp only
    rw [spreadAll_append, hrest, ← List.append_assoc, hleft, List.filter_append, hfaults, hstrays]
    exact ⟨rfl, rfl⟩
  case goesOn =>
    rintro p n f ns fs x hf hx ⟨hrest, hstrays⟩
    have hcontinues := continues_keeps p hf ns
    rw [hx] at hcontinues
    obtain ⟨hopen, hspread, hfaults⟩ := hcontinues
    rw [link_goesOn hx]
    dsimp only
    rw [hrest, List.filter_append, hfaults, hstrays]
    simp only [Option.elim_some, Option.isSome_some, keptAll, straysAll, hopen, hspread, List.append_assoc, and_self]
  case stops =>
    rintro p n f ns fs hf hx ⟨hrest, hstrays⟩
    have hcontinues := continues_keeps p hf ns
    rw [hx] at hcontinues
    obtain ⟨hgoes, hopen, hkept, hstray⟩ := hcontinues
    rw [link_stops hx]
    dsimp only
    rw [spreadAll_append, hrest, hstrays]
    simp [keptAll, straysAll, hopen, hkept, hstray, Pending.spreadAll_nodes, Pending.spread, hgoes, goOn]

end Folded

/-! ## Trees -/

mutual

theorem Node.keeps_folded (n : Node) : Folded.Keeps n n.folded := by
  cases n with
  | element e children =>
    obtain ⟨hspread, hstrays⟩ := Folded.link_keeps (Node.keeps_foldedAll children) none
    rw [Node.folded]
    exact .element hspread hstrays
  | text | comment | interpolation | chain | loop =>
    rw [Node.folded_of_ne_element (by simp)]
    exact .other (by simp)

theorem Node.keeps_foldedAll (ns : List Node) : List.Forall₂ Folded.Keeps ns (Node.foldedAll ns) := by
  cases ns with
  | nil => exact .nil
  | cons n ns => exact .cons n.keeps_folded (Node.keeps_foldedAll ns)

end

/-- A `<template>` with a `v-slot` fills a slot, whatever else it has. -/
theorem Element.isSlotTemplate_of_directive {e : Element} (htag : e.tag = "template") (hkind : e.kind = TagKind.of e.tag e.props)
    (hslot : (e.directive "slot").isSome = true) : e.isSlotTemplate = true := by
  obtain ⟨d, hd⟩ := Option.isSome_iff_exists.1 hslot
  obtain ⟨hmem, hname⟩ := Element.mem_of_directive hd
  have htemplate : e.kind = .template := by
    rw [hkind, TagKind.of, htag, if_neg (by decide), if_pos rfl]
    refine if_pos (List.any_eq_true.2 ⟨_, hmem, ?_⟩)
    show Tag.structural.contains d.name = true
    rw [hname]
    decide
  rw [isSlotTemplate, htemplate, hslot]
  rfl

/-- Folding loses nothing else. Spread out, the folded siblings are what is left of the raw ones, at every depth; all interpolations, and
all texts that are no white space, are among them in their order. An element that is left has lost one directive at most of each name that
folding takes, and a `<template>` with a `v-slot` none. The directives that go on with no chain are reported, each once. -/
theorem Node.fold_keeps (ns : List Node) :
    spreadAll (Node.fold ns).1 = keptAll false ns ∧
      contentsAll (Node.fold ns).1 = contentsAll ns ∧
      (Node.fold ns).2.filter ParseError.isStray = straysAll false ns ∧
      (∀ (chained : Bool) (e : Element), e.Trims ["if", "else-if", "else", "for"] (e.trimmed chained)) ∧
      ∀ (chained : Bool) (e : Element) (children : List Node), e.tag = "template" → e.kind = TagKind.of e.tag e.props →
        (e.directive "slot").isSome = true → e.left chained children = [.element e children] := by
  obtain ⟨hspread, hstrays⟩ := Folded.link_keeps (Node.keeps_foldedAll ns) none
  have hkept : spreadAll (Node.fold ns).1 = keptAll false ns := hspread
  refine ⟨hkept, ?_, hstrays, Element.trims_trimmed, ?_⟩
  · rw [← contentsAll_spreadAll, hkept, contentsAll_keptAll]
  · intro chained e children htag hkind hslot
    exact Element.left_of_isSlotTemplate (Element.isSlotTemplate_of_directive htag hkind hslot) chained children

/-- A template that fills a slot, behind a chain: it keeps its `v-else`. -/
theorem Node.fold_keeps_slot :
    Element.left true ⟨⟨0, 40⟩, "template", .template, [.directive ⟨"slot", "#item", none, none, [], ⟨10, 15⟩⟩,
        .directive ⟨"else", "v-else", none, none, [], ⟨16, 22⟩⟩], false, 23⟩ [] =
      [.element ⟨⟨0, 40⟩, "template", .template, [.directive ⟨"slot", "#item", none, none, [], ⟨10, 15⟩⟩,
        .directive ⟨"else", "v-else", none, none, [], ⟨16, 22⟩⟩], false, 23⟩ []] :=
  (Node.fold_keeps []).2.2.2.2 true _ [] rfl (by decide) (by decide)

end Markup

end TypedSfc
