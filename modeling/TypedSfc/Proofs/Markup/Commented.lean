import TypedSfc.Proofs.Markup.Heads
import TypedSfc.Proofs.Markup.Siblings

/-!
# Elements behind a comment

Folding keeps a comment where it stands, unless the element behind it goes on with a chain. What comes of the element then stands directly
behind the comment: white space between them is dropped. The element is that node itself if it has no directive that makes it a branch or
a loop; otherwise the node is a chain or a loop, in which nothing stands before the element.
-/

namespace TypedSfc

namespace Markup

/-- Whether a node is a text of white space. -/
def Node.IsBlank (n : Node) : Prop := ∃ span data, n = .text span data ∧ Text.isBlank data.toList = true

/-- An element without the directives that make it a branch or a loop stands for the node, as the first thing in it if there is anything
around the element. -/
inductive Node.Leads (e : Element) (children : List Node) : (wrapped : Bool) → Node → Prop
  | element : Leads e children false (.element e children)
  | loop (span : Span) (h : LoopHead) : Leads e children true (.loop span h [.element e children])
  | chain (span own : Span) (x : Option Expression) (bs : List Branch) {wrapped : Bool} {n : Node} (leads : Leads e children wrapped n) :
      Leads e children true (.chain span (.mk own x [n] :: bs))

theorem Node.Leads.mem_heads {e : Element} {children : List Node} {wrapped : Bool} {n : Node} (h : Leads e children wrapped n) :
    e ∈ n.heads := by
  induction h with
  | element | loop => exact List.mem_cons_self
  | chain span own x bs leads ih => exact List.mem_append_left _ (List.mem_append_left _ ih)

/-- An element that stands for a node starts before all others in the node. -/
theorem Node.Leads.start_le {source : List Char} {e : Element} {children : List Node} {wrapped : Bool} {n : Node}
    (h : Leads e children wrapped n) (hn : n.Describes source) : ∀ x ∈ n.heads, e.span.start ≤ x.span.start := by
  induction h with
  | element => exact fun x hx => (hn.heads_within x hx).1
  | loop span head =>
    cases hn with
    | loop fits describes below =>
      intro x hx
      rw [heads_loop, nodeHeads_cons, nodeHeads_nil, List.append_nil] at hx
      exact ((below.describes_of_mem List.mem_cons_self).heads_within x hx).1
  | @chain span own x bs wrapped n leads ih =>
    cases hn with
    | chain fits below =>
      cases below with
      | cons le branch behind =>
        cases branch with
        | mk branchFits describes inner =>
          have hn := inner.describes_of_mem List.mem_cons_self
          intro y hy
          rcases List.mem_append.1 hy with hy | hy
          · change y ∈ nodeHeads [n] at hy
            rw [nodeHeads_cons, nodeHeads_nil, List.append_nil] at hy
            exact ih hn y hy
          · exact Nat.le_trans (inner.heads_within _ (List.mem_append_left _ leads.mem_heads)).2 (behind.heads_within y hy).1

namespace Folded

/-- Siblings are linked from the left: what comes of those in front does not depend on those behind, but for a chain that stands open. -/
theorem exists_link_append (as : List Folded) (p : Option Pending) : ∃ out q, ∀ bs, (link p (as ++ bs)).1 = out ++ (link q bs).1 := by
  induction as generalizing p with
  | nil => exact ⟨[], p, fun _ => rfl⟩
  | cons f as ih =>
    have hbegins : ∃ out q, ∀ bs, (link none (f :: as ++ bs)).1 = out ++ (link q bs).1 := by
      obtain ⟨out, q, hout⟩ := ih (enter f.node).1
      refine ⟨(enter f.node).2.1 ++ out, q, fun bs => ?_⟩
      rw [List.cons_append, link_begins, List.append_assoc (enter f.node).2.1]
      exact congrArg ((enter f.node).2.1 ++ ·) (hout bs)
    cases p with
    | none => exact hbegins
    | some p =>
      cases hx : continues p f.node with
      | some x =>
        obtain ⟨out, q, hout⟩ := ih (some x.1)
        refine ⟨out, q, fun bs => ?_⟩
        rw [List.cons_append, link_goesOn hx, ← hout]
      | none =>
        obtain ⟨out, q, hout⟩ := hbegins
        refine ⟨p.nodes ++ out, q, fun bs => ?_⟩
        rw [List.cons_append, link_stops hx, List.append_assoc, ← hout, List.cons_append]

/-- White space is dropped, whether a chain stands open before it or not. -/
theorem link_blanks {blanks : List Folded} (h : ∀ f ∈ blanks, f.node.IsBlank) (p : Option Pending) (fs : List Folded) :
    (link p (blanks ++ fs)).1 = (link p fs).1 := by
  induction blanks with
  | nil => rfl
  | cons f blanks ih =>
    obtain ⟨span, data, hnode, hblank⟩ := h f List.mem_cons_self
    have hrest := ih fun f hf => h f (List.mem_cons_of_mem _ hf)
    rw [List.cons_append]
    cases p with
    | none => rw [link_begins, hnode, enter, if_pos hblank, List.nil_append, hrest]
    | some p => rw [link_goesOn (x := (p, [])) (by rw [hnode, continues, if_pos hblank]), hrest]

/-- A chain that goes on keeps its branches. -/
theorem exists_branches_of_continues {p : Pending} {n : Node} {x : Pending × List ParseError} (h : continues p n = some x) :
    ∃ own, x.1.branches = p.branches ++ own := by
  cases n with
  | text s data =>
    rw [continues] at h
    split at h
    · obtain rfl := Option.some.inj h
      exact ⟨[], (List.append_nil _).symm⟩
    · cases h
  | comment s data =>
    obtain rfl := Option.some.inj h
    exact ⟨[], (List.append_nil _).symm⟩
  | element e children =>
    rw [continues_element] at h
    split at h
    · obtain rfl := Option.some.inj h
      exact ⟨_, rfl⟩
    · cases h
  | interpolation | chain | loop => cases h

/-- A chain that stands open before siblings comes first among the nodes, with its branches and those that it takes. -/
theorem exists_link_some (fs : List Folded) (p : Pending) :
    ∃ span more rest, (link (some p) fs).1 = .chain span (p.branches ++ more) :: rest := by
  induction fs generalizing p with
  | nil => exact ⟨p.span, [], p.comments, by rw [List.append_nil]; rfl⟩
  | cons f fs ih =>
    cases hx : continues p f.node with
    | none =>
      refine ⟨p.span, [], p.comments ++ (link none (f :: fs)).1, ?_⟩
      rw [link_stops hx, List.append_nil]
      rfl
    | some x =>
      obtain ⟨span, more, rest, hlink⟩ := ih x.1
      obtain ⟨own, hown⟩ := exists_branches_of_continues hx
      exact ⟨span, own ++ more, rest, by rw [link_goesOn hx, hlink, hown, List.append_assoc]⟩

/-! ## Elements behind a comment -/

theorem exists_leads_wrapLoop (e : Element) (children : List Node) (hkind : e.kind ≠ .template) :
    ∃ e', e'.span = e.span ∧ e'.kind = e.kind ∧ Node.Leads e' children (e.directive "for").isSome (wrapLoop e children).node := by
  unfold wrapLoop
  rw [Element.take_eq]
  cases e.directive "for" with
  | none => exact ⟨e, rfl, rfl, .element⟩
  | some d =>
    refine ⟨e.without "for", rfl, rfl, ?_⟩
    dsimp only [Option.map_some, Option.isSome_some]
    rw [if_neg (by exact hkind)]
    exact .loop _ _

/-- What an element comes to that begins anew before siblings: a node for which the element stands. -/
theorem exists_leads_begins (e : Element) (children : List Node) (hkind : e.kind ≠ .template) (errors : List ParseError) (fs : List Folded) :
    ∃ e' n rest, e'.span = e.span ∧ e'.kind = e.kind ∧
      Node.Leads e' children ((e.directive "if").isSome || (e.directive "for").isSome) n ∧
      (link none (⟨.element e children, errors⟩ :: fs)).1 = n :: rest := by
  have hslot : e.isSlotTemplate = false := by simp [Element.isSlotTemplate, hkind]
  rw [link_begins, enter_element, hslot, if_neg Bool.false_ne_true]
  cases hif : (e.directive "if").isSome with
  | true =>
    obtain ⟨e', hspan, hkind', hleads⟩ := exists_leads_wrapLoop (e.without "if") children hkind
    rw [if_pos (by simp [Element.starts, hslot, hif])]
    obtain ⟨span, more, rest, hlink⟩ := exists_link_some fs ⟨e.span, [(branch (e.without "if") children e.ifCondition).1], []⟩
    refine ⟨e', _, rest, hspan, hkind', ?_, hlink⟩
    rw [branch, if_neg (by simp [hkind])]
    exact .chain _ _ _ _ hleads
  | false =>
    obtain ⟨e', hspan, hkind', hleads⟩ :=
      exists_leads_wrapLoop ((e.without "else-if").without "else") children hkind
    rw [if_neg (by simp [Element.starts, hslot, hif])]
    refine ⟨e', _, _, hspan, hkind', ?_, rfl⟩
    rwa [Element.directive_without_of_ne _ (by decide), Element.directive_without_of_ne _ (by decide)] at hleads

/-- A comment at the end of siblings comes last. -/
theorem link_comment (span : Span) (data : String) (noted : List ParseError) (p : Option Pending) :
    (link p [⟨.comment span data, noted⟩]).1 = p.elim [] Pending.nodes ++ [.comment span data] := by
  cases p with
  | none => rfl
  | some p =>
    rw [link_goesOn rfl]
    rfl

/-- Behind a comment that is kept stands the node for which the element behind it stands. -/
theorem exists_leads_link {pre blanks post : List Folded} {span : Span} {data : String} {noted errors : List ParseError} {e : Element}
    {children : List Node} (hkind : e.kind ≠ .template) (hblanks : ∀ f ∈ blanks, f.node.IsBlank)
    (hkept : (link none (pre ++ [⟨.comment span data, noted⟩])).1 <+:
      (link none (pre ++ ⟨.comment span data, noted⟩ :: (blanks ++ ⟨.element e children, errors⟩ :: post))).1) :
    ∃ e' n rest, e'.span = e.span ∧ e'.kind = e.kind ∧
      Node.Leads e' children ((e.directive "if").isSome || (e.directive "for").isSome) n ∧
      (link none (pre ++ ⟨.comment span data, noted⟩ :: (blanks ++ ⟨.element e children, errors⟩ :: post))).1 =
        (link none (pre ++ [⟨.comment span data, noted⟩])).1 ++ n :: rest := by
  obtain ⟨e', n, rest, hspan, hkind', hleads, hbegins⟩ := exists_leads_begins e children hkind errors post
  refine ⟨e', n, rest, hspan, hkind', hleads, ?_⟩
  obtain ⟨out, q, hout⟩ := exists_link_append pre none
  rw [hout, hout] at hkept ⊢
  cases q with
  | none =>
    rw [link_begins, link_begins]
    show out ++ (.comment span data :: (link none (blanks ++ _)).1) = _
    rw [link_blanks hblanks, hbegins, List.append_assoc]
    rfl
  | some p =>
    have hcomment : continues p (.comment span data) = some ({ p with comments := p.comments ++ [.comment span data] }, []) := rfl
    rw [link_comment, link_goesOn hcomment, link_blanks hblanks] at hkept ⊢
    cases hx : continues { p with comments := p.comments ++ [.comment span data] } (.element e children) with
    | none =>
      rw [link_stops hx, hbegins]
      simp [Pending.nodes]
    | some x =>
      -- The element is one more branch of the chain, which is then another node in front of the comment.
      rw [link_goesOn hx] at hkept
      rw [continues_element] at hx
      split at hx
      · obtain rfl := Option.some.inj hx
        obtain ⟨span', more, behind, hlink⟩ := exists_link_some post
          ⟨p.span.cover e.span, p.branches ++ [(branch (e.without e.elseName) children e.elseCondition).1], []⟩
        rw [hlink, List.prefix_append_right_inj] at hkept
        obtain ⟨-, hbranches⟩ := Node.chain.inj (List.cons_prefix_cons.1 hkept).1
        have hlength := congrArg List.length hbranches
        simp at hlength
      · cases hx

end Folded

theorem foldedAll_append (ns ms : List Node) : Node.foldedAll (ns ++ ms) = Node.foldedAll ns ++ Node.foldedAll ms := by
  induction ns with
  | nil => rfl
  | cons n ns ih => rw [List.cons_append, Node.foldedAll, ih, Node.foldedAll, List.cons_append]

theorem Node.exists_fold_comment (pre : List Node) (span : Span) (data : String) :
    ∃ out, (fold (pre ++ [.comment span data])).1 = out ++ [.comment span data] := by
  obtain ⟨out, q, hout⟩ := Folded.exists_link_append (foldedAll pre) none
  refine ⟨out ++ q.elim [] Folded.Pending.nodes, ?_⟩
  unfold fold
  rw [foldedAll_append, hout, List.append_assoc]
  exact congrArg (out ++ ·) (Folded.link_comment span data [] q)

/-- Among folded siblings, behind a comment that is kept stands the node for which the element behind it stands, white space between them
aside. -/
theorem Node.exists_leads_fold {pre blanks post : List Node} {span : Span} {data : String} {e : Element} {children : List Node}
    (hkind : e.kind ≠ .template) (hblanks : ∀ n ∈ blanks, n.IsBlank)
    (hkept : (fold (pre ++ [.comment span data])).1 <+: (fold (pre ++ .comment span data :: (blanks ++ .element e children :: post))).1) :
    ∃ e' n rest, e'.span = e.span ∧ e'.kind = e.kind ∧
      Leads e' (fold children).1 ((e.directive "if").isSome || (e.directive "for").isSome) n ∧
      (fold (pre ++ .comment span data :: (blanks ++ .element e children :: post))).1 =
        (fold (pre ++ [.comment span data])).1 ++ n :: rest := by
  have hfolded : ∀ f ∈ foldedAll blanks, f.node.IsBlank := by
    clear hkept
    induction blanks with
    | nil => exact fun f hf => absurd hf List.not_mem_nil
    | cons b blanks ih =>
      obtain ⟨hb, hblanks⟩ := List.forall_mem_cons.1 hblanks
      refine List.forall_mem_cons.2 ⟨?_, ih hblanks⟩
      obtain ⟨s, d, rfl, hblank⟩ := hb
      exact ⟨s, d, rfl, hblank⟩
  unfold fold at hkept ⊢
  simp only [foldedAll_append, foldedAll] at hkept ⊢
  exact Folded.exists_leads_link hkind hfolded hkept

end Markup

end TypedSfc
