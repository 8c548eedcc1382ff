import TypedSfc.Proofs.Generate.Waiting
import TypedSfc.Proofs.Markup.Heads

/-!
# Places of what is walked

In a template that describes its source, the nodes that are walked in a list, with those walked before it in the same node, stand between
two places, and no other element of the template starts inside. So the comments that wait for a node are the last things before it: all
other elements start before them or behind the node.
-/

namespace TypedSfc

namespace Generate

open Markup (Branch Branches Element Fragment Node Siblings branchHeads nodeHeads)

variable {r : Setting} {code : Code} {f : Fragment} {source : List Char} {led ns before after : List Node} {n : Node} {s : State}

/-- The nodes of a template that describes its source describe it too, wherever they are walked. -/
theorem Walked.describes (h : Walked r code f led ns s) (hf : f.Describes source) : ∀ n ∈ ns, n.Describes source := by
  induction h with
  | root outside begins => exact fun n hn => hf.nodes_describe.describes_of_mem hn
  | within walked entered holds begins ih =>
    have hparent := ih _ (List.mem_append_right _ List.mem_cons_self)
    intro n hn
    cases holds with
    | element x children =>
      cases hparent with
      | element head below => exact below.describes_of_mem hn
    | loop span h children =>
      cases hparent with
      | loop fits head below => exact below.describes_of_mem hn
    | branch span own before x children after =>
      cases hparent with
      | chain fits below =>
        cases below.describes_of_mem (List.mem_append_right _ List.mem_cons_self) with
        | mk fits condition_describes below => exact below.describes_of_mem hn

/-- The elements of nodes are among those of the template, wherever the nodes are walked. -/
theorem Walked.heads_subset (h : Walked r code f led ns s) : nodeHeads ns ⊆ nodeHeads f.nodes := by
  induction h with
  | root outside begins => exact List.Subset.refl _
  | @within led before after led' children n c s t u walked entered holds begins ih =>
    have hnode : n.heads ⊆ nodeHeads f.nodes := fun x hx => ih <| by
      rw [Markup.nodeHeads_append, Markup.nodeHeads_cons]
      exact List.mem_append_right _ (List.mem_append_left _ hx)
    refine List.Subset.trans (fun x hx => ?_) hnode
    cases holds with
    | element y children => exact List.mem_cons_of_mem _ hx
    | loop span h children => exact hx
    | branch span own front y children behind =>
      rw [Markup.heads_chain, Markup.branchHeads_append, Markup.branchHeads_cons]
      exact List.mem_append_right _ (List.mem_append_left _ hx)

/-- Siblings between two places outside of which, or within the siblings, all elements of a template start. -/
structure Encloses (source : List Char) (f : Fragment) (lo hi : Nat) (ns : List Node) : Prop where
  siblings : Siblings source lo ns hi
  others : ∀ x ∈ nodeHeads f.nodes, x ∈ nodeHeads ns ∨ x.span.start ≤ lo ∨ hi ≤ x.span.start

/-- What encloses siblings encloses each of them: the other elements start before it or behind it. -/
theorem Encloses.node {lo hi : Nat} (h : Encloses source f lo hi (before ++ n :: after)) :
    ∀ x ∈ nodeHeads f.nodes, x ∈ n.heads ∨ x.span.start ≤ n.span.start ∨ n.span.stop ≤ x.span.start := by
  obtain ⟨mid, hbefore, hrest⟩ := h.siblings.exists_mid
  cases hrest with
  | cons le node behind =>
    intro x hx
    rcases h.others x hx with hx | hx | hx
    · rw [Markup.nodeHeads_append, Markup.nodeHeads_cons] at hx
      rcases List.mem_append.1 hx with hx | hx
      · exact .inr (.inl ((hbefore.heads_within x hx).2.trans le))
      · rcases List.mem_append.1 hx with hx | hx
        · exact .inl hx
        · exact .inr (.inr (behind.heads_within x hx).1)
    · exact .inr (.inl (hx.trans (hbefore.le.trans le)))
    · exact .inr (.inr (behind.le.trans hx))

/-- Wherever a list of nodes is walked, it is enclosed with the nodes that were walked before it in the same node. -/
theorem Walked.exists_encloses (h : Walked r code f led ns s) (hf : f.Describes source) : ∃ lo hi, Encloses source f lo hi (led ++ ns) := by
  induction h with
  | root outside begins => exact ⟨_, _, hf.nodes_describe, fun x hx => .inl hx⟩
  | @within led before after led' children n c s t u walked entered holds begins ih =>
    obtain ⟨lo, hi, hencloses⟩ := ih
    rw [← List.append_assoc] at hencloses
    have hothers := hencloses.node
    have hnode := walked.describes hf n (List.mem_append_right _ List.mem_cons_self)
    cases holds with
    | element x children =>
      cases hnode with
      | element head below =>
        refine ⟨_, _, below, fun y hy => ?_⟩
        rcases hothers y hy with hy | hy | hy
        · rcases List.mem_cons.1 hy with rfl | hy
          · exact .inr (.inl head.start_le)
          · exact .inl hy
        · exact .inr (.inl (hy.trans head.start_le))
        · exact .inr (.inr hy)
    | loop span h children =>
      cases hnode with
      | loop fits head below => exact ⟨_, _, below, hothers⟩
    | branch span own front x children behind =>
      cases hnode with
      | chain fits below =>
        have hall := below.siblings
        rw [List.flatMap_append, List.flatMap_cons, ← List.append_assoc] at hall
        obtain ⟨mid, hbranch, hbehind⟩ := hall.exists_mid
        refine ⟨_, mid, hbranch, fun y hy => ?_⟩
        rcases hothers y hy with hy | hy | hy
        · rw [Markup.heads_chain, Markup.branchHeads_eq, List.flatMap_append, List.flatMap_cons, ← List.append_assoc,
            Markup.nodeHeads_append] at hy
          rcases List.mem_append.1 hy with hy | hy
          · exact .inl hy
          · exact .inr (.inr (hbehind.heads_within y hy).1)
        · exact .inr (.inl hy)
        · exact .inr (.inr (hbehind.le.trans hy))

/-- A comment that waits is in the list, and there are only comments behind it. -/
theorem exists_of_mem_commentsBehind {c : Span × String} (h : c ∈ commentsBehind ns) :
    ∃ as bs, ns = as ++ .comment c.1 c.2 :: bs ∧ ∀ b ∈ bs, (comment? b).isSome := by
  obtain ⟨m, hm, hcomment⟩ := List.mem_filterMap.1 h
  obtain ⟨front, back, hlast⟩ := List.append_of_mem hm
  obtain ⟨as, has⟩ := List.rtakeWhile_suffix (fun n => (comment? n).isSome) ns
  have hm : m = .comment c.1 c.2 := by
    unfold comment? at hcomment
    split at hcomment
    · obtain rfl := Option.some.inj hcomment
      rfl
    · cases hcomment
  refine ⟨as ++ front, back, ?_, fun b hb => ?_⟩
  · rw [← hm, List.append_assoc, ← hlast, has]
  · have hmem : b ∈ ns.rtakeWhile fun n => (comment? n).isSome := hlast ▸ List.mem_append_right _ (List.mem_cons_of_mem _ hb)
    exact List.mem_rtakeWhile_imp (p := fun n => (comment? n).isSome) hmem

theorem nodeHeads_of_comments (h : ∀ n ∈ ns, (comment? n).isSome) : nodeHeads ns = [] := by
  induction ns with
  | nil => rfl
  | cons n ns ih =>
    obtain ⟨hn, hns⟩ := List.forall_mem_cons.1 h
    rw [Markup.nodeHeads_cons, ih hns]
    cases n with
    | comment => rfl
    | text | interpolation | element | loop | chain => cases hn

/-- A comment that waits for a node is before it, and all elements that are not in the node start before the comment ends or behind the
node. -/
theorem Walked.starts_around (h : Walked r code f led (before ++ n :: after) s) (hf : f.Describes source) {c : Span × String}
    (hc : c ∈ commentsBehind (led ++ before)) :
    (Node.comment c.1 c.2).Describes source ∧ n.Describes source ∧ c.1.stop ≤ n.span.start ∧
      ∀ x ∈ nodeHeads f.nodes, x ∈ n.heads ∨ x.span.start ≤ c.1.start ∨ n.span.stop ≤ x.span.start := by
  obtain ⟨lo, hi, hencloses⟩ := h.exists_encloses hf
  obtain ⟨as, bs, heq, hbs⟩ := exists_of_mem_commentsBehind hc
  rw [← List.append_assoc, heq] at hencloses
  obtain ⟨mid, hbefore, hrest⟩ := hencloses.siblings.exists_mid
  obtain ⟨front, has, hcomments⟩ := hbefore.exists_mid
  cases hcomments with
  | cons hfront comment hbehind =>
    cases hrest with
    | cons hmid node hafter =>
      refine ⟨comment, node, hbehind.le.trans hmid, fun x hx => ?_⟩
      rcases hencloses.others x hx with hx | hx | hx
      · rw [Markup.nodeHeads_append, Markup.nodeHeads_append, Markup.nodeHeads_cons, Markup.nodeHeads_cons, nodeHeads_of_comments hbs,
          List.append_nil] at hx
        rcases List.mem_append.1 hx with hx | hx
        · rcases List.mem_append.1 hx with hx | hx
          · exact .inr (.inl ((has.heads_within x hx).2.trans hfront))
          · exact absurd hx List.not_mem_nil
        · rcases List.mem_append.1 hx with hx | hx
          · exact .inl hx
          · exact .inr (.inr (hafter.heads_within x hx).1)
      · exact .inr (.inl (hx.trans (has.le.trans hfront)))
      · exact .inr (.inr (hafter.le.trans hx))

end Generate

end TypedSfc
