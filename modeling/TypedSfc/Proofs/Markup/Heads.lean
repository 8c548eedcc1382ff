import TypedSfc.Markup.Fold
import TypedSfc.Markup.Node
import TypedSfc.Proofs.Markup.Describes

/-!
# The elements of a tree

All elements of a tree, wherever they stand in it. Folding makes no elements of its own: it takes directives from those that were read,
and leaves some of them out. So what holds of all elements that were read, and still does when a directive is taken away, holds of all
elements of the folded tree.

In a tree that describes its source, the elements of a node start within it, and those of siblings start one behind another.
-/

namespace TypedSfc

namespace Markup

mutual

/-- The elements of a node: itself if it is one, and those below it. -/
def Node.heads : Node → List Element
  | .element e children => e :: nodeHeads children
  | .text .. | .comment .. | .interpolation .. => []
  | .chain _ bs => branchHeads bs
  | .loop _ _ children => nodeHeads children

/-- The elements of a branch. -/
def Branch.heads : Branch → List Element
  | .mk _ _ children => nodeHeads children

/-- The elements of nodes. -/
def nodeHeads : List Node → List Element
  | [] => []
  | n :: ns => n.heads ++ nodeHeads ns

/-- The elements of branches. -/
def branchHeads : List Branch → List Element
  | [] => []
  | b :: bs => b.heads ++ branchHeads bs

end

@[simp] theorem nodeHeads_nil : nodeHeads [] = [] := rfl

@[simp] theorem nodeHeads_cons (n : Node) (ns : List Node) : nodeHeads (n :: ns) = n.heads ++ nodeHeads ns := rfl

@[simp] theorem nodeHeads_append (ns ms : List Node) : nodeHeads (ns ++ ms) = nodeHeads ns ++ nodeHeads ms := by
  induction ns with
  | nil => rfl
  | cons n ns ih => rw [List.cons_append, nodeHeads_cons, ih, nodeHeads_cons, List.append_assoc]

@[simp] theorem branchHeads_nil : branchHeads [] = [] := rfl

@[simp] theorem branchHeads_cons (b : Branch) (bs : List Branch) : branchHeads (b :: bs) = nodeHeads b.children ++ branchHeads bs := by
  cases b
  rfl

@[simp] theorem branchHeads_append (bs cs : List Branch) : branchHeads (bs ++ cs) = branchHeads bs ++ branchHeads cs := by
  induction bs with
  | nil => rfl
  | cons b bs ih => rw [List.cons_append, branchHeads_cons, ih, branchHeads_cons, List.append_assoc]

@[simp] theorem heads_element (e : Element) (children : List Node) : (Node.element e children).heads = e :: nodeHeads children := rfl

@[simp] theorem heads_chain (s : Span) (bs : List Branch) : (Node.chain s bs).heads = branchHeads bs := rfl

@[simp] theorem heads_loop (s : Span) (h : LoopHead) (children : List Node) : (Node.loop s h children).heads = nodeHeads children := rfl

/-! ## Folding -/

/-- Whether a property of elements still holds when a directive is taken away. -/
def Element.Stable (Q : Element → Prop) : Prop := ∀ e name d e', e.take name = some (d, e') → Q e → Q e'

namespace Folded

variable {Q : Element → Prop} (hQ : Element.Stable Q)

include hQ

theorem heads_wrapLoop {e : Element} {children : List Node} (he : Q e) (hchildren : ∀ x ∈ nodeHeads children, Q x) :
    ∀ x ∈ (wrapLoop e children).node.heads, Q x := by
  unfold wrapLoop
  split
  · simpa using ⟨he, hchildren⟩
  · rename_i d e' htake
    have he' := hQ e "for" d e' htake he
    dsimp only
    rw [heads_loop]
    split
    · exact hchildren
    · simpa using ⟨he', hchildren⟩

theorem heads_branch {e : Element} {children : List Node} (he : Q e) (hchildren : ∀ x ∈ nodeHeads children, Q x)
    (condition : Option Expression) : ∀ x ∈ nodeHeads (branch e children condition).1.children, Q x := by
  unfold branch
  split
  · exact hchildren
  · simpa [Branch.children] using heads_wrapLoop hQ he hchildren

theorem dropStray_stable {e : Element} (he : Q e) : Q (dropStray e).1 := by
  unfold dropStray
  refine List.foldlRecOn (motive := fun acc : Element × List ParseError => Q acc.1) _ _ he ?_
  intro acc hacc name _
  split
  · rename_i d e' htake
    exact hQ acc.1 name d e' htake hacc
  · exact hacc

/-- The elements of a chain that may go on. -/
def Pending.heads (p : Pending) : List Element := branchHeads p.branches ++ nodeHeads p.comments

omit hQ in
theorem Pending.nodeHeads_nodes (p : Pending) : nodeHeads p.nodes = p.heads := rfl

theorem heads_enter {n : Node} (hn : ∀ x ∈ n.heads, Q x) :
    (∀ p ∈ (enter n).1, ∀ x ∈ p.heads, Q x) ∧ ∀ x ∈ nodeHeads (enter n).2.1, Q x := by
  unfold enter
  split
  · refine ⟨by simp, ?_⟩
    dsimp only
    split <;> simp [Node.heads]
  · rename_i e children
    have hchildren : ∀ x ∈ nodeHeads children, Q x := fun x hx => hn x (List.mem_cons_of_mem e hx)
    split
    · exact ⟨by simp, by simpa using hn⟩
    · split
      · rename_i d e' htake
        have hbranch := heads_branch hQ (hQ e "if" d e' htake (hn e List.mem_cons_self)) hchildren d.exp
        refine ⟨?_, by simp⟩
        intro p hp
        obtain rfl := Option.some.inj hp
        simpa [Pending.heads] using hbranch
      · have hloop := heads_wrapLoop hQ (dropStray_stable hQ (hn e List.mem_cons_self)) hchildren
        exact ⟨by simp, by simpa using hloop⟩
  · exact ⟨by simp, by simpa using hn⟩

theorem heads_continues {p : Pending} {n : Node} (hp : ∀ x ∈ p.heads, Q x) (hn : ∀ x ∈ n.heads, Q x) :
    ∀ y ∈ continues p n, ∀ x ∈ y.1.heads, Q x := by
  -- One more branch takes the place of the comments behind the chain.
  have hsnoc : ∀ {s : Span} {b : Branch}, (∀ x ∈ nodeHeads b.children, Q x) →
      ∀ x ∈ (⟨s, p.branches ++ [b], []⟩ : Pending).heads, Q x := by
    intro s b hb x hx
    simp only [Pending.heads, branchHeads_append, branchHeads_cons, branchHeads_nil, nodeHeads_nil, List.append_nil,
      List.mem_append] at hx
    rcases hx with hx | hx
    · exact hp x (List.mem_append_left _ hx)
    · exact hb x hx
  intro y hy
  unfold continues at hy
  split at hy
  · split at hy
    · obtain rfl := Option.some.inj hy
      exact hp
    · cases hy
  · obtain rfl := Option.some.inj hy
    simpa [Pending.heads, Node.heads] using hp
  · rename_i e children
    have hchildren : ∀ x ∈ nodeHeads children, Q x := fun x hx => hn x (List.mem_cons_of_mem e hx)
    have he := hn e List.mem_cons_self
    split at hy
    · cases hy
    · split at hy
      · rename_i d e' htake
        obtain rfl := Option.some.inj hy
        exact hsnoc (heads_branch hQ (hQ e _ d e' htake he) hchildren d.exp)
      · rename_i d e' _ htake
        obtain rfl := Option.some.inj hy
        exact hsnoc (heads_branch hQ (hQ e _ d e' htake he) hchildren none)
      · cases hy
  · cases hy

theorem heads_link {p : Option Pending} {fs : List Folded} (hp : ∀ q ∈ p, ∀ x ∈ q.heads, Q x)
    (hfs : ∀ f ∈ fs, ∀ x ∈ f.node.heads, Q x) : ∀ x ∈ nodeHeads (link p fs).1, Q x := by
  induction fs generalizing p with
  | nil =>
    cases p with
    | none => simp [link]
    | some p => simpa [link, Pending.nodeHeads_nodes] using hp p rfl
  | cons f fs ih =>
    obtain ⟨hf, hrest⟩ := List.forall_mem_cons.1 hfs
    obtain ⟨hpending, hns⟩ := heads_enter hQ hf
    have hlink := ih hpending hrest
    cases p with
    | none =>
      rw [link]
      intro x hx
      rcases List.mem_append.1 (nodeHeads_append .. ▸ hx) with hx | hx
      · exact hns x hx
      · exact hlink x hx
    | some p =>
      rw [link]
      cases hc : continues p f.node with
      | some y => exact ih (fun q hq => Option.some.inj hq ▸ heads_continues hQ (hp p rfl) hf y hc) hrest
      | none =>
        intro x hx
        dsimp only at hx
        rw [nodeHeads_append, nodeHeads_append, Pending.nodeHeads_nodes] at hx
        rcases List.mem_append.1 hx with hx | hx
        · rcases List.mem_append.1 hx with hx | hx
          · exact hp p rfl x hx
          · exact hns x hx
        · exact hlink x hx

end Folded

variable {Q : Element → Prop}

mutual

theorem Node.heads_folded (hQ : Element.Stable Q) {n : Node} (h : ∀ x ∈ n.heads, Q x) : ∀ x ∈ n.folded.node.heads, Q x := by
  cases n with
  | element e children =>
    obtain ⟨he, hchildren⟩ := List.forall_mem_cons.1 (show ∀ x ∈ e :: nodeHeads children, Q x from h)
    have hlink := Folded.heads_link hQ (p := none) (by simp) (Node.heads_foldedAll hQ hchildren)
    rw [Node.folded]
    exact List.forall_mem_cons.2 ⟨he, hlink⟩
  | text | comment | interpolation | chain | loop => exact h

theorem Node.heads_foldedAll (hQ : Element.Stable Q) {ns : List Node} (h : ∀ x ∈ nodeHeads ns, Q x) :
    ∀ f ∈ Node.foldedAll ns, ∀ x ∈ f.node.heads, Q x := by
  cases ns with
  | nil => simp [Node.foldedAll]
  | cons n ns =>
    rw [Node.foldedAll]
    have hn := Node.heads_folded hQ fun x hx => h x (List.mem_append_left _ hx)
    have hns := Node.heads_foldedAll hQ fun x hx => h x (List.mem_append_right _ hx)
    exact List.forall_mem_cons.2 ⟨hn, hns⟩

end

/-- What holds of all elements that were read holds of those of the folded tree. -/
theorem Node.heads_fold (hQ : Element.Stable Q) {ns : List Node} (h : ∀ x ∈ nodeHeads ns, Q x) :
    ∀ x ∈ nodeHeads (Node.fold ns).1, Q x :=
  Folded.heads_link hQ (p := none) (by simp) (Node.heads_foldedAll hQ h)

/-! ## Where elements start -/

variable {source : List Char}

/-- The nodes of branches are siblings. -/
theorem Branches.siblings {lo hi : Nat} {bs : List Branch} (h : Branches source lo bs hi) :
    Siblings source lo (bs.flatMap Branch.children) hi := by
  induction bs generalizing lo with
  | nil =>
    cases h with
    | nil le => exact .nil le
  | cons b bs ih =>
    obtain ⟨s, condition, children⟩ := b
    cases h with
    | cons le branch behind =>
      cases branch with
      | mk fits describes below => exact (below.mono le (Nat.le_refl _)).append (ih behind)

/-- The elements of branches are those of their nodes. -/
theorem branchHeads_eq (bs : List Branch) : branchHeads bs = nodeHeads (bs.flatMap Branch.children) := by
  induction bs with
  | nil => rfl
  | cons b bs ih => rw [branchHeads_cons, ih, List.flatMap_cons, nodeHeads_append]

mutual

/-- The elements of a node start within it. -/
theorem Node.Describes.heads_within {n : Node} (h : n.Describes source) :
    ∀ x ∈ n.heads, n.span.start ≤ x.span.start ∧ x.span.start ≤ n.span.stop := by
  cases n with
  | element e children =>
    cases h with
    | element head below =>
      have hle := below.le
      have hstart := head.start_le
      intro x hx
      rcases List.mem_cons.1 hx with rfl | hx
      · exact ⟨Nat.le_refl _, Nat.le_trans hstart hle⟩
      · obtain ⟨hlo, hhi⟩ := Siblings.heads_within below x hx
        exact ⟨Nat.le_trans hstart hlo, hhi⟩
  | chain s bs =>
    cases h with
    | chain fits below => exact Branches.heads_within below
  | loop s head children =>
    cases h with
    | loop fits describes below => exact Siblings.heads_within below
  | text | comment | interpolation => exact fun x hx => absurd hx List.not_mem_nil

/-- The elements of siblings start between the places that the siblings stand between. -/
theorem Siblings.heads_within {lo hi : Nat} {ns : List Node} (h : Siblings source lo ns hi) :
    ∀ x ∈ nodeHeads ns, lo ≤ x.span.start ∧ x.span.start ≤ hi := by
  cases ns with
  | nil => exact fun x hx => absurd hx List.not_mem_nil
  | cons n ns =>
    cases h with
    | cons le node behind =>
      intro x hx
      rcases List.mem_append.1 hx with hx | hx
      · obtain ⟨hlo, hhi⟩ := Node.Describes.heads_within node x hx
        exact ⟨Nat.le_trans le hlo, Nat.le_trans hhi behind.le⟩
      · obtain ⟨hlo, hhi⟩ := Siblings.heads_within behind x hx
        have hfits := node.fits.le
        omega

/-- The elements of branches start between the places that the branches stand between. -/
theorem Branches.heads_within {lo hi : Nat} {bs : List Branch} (h : Branches source lo bs hi) :
    ∀ x ∈ branchHeads bs, lo ≤ x.span.start ∧ x.span.start ≤ hi := by
  cases bs with
  | nil => exact fun x hx => absurd hx List.not_mem_nil
  | cons b bs =>
    obtain ⟨s, condition, children⟩ := b
    cases h with
    | cons le branch behind =>
      cases branch with
      | mk fits describes below =>
        intro x hx
        rcases List.mem_append.1 hx with hx | hx
        · obtain ⟨hlo, hhi⟩ := Siblings.heads_within below x hx
          exact ⟨Nat.le_trans le hlo, Nat.le_trans hhi behind.siblings.le⟩
        · obtain ⟨hlo, hhi⟩ := Branches.heads_within behind x hx
          have hstart : lo ≤ s.start := le
          have hfits := fits.le
          change s.stop ≤ _ at hlo
          omega

end

end Markup

end TypedSfc
