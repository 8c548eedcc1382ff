import TypedSfc.Proofs.Markup.Loops
import TypedSfc.Proofs.Markup.Trimming

/-!
# Chains and loops describe their source

Folding rebuilds the tree and reads nothing new: a chain spans its branches, a branch and a loop span their element, and what stood in
the element stands in them. A chain that is pending is carried along the siblings, with the place up to which it has taken them.
-/

namespace TypedSfc

namespace Markup

variable {source : List Char} {lo mid hi : Nat}

/-! ## Directives that are taken -/

/-- An element without one of its directives has the same place, and describes the source if it did with it. -/
theorem Element.take_describes {e e' : Element} {name : String} {d : Directive} {children : List Node}
    (h : Node.Describes source (.element e children)) (ht : e.take name = some (d, e')) :
    d.Describes source ∧ Node.Describes source (.element e' children) ∧ e'.span = e.span := by
  obtain ⟨hd, rfl⟩ := Element.take_eq_some_iff.1 ht
  cases h with
  | element head below =>
    refine ⟨head.props_describe _ (Element.mem_of_directive hd).1,
      .element ⟨head.span_fits, head.startTagEnd_isPlace, head.start_le, head.tag_stands, ?_, ?_⟩ below, rfl⟩
    · exact fun p hp => head.props_describe p (List.mem_of_mem_eraseP hp)
    · exact fun p hp => head.props_within p (List.mem_of_mem_eraseP hp)

namespace Folded

/-! ## Loops and branches -/

/-- A node with faults that describes the source: the node does, and the faults have places. -/
structure Describes (source : List Char) (f : Folded) : Prop where
  node_describes : f.node.Describes source
  errors_fit : ∀ e ∈ f.errors, e.span.Fits source

/-- What stands in an element, anywhere in its place. -/
theorem siblings_of_element {e : Element} {children : List Node} (h : Node.Describes source (.element e children)) :
    Siblings source e.span.start children e.span.stop := by
  cases h with
  | element head below => exact below.mono head.start_le (Nat.le_refl _)

/-- A loop spans its element. -/
theorem wrapLoop_describes {e : Element} {children : List Node} (h : Node.Describes source (.element e children)) :
    (wrapLoop e children).Describes source ∧ (wrapLoop e children).node.span = e.span := by
  unfold wrapLoop
  split
  · exact ⟨⟨h, by simp⟩, rfl⟩
  · rename_i d e' htake
    obtain ⟨hd, he', hspan⟩ := Element.take_describes h htake
    have hhead : ((d.exp.bind Loop.parse).getD {}).Describes source := by
      cases hparse : d.exp.bind Loop.parse with
      | none => exact ⟨by simp, by simp, by simp, by simp⟩
      | some head =>
        obtain ⟨exp, hexp, hhead⟩ := Option.bind_eq_some_iff.1 hparse
        exact Loop.parse_describes (hd.exp_describes exp hexp) head hhead
    have hbelow : Siblings source e'.span.start (if e'.kind = .template then children else [.element e' children]) e'.span.stop := by
      split
      · exact siblings_of_element he'
      · exact .single he' (Nat.le_refl _) (Nat.le_refl _)
    refine ⟨⟨.loop he'.fits hhead hbelow, ?_⟩, hspan⟩
    intro x hx
    dsimp only at hx
    split at hx
    · cases hx
    · rw [List.mem_singleton.1 hx]
      exact hd.span_fits

/-- A branch spans its element. -/
theorem branch_describes {e : Element} {children : List Node} {condition : Option Expression}
    (h : Node.Describes source (.element e children)) (hc : ∀ x ∈ condition, x.Describes source) :
    (branch e children condition).1.Describes source ∧ (branch e children condition).1.span = e.span ∧
      ∀ x ∈ (branch e children condition).2, x.span.Fits source := by
  have hfits : e.span.Fits source := h.fits
  unfold branch
  split
  · exact ⟨.mk hfits hc (siblings_of_element h), rfl, by simp⟩
  · obtain ⟨hloop, hspan⟩ := wrapLoop_describes h
    have hsingle := Siblings.single hloop.node_describes (Nat.le_refl _) (Nat.le_refl _)
    rw [hspan] at hsingle
    exact ⟨.mk hfits hc hsingle, rfl, hloop.errors_fit⟩

/-- An element without a stray `v-else-if` or `v-else`. -/
theorem dropStray_describes {e : Element} {children : List Node} (h : Node.Describes source (.element e children)) :
    Node.Describes source (.element (dropStray e).1 children) ∧ (dropStray e).1.span = e.span ∧
      ∀ x ∈ (dropStray e).2, x.span.Fits source := by
  unfold dropStray
  -- One name after another; what was found before stays found.
  refine List.foldlRecOn (motive := fun acc : Element × List ParseError => Node.Describes source (.element acc.1 children) ∧
    acc.1.span = e.span ∧ ∀ x ∈ acc.2, x.span.Fits source) _ _ ⟨h, rfl, by simp⟩ ?_
  intro acc hacc name hname
  obtain ⟨hdescribes, hspan, herrors⟩ := hacc
  split
  · rename_i d e' htake
    obtain ⟨hd, he', hspan'⟩ := Element.take_describes hdescribes htake
    refine ⟨he', hspan'.trans hspan, ?_⟩
    intro x hx
    rcases List.mem_append.1 hx with hx | hx
    · exact herrors x hx
    · rw [List.mem_singleton.1 hx]
      exact hd.span_fits
  · exact ⟨hdescribes, hspan, herrors⟩

/-! ## Pending chains -/

/-- A chain that has taken the siblings from `lo` up to `hi`. -/
structure Pending.Describes (source : List Char) (lo hi : Nat) (p : Pending) : Prop where
  span_fits : p.span.Fits source
  le_start : lo ≤ p.span.start
  branches_describe : Branches source p.span.start p.branches p.span.stop
  comments_describe : Siblings source p.span.stop p.comments hi

theorem Pending.Describes.nodes {p : Pending} (h : p.Describes source lo hi) : Siblings source lo p.nodes hi :=
  .cons h.le_start (.chain h.span_fits h.branches_describe) h.comments_describe

/-- What was taken of the siblings up to `hi`, a chain or nothing. -/
def Carries (source : List Char) (lo hi : Nat) : Option Pending → Prop
  | none => lo ≤ hi
  | some p => p.Describes source lo hi

/-- One more branch behind others. -/
theorem branches_snoc {bs : List Branch} {b : Branch} (h : Branches source lo bs mid) (hb : b.Describes source)
    (hlo : mid ≤ b.span.start) (hhi : b.span.stop ≤ hi) : Branches source lo (bs ++ [b]) hi := by
  induction bs generalizing lo with
  | nil =>
    cases h with
    | nil le => exact .cons (by omega) hb (.nil hhi)
  | cons a bs ih =>
    cases h with
    | cons le branch behind => exact .cons le branch (ih behind)

/-- How a node begins: a chain that has taken it, or nodes at its place. -/
theorem enter_describes {n : Node} (h : n.Describes source) (hlo : lo ≤ n.span.start) :
    (∀ e ∈ (enter n).2.2, e.span.Fits source) ∧
      (((enter n).1 = none ∧ Siblings source lo (enter n).2.1 n.span.stop) ∨
        ∃ p, (enter n).1 = some p ∧ (enter n).2.1 = [] ∧ p.Describes source lo n.span.stop) := by
  have hfits := h.fits
  unfold enter
  split
  · rename_i s data
    refine ⟨by simp, .inl ⟨rfl, ?_⟩⟩
    dsimp only
    split
    · exact .nil (Nat.le_trans hlo hfits.le)
    · exact .single h hlo (Nat.le_refl _)
  · rename_i e children
    split
    · exact ⟨by simp, .inl ⟨rfl, .single h hlo (Nat.le_refl _)⟩⟩
    · split
      · rename_i d e' htake
        obtain ⟨hd, he', hspan⟩ := Element.take_describes h htake
        obtain ⟨hbranch, hbspan, herrors⟩ := branch_describes he' hd.exp_describes
        have hsame : (branch e' children d.exp).1.span = e.span := hbspan.trans hspan
        refine ⟨herrors, .inr ⟨_, rfl, rfl, hfits, hlo, .cons ?_ hbranch (.nil ?_), .nil (Nat.le_refl _)⟩⟩
        · exact Nat.le_of_eq (congrArg Span.start hsame.symm)
        · exact Nat.le_of_eq (congrArg Span.stop hsame)
      · obtain ⟨hdrop, hspan, hstrays⟩ := dropStray_describes h
        obtain ⟨hloop, hlspan⟩ := wrapLoop_describes hdrop
        refine ⟨?_, .inl ⟨rfl, .single hloop.node_describes ?_ ?_⟩⟩
        · intro x hx
          rcases List.mem_append.1 hx with hx | hx
          · exact hstrays x hx
          · exact hloop.errors_fit x hx
        · rw [hlspan, hspan]
          exact hlo
        · exact Nat.le_of_eq (congrArg Span.stop (hlspan.trans hspan))
  · exact ⟨by simp, .inl ⟨rfl, .single h hlo (Nat.le_refl _)⟩⟩

/-- One more branch, at the place of an element behind the chain. -/
theorem Pending.Describes.snoc {p : Pending} {n : Node} {b : Branch} (hp : p.Describes source lo mid) (hn : n.Describes source)
    (hmid : mid ≤ n.span.start) (hb : b.Describes source) (hspan : b.span = n.span) :
    (⟨p.span.cover n.span, p.branches ++ [b], []⟩ : Pending).Describes source lo n.span.stop := by
  have hcomments := hp.comments_describe.le
  have hple := hp.span_fits.le
  have hnle := hn.fits.le
  have hcover : p.span.cover n.span = ⟨p.span.start, n.span.stop⟩ := by
    rw [Span.cover, Nat.min_eq_left (by omega), Nat.max_eq_right (by omega)]
  rw [hcover]
  refine ⟨⟨hp.span_fits.start, hn.fits.stop, by dsimp only; omega⟩, hp.le_start, ?_, .nil (Nat.le_refl _)⟩
  have hstop : b.span.stop = n.span.stop := congrArg Span.stop hspan
  refine branches_snoc hp.branches_describe hb ?_ (Nat.le_of_eq hstop)
  rw [hspan]
  omega

/-- How a node goes on with a chain: the chain has taken the node too. -/
theorem continues_describes {p : Pending} {n : Node} (hp : p.Describes source lo mid) (hn : n.Describes source)
    (hmid : mid ≤ n.span.start) :
    ∀ x ∈ continues p n, x.1.Describes source lo n.span.stop ∧ ∀ e ∈ x.2, e.span.Fits source := by
  have hnle := hn.fits.le
  intro x hx
  unfold continues at hx
  split at hx
  · split at hx
    · obtain rfl := Option.some.inj hx
      exact ⟨⟨hp.span_fits, hp.le_start, hp.branches_describe, hp.comments_describe.mono (Nat.le_refl _) (by omega)⟩, by simp⟩
    · cases hx
  · obtain rfl := Option.some.inj hx
    exact ⟨⟨hp.span_fits, hp.le_start, hp.branches_describe, hp.comments_describe.append (.single hn hmid (Nat.le_refl _))⟩, by simp⟩
  · split at hx
    · cases hx
    · split at hx
      · rename_i d e' _ htake
        obtain ⟨hd, he', hspan⟩ := Element.take_describes hn htake
        obtain ⟨hbranch, hbspan, herrors⟩ := branch_describes he' hd.exp_describes
        obtain rfl := Option.some.inj hx
        exact ⟨hp.snoc hn hmid hbranch (hbspan.trans hspan), herrors⟩
      · rename_i d e' _ htake
        obtain ⟨hd, he', hspan⟩ := Element.take_describes hn htake
        obtain ⟨hbranch, hbspan, herrors⟩ := branch_describes he' (by simp : ∀ e ∈ (none : Option Expression), e.Describes source)
        obtain rfl := Option.some.inj hx
        exact ⟨hp.snoc hn hmid hbranch (hbspan.trans hspan), herrors⟩
      · cases hx
  · cases hx

/-! ## Siblings -/

/-- Siblings are folded into siblings between the same places. -/
theorem link_describes {p : Option Pending} {fs : List Folded} (hp : Carries source lo mid p)
    (hfs : Siblings source mid (fs.map (·.node)) hi) (he : ∀ f ∈ fs, ∀ e ∈ f.errors, e.span.Fits source) :
    Siblings source lo (link p fs).1 hi ∧ ∀ e ∈ (link p fs).2, e.span.Fits source := by
  induction fs generalizing p lo mid with
  | nil =>
    cases hfs with
    | nil le =>
      cases p with
      | none => exact ⟨.nil (Nat.le_trans hp le), by simp [link]⟩
      | some p =>
        have hnodes : Siblings source lo p.nodes mid := hp.nodes
        exact ⟨hnodes.mono (Nat.le_refl _) le, by simp [link]⟩
  | cons f fs ih =>
    rw [List.map_cons] at hfs
    cases hfs with
    | cons le node behind =>
      have hf := he f List.mem_cons_self
      have hrest : ∀ g ∈ fs, ∀ e ∈ g.errors, e.span.Fits source := fun g hg => he g (List.mem_cons_of_mem _ hg)
      -- The faults of a node, of its turn, and of what is behind it.
      have herrors : ∀ {es es' : List ParseError}, (∀ e ∈ es, e.span.Fits source) → (∀ e ∈ es', e.span.Fits source) →
          ∀ e ∈ f.errors ++ es ++ es', e.span.Fits source := by
        intro es es' hes hes' e hmem
        rcases List.mem_append.1 hmem with hmem | hmem
        · rcases List.mem_append.1 hmem with hmem | hmem
          · exact hf e hmem
          · exact hes e hmem
        · exact hes' e hmem
      -- A node that begins anew behind `from`.
      have henter : ∀ {from' : Nat}, from' ≤ f.node.span.start →
          Siblings source from' ((enter f.node).2.1 ++ (link (enter f.node).1 fs).1) hi ∧
            ∀ e ∈ f.errors ++ (enter f.node).2.2 ++ (link (enter f.node).1 fs).2, e.span.Fits source := by
        intro from' hfrom
        obtain ⟨hes, hnew⟩ := enter_describes node hfrom
        rcases hnew with ⟨hnone, hns⟩ | ⟨q, hsome, hnil, hq⟩
        · have hlink := ih (p := none) (Nat.le_refl _) behind hrest
          rw [hnone]
          exact ⟨hns.append hlink.1, herrors hes hlink.2⟩
        · have hlink := ih (p := some q) hq behind hrest
          rw [hsome, hnil]
          exact ⟨hlink.1, herrors hes hlink.2⟩
      cases p with
      | none =>
        rw [link]
        exact henter (Nat.le_trans hp le)
      | some p =>
        rw [link]
        cases hc : continues p f.node with
        | some x =>
          obtain ⟨hx, hes⟩ := continues_describes hp node le x hc
          have hlink := ih (p := some x.1) hx behind hrest
          exact ⟨hlink.1, herrors hes hlink.2⟩
        | none =>
          obtain ⟨hns, hes⟩ := henter (Nat.le_refl _)
          have hnodes : Siblings source lo p.nodes f.node.span.start := hp.nodes.mono (Nat.le_refl _) le
          refine ⟨?_, hes⟩
          show Siblings source lo (p.nodes ++ (enter f.node).2.1 ++ (link (enter f.node).1 fs).1) hi
          rw [List.append_assoc]
          exact hnodes.append hns

end Folded

/-! ## Trees -/

/-- A node that is no element has no children to fold. -/
theorem Node.folded_of_ne_element {n : Node} (hn : ∀ e children, n = .element e children → False) : n.folded = ⟨n, []⟩ := by
  rw [Node.folded]
  exact hn

mutual

/-- A node with its children folded keeps its place. -/
theorem Node.folded_describes {n : Node} (h : n.Describes source) : n.folded.Describes source ∧ n.folded.node.span = n.span := by
  -- Nodes without children stay as they are.
  have hkeep : (∀ e children, n = .element e children → False) → n.folded.Describes source ∧ n.folded.node.span = n.span := by
    intro hn
    rw [Node.folded_of_ne_element hn]
    exact ⟨⟨h, by simp⟩, rfl⟩
  cases n with
  | element e children =>
    cases h with
    | element head below =>
      obtain ⟨hsiblings, herrors⟩ := Node.foldedAll_describe below
      obtain ⟨hns, hes⟩ := Folded.link_describes (p := none) (Nat.le_refl _) hsiblings herrors
      rw [Node.folded]
      exact ⟨⟨.element head hns, hes⟩, rfl⟩
  | text | comment | interpolation | chain | loop => exact hkeep (by simp)

/-- Siblings with their children folded keep their places. -/
theorem Node.foldedAll_describe {ns : List Node} {lo hi : Nat} (h : Siblings source lo ns hi) :
    Siblings source lo ((Node.foldedAll ns).map (·.node)) hi ∧ ∀ f ∈ Node.foldedAll ns, ∀ e ∈ f.errors, e.span.Fits source := by
  cases ns with
  | nil =>
    rw [Node.foldedAll]
    cases h with
    | nil le => exact ⟨.nil le, by simp⟩
  | cons n ns =>
    rw [Node.foldedAll]
    cases h with
    | cons le node behind =>
      obtain ⟨hn, hspan⟩ := Node.folded_describes node
      obtain ⟨hns, hes⟩ := Node.foldedAll_describe behind
      constructor
      · refine .cons ?_ hn.node_describes ?_
        · rw [hspan]
          exact le
        · rw [hspan]
          exact hns
      · intro f hf
        rcases List.mem_cons.1 hf with rfl | hf
        · exact hn.errors_fit
        · exact hes f hf

end

/-- Folding keeps what siblings describe, and notes faults at places of the source. -/
theorem Node.fold_describes {ns : List Node} (h : Siblings source lo ns hi) :
    Siblings source lo (Node.fold ns).1 hi ∧ ∀ e ∈ (Node.fold ns).2, e.span.Fits source := by
  obtain ⟨hsiblings, herrors⟩ := Node.foldedAll_describe h
  exact Folded.link_describes (p := none) (Nat.le_refl _) hsiblings herrors

end Markup

end TypedSfc
