import TypedSfc.Proofs.Generate.BalancedElements
import TypedSfc.Proofs.Generate.Conditions
import TypedSfc.Proofs.Generate.ResolvedTemplates

/-!
# Nodes leave stacks as they were

By induction over the tree, every node leaves the frames, the guards and the mark of a loop as it found them. A chain is where this is
not plain: its branches add guards one after another, each the text of its condition, which is negated behind the branch and taken back
behind the chain. Every frame that is opened for a node is closed behind it, and with that the effect in force is the one of the frames
around the node; a node that is passed over opens none.
-/

namespace TypedSfc

namespace Generate

open Markup (Branch Element LoopHead Node)

variable {r : Setting}

/-! ## Scopes -/

/-- Where a state is, with the comments that wait in it. -/
def State.point (s : State) : Point := ⟨⟨s.scopes, s.components.length⟩, some s.pending⟩

theorem State.at_point (s : State) : s.At s.point := ⟨rfl, rfl, fun _ hcs => Option.some.inj hcs⟩

/-- Behind a generator that leads back to its site the scopes are what they were, and so is the number of components. -/
theorem Leads.site_eq {α : Type} {g : Gen α} {s : State} {held us : List Use} {cs : Option (List (Span × String))} {Q : α → Prop}
    (h : Leads r s.point held g us ⟨s.point.site, cs⟩ Q) :
    (g.after r s).2.scopes = s.scopes ∧ (g.after r s).2.components.length = s.components.length := by
  obtain ⟨⟨hscopes, hdepth, -⟩, -⟩ := h s s.at_point
  exact ⟨hscopes, hdepth⟩

/-! ## Frames -/

/-- Expectations take their numbers one after another. -/
theorem le_frameOf (next : Nat) (f : Frame) (cs : List (Span × String)) : next ≤ (frameOf next f cs).1 :=
  (frameOf_spec (P := .everything) next (fun _ _ => ⟨trivial, trivial, fun _ _ _ _ _ => trivial⟩)
    ⟨fun _ _ => ⟨trivial, trivial⟩, fun _ _ => trivial⟩).1

/-- Behind a node that is entered its frame is closed, and the effect is that of the frames around it. -/
theorem balanced_leave {s : State} {f : Frame} {fs : List Frame} (h : s.frames = f :: fs) :
    State.Balanced (s.popped fs) (leave.after r s).2 ∧ (leave.after r s).2.code.effect = effectOf fs := by
  rw [after_leave r h]
  cases f.expects with
  | none => exact ⟨.refl _, rfl⟩
  | some x =>
    have hmarker : Balances (writeMarker x) := .bind (balances_bounded _ _ _ _) fun _ => balances_text _
    have hbalanced := hmarker r (s.popped fs)
    exact ⟨hbalanced, (hbalanced.effect_eq rfl).trans (congrArg effectOf hbalanced.frames_eq)⟩

/-- A node that is passed over changes what waits and the number of the next expectation; any other has its frame opened around what is
written in it. Where it is not passed over, the effect behind it is that of the frames around it, whatever it was before. -/
theorem balanced_asNode {g : Gen Unit} (hg : Balances g) (s : State) :
    s.Balanced ((asNode g).after r s).2 ∧
      ((asNode g).after r s).2.code.effect = if skips s.pending then s.code.effect else effectOf s.frames := by
  have hrun : (asNode g).after r s =
      ((if (enter.after r s).1 then g >>= fun _ => leave else pure () : Gen Unit)).after r (enter.after r s).2 := rfl
  have hle := le_frameOf s.nextExpectation {} s.pending
  have hskips := isNone_frameOf s.nextExpectation {} s.pending
  have hentered := after_enter r s
  dsimp only at hentered
  cases hframe : (frameOf s.nextExpectation {} s.pending).2 with
  | none =>
    rw [hframe] at hskips hentered
    rw [hrun, hentered, ← hskips]
    exact ⟨⟨rfl, rfl, rfl, id, Nat.le_refl _, hle⟩, rfl⟩
  | some f =>
    rw [hframe] at hskips hentered
    rw [hrun, hentered, ← hskips]
    let entered := State.withFrames { s with pending := [], nextExpectation := (frameOf s.nextExpectation {} s.pending).1 } (f :: s.frames)
    have hinside : entered.Balanced (g.after r entered).2 := hg r entered
    obtain ⟨hleave, heffect⟩ := balanced_leave (r := r) (s := (g.after r entered).2) hinside.frames_eq
    refine ⟨⟨hleave.frames_eq, hleave.guards_eq.trans hinside.guards_eq, hleave.inLoop_eq.trans hinside.inLoop_eq, fun _ => ?_,
      Nat.le_trans hinside.temporary_le hleave.temporary_le,
      Nat.le_trans hle (Nat.le_trans hinside.expectation_le hleave.expectation_le)⟩, heffect⟩
    exact heffect.trans (congrArg effectOf hleave.frames_eq.symm)

theorem balances_asNode {g : Gen Unit} (hg : Balances g) : Balances (asNode g) := fun _ s => (balanced_asNode hg s).1

/-! ## Chains -/

/-- A branch leaves the negation of its condition to the branches behind it. -/
theorem balanced_branch (isFirst : Bool) (x : Option Markup.Expression) {inner : Gen Unit} (hinner : Balances inner) (s : State) :
    State.Balanced { s with guards := s.guards ++ x.toList.map fun x => "!" ++ conditionText r s.scopes x }
      ((branch isFirst x inner).after r s).2 := by
  have hbody : Balances (text "\x7b\n" >>= fun _ => inner >>= fun _ => text "\x7d\n") :=
    .text (.bind hinner fun _ => balances_text _)
  have hword := balances_text (branchWord isFirst x.isSome) r s
  cases x with
  | none =>
    have hplain := hword.trans (hbody r _)
    have hsame : ({ s with guards := s.guards ++ [] } : State) = s := by rw [List.append_nil]
    exact hsame.symm ▸ hplain
  | some x =>
    obtain ⟨hcondition, -⟩ := balanced_condition (r := r) x ((text (branchWord isFirst true)).after r s).2
    have hheld := ((hword.withGuards (· ++ [conditionText r s.scopes x])).trans hcondition).trans (hbody r _)
    have hnegated := hheld.withGuards negateLast
    rw [show negateLast (s.guards ++ [conditionText r s.scopes x]) = s.guards ++ ["!" ++ conditionText r s.scopes x] from
      negateLast_concat _ _] at hnegated
    exact hnegated

/-- Branches leave the negations of their conditions. -/
theorem balanced_branches (isFirst : Bool) (bs : List Branch) (h : ∀ b ∈ bs, Balances (nodes b.children)) (s : State) :
    State.Balanced { s with guards := s.guards ++ negations r s.scopes bs } ((branches isFirst bs).after r s).2 := by
  induction bs generalizing isFirst s with
  | nil =>
    have hsame : ({ s with guards := s.guards ++ [] } : State) = s := by rw [List.append_nil]
    exact hsame.symm ▸ State.Balanced.refl s
  | cons b bs ih =>
    obtain ⟨span, x, children⟩ := b
    have hchildren : Balances (nodes children) := h _ List.mem_cons_self
    have hbranch := balanced_branch (r := r) isFirst x hchildren s
    have hrest := ih false (fun b hb => h b (List.mem_cons_of_mem _ hb)) ((branch isFirst x (nodes children)).after r s).2
    have hsite := (leads_branch (r := r) isFirst x (leads_nodes s.point.site s.pending children)).site_eq
    rw [congrArg (negations r · bs) hsite.1] at hrest
    have hboth := (hbranch.withGuards (· ++ negations r s.scopes bs)).trans hrest
    have hnegations : negations r s.scopes (.mk span x children :: bs) =
        (x.toList.map fun x => "!" ++ conditionText r s.scopes x) ++ negations r s.scopes bs := by
      cases x <;> rfl
    rw [hnegations, ← List.append_assoc]
    exact hboth

/-- Guards that a generator adds are taken back. -/
theorem balances_keepingGuards {g : Gen Unit} (hg : ∀ r s, ∃ gs, State.Balanced { s with guards := s.guards ++ gs } (g.after r s).2) :
    Balances (keepingGuards g) := by
  intro r s
  obtain ⟨gs, h⟩ := hg r s
  have htaken := h.withGuards (List.take s.guards.length)
  rw [show List.take s.guards.length (s.guards ++ gs) = s.guards from List.take_left] at htaken
  exact htaken

/-! ## Loops and elements -/

theorem balances_loopNames (h : LoopHead) : Balances (loopNames h) := by
  unfold loopNames
  split
  · exact balances_pure ()
  · exact .bind balances_read fun _ => .bind (balances_declare _) fun _ => balances_mapped _ _ _ _

/-- The mark of a loop is put back to what it was around the loop. -/
theorem balances_asLoopBody {g : Gen Unit} (hg : Balances g) : Balances (asLoopBody g) := by
  intro r s
  have h := hg r { s with inLoop := true }
  exact ⟨h.frames_eq, h.guards_eq, rfl, h.effect_eq, h.temporary_le, h.expectation_le⟩

theorem balances_loop (h : LoopHead) {inner : Gen Unit} (hinner : Balances inner) : Balances (loop h inner) := by
  refine balances_inScope (.text (.bind (balances_loopNames h) fun _ => .text ?_))
  have hbody : Balances (text ") \x7b\n" >>= fun _ => asLoopBody inner >>= fun _ => text "\x7d\n") :=
    .text (.bind (balances_asLoopBody hinner) fun _ => balances_text _)
  split
  · exact .text (.bind (balances_expression _ _ _ _) fun _ => .bind (balances_text _) fun _ => hbody)
  · exact .bind (balances_text _) fun _ => hbody

theorem balances_element (e : Element) (hasChildren : Bool) {inner : Gen Unit} (hinner : Balances inner) :
    Balances (element e hasChildren inner) := by
  unfold element
  split
  · exact balances_outlet e hinner
  · exact balances_native e hinner
  · exact balances_component e hasChildren hinner
  · split
    · exact balances_group e hinner
    · refine .bind balances_get fun _ => .ite (balances_group e hinner) ?_
      exact .bind balances_contextVar fun _ => balances_slotContent _ _ hinner

/-! ## All nodes -/

theorem balances_of_inside {n : Node} (hinside : Balances (inside n)) : Balances (node n) := by
  cases n with
  | comment span data => exact balances_of_same fun _ _ => ⟨rfl, rfl, rfl, rfl, rfl, rfl⟩
  | text | interpolation | element | loop | chain => exact balances_asNode hinside

mutual

theorem balances_inside (n : Node) : Balances (inside n) := by
  cases n with
  | comment span data => exact balances_pure ()
  | text span data => exact balances_pure ()
  | interpolation span x => exact .bind balances_read fun _ => balances_expression _ _ _ _
  | element e children => exact balances_element e _ (balances_nodes children)
  | loop span h children => exact balances_loop h (balances_nodes children)
  | chain span bs =>
    exact balances_keepingGuards fun r s => ⟨_, balanced_branches true bs (balances_children bs) s⟩

theorem balances_nodes (ns : List Node) : Balances (nodes ns) := by
  cases ns with
  | nil => exact balances_pure ()
  | cons n ns => exact .bind (balances_of_inside (balances_inside n)) fun _ => balances_nodes ns

theorem balances_children (bs : List Branch) : ∀ b ∈ bs, Balances (nodes b.children) := by
  cases bs with
  | nil => exact fun _ hb => absurd hb List.not_mem_nil
  | cons b bs =>
    obtain ⟨span, x, children⟩ := b
    exact List.forall_mem_cons.2 ⟨balances_nodes children, balances_children bs⟩

end

theorem balances_node (n : Node) : Balances (node n) := balances_of_inside (balances_inside n)

/-- Generating a node leaves the stacks of the generator as they were. Whatever the state before it, behind a node that is no comment the
scopes with all their names, the frames, the number of open components, the guards and the mark of a loop are what they were; no comment
waits; the effect in force is that of the innermost frame that has one, and for a node that is passed over it is the one before it, so
that it is always that of the frames if it was so before; and the counters of temporaries, expectations and tokens have not gone back. -/
theorem stacks_after_node (r : Setting) (s : State) (n : Node) (h : comment? n = none) :
    let t := ((node n).after r s).2
    t.scopes = s.scopes ∧ t.frames = s.frames ∧ t.components.length = s.components.length ∧ t.guards = s.guards ∧
      t.inLoop = s.inLoop ∧ t.pending = [] ∧
      t.code.effect = (if skips s.pending then s.code.effect else effectOf s.frames) ∧
      (s.code.effect = effectOf s.frames → t.code.effect = effectOf t.frames) ∧
      s.nextTemporary ≤ t.nextTemporary ∧ s.nextExpectation ≤ t.nextExpectation ∧ s.code.nextToken ≤ t.code.nextToken := by
  intro t
  obtain ⟨hscopes, hdepth⟩ := (leads_node (r := r) s.point.site s.pending n).site_eq
  have hpending : t.pending = waitBehind s.pending n := pending_node n
  rw [waitBehind, h] at hpending
  obtain ⟨as, -, hwrote⟩ := keeps_node (n := 0) n r s (.nil _ _)
  have hbalanced := balanced_asNode (r := r) (balances_inside n) s
  rw [← node_of_not_comment h] at hbalanced
  obtain ⟨hstacks, heffect⟩ := hbalanced
  exact ⟨hscopes, hstacks.frames_eq, hdepth, hstacks.guards_eq, hstacks.inLoop_eq, hpending, heffect, hstacks.effect_eq,
    hstacks.temporary_le, hstacks.expectation_le, hwrote.le⟩

/-- A chain in a loop, whose condition reads a name that the loop declares, under a guard of its own. -/
theorem stacks_after_node_chain :
    let n : Node := .chain ⟨0, 9⟩ [.mk ⟨0, 9⟩ (some ⟨"a", 3, false⟩) [.text ⟨5, 6⟩ "b"]]
    let s : State := { inLoop := true, guards := ["(c)"], scopes := [["a"], []], pending := [(⟨0, 0⟩, " @vue-ignore ")] }
    let t := ((node n).after bareSetting s).2
    comment? n = none ∧ t.scopes = [["a"], []] ∧ t.guards = ["(c)"] ∧ t.inLoop = true ∧ t.pending = [] := by
  intro n s t
  obtain ⟨hscopes, -, -, hguards, hloop, hpending, -⟩ := stacks_after_node bareSetting s n rfl
  exact ⟨rfl, hscopes, hguards, hloop, hpending⟩

end Generate

end TypedSfc
