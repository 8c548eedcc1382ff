import TypedSfc.Proofs.Generate.PermittedNodes
import TypedSfc.Proofs.Generate.Replacing
import TypedSfc.Proofs.Generate.Writing

/-!
# What expressions map

An expression is written in pieces, which lie between its free names and at them. When every such piece may be mapped, the expression
may be written. The permit that allows everything is lawful for any setting, and leaves nothing to be said but which policies are
written.
-/

namespace TypedSfc

namespace Generate

open Markup (Branch Element LoopHead Node)

variable {P : Permit} {r : Setting} {e : Option Effect}

/-! ## Pieces -/

/-- A piece whose mapped part may be mapped to where it starts. -/
theorem puts_piece {p : Placement} (hi : p.info.policy.isPlain = true) {t : List Char} {pos : Nat}
    (h : P.allows (String.ofList (Text.between (p.headEnd pos (Text.size t)) (p.innerEnd pos (Text.size t)) t)) p.source
      (p.start + (pos + p.headEnd pos (Text.size t) - p.before))) (atEnd : Bool) : Puts P r e (piece p t pos atEnd) := by
  rw [piece_eq]
  refine .andThen (puts_checkCut _ _ _) fun _ => .andThen (puts_checkCut _ _ _) fun _ => .text ?_
  dsimp only
  split
  · exact .andThen (puts_mapped h hi) fun _ => puts_text _
  · exact puts_text _

/-- The pieces of a text fit: those from the start or the end of one free name to another, those of the names, and the rest. -/
structure PiecesFit (Fits : Nat → List Char → Prop) (whole : List Char) (prev : Nat) (ns : List Script.Reference) : Prop where
  between_fits : ∀ lo ∈ prev :: ns.map stopOf, ∀ n ∈ ns,
    Fits lo (Text.between lo n.offset whole) ∧ Fits lo (Text.between lo (stopOf n) whole)
  name_fits : ∀ n ∈ ns, Fits n.offset [] ∧ Fits n.offset n.name.toList
  rest_fits : ∀ lo ∈ prev :: ns.map stopOf, Fits lo (Text.after lo whole)

theorem PiecesFit.tail {Fits : Nat → List Char → Prop} {whole : List Char} {prev : Nat} {n : Script.Reference}
    {ns : List Script.Reference} (h : PiecesFit Fits whole prev (n :: ns)) :
    PiecesFit Fits whole prev ns ∧ PiecesFit Fits whole (stopOf n) ns := by
  obtain ⟨hbetween, hname, hrest⟩ := h
  have hname' : ∀ m ∈ ns, Fits m.offset [] ∧ Fits m.offset m.name.toList := fun m hm => hname m (List.mem_cons_of_mem n hm)
  have hsame : ∀ lo ∈ prev :: ns.map stopOf, lo ∈ prev :: (n :: ns).map stopOf := by
    intro lo hlo
    rcases List.mem_cons.1 hlo with rfl | hlo
    · exact List.mem_cons_self
    · exact List.mem_cons_of_mem _ (List.mem_cons_of_mem _ hlo)
  have hnext : ∀ lo ∈ stopOf n :: ns.map stopOf, lo ∈ prev :: (n :: ns).map stopOf := fun lo hlo => List.mem_cons_of_mem _ hlo
  exact ⟨⟨fun lo hlo m hm => hbetween lo (hsame lo hlo) m (List.mem_cons_of_mem n hm), hname', fun lo hlo => hrest lo (hsame lo hlo)⟩,
    ⟨fun lo hlo m hm => hbetween lo (hnext lo hlo) m (List.mem_cons_of_mem n hm), hname', fun lo hlo => hrest lo (hnext lo hlo)⟩⟩

section

variable {Fits : Nat → List Char → Prop} {p : Placement} {whole : List Char} {prev : Nat}
variable (hpiece : ∀ pos t, Fits pos t → ∀ atEnd, Puts P r e (piece p t pos atEnd))

include hpiece

theorem puts_cutPiece {start stop : Nat} (h : Fits start (Text.between start stop whole)) (atEnd : Bool) :
    Puts P r e (cutPiece p whole start stop atEnd) := .andThen (puts_checkCut _ _ _) fun _ => hpiece _ _ h atEnd

theorem puts_useName {n : Script.Reference} (hlo : Fits prev (Text.between prev n.offset whole))
    (hstop : Fits prev (Text.between prev (stopOf n) whole)) (hanchor : Fits n.offset []) (hname : Fits n.offset n.name.toList) :
    Puts P r e (useName p whole prev n) := by
  unfold useName
  extract_lets stop name last rest
  have hlast : ∀ u, Puts P r e (last u) := fun _ => hpiece _ _ hname _
  have hrest : ∀ u, Puts P r e (rest u) := by
    intro u
    refine .andThen gives_read.puts fun setting => .ite (fun _ => ?_) fun _ => ?_
    · exact .andThen (hpiece _ _ hname _) fun _ => puts_text _
    · refine .andThen (hpiece _ _ hanchor _) fun _ => .ite (fun _ => .andThen (puts_text _) hlast) fun _ => ?_
      exact .andThen (puts_access _) fun _ => .andThen (puts_text _) hlast
  refine .ite (fun _ => ?_) fun _ => .andThen (puts_cutPiece hpiece hlo _) hrest
  exact .andThen (puts_cutPiece hpiece hstop _) fun _ => .andThen (puts_text _) hrest

/-- Where every piece of a text may be written, the text may be written with its free names. -/
theorem puts_useNames {ns : List Script.Reference} (h : PiecesFit Fits whole prev ns) : Puts P r e (useNames p whole prev ns) := by
  induction ns generalizing prev with
  | nil =>
    unfold useNames
    refine .ite (fun hlt => puts_cutPiece hpiece ?_ _) fun _ => puts_pure ()
    rw [Text.between_size (Nat.le_of_lt hlt)]
    exact h.rest_fits prev List.mem_cons_self
  | cons n ns ih =>
    unfold useNames
    obtain ⟨hskip, huse⟩ := h.tail
    refine .andThen gives_get.puts fun s => .ite (fun _ => ih hskip) fun _ => ?_
    obtain ⟨hlo, hstop⟩ := h.between_fits prev List.mem_cons_self n List.mem_cons_self
    obtain ⟨hanchor, hname⟩ := h.name_fits n List.mem_cons_self
    exact .andThen (puts_useName hpiece hlo hstop hanchor hname) fun _ => ih huse

end

end Generate

/-! ## Replaced ranges -/

namespace Code

/-- Where parts of what is mapped may be mapped, a range may be replaced. -/
theorem admits_replaceRange {P : Permit} {e : Option Effect} {c : Code} {source : SourceId} (start stop : Nat) (new : String)
    (hpart : ∀ t o k u, P.allows t source o → Text.StandsAt t.toList k u → P.allows (String.ofList u) source (o + k))
    (hc : ∀ a ∈ c.segments, P.Admits e a) : ∀ a ∈ (c.replaceRange source start stop new).2.segments, P.Admits e a := by
  refine forall_replaceRange source start stop new (fun _ => trivial) ?_ hc
  rintro t o i k u ⟨hallows, hpolicy⟩ hu
  exact ⟨hpart _ _ _ _ hallows hu, hpolicy⟩

end Code

/-! ## The permit that allows everything -/

namespace Permit

/-- Every text may be mapped to every place, and is taken to stand there. -/
def everything : Permit := ⟨fun _ _ _ => True, fun _ _ _ => True, fun _ => True, fun _ => True⟩

end Permit

namespace Generate

open Markup (Branch Element LoopHead Node)

variable {r : Setting} {e : Option Effect}

theorem puts_expressionIn_everything (source : SourceId) (code : String) (start : Nat) {i : Info} (front back : String)
    (hi : i.policy.isPlain = true) : Puts .everything r e (expressionIn source code start i front back) := by
  have hfit : ∀ whole prev ns, PiecesFit (fun _ _ => True) whole prev ns := fun _ _ _ =>
    ⟨fun _ _ _ _ => ⟨trivial, trivial⟩, fun _ _ => ⟨trivial, trivial⟩, fun _ _ => trivial⟩
  exact .andThen gives_read.puts fun _ => puts_useNames (fun pos t _ atEnd => puts_piece hi trivial atEnd) (hfit _ _ _)

/-- Where parts of what is mapped may be mapped, types may be made comments. -/
theorem admits_commentTypes {P : Permit}
    (hpart : ∀ t o k u, P.allows t SourceId.template o → Text.StandsAt t.toList k u → P.allows (String.ofList u) SourceId.template (o + k))
    (start : Nat) (ts : List (Option Span)) {c : Code} (hc : ∀ a ∈ c.segments, P.Admits e a) :
    ∀ a ∈ (commentTypes start ts c).segments, P.Admits e a := by
  induction ts generalizing c with
  | nil => exact hc
  | cons t ts ih =>
    cases t with
    | none => exact ih hc
    | some t => exact ih (Code.admits_replaceRange _ _ _ hpart (Code.admits_replaceRange _ _ _ hpart hc))

theorem puts_slotParameters_everything (x : Markup.Expression) (v : String) : Puts .everything r e (slotParameters x v) := by
  have hpart : ∀ t o k u, Permit.everything.allows t SourceId.template o → Text.StandsAt t.toList k u →
      Permit.everything.allows (String.ofList u) SourceId.template (o + k) := fun _ _ _ _ _ _ => trivial
  refine .andThen gives_read.puts fun _ => ?_
  dsimp only
  split
  · exact puts_pure ()
  · refine .captured (puts_expressionIn_everything _ _ _ _ _ rfl) fun c _ hc _ => .text (.andThen (puts_onCode fun c' hc' => ?_) fun _ => ?_)
    · refine Code.extends_append (hc'.symm ▸ admits_commentTypes hpart _ _ ?_)
      exact Code.admits_replaceRange _ _ _ hpart (Code.admits_replaceRange _ _ _ hpart hc)
    · refine .text (.ite (fun _ => ?_) fun _ => .text (puts_declare _))
      refine .text (.openAt trivial rfl fun b hb => .text (.andThen (puts_forIn fun t _ _ => ?_) fun _ => ?_))
      · refine .andThen ?_ fun _ => puts_pure _
        cases t with
        | none => exact puts_text _
        | some t => exact .text (.andThen (puts_mapped trivial rfl) fun _ => puts_text _)
      · exact .text (.andThen (puts_close hb trivial) fun _ => .text (puts_declare _))

end Generate

namespace Permit

theorem lawful_everything (r : Generate.Setting) : everything.Lawful r where
  allows_of_stands _ := trivial
  allows_capitalized _ := trivial
  stands_part _ _ := trivial
  listener_allowed _ _ := ⟨fun _ _ => trivial, trivial⟩
  puts_expressionIn _ hi _ := Generate.puts_expressionIn_everything _ _ _ _ _ hi
  puts_slotParameters _ _ v := Generate.puts_slotParameters_everything _ v

end Permit

namespace Generate

open Markup (Branch Element LoopHead Node)

theorem noted_everything (s : State) : s.Noted .everything :=
  ⟨fun _ _ _ _ => trivial, fun _ _ _ _ => trivial, fun _ _ _ _ => trivial⟩

theorem elementPermitted_everything (source : List Char) (x : Element) : x.Permitted .everything source where
  allows_start := trivial
  allows_stop := trivial
  tag_stands _ _ := trivial
  spelled_allowed _ _ _ _ _ _ := trivial
  props_permitted p _ := by
    cases p with
    | plain a => exact ⟨trivial, trivial, fun _ _ => trivial⟩
    | directive d =>
      exact ⟨trivial, trivial, fun _ _ => trivial, fun _ _ => trivial, fun _ _ => trivial, fun _ _ _ => ⟨trivial, trivial⟩,
        fun _ => trivial, trivial, fun _ => trivial, fun _ _ _ => ⟨trivial, trivial⟩, fun _ _ _ _ => ⟨trivial, trivial⟩⟩

mutual

theorem nodePermitted_everything (source : List Char) (n : Node) : NodePermitted .everything source n := by
  cases n with
  | comment span data => exact .comment ⟨trivial, trivial, fun _ _ _ _ _ => trivial⟩
  | text span data => exact .text
  | interpolation span x => exact .interpolation trivial
  | element x children => exact .element (elementPermitted_everything source x) (nodesPermitted_everything source children)
  | loop span h children => exact .loop ⟨fun _ _ => trivial, fun _ _ => trivial⟩ (nodesPermitted_everything source children)
  | chain span bs => exact .chain (fun _ _ _ _ => trivial) (branchesPermitted_everything source bs)

theorem nodesPermitted_everything (source : List Char) (ns : List Node) : ∀ n ∈ ns, NodePermitted .everything source n := by
  cases ns with
  | nil => simp
  | cons n ns => exact List.forall_mem_cons.2 ⟨nodePermitted_everything source n, nodesPermitted_everything source ns⟩

theorem branchesPermitted_everything (source : List Char) (bs : List Branch) :
    ∀ b ∈ bs, ∀ n ∈ b.children, NodePermitted .everything source n := by
  cases bs with
  | nil => simp
  | cons b bs =>
    obtain ⟨span, x, children⟩ := b
    exact List.forall_mem_cons.2 ⟨nodesPermitted_everything source children, branchesPermitted_everything source bs⟩

end

section

variable (r : Setting)

theorem grown_inside_everything (n : Node) : Grown .everything r (inside n) :=
  grown_inside (Permit.lawful_everything r) n (nodePermitted_everything r.source n)

theorem grown_node_everything (n : Node) : Grown .everything r (node n) :=
  .node (nodePermitted_everything r.source n) (grown_inside_everything r n)

theorem grown_nodes_everything (ns : List Node) : Grown .everything r (nodes ns) :=
  grown_nodes (Permit.lawful_everything r) ns (nodesPermitted_everything r.source ns)

theorem grown_branches_everything (isFirst : Bool) (bs : List Branch) : Grown .everything r (branches isFirst bs) :=
  grown_branches (Permit.lawful_everything r) isFirst bs (fun _ _ _ _ => trivial) (branchesPermitted_everything r.source bs)

end

end Generate

end TypedSfc
