import TypedSfc.Markup.Reader
import TypedSfc.Proofs.Text.Places

/-!
# When a tree describes its source

What a tree keeps of its source stands there, at the offset that is kept with it. The places of siblings follow each other without
overlap, and within the place of what holds them: of an element behind its opening tag, of a loop and of a branch anywhere, and the
branches within the place of their chain. The one text of a tree that is in no source is the modifier that a leading dot stands for.
-/

namespace TypedSfc

namespace Markup

variable {source : List Char}

/-- An expression stands at its offset. -/
def Expression.Describes (source : List Char) (e : Expression) : Prop := Text.StandsAt source e.offset e.content.toList

/-- An attribute value stands at its offset, without its quotes. -/
def AttributeValue.Describes (source : List Char) (v : AttributeValue) : Prop := Text.StandsAt source v.offset v.content.toList

/-- A value in quotes stands behind the first of them, and does not have it inside. -/
def AttributeValue.FollowsQuote (source : List Char) (v : AttributeValue) : Prop :=
  v.quoted = true → ∃ q, (q = '\x22' ∨ q = '\x27') ∧ 0 < v.offset ∧ Text.StandsAt source (v.offset - 1) [q] ∧ q ∉ v.content.toList

/-- An attribute begins with its name. -/
structure Attribute.Describes (source : List Char) (a : Attribute) : Prop where
  span_fits : a.span.Fits source
  name_stands : Text.StandsAt source a.span.start a.name.toList
  value_describes : ∀ v ∈ a.value, v.Describes source

/-- The modifier that a leading dot stands for. -/
def Directive.Implies (d : Directive) (m : Expression) : Prop :=
  m = ⟨"prop", d.span.start, true⟩ ∧ ∃ rest, d.rawName.toList = '.' :: rest

/-- A directive begins with its name as written, and its argument, its modifiers and its expression stand at their offsets. -/
structure Directive.Describes (source : List Char) (d : Directive) : Prop where
  span_fits : d.span.Fits source
  name_stands : Text.StandsAt source d.span.start d.rawName.toList
  arg_describes : ∀ e ∈ d.arg, e.Describes source
  exp_describes : ∀ e ∈ d.exp, e.Describes source
  modifiers_describe : ∀ m ∈ d.modifiers, m.Describes source ∨ d.Implies m

def Property.Describes (source : List Char) : Property → Prop
  | .plain a => a.Describes source
  | .directive d => d.Describes source

/-- An opening tag lies at the start of its element, with its name behind the bracket and its properties inside. -/
structure Element.Describes (source : List Char) (e : Element) : Prop where
  span_fits : e.span.Fits source
  startTagEnd_isPlace : Text.IsPlace source e.startTagEnd
  start_le : e.span.start ≤ e.startTagEnd
  tag_stands : Text.StandsAt source e.tagOffset e.tag.toList
  props_describe : ∀ p ∈ e.props, p.Describes source
  props_within : ∀ p ∈ e.props, e.span.start ≤ p.span.start ∧ p.span.stop ≤ e.startTagEnd

/-- The source and the names of a loop stand at their offsets. -/
structure LoopHead.Describes (source : List Char) (h : LoopHead) : Prop where
  source_describes : ∀ e ∈ h.source, e.Describes source
  value_describes : ∀ e ∈ h.value, e.Describes source
  key_describes : ∀ e ∈ h.key, e.Describes source
  index_describes : ∀ e ∈ h.index, e.Describes source

mutual

/-- A node describes the source at its place. -/
inductive Node.Describes (source : List Char) : Node → Prop
  | element {e : Element} {children : List Node} (head : e.Describes source)
      (below : Siblings source e.startTagEnd children e.span.stop) : Node.Describes source (.element e children)
  | text {s : Span} {data : String} (reads : s.Reads source data.toList) : Node.Describes source (.text s data)
  | comment {s : Span} {data : String} (reads : s.Reads source (['<', '!', '-', '-'] ++ (data.toList ++ ['-', '-', '>']))) :
      Node.Describes source (.comment s data)
  /-- A comment that never ends. -/
  | openComment {s : Span} {data : String} (reads : s.Reads source (['<', '!', '-', '-'] ++ data.toList))
      (last : s.stop = Text.size source) : Node.Describes source (.comment s data)
  | interpolation {s : Span} {e : Expression} (reads : s.Reads source (['{', '{'] ++ (e.content.toList ++ ['}', '}'])))
      (offset : e.offset = s.start + 2) : Node.Describes source (.interpolation s e)
  | chain {s : Span} {branches : List Branch} (fits : s.Fits source) (below : Branches source s.start branches s.stop) :
      Node.Describes source (.chain s branches)
  | loop {s : Span} {h : LoopHead} {children : List Node} (fits : s.Fits source) (head : h.Describes source)
      (below : Siblings source s.start children s.stop) : Node.Describes source (.loop s h children)

/-- A branch describes the source at its place. -/
inductive Branch.Describes (source : List Char) : Branch → Prop
  | mk {s : Span} {condition : Option Expression} {children : List Node} (fits : s.Fits source)
      (condition_describes : ∀ e ∈ condition, e.Describes source) (below : Siblings source s.start children s.stop) :
      Branch.Describes source (.mk s condition children)

/-- Nodes that describe the source, one behind another, from `lo` up to `hi`. -/
inductive Siblings (source : List Char) : Nat → List Node → Nat → Prop
  | nil {lo hi : Nat} (le : lo ≤ hi) : Siblings source lo [] hi
  | cons {lo hi : Nat} {n : Node} {ns : List Node} (le : lo ≤ n.span.start) (node : n.Describes source)
      (behind : Siblings source n.span.stop ns hi) : Siblings source lo (n :: ns) hi

/-- Branches that describe the source, one behind another, from `lo` up to `hi`. -/
inductive Branches (source : List Char) : Nat → List Branch → Nat → Prop
  | nil {lo hi : Nat} (le : lo ≤ hi) : Branches source lo [] hi
  | cons {lo hi : Nat} {b : Branch} {bs : List Branch} (le : lo ≤ b.span.start) (branch : b.Describes source)
      (behind : Branches source b.span.stop bs hi) : Branches source lo (b :: bs) hi

end

/-- A template describes its source: it spans all of it, and its nodes lie in it one behind another. -/
structure Fragment.Describes (source : List Char) (f : Fragment) : Prop where
  span_eq : f.span = ⟨0, Text.size source⟩
  nodes_describe : Siblings source 0 f.nodes (Text.size source)

/-! ## Places -/

theorem Expression.Describes.fits {e : Expression} (h : e.Describes source) : e.span.Fits source := by
  refine Span.Reads.fits (t := e.content.toList) ⟨h, ?_⟩
  rw [Text.size_toList]
  rfl

theorem Node.Describes.fits {n : Node} (h : n.Describes source) : n.span.Fits source := by
  cases h with
  | element head _ => exact head.span_fits
  | text reads => exact reads.fits
  | comment reads => exact reads.fits
  | openComment reads _ => exact reads.fits
  | interpolation reads _ => exact reads.fits
  | chain fits _ => exact fits
  | loop fits _ _ => exact fits

/-- The expression of an interpolation stands between its braces. -/
theorem Node.Describes.expression {s : Span} {e : Expression} (h : Node.Describes source (.interpolation s e)) : e.Describes source := by
  cases h with
  | interpolation reads offset =>
    have hstands := reads.1.part
    unfold Expression.Describes
    rw [offset]
    exact hstands

/-- The text of a comment stands within it, behind its mark. -/
theorem Node.Describes.comment_data {s : Span} {data : String} (h : Node.Describes source (.comment s data)) :
    Text.StandsAt source (s.start + 4) data.toList ∧ s.start + 4 + Text.size data.toList ≤ s.stop := by
  cases h with
  | comment reads =>
    refine ⟨reads.1.part, ?_⟩
    rw [reads.2, Text.size_append, Text.size_append, ← Nat.add_assoc, ← Nat.add_assoc]
    exact Nat.le_add_right _ _
  | openComment reads last =>
    refine ⟨reads.1.right, ?_⟩
    rw [reads.2, Text.size_append, ← Nat.add_assoc]
    exact Nat.le_refl _

theorem Siblings.le {lo hi : Nat} {ns : List Node} (h : Siblings source lo ns hi) : lo ≤ hi := by
  induction ns generalizing lo with
  | nil =>
    cases h with
    | nil le => exact le
  | cons n ns ih =>
    cases h with
    | cons le node behind =>
      have hfits := node.fits.le
      have hbehind := ih behind
      omega

/-- What starts before the first of the siblings and ends behind the last is around them too. -/
theorem Siblings.mono {lo lo' hi hi' : Nat} {ns : List Node} (h : Siblings source lo ns hi) (hlo : lo' ≤ lo) (hhi : hi ≤ hi') :
    Siblings source lo' ns hi' := by
  induction ns generalizing lo lo' with
  | nil =>
    cases h with
    | nil le => exact .nil (by omega)
  | cons n ns ih =>
    cases h with
    | cons le node behind => exact .cons (by omega) node (ih behind (Nat.le_refl _))

/-- Siblings, and others behind them. -/
theorem Siblings.append {lo mid hi : Nat} {ns ns' : List Node} (h : Siblings source lo ns mid) (h' : Siblings source mid ns' hi) :
    Siblings source lo (ns ++ ns') hi := by
  induction ns generalizing lo with
  | nil =>
    cases h with
    | nil le => exact h'.mono le (Nat.le_refl _)
  | cons n ns ih =>
    cases h with
    | cons le node behind => exact .cons le node (ih behind)

/-- Siblings in front end where those behind them begin. -/
theorem Siblings.exists_mid {lo hi : Nat} {ns ns' : List Node} (h : Siblings source lo (ns ++ ns') hi) :
    ∃ mid, Siblings source lo ns mid ∧ Siblings source mid ns' hi := by
  induction ns generalizing lo with
  | nil => exact ⟨lo, .nil (Nat.le_refl _), h⟩
  | cons n ns ih =>
    cases h with
    | cons le node behind =>
      obtain ⟨mid, hfront, hbehind⟩ := ih behind
      exact ⟨mid, .cons le node hfront, hbehind⟩

theorem Siblings.describes_of_mem {lo hi : Nat} {n : Node} {ns : List Node} (h : Siblings source lo ns hi) (hn : n ∈ ns) :
    n.Describes source := by
  induction ns generalizing lo with
  | nil => exact absurd hn List.not_mem_nil
  | cons m ns ih =>
    cases h with
    | cons le node behind =>
      rcases List.mem_cons.1 hn with rfl | hn
      · exact node
      · exact ih behind hn

theorem Branches.describes_of_mem {lo hi : Nat} {b : Branch} {bs : List Branch} (h : Branches source lo bs hi) (hb : b ∈ bs) :
    b.Describes source := by
  induction bs generalizing lo with
  | nil => exact absurd hb List.not_mem_nil
  | cons c bs ih =>
    cases h with
    | cons le branch behind =>
      rcases List.mem_cons.1 hb with rfl | hb
      · exact branch
      · exact ih behind hb

/-- A node between two places. -/
theorem Siblings.single {lo hi : Nat} {n : Node} (h : n.Describes source) (hlo : lo ≤ n.span.start) (hhi : n.span.stop ≤ hi) :
    Siblings source lo [n] hi := .cons hlo h (.nil hhi)

end Markup

end TypedSfc
