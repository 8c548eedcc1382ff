import TypedSfc.Proofs.Generate.ComponentSteps
import TypedSfc.Proofs.Generate.DescribedNodes
import TypedSfc.Proofs.Generate.ResolvedTemplates
import TypedSfc.Proofs.Generate.Silence
import TypedSfc.Proofs.Generate.WalkedPlaces
import TypedSfc.Proofs.Markup.Commented
import TypedSfc.Proofs.Markup.LoopGrammar
import TypedSfc.Proofs.Markup.Template

/-!
# Type arguments of components

A comment may give type arguments to the component behind it. They are kept in the frame of the node that takes the comment, and the call
of a component has those of the innermost frame, which is that of its own node. So a component has the type arguments of the comments
directly before it, the last of those that give any. But a comment before an element with `v-if` or `v-for` is taken by the chain or the
loop around the element, whose frame is not that of the element, so that its component has none.
-/

namespace TypedSfc

namespace Generate

open Markup (Element Fragment Node)

/-! ## Comments that give type arguments -/

/-- The type arguments that a comment gives. -/
def generic? (c : Span × String) : Option Generic :=
  match directiveComment? c.2 with
  | some ("generic", content) => genericOf? c.1 c.2 content
  | _ => none

/-- The type arguments that comments give: the last ones. -/
def genericIn (cs : List (Span × String)) : Option Generic := (cs.filterMap generic?).getLast?

/-- A comment is the mark of its type arguments and the arguments between braces, with white space between them and around. -/
def StatesGeneric (c : Span × String) (x : Generic) : Prop :=
  ∃ front gap back : List Char, (∀ a ∈ front ++ gap ++ back, Text.isSpace a = true) ∧
    c.2.toList = front ++ "@vue-generic".toList ++ gap ++ '{' :: (x.content.toList ++ '}' :: back) ∧
    x.offset = c.1.start + 4 + Text.size (front ++ "@vue-generic".toList ++ gap) + 1

/-- White space, the mark of a directive comment, its name and what does not go on with the name are a directive comment. -/
theorem directiveComment?_of_parts {data : String} {front name content : List Char}
    (hdata : data.toList = front ++ ("@vue-".toList ++ (name ++ content))) (hfront : ∀ c ∈ front, Text.isSpace c = true)
    (hne : name ≠ []) (hname : ∀ c ∈ name, isDirectiveChar c = true) (hcontent : ∃ c ∈ content.head?, isDirectiveChar c = false) :
    directiveComment? data = some (String.ofList name, content) := by
  have hstart : Text.trimStart data.toList = "@vue-".toList ++ (name ++ content) := by
    rw [hdata, Text.trimStart_append hfront ⟨'@', rfl, by decide⟩]
  obtain ⟨c, hc, hnot⟩ := hcontent
  obtain ⟨more, rfl⟩ := List.head?_eq_some_iff.1 hc
  have hrest : ("@vue-".toList ++ (name ++ c :: more)).drop "@vue-".toList.length = name ++ c :: more := List.drop_left
  unfold directiveComment?
  dsimp only
  rw [hstart, if_pos (by simp), hrest, List.takeWhile_append_of_pos hname, List.takeWhile_cons_of_neg (by simp [hnot]), List.append_nil,
    if_neg (by simpa using hne), List.dropWhile_append_of_pos hname, List.dropWhile_cons_of_neg (by simp [hnot])]

/-- White space does not go on with a name. -/
theorem isDirectiveChar_of_isSpace {c : Char} (h : Text.isSpace c = true) : isDirectiveChar c = false := by
  by_contra hname
  unfold isDirectiveChar Char.isAlphanum Char.isAlpha Char.isUpper Char.isLower Char.isDigit at hname
  simp only [Bool.or_eq_true, Bool.and_eq_true, decide_eq_true_eq, beq_iff_eq, Bool.not_eq_false, UInt32.le_iff_toNat_le,
    ge_iff_le] at hname
  simp only [Text.isSpace, Bool.or_eq_true, Bool.and_eq_true, decide_eq_true_eq, beq_iff_eq] at h
  rcases hname with (hname | rfl) | rfl
  · simp at hname
    omega
  · revert h
    decide
  · revert h
    decide

/-- Such a comment gives the arguments, from behind the brace. -/
theorem StatesGeneric.generic?_eq {c : Span × String} {x : Generic} (h : StatesGeneric c x) : generic? c = some x := by
  obtain ⟨span, data⟩ := c
  obtain ⟨arguments, offset⟩ := x
  obtain ⟨front, gap, back, hspace, hdata, hoffset⟩ := h
  dsimp only at hdata hoffset
  have hfront : ∀ a ∈ front, Text.isSpace a = true := fun a ha => hspace a (by simp [ha])
  have hgap : ∀ a ∈ gap, Text.isSpace a = true := fun a ha => hspace a (by simp [ha])
  have hback : ∀ a ∈ back, Text.isSpace a = true := fun a ha => hspace a (by simp [ha])
  have hends : ∃ a ∈ (gap ++ '{' :: (arguments.toList ++ '}' :: back)).head?, isDirectiveChar a = false := by
    cases gap with
    | nil => exact ⟨'{', rfl, by decide⟩
    | cons a gap => exact ⟨a, rfl, isDirectiveChar_of_isSpace (hgap a List.mem_cons_self)⟩
  have hname : ∀ a ∈ "generic".toList, isDirectiveChar a = true := List.all_eq_true.1 (by decide)
  have hcomment : directiveComment? data = some ("generic", gap ++ '{' :: (arguments.toList ++ '}' :: back)) :=
    directiveComment?_of_parts (by simp [hdata]) hfront (by decide) hname hends
  have htrim : Text.trim (gap ++ ('{' :: (arguments.toList ++ ['}']) ++ back)) = '{' :: (arguments.toList ++ ['}']) := by
    refine Text.trim_append hgap hback ⟨'{', rfl, by decide⟩ ⟨'}', ?_, by decide⟩
    rw [← List.cons_append]
    exact List.getLast?_concat
  simp only [List.cons_append, List.append_assoc, List.nil_append] at htrim
  have hnone : '{' ∉ front ++ "@vue-generic".toList ++ gap := by
    intro hmem
    rcases List.mem_append.1 hmem with hmem | hmem
    · rcases List.mem_append.1 hmem with hmem | hmem
      · exact absurd (hfront _ hmem) (by decide)
      · exact absurd hmem (by decide)
    · exact absurd (hgap _ hmem) (by decide)
  have hfind := Text.find_append_cons hnone (arguments.toList ++ '}' :: back)
  rw [← hdata] at hfind
  unfold generic?
  rw [hcomment]
  show genericOf? span data (gap ++ '{' :: (arguments.toList ++ '}' :: back)) = _
  unfold genericOf?
  rw [htrim, hfind, hoffset]
  simp [show "<!--".length = 4 from rfl]

theorem genericIn_cons (c : Span × String) (cs : List (Span × String)) : genericIn (c :: cs) = (genericIn cs).or (generic? c) := by
  unfold genericIn
  rw [List.filterMap_cons]
  cases generic? c with
  | none => exact (Option.or_none).symm
  | some g => exact List.getLast?_cons.trans (by cases (cs.filterMap generic?).getLast? <;> rfl)

theorem genericIn_concat {c : Span × String} {g : Generic} (h : generic? c = some g) (cs : List (Span × String)) :
    genericIn (cs ++ [c]) = some g := by
  unfold genericIn
  rw [List.filterMap_append, List.filterMap_cons, h]
  exact List.getLast?_concat

/-- A frame that comments make has the type arguments that they give. -/
theorem generic_of_frameOf {next : Nat} {x f : Frame} {cs : List (Span × String)} (h : (frameOf next x cs).2 = some f) :
    f.generic = (genericIn cs).or x.generic := by
  induction cs generalizing next x with
  | nil =>
    obtain rfl := Option.some.inj h
    rfl
  | cons c cs ih =>
    obtain ⟨span, data⟩ := c
    have hother : generic? (span, data) = none → f.generic = (genericIn cs).or x.generic →
        f.generic = (genericIn ((span, data) :: cs)).or x.generic := by
      intro hnone hrest
      rw [genericIn_cons, hnone, Option.or_none, hrest]
    rw [frameOf.eq_2] at h
    cases hcomment : directiveComment? data with
    | none =>
      rw [hcomment] at h
      exact hother (by simp [generic?, hcomment]) (ih h)
    | some d =>
      obtain ⟨name, content⟩ := d
      rw [hcomment] at h
      dsimp only at h
      split at h
      · cases h
      · have hrest := ih h
        exact hother (by simp [generic?, hcomment]) hrest
      · have hrest := ih h
        exact hother (by simp [generic?, hcomment]) hrest
      · rw [ih h, genericIn_cons, generic?, hcomment, Option.or_assoc]
        rfl
      · rename_i hname
        refine hother ?_ (ih h)
        unfold generic?
        rw [hcomment]
        dsimp only
        split
        · rename_i heq
          obtain ⟨rfl, -⟩ := Prod.mk.inj (Option.some.inj heq)
          exact absurd rfl hname
        · rfl

/-- A node behind comments of which none says to pass over it is entered, with the type arguments that they give. -/
theorem exists_enter {r : Setting} {s : State} (h : skips s.pending = false) :
    ∃ t, enter.after r s = (true, t) ∧ t.code.segments = s.code.segments ∧ t.frames.head?.bind (·.generic) = genericIn s.pending := by
  rw [after_enter]
  dsimp only
  cases hframe : (frameOf s.nextExpectation {} s.pending).2 with
  | none =>
    have hsome := isNone_frameOf s.nextExpectation {} s.pending
    rw [hframe, h] at hsome
    cases hsome
  | some f => exact ⟨_, rfl, rfl, (generic_of_frameOf hframe).trans Option.or_none⟩

theorem exists_of_genericIn {cs : List (Span × String)} {g : Generic} (h : genericIn cs = some g) : ∃ c ∈ cs, generic? c = some g :=
  List.mem_filterMap.1 (List.mem_of_getLast? h)

/-- The type arguments of a comment stand within it. -/
theorem standsAt_of_generic? {source : List Char} {c : Span × String} {g : Generic} (hc : (Node.comment c.1 c.2).Describes source)
    (h : generic? c = some g) : Text.StandsAt source g.offset g.content.toList ∧ c.1.start < g.offset ∧ g.offset ≤ c.1.stop := by
  obtain ⟨hdata, hstop⟩ := hc.comment_data
  unfold generic? at h
  split at h
  · rename_i content hcomment
    obtain ⟨k, hk, hstands⟩ := standsAt_of_genericOf? hcomment h
    have hle := hstands.isPlace.le_size
    rw [hk]
    exact ⟨hdata.trans hstands, by omega, by omega⟩
  · cases h

/-! ## Calls -/

/-- Type arguments are written between brackets, mapped to their place. -/
def WritesGeneric (g : Generic) (ss : List Segment) : Prop :=
  ∃ i token, ss = [.mapped "" SourceId.template g.offset (Info.withRole i (.opens token)), .text "<",
    .mapped g.content SourceId.template g.offset (Info.silent.withRole (.joins token)), .text ">",
    .mapped "" SourceId.template (g.offset + g.content.utf8ByteSize) (Info.silent.withRole (.closes token))]

/-- The call of a component up to its argument: the variable of the node that it makes, marked as the element, is what a function gives,
which has type arguments or none. -/
def IsCall (e : Element) (g : Option Generic) (ss : List Segment) : Prop :=
  ∃ v i token types, ss = [.text "const ", .mapped "" SourceId.template e.span.start (Info.withRole i (.opens token)),
      .text (Names.temporary (v + 1)), .mapped "" SourceId.template e.span.stop (Info.silent.withRole (.closes token)),
      .text (" = " ++ Names.temporary v)] ++ types ++ [.text "("] ∧
    match g with
    | none => types = []
    | some g => WritesGeneric g types

/-- Among the segments that were added there is the call of a component. -/
def HasCall (e : Element) (g : Option Generic) (as bs : List Segment) : Prop :=
  ∃ before call after, bs = as ++ before ++ call ++ after ∧ IsCall e g call

section

variable {r : Setting} {e e' : Element} {g : Option Generic} {as as' bs bs' : List Segment}

theorem HasCall.mono (h : HasCall e g as bs) (has : as' <+: as) (hbs : bs <+: bs') : HasCall e g as' bs' := by
  obtain ⟨before, call, after, rfl, hcall⟩ := h
  obtain ⟨less, rfl⟩ := has
  obtain ⟨more, rfl⟩ := hbs
  exact ⟨less ++ before, call, after ++ more, by simp only [List.append_assoc], hcall⟩

theorem HasCall.of_span (h : HasCall e' g as bs) (hspan : e'.span = e.span) : HasCall e g as bs := by
  unfold HasCall IsCall at h ⊢
  rwa [hspan] at h

theorem temporary_ne_empty (n : Nat) : Names.temporary n ≠ "" := by
  simp [Names.temporary, Names.ofKey, Names.mark]

theorem segments_writeGeneric (g : Generic) (s : State) :
    ∃ ss, ((writeGeneric g).after r s).2.code.segments = s.code.segments ++ ss ∧ WritesGeneric g ss := by
  have hopen : "<" ≠ "" := by decide
  have hclose : ">" ≠ "" := by decide
  refine ⟨_, ?_, s.code.resolve .checked, s.code.nextToken, rfl⟩
  show (Code.text (Code.joined (Code.text (Code.opened s.code SourceId.template g.offset .checked).2 "<") _ _ _) ">").segments ++ [_] = _
  rw [segments_text hclose]
  show (Code.text (Code.opened s.code SourceId.template g.offset .checked).2 "<").segments ++ [_] ++ [_] ++ [_] = _
  rw [segments_text hopen]
  show s.code.segments ++ [_] ++ [_] ++ [_] ++ [_] ++ [_] = _
  simp only [List.append_assoc, List.cons_append, List.nil_append]
  rfl

/-- The call of a component has the type arguments of the innermost frame. -/
theorem exists_segments_callHead (e : Element) (v : Nat) (s : State) :
    ∃ ss, ((callHead e (Names.temporary v) (Names.temporary (v + 1))).after r s).2.code.segments = s.code.segments ++ ss ∧
      IsCall e (s.frames.head?.bind (·.generic)) ss := by
  have hconst : "const " ≠ "" := by decide
  have hparen : "(" ≠ "" := by decide
  have hassign : " = " ++ Names.temporary v ≠ "" := by simp
  have hmark : ((bounded e.span.start e.span.stop Info.unusedName (Names.temporary (v + 1))).after r
      ((text "const ").after r s).2).2.code.segments = _ := segments_bounded (temporary_ne_empty (v + 1)) (s.code.text "const ") _ _ _ _
  have hframes : ((bounded e.span.start e.span.stop Info.unusedName (Names.temporary (v + 1))).after r
    ((text "const ").after r s).2).2.frames = s.frames := rfl
  unfold callHead
  rw [after_bind, after_bind]
  generalize ((bounded e.span.start e.span.stop Info.unusedName (Names.temporary (v + 1))).after r
    ((text "const ").after r s).2).2 = t at *
  rw [segments_text hconst] at hmark
  have hassigned : ((text (" = " ++ Names.temporary v)).after r t).2.code.segments =
      t.code.segments ++ [.text (" = " ++ Names.temporary v)] := segments_text hassign t.code
  have hgeneric : currentGeneric.after r ((text (" = " ++ Names.temporary v)).after r t).2 =
      (s.frames.head?.bind (·.generic), ((text (" = " ++ Names.temporary v)).after r t).2) := by
    rw [← hframes]
    rfl
  rw [after_bind, after_bind, hgeneric]
  dsimp only
  cases s.frames.head?.bind (·.generic) with
  | none =>
    refine ⟨_, ?_, v, (s.code.text "const ").resolve .unusedName, (s.code.text "const ").nextToken, [], rfl, rfl⟩
    rw [code_after_text, segments_text hparen, hassigned, hmark]
    simp only [List.append_assoc, List.cons_append, List.nil_append, List.append_nil]
  | some g =>
    obtain ⟨types, htypes, hwrites⟩ := segments_writeGeneric (r := r) g ((text (" = " ++ Names.temporary v)).after r t).2
    refine ⟨_, ?_, v, (s.code.text "const ").resolve .unusedName, (s.code.text "const ").nextToken, types, rfl, hwrites⟩
    dsimp only
    rw [after_bind, code_after_text, segments_text hparen, htypes, hassigned, hmark]
    simp only [List.append_assoc, List.cons_append, List.nil_append]

theorem hasCall_componentCall (e : Element) (c : Callee) (variable' : String) (n : Nat) (props : Code) (s : State) :
    HasCall e (s.frames.head?.bind (·.generic)) s.code.segments
      ((componentCall e c ⟨variable', Names.temporary n, Names.temporary (n + 1)⟩ props).after r s).2.code.segments := by
  rw [componentCall_eq, after_bind, after_bind]
  have hbefore := prolongs_callFunction (r := r) ⟨variable', Names.temporary n, Names.temporary (n + 1)⟩ props s
  generalize ht : ((callFunction ⟨variable', Names.temporary n, Names.temporary (n + 1)⟩ props).after r s).2 = t at *
  have hframes : t.frames = s.frames := ht ▸ rfl
  obtain ⟨ss, hss, hcall⟩ := exists_segments_callHead (r := r) e n t
  rw [← hframes]
  refine HasCall.mono ⟨[], ss, [], ?_, hcall⟩ hbefore (prolongs_callTail c _ props _)
  rw [hss, List.append_nil, List.append_nil]

/-- A component has its call, with the type arguments of the innermost frame. -/
theorem hasCall_component (s : State) (e : Element) (hasChildren : Bool) {inner : Gen Unit} (hinner : Keeps 0 inner) :
    HasCall e (s.frames.head?.bind (·.generic)) s.code.segments ((component e hasChildren inner).after r s).2.code.segments := by
  obtain ⟨t, props, hframes, hvariable, hwhole⟩ := component_steps (r := r) s e hasChildren hinner
  have hbefore : s.code.segments <+: t.code.segments := by
    rw [hvariable]
    exact ((keeps_componentVariable s.nextVars.component (Callee.ofElement e r.source)).prolongs : Prolongs r _) s.inNextComponent
  have hcall := hasCall_componentCall (r := r) e (Callee.ofElement e r.source) (Names.temporary s.nextTemporary)
    (s.nextTemporary + 1) props t
  rw [hframes] at hcall
  exact hcall.mono hbefore hwhole

/-! ## Walks -/

variable {code : Code} {f : Fragment} {led before after children : List Node} {n m : Node} {s t u : State}

/-- A component has the type arguments of the comments directly before it in its own node. -/
theorem Walked.hasCall_component (h : Walked r code f led (before ++ .element e children :: after) s) (hkind : e.kind = .component)
    (hskips : skips (commentsBehind (led ++ before)) = false) :
    let outside := ((nodes before).after r s).2
    HasCall e (genericIn (commentsBehind (led ++ before))) outside.code.segments
      ((node (.element e children)).after r outside).2.code.segments := by
  intro outside
  have hpending : outside.pending = commentsBehind (led ++ before) := h.pending_before
  rw [← hpending] at hskips ⊢
  obtain ⟨t, hentered, hcode, hgeneric⟩ := exists_enter (r := r) hskips
  have hcall := Generate.hasCall_component (r := r) t e (!children.isEmpty) (keeps_nodes children)
  rw [hgeneric, hcode] at hcall
  rw [after_node_of_entered rfl hentered, inside_component hkind]
  exact hcall.mono (List.prefix_refl _) ((keeps_leave.prolongs : Prolongs r _) _)

/-- What is written in a list of nodes is written in the node that holds the list. -/
theorem HasCall.of_holds {c : Gen Unit → Gen Unit} {led' : List Node} (holds : Holds n c led' children) (hne : children ≠ [])
    (begins : Begins c r t u) (h : HasCall e g u.code.segments ((nodes children).after r u).2.code.segments) :
    HasCall e g t.code.segments ((inside n).after r t).2.code.segments := by
  have hbefore : t.code.segments <+: u.code.segments := by
    have hextends : ∀ {v : State}, v.Extends .everything u → v.code.segments <+: u.code.segments := by
      intro v hv
      obtain ⟨as, has, -⟩ := hv.code_extends.segments_eq
      exact ⟨as, has.symm⟩
    rcases holds.extends hne begins with ⟨-, hext⟩ | ⟨before, -, hext⟩
    · exact hextends hext
    · exact (((keeps_branches true before).prolongs : Prolongs r _) t).trans (hextends hext)
  obtain ⟨behind, hkept, heq⟩ := begins
  rw [holds.inside_eq, heq]
  exact h.mono hbefore (hkept _)

/-- What stands first in a node that is entered is entered without comments. -/
theorem Walked.hasCall_first {c : Gen Unit → Gen Unit} (h : Walked r code f led (before ++ n :: after) s) (hvisited : comment? n = none)
    (hskips : skips (commentsBehind (led ++ before)) = false) (holds : Holds n c [] [m]) (hbegins : ∀ t, ∃ u, Begins c r t u)
    (hfirst : ∀ u, Walked r code f [] ([] ++ m :: []) u → HasCall e g u.code.segments ((node m).after r u).2.code.segments) :
    let outside := ((nodes before).after r s).2
    HasCall e g outside.code.segments ((node n).after r outside).2.code.segments := by
  intro outside
  have hpending : outside.pending = commentsBehind (led ++ before) := h.pending_before
  rw [← hpending] at hskips
  obtain ⟨t, hentered, hcode, -⟩ := exists_enter (r := r) hskips
  obtain ⟨u, hu⟩ := hbegins t
  have hcall : HasCall e g t.code.segments ((inside n).after r t).2.code.segments :=
    .of_holds holds (List.cons_ne_nil m []) hu (hfirst u (.within h hentered holds hu))
  rw [hcode] at hcall
  rw [after_node_of_entered hvisited hentered]
  exact hcall.mono (List.prefix_refl _) ((keeps_leave.prolongs : Prolongs r _) _)

/-- A component that stands for a node has the type arguments of the comments before the node if it is the node itself; where a chain or a
loop is around it, it has none. -/
theorem Walked.hasCall_of_leads {wrapped : Bool} (hleads : Node.Leads e children wrapped n) (hkind : e.kind = .component)
    (h : Walked r code f led (before ++ n :: after) s) (hskips : skips (commentsBehind (led ++ before)) = false) :
    let outside := ((nodes before).after r s).2
    HasCall e (if wrapped then none else genericIn (commentsBehind (led ++ before))) outside.code.segments
      ((node n).after r outside).2.code.segments := by
  induction hleads generalizing led before after s with
  | element => exact h.hasCall_component hkind hskips
  | loop span head =>
    exact h.hasCall_first rfl hskips (.loop span head _) (exists_begins_loop head) fun u hu => hu.hasCall_component hkind rfl
  | @chain span own x bs wrapped n leads ih =>
    refine h.hasCall_first rfl hskips (.branch span own [] x [n] bs) (fun t => ?_) fun u hu => ?_
    · obtain ⟨u, hu, -⟩ := exists_begins_chainAround (r := r) [] x bs t
      exact ⟨u, hu⟩
    · have hcall := ih hu rfl
      cases wrapped <;> exact hcall

/-! ## Places of type arguments -/

/-- An element that stands for the node behind a comment starts behind the type arguments of the comment, and before any other element
that does. -/
theorem Walked.starts_behind_generic {wrapped : Bool} (hleads : Node.Leads e children wrapped n)
    (h : Walked r code f led (before ++ n :: after) s) {source : List Char} (hf : f.Describes source)
    {x : Generic} (hx : genericIn (commentsBehind (led ++ before)) = some x) :
    e ∈ Markup.nodeHeads f.nodes ∧ x.offset ≤ e.span.start ∧
      ∀ y ∈ Markup.nodeHeads f.nodes, x.offset ≤ y.span.start → e.span.start ≤ y.span.start := by
  obtain ⟨c, hc, hgeneric⟩ := exists_of_genericIn hx
  obtain ⟨hcomment, hnode, hstop, hothers⟩ := h.starts_around hf hc
  obtain ⟨-, hstart, hend⟩ := standsAt_of_generic? hcomment hgeneric
  obtain ⟨hlo, hhi⟩ := hnode.heads_within e hleads.mem_heads
  refine ⟨h.heads_subset ?_, by omega, fun y hy hle => ?_⟩
  · rw [Markup.nodeHeads_append, Markup.nodeHeads_cons]
    exact List.mem_append_right _ (List.mem_append_left _ hleads.mem_heads)
  · rcases hothers y hy with hy | hy | hy
    · exact hleads.start_le hnode y hy
    · omega
    · omega

/-- Behind a comment that states type arguments, white space aside, the call of a component has them, mapped to their place in the comment,
unless the component has `v-if` or `v-for`: then it has none. The comment is not dropped between two branches of a chain, and no comment
there says to pass over the node. The calls of other components have no type arguments from that place. -/
theorem generic_of_comment {source : String} {siblings pre blanks post : List Node} {c : Span × String} {x : Generic}
    (h : Walked r code (Markup.parseTemplate source).1 led (Node.fold siblings).1 s)
    (hsiblings : siblings = pre ++ .comment c.1 c.2 :: (blanks ++ .element e children :: post)) (hblanks : ∀ n ∈ blanks, n.IsBlank)
    (hkind : e.kind = .component) (hstates : StatesGeneric c x)
    (hkept : (Node.fold (pre ++ [.comment c.1 c.2])).1 <+: (Node.fold siblings).1)
    (hskips : skips (commentsBehind (led ++ (Node.fold (pre ++ [.comment c.1 c.2])).1)) = false) :
    Text.StandsAt source.toList x.offset x.content.toList ∧
      (∃ n rest, (Node.fold siblings).1 = (Node.fold (pre ++ [.comment c.1 c.2])).1 ++ n :: rest ∧
        let outside := ((nodes (Node.fold (pre ++ [.comment c.1 c.2])).1).after r s).2
        HasCall e (if (e.directive "if").isSome || (e.directive "for").isSome then none else some x) outside.code.segments
          ((node n).after r outside).2.code.segments) ∧
      ∀ {led' before' after' children' : List Node} {e' : Element} {s' : State},
        Walked r code (Markup.parseTemplate source).1 led' (before' ++ .element e' children' :: after') s' → e'.kind = .component →
        skips (commentsBehind (led' ++ before')) = false →
        let outside := ((nodes before').after r s').2
        ∃ types, HasCall e' types outside.code.segments ((node (.element e' children')).after r outside).2.code.segments ∧
          ∀ x' ∈ types, x'.offset = x.offset → e'.span.start = e.span.start := by
  subst hsiblings
  have hgeneric := hstates.generic?_eq
  have hsource := Markup.describes_parseTemplate source
  have hgiven : genericIn (commentsBehind (led ++ (Node.fold (pre ++ [.comment c.1 c.2])).1)) = some x := by
    obtain ⟨out, hout⟩ := Node.exists_fold_comment pre c.1 c.2
    rw [hout, ← List.append_assoc, commentsBehind_concat]
    exact genericIn_concat hgeneric _
  obtain ⟨e', n, rest, hspan, hkind', hleads, hfold⟩ := Node.exists_leads_fold (by rw [hkind]; decide) hblanks hkept
  rw [hfold] at h
  have hcomment := h.describes hsource (.comment c.1 c.2) <| by
    obtain ⟨out, hout⟩ := Node.exists_fold_comment pre c.1 c.2
    simp [hout]
  obtain ⟨hmem, hle, hfirst⟩ := h.starts_behind_generic hleads hsource hgiven
  refine ⟨(standsAt_of_generic? hcomment hgeneric).1, ⟨n, rest, hfold, ?_⟩, ?_⟩
  · have hcall := h.hasCall_of_leads hleads (hkind'.trans hkind) hskips
    rw [hgiven] at hcall
    exact hcall.of_span hspan
  · intro led' before' after' children' e'' s' h' hcomponent hskips'
    refine ⟨_, h'.hasCall_component hcomponent hskips', fun x' hx' hoffset => ?_⟩
    obtain ⟨hmem', hle', hfirst'⟩ := h'.starts_behind_generic .element hsource hx'
    rw [hoffset] at hle' hfirst'
    rw [← hspan]
    exact Nat.le_antisymm (hfirst' e' hmem hle) (hfirst e'' hmem' hle')

/-- A template with a component behind a comment and white space. -/
def genericTemplate : String := "<!-- @vue-generic \x7bT\x7d -->\n<C/>"

/-- The nodes of the template as they are read. -/
def genericNodes : List Node :=
  [] ++ .comment ⟨0, 25⟩ " @vue-generic \x7bT\x7d " ::
    ([.text ⟨25, 26⟩ "\n"] ++ .element ⟨⟨26, 30⟩, "C", .component, [], true, 30⟩ [] :: [])

theorem generic_of_comment_bare :
    (Markup.parseTemplate genericTemplate).1.nodes = (Node.fold genericNodes).1 ∧
      (∃ s, Walked bareSetting {} (Markup.parseTemplate genericTemplate).1 [] (Node.fold genericNodes).1 s ∧
        ∃ n rest, (Node.fold genericNodes).1 = [.comment ⟨0, 25⟩ " @vue-generic \x7bT\x7d "] ++ n :: rest ∧
          let outside := ((nodes [.comment ⟨0, 25⟩ " @vue-generic \x7bT\x7d "]).after bareSetting s).2
          HasCall ⟨⟨26, 30⟩, "C", .component, [], true, 30⟩ (some ⟨"T", 19⟩) outside.code.segments
            ((node n).after bareSetting outside).2.code.segments) ∧
      Text.StandsAt genericTemplate.toList 19 ['T'] := by
  have hnodes : (Markup.parseTemplate genericTemplate).1.nodes = (Node.fold genericNodes).1 := by decide +kernel
  have hblanks : ∀ n ∈ [Node.text ⟨25, 26⟩ "\n"], n.IsBlank := by
    intro n hn
    obtain rfl := List.mem_singleton.1 hn
    exact ⟨_, _, rfl, by decide⟩
  have hstates : StatesGeneric (⟨0, 25⟩, " @vue-generic \x7bT\x7d ") ⟨"T", 19⟩ :=
    ⟨[' '], [' '], [' '], List.all_eq_true.1 rfl, by decide, rfl⟩
  have hkept : (Node.fold ([] ++ [.comment ⟨0, 25⟩ " @vue-generic \x7bT\x7d "])).1 <+: (Node.fold genericNodes).1 := ⟨_, rfl⟩
  obtain ⟨s, hs⟩ := exists_walked bareSetting {} rfl (Markup.parseTemplate genericTemplate).1
  rw [hnodes] at hs
  obtain ⟨hstands, hcall, -⟩ := generic_of_comment (c := (⟨0, 25⟩, " @vue-generic \x7bT\x7d ")) hs rfl hblanks rfl hstates hkept
    (by decide +kernel)
  exact ⟨hnodes, ⟨s, hs, hcall⟩, hstands⟩

/-- A component with `v-if` behind a comment. -/
def conditionalTemplate : String := "<!-- @vue-generic \x7bT\x7d --><C v-if=\"a\"/>"

/-- The comment states type arguments, and the element behind it is a component, but its call has none. -/
theorem no_generic_of_conditional :
    (Markup.Reader.nodes ((Markup.Reader.new conditionalTemplate).size + 1) [] (Markup.Reader.new conditionalTemplate)).1 =
        [.comment ⟨0, 25⟩ " @vue-generic \x7bT\x7d ", .element ⟨⟨25, 38⟩, "C", .component,
          [.directive ⟨"if", "v-if", none, some ⟨"a", 34, false⟩, [], ⟨28, 36⟩⟩], true, 38⟩ []] ∧
      StatesGeneric (⟨0, 25⟩, " @vue-generic \x7bT\x7d ") ⟨"T", 19⟩ ∧
      ((nodes (Markup.parseTemplate conditionalTemplate).1.nodes).after bareSetting {}).2.code.toText =
        "if (__VLS_ctx.a) \x7b\n" ++
          "let __VLS_0!: __VLS_WithComponent<\"C\", __VLS_LocalComponents, __VLS_GlobalComponents, void, \"C\">[\"C\"];\n" ++
          "// @ts-ignore\nconst __VLS_1 = __VLS_asFunctionalComponent1(__VLS_0, new __VLS_0(\x7b\n\x7d));\n" ++
          "const __VLS_2 = __VLS_1(\x7b\n\x7d, ...__VLS_functionalComponentArgsRest(__VLS_1));\n" ++ "\x7d\n" := by
  refine ⟨?_, ⟨[' '], [' '], [' '], List.all_eq_true.1 rfl, by decide, rfl⟩, by decide +kernel⟩
  decide +kernel

end

end Generate

end TypedSfc
