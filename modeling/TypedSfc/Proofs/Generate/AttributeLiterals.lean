import TypedSfc.Proofs.Generate.ComponentNames
import TypedSfc.Proofs.Text.Literals

/-!
# Literals of attributes

The value of an attribute is written between quotes: those that it stands in, and double ones for a value without. A value with a
backslash or a line feed is written as the escapes of its units, which denote it between any quotes. Any other value is written as it
is, and then it must not have what ends a literal: its own quote, or a carriage return. A value in quotes does not have its quote inside,
but a value without quotes may have double ones.
-/

namespace TypedSfc

open Segment

namespace Generate

open Markup (Attribute AttributeValue Element Property)

/-! ## What is written somewhere -/

/-- From any state, a generator adds code in which segments of a kind stand. -/
def Brings {α : Type} (r : Setting) (g : Gen α) (P : List Segment → Prop) : Prop :=
  ∀ s : State, ∃ before ss after, (g.after r s).2.code.segments = s.code.segments ++ before ++ ss ++ after ∧ P ss

section

variable {α β : Type} {r : Setting} {P : List Segment → Prop}

theorem Brings.mono {Q : List Segment → Prop} {g : Gen α} (hg : Brings r g P) (h : ∀ ss, P ss → Q ss) : Brings r g Q := by
  intro s
  obtain ⟨before, ss, after, hss, hP⟩ := hg s
  exact ⟨before, ss, after, hss, h ss hP⟩

theorem Brings.before {g : Gen α} {k : α → Gen β} (hg : Brings r g P) (hk : ∀ a, Prolongs r (k a)) : Brings r (g >>= k) P := by
  intro s
  obtain ⟨before, ss, after, hss, hP⟩ := hg s
  obtain ⟨more, hmore⟩ := hk (g.after r s).1 (g.after r s).2
  refine ⟨before, ss, after ++ more, ?_, hP⟩
  rw [after_bind, ← hmore, hss, List.append_assoc _ after]

theorem Brings.behind {g : Gen α} {k : α → Gen β} (hg : Prolongs r g) (hk : ∀ a, Brings r (k a) P) : Brings r (g >>= k) P := by
  intro s
  obtain ⟨less, hless⟩ := hg s
  obtain ⟨before, ss, after, hss, hP⟩ := hk (g.after r s).1 (g.after r s).2
  refine ⟨less ++ before, ss, after, ?_, hP⟩
  rw [after_bind, hss, ← hless, List.append_assoc _ less]

theorem Prolongs.ite {p : Prop} [Decidable p] {g g' : Gen α} (h : Prolongs r g) (h' : Prolongs r g') :
    Prolongs r (if p then g else g') := by
  split
  · exact h
  · exact h'

end

/-! ## Values -/

/-- Whether a value is written as escapes. -/
def isEscaped (t : String) : Bool := t.toList.any fun c => c == '\\' || c == '\n'

/-- What a value is written as, without its quotes. -/
def valueText (t : String) : String := if isEscaped t then Text.unicodeEscapes t else t

/-- A value that is mapped to its place: as one piece, or by marks at both ends of its escapes. -/
def StandsForValue (v : AttributeValue) (ss : List Segment) : Prop :=
  ∃ i j, ss = if isEscaped v.content then
      [.mapped "" SourceId.template v.offset i, .text (Text.unicodeEscapes v.content),
        .mapped "" SourceId.template (v.offset + v.content.utf8ByteSize) j]
    else [.mapped v.content SourceId.template v.offset i]

theorem contents_of_standsForValue {v : AttributeValue} {ss : List Segment} (h : StandsForValue v ss) :
    contents ss = valueText v.content := by
  obtain ⟨i, j, rfl⟩ := h
  unfold valueText
  split <;> simp [contents_eq_join, content]

theorem unicodeEscapes_ne_empty {t : String} (h : isEscaped t = true) : Text.unicodeEscapes t ≠ "" := by
  intro hempty
  obtain ⟨c, hc, -⟩ := List.any_eq_true.1 h
  have hnil : t.toList.flatMap (fun c => (Text.unitsOf c).flatMap Text.unitEscape) = [] := by
    rw [← String.toList_ofList (l := t.toList.flatMap _)]
    exact congrArg String.toList hempty
  have hunits := List.flatMap_eq_nil_iff.1 hnil c hc
  unfold Text.unitsOf at hunits
  dsimp only at hunits
  split at hunits <;> simp [Text.unitEscape] at hunits

/-- The value of an attribute is written at its place. -/
theorem exists_segments_literal (code : Code) (v : AttributeValue) (i : Info) :
    ∃ ss, (code.literal v.content SourceId.template v.offset i).segments = code.segments ++ ss ∧ StandsForValue v ss := by
  unfold Code.literal
  split
  · rename_i h
    exact ⟨_, segments_bounded (unicodeEscapes_ne_empty h) .., _, _, (if_pos h).symm⟩
  · rename_i h
    exact ⟨_, rfl, _, default, (if_neg h).symm⟩

/-! ## Quotes -/

/-- A value stands between single or double quotes: in those that it was read in, and in double ones if it was read without. -/
theorem exists_quoteOf {source : List Char} {v : AttributeValue} (h : v.FollowsQuote source) :
    ∃ q, (q = '\x22' ∨ q = '\x27') ∧ quoteOf source v = String.singleton q ∧ (v.quoted = true → q ∉ v.content.toList) ∧
      (v.quoted = false → q = '\x22') := by
  cases hquoted : v.quoted with
  | false =>
    refine ⟨'\x22', .inl rfl, ?_, by simp, fun _ => rfl⟩
    rw [quoteOf, hquoted]
    rfl
  | true =>
    obtain ⟨q, hq, hpos, hstands, hnot⟩ := h hquoted
    refine ⟨q, hq, ?_, fun _ => hnot, by simp⟩
    have hone : v.offset - 1 + Text.size [q] = v.offset := by
      rcases hq with rfl | rfl <;> exact Nat.sub_add_cancel hpos
    have hbetween := hstands.between_eq
    rw [hone] at hbetween
    rw [quoteOf, hquoted, hbetween]
    rcases hq with rfl | rfl
    · simp [hpos]
    · simp [hpos]

/-- The literal that a value is written as. -/
def literalText (source : List Char) (v : AttributeValue) : String := quoteOf source v ++ valueText v.content ++ quoteOf source v

/-- Whether a value is written as a literal: its units are escapes, or nothing in it ends a literal. -/
def HasLiteral (v : AttributeValue) : Prop :=
  '\\' ∈ v.content.toList ∨ '\n' ∈ v.content.toList ∨ '\r' ∉ v.content.toList ∧ (v.quoted = false → '\x22' ∉ v.content.toList)

instance (v : AttributeValue) : Decidable (HasLiteral v) := by
  unfold HasLiteral
  infer_instance

/-- The literal of a value denotes the value, or it is none. -/
theorem literalUnits?_literalText {source : List Char} {v : AttributeValue} (h : v.FollowsQuote source) :
    Text.literalUnits? (literalText source v).toList =
      if HasLiteral v then some (v.content.toList.flatMap Text.unitsOf) else none := by
  obtain ⟨q, hq, hquote, hinside, hbare⟩ := exists_quoteOf h
  have hbackslash : q ≠ '\\' := by
    rcases hq with rfl | rfl <;> decide
  have hliteral : (literalText source v).toList = q :: ((valueText v.content).toList ++ [q]) := by
    rw [literalText, hquote]
    simp
  rw [hliteral, Text.literalUnits?_quoted hq]
  unfold valueText
  cases hescaped : isEscaped v.content with
  | true =>
    have hhas : HasLiteral v := by
      obtain ⟨c, hc, hcases⟩ := List.any_eq_true.1 hescaped
      rcases Bool.or_eq_true_iff.1 hcases with heq | heq
      · exact .inl (eq_of_beq heq ▸ hc)
      · exact .inr (.inl (eq_of_beq heq ▸ hc))
    rw [if_pos rfl, if_pos hhas, Text.bodyUnits?_unicodeEscapes hbackslash]
  | false =>
    have hnone := List.any_eq_false.1 hescaped
    have hslash : '\\' ∉ v.content.toList := fun hmem => hnone _ hmem rfl
    have hfeed : '\n' ∉ v.content.toList := fun hmem => hnone _ hmem rfl
    have hiff : HasLiteral v ↔ ¬(q ∈ v.content.toList ∨ '\n' ∈ v.content.toList ∨ '\r' ∈ v.content.toList) := by
      unfold HasLiteral
      cases hquoted : v.quoted with
      | true => simp [hslash, hfeed, hinside hquoted]
      | false => simp [hslash, hfeed, hbare hquoted, and_comm]
    rw [if_neg Bool.false_ne_true, Text.bodyUnits?_of_notMem hslash]
    split
    · rename_i hends
      exact (if_neg (mt hiff.1 (not_not_intro hends))).symm
    · rename_i hends
      exact (if_pos (hiff.2 hends)).symm

/-! ## Entries -/

/-- A value between quotes. -/
def IsLiteralOf (source : List Char) (v : AttributeValue) (ss : List Segment) : Prop :=
  ∃ value, ss = .text (quoteOf source v) :: (value ++ [.text (quoteOf source v)]) ∧ StandsForValue v value

theorem contents_of_isLiteralOf {source : List Char} {v : AttributeValue} {ss : List Segment} (h : IsLiteralOf source v ss) :
    contents ss = literalText source v := by
  obtain ⟨value, rfl, hstands⟩ := h
  have hvalue := contents_of_standsForValue hstands
  rw [contents_eq_join] at hvalue ⊢
  simp [hvalue, content, literalText, String.append_assoc]

/-- A literal of a value behind a colon. -/
def HoldsLiteral (source : List Char) (v : AttributeValue) (ss : List Segment) : Prop :=
  ∃ literal, ss = .text ": " :: literal ∧ IsLiteralOf source v literal

section

variable {r : Setting} {e : Element} {a : Attribute} {v : AttributeValue} {i : Info} {P : List Segment → Prop}

theorem quoteOf_ne_empty (source : List Char) (v : AttributeValue) : quoteOf source v ≠ "" := by
  unfold quoteOf
  split <;> decide

/-- Writes a value behind a colon. -/
def colonValue (quote : String) (v : AttributeValue) : Gen Unit := do
  text ": "
  text quote
  onCode (·.literal v.content SourceId.template v.offset Info.checked)
  text quote

theorem brings_colonValue (source : List Char) (v : AttributeValue) :
    Brings r (colonValue (quoteOf source v) v) (HoldsLiteral source v) := by
  intro s
  have hquote := quoteOf_ne_empty source v
  have hcolon : ": " ≠ "" := by decide
  obtain ⟨value, hvalue, hstands⟩ := exists_segments_literal ((s.code.text ": ").text (quoteOf source v)) v .checked
  refine ⟨[], _, [], ?_, _, rfl, value, rfl, hstands⟩
  unfold colonValue
  rw [after_bind, after_bind, after_bind, code_after_text, segments_text hquote]
  show (((s.code.text ": ").text (quoteOf source v)).literal v.content SourceId.template v.offset .checked).segments ++ _ = _
  rw [hvalue, segments_text hquote, segments_text hcolon]
  simp only [List.append_assoc, List.cons_append, List.nil_append, List.append_nil]

theorem Brings.spreading {name : String} {g : Gen Unit} (hg : Brings r g P) : Brings r (Generate.spreading name g) P := by
  unfold Generate.spreading
  extract_lets spread rest behind
  have hrest : ∀ u, Prolongs r (rest u) := fun _ => prolongs_text _
  have hbehind : ∀ u, Brings r (behind u) P := fun _ =>
    .before hg fun _ => .ite (.bind (prolongs_text _) hrest) (hrest ())
  split
  · exact .behind (prolongs_text _) hbehind
  · exact hbehind ()

/-- The entry of an attribute that is not one of data, and not `style`, has the literal of its value. -/
theorem brings_attributeEntry (hdata : Text.matchesOne r.options.dataAttributes a.name = false) (hstyle : a.name ≠ "style")
    (hv : a.value = some v) (hi : i.role = none) : Brings r (attributeEntry e a i) (HoldsLiteral r.source v) := by
  intro s
  unfold attributeEntry
  have hother : (a.name == "style") = false := by simpa using hstyle
  rw [after_read_bind, if_neg (by simp [hdata])]
  simp only [hv, hother, Bool.false_eq_true, if_false]
  have hentry : Brings r (openAt a.span.start Info.checked >>= fun b =>
      objectKey a.name a.span.start i (isCamelized e r.options.htmlAttributes true a.name) false >>= fun _ =>
        colonValue (quoteOf r.source v) v >>= fun _ => close b a.span.stop) (HoldsLiteral r.source v) :=
    .behind (quiet_openAt _ _).prolongs fun b => .behind (keeps_objectKey _ _ hi _ _).prolongs fun _ =>
      .before (brings_colonValue r.source v) fun _ => (quiet_close b _).prolongs
  exact Brings.spreading hentry s

/-- Among the entries of some properties each attribute with a value has its literal, unless it is one of data, or `style`. -/
theorem brings_entries {ps : List Property} (ha : .plain a ∈ ps) (hdata : Text.matchesOne r.options.dataAttributes a.name = false)
    (hstyle : a.name ≠ "style") (hv : a.value = some v) (strict : Bool) :
    Brings r (entries e ps strict) (HoldsLiteral r.source v) := by
  have hi := role_propertyOf strict
  have hvalues : Brings r (valueEntries e (Info.propertyOf strict) ps) (HoldsLiteral r.source v) := by
    induction ps with
    | nil => exact absurd ha List.not_mem_nil
    | cons p ps ih =>
      rcases List.mem_cons.1 ha with rfl | ha
      · have hfirst : Brings r (entry e (Info.propertyOf strict) (.plain a)) (HoldsLiteral r.source v) :=
          .before (brings_attributeEntry hdata hstyle hv hi) fun _ => (closes_pure _).prolongs
        exact .before hfirst fun _ => .bind (keeps_valueEntries e hi ps).prolongs fun _ => (closes_pure _).prolongs
      · exact .behind (keeps_entry e hi p).prolongs fun _ => .before (ih ha) fun _ => (closes_pure _).prolongs
  exact .behind (keeps_listenerEntries _ ps).prolongs fun _ => .before hvalues fun _ => (closes_pure _).prolongs

/-! ## Elements of a template -/

/-- A value that was read follows its quote. -/
theorem followsQuote_of_read {source : String} (he : e ∈ Markup.nodeHeads (Markup.parseTemplate source).1.nodes)
    (ha : .plain a ∈ e.props) (hv : a.value = some v) : v.FollowsQuote source.toList := by
  obtain ⟨raw, hraw, hproperty, -⟩ := (Markup.parseTemplate_read source e he).props_read _ ha
  unfold Markup.RawAttribute.property at hproperty
  split at hproperty
  · cases hproperty
  · obtain rfl := Property.plain.inj hproperty
    exact hraw.value_followsQuote v hv

/-- The entries of the properties of an element have each attribute with a value, unless it is `style` or one of data, as a colon and the
value between two quotes. That is a string literal, and then it denotes the value, unless the value has neither a backslash nor a line
feed, but a carriage return, or double quotes while it is not in quotes itself. -/
theorem attribute_literals {source : String} (he : e ∈ Markup.nodeHeads (Markup.parseTemplate source).1.nodes)
    (ha : .plain a ∈ e.props) (hv : a.value = some v) (hstyle : a.name ≠ "style") (hsource : r.source = source.toList)
    (hdata : Text.matchesOne r.options.dataAttributes a.name = false) {ps : List Property} (hps : .plain a ∈ ps) (strict : Bool) :
    Brings r (entries e ps strict) fun ss => ∃ literal, ss = .text ": " :: literal ∧ IsLiteralOf r.source v literal ∧
      Text.literalUnits? (contents literal).toList = if HasLiteral v then some (v.content.toList.flatMap Text.unitsOf) else none := by
  refine (brings_entries hps hdata hstyle hv strict).mono fun ss hholds => ?_
  obtain ⟨literal, rfl, hliteral⟩ := hholds
  refine ⟨literal, rfl, hliteral, ?_⟩
  rw [contents_of_isLiteralOf hliteral, hsource, literalUnits?_literalText (followsQuote_of_read he ha hv)]

/-- A template with a value in single quotes that has double ones and a line feed inside. -/
def quotedTemplate : String := "<p a=\x27b\"c\n\x27></p>"

theorem attribute_literals_quoted :
    ∃ e ∈ Markup.nodeHeads (Markup.parseTemplate quotedTemplate).1.nodes, ∃ a v, .plain a ∈ e.props ∧ a.value = some v ∧
      a.name ≠ "style" ∧ Text.matchesOne bareSetting.options.dataAttributes a.name = false ∧
      ∃ before literal after,
        ((entries e e.props true).after { bareSetting with source := quotedTemplate.toList } {}).2.code.segments =
          before ++ .text ": " :: literal ++ after ∧
        Text.literalUnits? (contents literal).toList = some [98, 34, 99, 10] := by
  let a : Attribute := ⟨"a", some ⟨"b\"c\n", 6, true⟩, ⟨3, 11⟩⟩
  have hmem : (⟨⟨0, 16⟩, "p", .native, [.plain a], false, 12⟩ : Element) ∈
      Markup.nodeHeads (Markup.parseTemplate quotedTemplate).1.nodes := by decide +kernel
  have ha : Property.plain a ∈ [Property.plain a] := List.mem_cons_self
  have hname : a.name ≠ "style" := by decide
  have hdata : Text.matchesOne bareSetting.options.dataAttributes a.name = false := by decide +kernel
  obtain ⟨before, _, after, hsegments, literal, rfl, -, hunits⟩ := attribute_literals
    (r := { bareSetting with source := quotedTemplate.toList }) hmem ha rfl hname rfl hdata ha true {}
  exact ⟨_, hmem, a, _, ha, rfl, hname, hdata, before, literal, after, hsegments, hunits⟩

/-- A template with a value without quotes that has double ones inside. -/
def bareTemplate : String := "<p a=b\"c></p>"

/-- Double quotes in a value without quotes end its literal, so that there is none. -/
theorem no_literal_of_double_quotes :
    (∃ e ∈ Markup.nodeHeads (Markup.parseTemplate bareTemplate).1.nodes, e.props = [.plain ⟨"a", some ⟨"b\"c", 5, false⟩, ⟨3, 8⟩⟩] ∧
        ((entries e e.props true).after { bareSetting with source := bareTemplate.toList } {}).2.code.toText = "a: \"b\"c\",\n") ∧
      Text.literalUnits? "\"b\"c\"".toList = none := by
  decide +kernel

end

end Generate

end TypedSfc
