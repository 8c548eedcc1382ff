import TypedSfc.Proofs.Generate.CamelParts
import TypedSfc.Proofs.Generate.ComponentSteps
import TypedSfc.Proofs.Markup.Template

/-!
# Names of components

A tag stands for a constant of the setup script under any of three spellings: in PascalCase, in camelCase and as it is written. The name
of the constant is not written as it stands there, but put together again from the tag, with the first character of the constant before
the parts of the tag, so that each part keeps its place. The first character of a tag is a letter of ASCII, which has one character in
upper case; and where a spelling has no hyphen, each hyphen of the tag leads a word, so that the parts spell what camelCase does.
-/

namespace TypedSfc

open Segment

namespace Generate

open Markup (Element Node TagKind)

/-- The names that a tag may stand for: in PascalCase, in camelCase and as it is written. -/
def casings (tag : String) : List String := [Text.capitalize (Text.camelize tag), Text.camelize tag, tag]

/-! ## Spellings -/

theorem nodup_addNew {α : Type} [DecidableEq α] {a : α} {as : List α} (h : as.Nodup) : (addNew a as).Nodup := by
  unfold addNew
  split
  · exact h
  · rename_i ha
    exact List.nodup_append.2 ⟨h, by simp, fun b hb c hc heq => ha (List.mem_singleton.1 hc ▸ heq ▸ hb)⟩

/-- A search finds the same whether what was met before is left out or not. -/
theorem find?_addNew {α : Type} [DecidableEq α] (p : α → Bool) (a : α) (as : List α) : (addNew a as).find? p = (as ++ [a]).find? p := by
  unfold addNew
  split
  · rename_i ha
    rw [List.find?_append]
    cases hp : as.find? p with
    | some b => rfl
    | none =>
      have hnot : p a = false := by simpa using List.find?_eq_none.1 hp a ha
      simp [hnot]
  · rfl

theorem find?_spellings (tag : String) (p : String → Bool) : (spellings tag).find? p = (casings tag).find? p := by
  unfold spellings
  dsimp only
  rw [find?_addNew, List.find?_append, find?_addNew, ← List.find?_append]
  rfl

theorem nodup_spellings (tag : String) : (spellings tag).Nodup := nodup_addNew (nodup_addNew (by simp))

theorem mem_spellings_iff (tag name : String) : name ∈ spellings tag ↔ name ∈ casings tag := by
  unfold spellings casings
  dsimp only
  rw [mem_addNew_iff, mem_addNew_iff, List.mem_singleton, List.mem_cons, List.mem_cons, List.mem_singleton]
  tauto

/-! ## A constant from its tag -/

/-- A casing without hyphens is the tag behind its first letter, in camelCase, and that letter or its capital. -/
theorem exists_of_mem_casings {tag name : String} {c : Char} {cs : List Char} (htag : tag.toList = c :: cs) (hc : c.isAlpha = true)
    (hname : name ∈ casings tag) (hhyphen : '-' ∉ name.toList) :
    ∃ d : Char, d ≠ '-' ∧ d.utf8Size = c.utf8Size ∧ name.toList = d :: Text.camelChars cs := by
  have hne : c ≠ '-' := by
    rintro rfl
    cases hc
  obtain ⟨hupper, hsize⟩ := Text.toUpper_of_isAlpha hc
  have hcamel : (Text.camelize tag).toList = c :: Text.camelChars cs := by
    rw [Text.camelize, String.toList_ofList, htag, Text.camelChars_cons_of_ne hne]
  rcases List.mem_cons.1 hname with rfl | hname
  · refine ⟨c.toUpper, ?_, hsize, ?_⟩
    · have hmem := Text.hyphen_notMem_toUpper hne
      rw [hupper, List.mem_singleton] at hmem
      exact Ne.symm hmem
    · rw [Text.capitalize_of_cons hcamel, String.toList_ofList, hupper]
      rfl
  · rcases List.mem_cons.1 hname with rfl | hname
    · exact ⟨c, hne, rfl, hcamel⟩
    · obtain rfl := List.mem_singleton.1 hname
      have hrest : '-' ∉ cs := fun hmem => hhyphen (htag ▸ List.mem_cons_of_mem c hmem)
      have hsame : Text.camelChars cs = cs := by simpa [Text.camelChars] using Text.camelChars_append hrest []
      exact ⟨c, hne, rfl, by rw [htag, hsame]⟩

/-- The parts of a tag with the first character of a constant spell the constant. -/
theorem camelSpelling_spelledAs {tag name : String} {c : Char} {cs : List Char} (htag : tag.toList = c :: cs) (hc : c.isAlpha = true)
    (hname : name ∈ casings tag) (hhyphen : '-' ∉ name.toList) : Code.camelSpelling (spelledAs name tag) = name := by
  obtain ⟨d, hd, -, heq⟩ := exists_of_mem_casings htag hc hname hhyphen
  have hcode : (spelledAs name tag).toList = d :: cs := by
    rw [spelledAs, String.toList_ofList, heq, htag]
    rfl
  have hlead : Text.hyphensLead cs = true := by
    rw [← Text.hyphen_notMem_camelChars_iff]
    exact fun hmem => hhyphen (heq ▸ List.mem_cons_of_mem d hmem)
  have hspelling := (Code.camelSpelling_eq_camelize_iff (spelledAs name tag)).2 (by rw [hcode, Text.hyphensLead_cons_of_ne hd, hlead])
  rw [hspelling, ← String.toList_inj, Text.camelize, String.toList_ofList, hcode, Text.camelChars_cons_of_ne hd, heq]

/-- A tag with the first character of a constant has the size of the tag. -/
theorem utf8ByteSize_spelledAs {tag name : String} {c : Char} {cs : List Char} (htag : tag.toList = c :: cs) (hc : c.isAlpha = true)
    (hname : name ∈ casings tag) (hhyphen : '-' ∉ name.toList) : (spelledAs name tag).utf8ByteSize = tag.utf8ByteSize := by
  obtain ⟨d, -, hsize, heq⟩ := exists_of_mem_casings htag hc hname hhyphen
  rw [← Text.size_toList, ← Text.size_toList tag, spelledAs, String.toList_ofList, heq, htag]
  show Text.size (d :: cs) = Text.size (c :: cs)
  rw [Text.size_cons, Text.size_cons, hsize]

/-- Whether segments spell a name, all of them mapped into a range of the template. -/
def Spells (name : String) (start stop : Nat) (ss : List Segment) : Prop :=
  contents ss = name ∧ ∀ s ∈ ss, ∃ t o i, s = .mapped t SourceId.template o i ∧ start ≤ o ∧ o < stop

/-- A name in camelCase is written in pieces that are mapped into it. -/
theorem spells_camelized (code : Code) (name : String) (offset : Nat) (i : Info) :
    ∃ ss, (code.camelized name SourceId.template offset i).segments = code.segments ++ ss ∧
      Spells (Code.camelSpelling name) offset (offset + name.utf8ByteSize) ss := by
  refine ⟨_, Code.segments_camelized_eq .., ?_, fun s hs => ?_⟩
  · rw [Code.contents_pieces (Code.length_pieceInfos ..), Code.camelSpelling, Code.camelParts_eq, List.map_map]
    rfl
  · obtain ⟨p, hp, i, rfl⟩ := Code.exists_of_mem_pieces hs
    obtain ⟨hne, -, front, back, hname, hsize, -⟩ := (Code.mem_nameParts_iff name p).1 hp
    have hpos := Text.size_pos hne
    refine ⟨_, _, _, rfl, Nat.le_add_right .., Nat.add_lt_add_left ?_ _⟩
    rw [← Text.size_toList, hname, Text.size_append, Text.size_append, hsize]
    omega

/-! ## What is written -/

section

variable {r : Setting}

theorem toText_after_quotedKey (key : String) (offset : Nat) (i : Info) (s : State) :
    ((quotedKey key offset i).after r s).2.code.toText = s.code.toText ++ ("\"" ++ key ++ "\"") := by
  show Code.toText (Code.closed (Code.text (Code.joined (Code.text (Code.opened s.code SourceId.template offset i).2 "\"") _ key _) "\"")
    _ _) = _
  rw [Code.toText_closed, Code.toText_text, Code.toText_joined, Code.toText_text, Code.toText_opened]
  simp only [String.append_assoc]

/-- What declares the variable of a component that is named after a constant: the name, mapped into the opening tag, and mapped into the
closing tag if there is one. -/
def NamedAfter (variable' name : String) (size start : Nat) (stop : Option Nat) (ss : List Segment) : Prop :=
  ∃ opening closing, ss = .text ("const " ++ variable' ++ " = ") :: (opening ++ closing ++ [.text ";\n"]) ∧
    Spells name start (start + size) opening ∧
    match stop with
    | none => closing = []
    | some stop => ∃ names, closing = .text " || " :: names ∧ Spells name stop (stop + size) names

/-- What declares the variable of a component that is looked up under some names, each for itself. -/
def lookUpText (setting : Setting) (variable' tag : String) (names : List String) : String :=
  "let " ++ variable' ++ "!: " ++ Names.ofKey "WithComponent" ++ "<\"" ++ tag ++ "\", " ++ Names.ofKey "LocalComponents" ++ ", " ++
    Names.ofKey "GlobalComponents" ++
      (if names.contains setting.componentName then ", typeof " ++ Names.ofKey "export" else ", void") ++
        String.join (names.map fun n => ", \"" ++ n ++ "\"") ++ ">[" ++ ("\"" ++ tag ++ "\"") ++ "];\n"

/-- A tag that is no expression, with its places. -/
theorem ofElement_eq {e : Element} (hdot : '.' ∉ e.tag.toList) (hdynamic : e.tag = "component" → ∀ p ∈ e.props, dynamicExpression? p = none)
    (source : List Char) : Callee.ofElement e source = ⟨e.tag, false, e.tagOffset, e.endTagOffset source, e.props⟩ := by
  have hplain : e.tag.toList.contains '.' = false := by simpa using hdot
  have hsplit : ∀ ps : List Markup.Property, (∀ p ∈ ps, dynamicExpression? p = none) → splitDynamic ps = none := by
    intro ps
    induction ps with
    | nil => exact fun _ => rfl
    | cons p ps ih =>
      intro h
      rw [splitDynamic, h p List.mem_cons_self, ih fun q hq => h q (List.mem_cons_of_mem p hq)]
      rfl
  unfold Callee.ofElement
  rw [hplain]
  dsimp only
  split
  · rename_i htag
    rw [hsplit e.props (hdynamic (by simpa using htag))]
  · rfl

variable {c : Callee} {name : String}

theorem code_after_camelized (name : String) (offset : Nat) (i : Info) (s : State) :
    ((camelized name offset i).after r s).2.code = s.code.camelized name SourceId.template offset i := rfl

/-- What is written at both tags adds to the code the same way at each. -/
theorem code_after_atBothTags {g : Nat → Gen Unit} {f : Nat → Code → Code} (hg : ∀ start s, ((g start).after r s).2.code = f start s.code)
    (s : State) : ((atBothTags c g).after r s).2.code =
      match c.stop with
      | none => f c.start s.code
      | some stop => f stop ((f c.start s.code).text " || ") := by
  unfold atBothTags
  rw [after_bind]
  cases c.stop with
  | none => exact hg c.start s
  | some stop =>
    dsimp only
    rw [after_bind, hg, code_after_text, hg]

theorem segments_of_constant (variable' : String) (s : State) (hplain : c.isExpression = false)
    (hfind : (spellings c.code).find? r.setupConsts.contains = some name)
    (hspelling : Code.camelSpelling (spelledAs name c.code) = name)
    (hsize : (spelledAs name c.code).utf8ByteSize = c.code.utf8ByteSize) :
    ∃ ss, ((componentVariable variable' c).after r s).2.code.segments = s.code.segments ++ ss ∧
      NamedAfter variable' name c.code.utf8ByteSize c.start c.stop ss := by
  have hhead : "const " ++ variable' ++ " = " ≠ "" := by simp
  have hor : " || " ≠ "" := by decide
  have hend : ";\n" ≠ "" := by decide
  have hspells : ∀ (code : Code) (offset : Nat),
      ∃ ss, (code.camelized (spelledAs name c.code) SourceId.template offset .checked).segments = code.segments ++ ss ∧
        Spells name offset (offset + c.code.utf8ByteSize) ss := by
    intro code offset
    have h := spells_camelized code (spelledAs name c.code) offset .checked
    rwa [hspelling, hsize] at h
  have hboth := code_after_atBothTags (r := r) (c := c) (f := fun start code =>
    code.camelized (spelledAs name c.code) SourceId.template start .checked) fun start s => code_after_camelized _ start .checked s
  unfold componentVariable
  rw [if_neg (by simp [hplain]), after_modify_bind, after_read_bind]
  dsimp only
  rw [hfind]
  dsimp only
  rw [after_bind, after_bind, code_after_text, hboth, code_after_text, segments_text hend]
  obtain ⟨opening, hopening, hnamed⟩ := hspells (s.code.text ("const " ++ variable' ++ " = ")) c.start
  cases c.stop with
  | none =>
    have hss : NamedAfter variable' name c.code.utf8ByteSize c.start none
        (.text ("const " ++ variable' ++ " = ") :: (opening ++ [] ++ [.text ";\n"])) := ⟨opening, [], rfl, hnamed, rfl⟩
    refine ⟨_, ?_, hss⟩
    rw [hopening, segments_text hhead]
    simp only [List.append_assoc, List.cons_append, List.nil_append]
  | some stop =>
    obtain ⟨closing, hclosing, hnamed'⟩ := hspells (Code.text (Code.camelized (s.code.text ("const " ++ variable' ++ " = "))
      (spelledAs name c.code) SourceId.template c.start .checked) " || ") stop
    have hss : NamedAfter variable' name c.code.utf8ByteSize c.start (some stop)
        (.text ("const " ++ variable' ++ " = ") :: (opening ++ .text " || " :: closing ++ [.text ";\n"])) :=
      ⟨opening, .text " || " :: closing, rfl, hnamed, closing, rfl, hnamed'⟩
    refine ⟨_, ?_, hss⟩
    rw [hclosing, segments_text hor, hopening, segments_text hhead]
    simp only [List.append_assoc, List.cons_append, List.nil_append]

theorem toText_after_lookUp (variable' : String) (c : Callee) (names : List String) (s : State) :
    ((lookUp variable' c names).after r s).2.code.toText = s.code.toText ++ lookUpText r variable' c.code names := by
  unfold lookUp lookUpText
  rw [after_read_bind]
  extract_lets own
  rw [after_bind, after_bind]
  rw [toText_after_text]
  rw [toText_after_quotedKey]
  rw [toText_after_text]
  simp only [String.append_assoc]
  rfl

theorem contents_of_lookUp (variable' : String) (s : State) (hplain : c.isExpression = false)
    (hfind : (spellings c.code).find? r.setupConsts.contains = none) :
    ∃ ss, ((componentVariable variable' c).after r s).2.code.segments = s.code.segments ++ ss ∧
      contents ss = lookUpText r variable' c.code (spellings c.code) := by
  obtain ⟨ss, hss⟩ := ((keeps_componentVariable variable' c).prolongs : Prolongs r _) s
  refine ⟨ss, hss.symm, ?_⟩
  have htext : ((componentVariable variable' c).after r s).2.code.toText =
      s.code.toText ++ lookUpText r variable' c.code (spellings c.code) := by
    unfold componentVariable
    rw [if_neg (by simp [hplain]), after_modify_bind, after_read_bind]
    dsimp only
    rw [hfind]
    dsimp only
    rw [toText_after_lookUp]
  rw [Code.toText, ← hss, contents_append] at htext
  exact (String.append_right_inj _).1 htext

/-- A component whose tag is no expression is named after a constant of the setup script, if one has a spelling of the tag for its name:
after the first one in PascalCase, camelCase and as the tag is written, at the opening tag and at the closing tag. Otherwise it is looked
up under all spellings, each once. -/
theorem component_named {source : String} {e : Element} (he : e ∈ Markup.nodeHeads (Markup.parseTemplate source).1.nodes)
    (hkind : e.kind = .component) (hdot : '.' ∉ e.tag.toList)
    (hdynamic : e.tag = "component" → ∀ p ∈ e.props, dynamicExpression? p = none) (r : Setting)
    (hconsts : ∀ name ∈ r.setupConsts, '-' ∉ name.toList) (s : State) (children : List Node) :
    ∃ declaration more, ((inside (.element e children)).after r s).2.code.segments = s.code.segments ++ declaration ++ more ∧
      match (casings e.tag).find? r.setupConsts.contains with
      | some name => NamedAfter (Names.temporary s.nextTemporary) name e.tag.utf8ByteSize e.tagOffset (e.endTagOffset r.source) declaration
      | none => ∃ names, names.Nodup ∧ (∀ name, name ∈ names ↔ name ∈ casings e.tag) ∧
          contents declaration = lookUpText r (Names.temporary s.nextTemporary) e.tag names := by
  have hletter := (Markup.parseTemplate_read source e he).tag_letter
  obtain ⟨c, cs, htag, hc⟩ : ∃ c cs, e.tag.toList = c :: cs ∧ c.isAlpha = true := by
    cases htag : e.tag.toList with
    | nil => simp [htag] at hletter
    | cons c cs => exact ⟨c, cs, rfl, by simpa [htag] using hletter⟩
  obtain ⟨t, props, -, hvariable, hcall⟩ := component_steps (r := r) s e (!children.isEmpty) (keeps_nodes children)
  obtain ⟨more, hmore⟩ := (prolongs_componentCall e (Callee.ofElement e r.source) s.nextVars props t).trans hcall
  rw [ofElement_eq hdot hdynamic r.source] at hvariable
  rw [inside_component hkind, ← hmore, hvariable, ← find?_spellings]
  cases hfind : (spellings e.tag).find? r.setupConsts.contains with
  | some name =>
    have hname : name ∈ casings e.tag := (mem_spellings_iff _ _).1 (List.mem_of_find?_eq_some hfind)
    have hhyphen : '-' ∉ name.toList := hconsts name (by simpa using List.find?_some hfind)
    obtain ⟨declaration, hdeclaration, hnamed⟩ := segments_of_constant (r := r) s.nextVars.component s.inNextComponent
      (c := ⟨e.tag, false, e.tagOffset, e.endTagOffset r.source, e.props⟩) rfl hfind (camelSpelling_spelledAs htag hc hname hhyphen)
      (utf8ByteSize_spelledAs htag hc hname hhyphen)
    exact ⟨declaration, more, congrArg (· ++ more) hdeclaration, hnamed⟩
  | none =>
    obtain ⟨declaration, hdeclaration, hlooked⟩ := contents_of_lookUp (r := r) s.nextVars.component s.inNextComponent
      (c := ⟨e.tag, false, e.tagOffset, e.endTagOffset r.source, e.props⟩) rfl hfind
    exact ⟨declaration, more, congrArg (· ++ more) hdeclaration, spellings e.tag, nodup_spellings _, mem_spellings_iff _, hlooked⟩

/-- A template whose only element has a closing tag, and a script with a constant of the name that the tag has in PascalCase. -/
def constantSetting : Setting := { bareSetting with source := "<my-comp></my-comp>".toList, setupConsts := ["MyComp"] }

theorem component_named_closed :
    ∃ e ∈ Markup.nodeHeads (Markup.parseTemplate "<my-comp></my-comp>").1.nodes, e.kind = .component ∧ '.' ∉ e.tag.toList ∧
      (e.tag = "component" → ∀ p ∈ e.props, dynamicExpression? p = none) ∧ (∀ name ∈ constantSetting.setupConsts, '-' ∉ name.toList) ∧
      ∃ declaration more, ((inside (.element e [])).after constantSetting {}).2.code.segments = declaration ++ more ∧
        NamedAfter "__VLS_0" "MyComp" 7 1 (some 11) declaration := by
  have hmem : (⟨⟨0, 19⟩, "my-comp", .component, [], false, 9⟩ : Element) ∈
      Markup.nodeHeads (Markup.parseTemplate "<my-comp></my-comp>").1.nodes := by decide +kernel
  have hdot : '.' ∉ "my-comp".toList := by decide
  have hconsts : ∀ name ∈ constantSetting.setupConsts, '-' ∉ name.toList := by decide
  obtain ⟨declaration, more, hsegments, hnamed⟩ := component_named hmem rfl hdot (by simp) constantSetting hconsts {} []
  have hfind : (casings "my-comp").find? constantSetting.setupConsts.contains = some "MyComp" := by decide +kernel
  have hstop : (⟨⟨0, 19⟩, "my-comp", .component, [], false, 9⟩ : Element).endTagOffset constantSetting.source = some 11 := by decide +kernel
  rw [hfind, hstop] at hnamed
  exact ⟨_, hmem, rfl, hdot, by simp, hconsts, declaration, more, hsegments, hnamed⟩

end

end Generate

end TypedSfc
