import TypedSfc.Generate.Slot
import TypedSfc.Proofs.Generate.Permits
import TypedSfc.Proofs.Text.Places

/-!
# What the entries of an element map

A permit is lawful for a setting when the parts of what stands somewhere stand there too, and when expressions and the parameters of
slots may be read from where they stand. Under a lawful permit the entries of an element map what stands in its properties.
-/

namespace TypedSfc

/-! ## Lawful permits -/

/-- The characters that the code around an expression is made of. No name has one of them. -/
def Text.isPunct (c : Char) : Bool := ['(', ')', ']', '}', '{', ';', '=', '>', ' ', '\n'].contains c

/-- Whether a text is made of such characters. -/
def Text.IsPunct (t : String) : Prop := ∀ c ∈ t.toList, Text.isPunct c = true

open Generate (Puts)

/-- A permit that follows from where texts stand. -/
structure Permit.Lawful (P : Permit) (r : Generate.Setting) : Prop where
  allows_of_stands : ∀ {source t o}, P.stands source t o → P.allows t source o
  allows_capitalized : ∀ {t o}, P.stands SourceId.template t o → P.allows (Text.capitalize t) SourceId.template o
  stands_part : ∀ {source t o k} {u : List Char}, P.stands source t o → Text.StandsAt t.toList k u →
    P.stands source (String.ofList u) (o + k)
  listener_allowed : ∀ {t o}, P.stands SourceId.template t o → P.listens t →
    Code.PartsAllowed P (Text.capitalize t) SourceId.template o ∧ P.allows "" SourceId.template (o + (Text.capitalize t).utf8ByteSize)
  puts_expressionIn : ∀ {source code o i front back e}, P.stands source code o → i.policy.isPlain = true → Text.IsPunct back →
    Puts P r e (Generate.expressionIn source code o i front back)
  puts_slotParameters : ∀ {x : Markup.Expression} {e}, P.stands SourceId.template x.content x.offset → P.binds x.offset → ∀ v,
    Puts P r e (Generate.slotParameters x v)

namespace Permit.Lawful

variable {P : Permit} {r : Generate.Setting}

/-- Where a text stands a place may be marked. -/
theorem allows_start (hP : P.Lawful r) {source : SourceId} {t : String} {o : Nat} (h : P.stands source t o) : P.allows "" source o :=
  hP.allows_of_stands (hP.stands_part (k := 0) (u := []) h ⟨_, Text.rest_zero _⟩)

/-- Where a text ends a place may be marked. -/
theorem allows_stop (hP : P.Lawful r) {source : SourceId} {t : String} {o : Nat} (h : P.stands source t o) :
    P.allows "" source (o + t.utf8ByteSize) := by
  rw [← Text.size_toList]
  exact hP.allows_of_stands (hP.stands_part (u := []) h ⟨[], Text.rest_size _⟩)

end Permit.Lawful

/-! ## What opening tags may hold -/

namespace Markup

/-- A directive whose parts stand in the template so far as they are mapped: an argument that is computed with its brackets, the name
of a directive without a rule of its own with its mark, and the name of a listener as it is capitalized. -/
structure Directive.Permitted (P : Permit) (d : Directive) : Prop where
  allows_start : P.allows "" SourceId.template d.span.start
  allows_stop : P.allows "" SourceId.template d.span.stop
  exp_stands : ∀ x ∈ d.exp, P.stands SourceId.template x.content x.offset
  exp_binds : ∀ x ∈ d.exp, P.binds x.offset
  arg_stands : ∀ a ∈ d.arg, P.stands SourceId.template a.content a.offset
  dynamic_stands : ∀ a ∈ d.arg, a.isStatic = false →
    P.stands SourceId.template ("[" ++ a.content ++ "]") (a.offset - 1) ∧ P.allows "" SourceId.template (a.stop + 1)
  name_stands : d.name ∉ ["slot", "on", "model", "bind"] → P.stands SourceId.template ("v-" ++ d.name) d.span.start
  allows_rawName : P.allows "" SourceId.template (d.span.start + d.rawName.utf8ByteSize)
  allows_model : d.name = "model" → P.allows "" SourceId.template (d.span.start + "v-model".length)
  modifiers_stand : d.name ≠ "bind" → ∀ m ∈ d.modifiers,
    P.stands SourceId.template m.content m.offset ∧ P.allows "" SourceId.template (m.offset - 1)
  listens : d.name = "on" → ∀ a ∈ d.arg, a.isStatic = true → P.listens a.content ∧ P.listens (Generate.EventName.ofDirective d).event

/-- An attribute whose name and value stand in the template. -/
structure Attribute.Permitted (P : Permit) (a : Attribute) : Prop where
  allows_stop : P.allows "" SourceId.template a.span.stop
  name_stands : P.stands SourceId.template a.name a.span.start
  value_stands : ∀ v ∈ a.value, P.stands SourceId.template v.content v.offset

def Property.Permitted (P : Permit) : Property → Prop
  | .plain a => a.Permitted P
  | .directive d => d.Permitted P

end Markup

namespace Code

/-! ## Names in parts -/

/-- The parts around hyphens stand at their positions; `part` is what came since the last hyphen. -/
theorem standsAt_of_mem_hyphenParts {source part cs : List Char} {start pos : Nat}
    (h : Text.StandsAt source start (part.reverse ++ cs)) (hpos : pos = start + Text.size part.reverse) :
    ∀ p ∈ hyphenParts pos part cs, Text.StandsAt source p.1 p.2 := by
  have hstart : pos - Text.size part = start := by
    rw [Text.size_reverse] at hpos
    omega
  induction cs generalizing pos part start with
  | nil =>
    intro p hp
    rw [hyphenParts, List.mem_singleton] at hp
    rw [hp, hstart]
    exact h.left
  | cons c cs ih =>
    intro p hp
    rw [hyphenParts] at hp
    split at hp
    · rcases List.mem_cons.1 hp with rfl | hp
      · rw [hstart]
        exact h.left
      · have hbehind : Text.StandsAt source (pos + c.utf8Size) ([].reverse ++ cs) := by
          have hright := h.right
          rw [← hpos] at hright
          change Text.StandsAt source pos ([c] ++ cs) at hright
          exact hright.right
        exact ih hbehind (by simp) (by simp) p hp
    · refine @ih (c :: part) start _ ?_ ?_ ?_ p hp
      · rw [List.reverse_cons, List.append_assoc]
        exact h
      · rw [List.reverse_cons, Text.size_append, ← Nat.add_assoc, ← hpos]
        rfl
      · rw [Text.size_cons]
        omega

/-- Each part of a name in camelCase stands in the name at its position, as it is if it is the first one, and else capitalized. -/
theorem exists_of_mem_camelParts {name : String} {p : Nat × String} (hp : p ∈ camelParts name) :
    ∃ u, Text.StandsAt name.toList p.1 u ∧
      ((p.1 = 0 ∧ p.2 = String.ofList u) ∨ (p.1 ≠ 0 ∧ p.2 = Text.capitalize (String.ofList u))) := by
  obtain ⟨q, hq, rfl⟩ := List.mem_map.1 hp
  have hwhole : Text.StandsAt name.toList 0 ([].reverse ++ name.toList) := ⟨[], by simpa using Text.rest_zero name.toList⟩
  have hstands := standsAt_of_mem_hyphenParts hwhole rfl q (List.mem_filter.1 hq).1
  refine ⟨q.2, hstands, ?_⟩
  dsimp only
  split
  · rename_i hzero
    exact .inl ⟨hzero, rfl⟩
  · rename_i hzero
    exact .inr ⟨hzero, rfl⟩

theorem partsAllowed {P : Permit} {r : Generate.Setting} (hP : P.Lawful r) {name : String} {offset : Nat}
    (h : P.stands SourceId.template name offset) : PartsAllowed P name SourceId.template offset := by
  intro p hp
  obtain ⟨u, hu, ⟨-, heq⟩ | ⟨-, heq⟩⟩ := exists_of_mem_camelParts hp
  · rw [heq]
    exact hP.allows_of_stands (hP.stands_part h hu)
  · rw [heq]
    exact hP.allows_capitalized (hP.stands_part h hu)

end Code

namespace Generate

open Markup (Attribute Directive Element Property)

variable {P : Permit} {r : Setting} {e : Option Effect}

/-! ## What nothing is mapped for -/

theorem puts_declare (names : List String) : Puts P r e (declare names) := by
  refine puts_of_same fun s => ?_
  obtain ⟨_, scopes, _⟩ := s
  cases scopes <;> exact ⟨rfl, rfl, rfl, rfl, rfl, rfl⟩

theorem puts_checkCut (start stop : Nat) (cs : List Char) : Puts P r e (checkCut start stop cs) :=
  puts_of_same fun _ => ⟨rfl, rfl, rfl, rfl, rfl, rfl⟩

theorem puts_access (name : String) : Puts P r e (access name) := puts_of_same fun _ => ⟨rfl, rfl, rfl, rfl, rfl, rfl⟩

theorem puts_fresh : Puts P r e fresh := puts_of_same fun _ => ⟨rfl, rfl, rfl, rfl, rfl, rfl⟩

theorem puts_noteType (name : String) : Puts P r e (noteType name) := puts_of_same fun _ => ⟨rfl, rfl, rfl, rfl, rfl, rfl⟩

theorem puts_hoist (name : String) : Puts P r e (hoist name) := by
  refine .andThen gives_get.puts fun s => ?_
  split
  · exact puts_pure _
  · exact .andThen puts_fresh fun _ => .andThen (puts_of_same fun _ => ⟨rfl, rfl, rfl, rfl, rfl, rfl⟩) fun _ => puts_pure _

theorem puts_writeGuards : Puts P r e writeGuards :=
  .andThen gives_get.puts fun _ => .andThen (puts_forIn fun _ _ _ => .text (puts_pure _)) fun _ => puts_pure _

theorem puts_ofComponent (mark : ComponentScope → ComponentScope) (f : ComponentScope → String) : Puts P r e (ofComponent mark f) := by
  refine puts_of_same fun s => ?_
  rw [ofComponent, after_get_bind]
  split <;> exact ⟨rfl, rfl, rfl, rfl, rfl, rfl⟩

theorem puts_contextVar : Puts P r e contextVar := puts_ofComponent _ _

theorem puts_propsVar : Puts P r e propsVar := puts_ofComponent _ _

theorem surrounds_inScope {c : Gen Unit → Gen Unit} (hc : Surrounds P r e c) : Surrounds P r e fun inner => inScope (c inner) :=
  .andThen (puts_of_same fun _ => ⟨rfl, rfl, rfl, rfl, rfl, rfl⟩) fun _ =>
    .before hc fun _ _ => puts_of_same fun _ => ⟨rfl, rfl, rfl, rfl, rfl, rfl⟩

theorem puts_inScope {g : Gen Unit} (hg : Puts P r e g) : Puts P r e (inScope g) := (surrounds_inScope surrounds_inner).puts hg

/-- Type arguments that a comment gave stand in the template. -/
theorem gives_currentGeneric :
    Gives P r e currentGeneric fun g => ∀ x ∈ g, P.stands SourceId.template x.content x.offset := by
  intro s _ hs
  refine ⟨.refl s, hs, ?_⟩
  intro x hx
  obtain ⟨f, hf, hx⟩ := Option.bind_eq_some_iff.1 (show s.frames.head?.bind (·.generic) = some x from hx)
  exact hs.generics_stand f (List.mem_of_mem_head? hf) x hx

theorem isPlain_propertyOf (strict : Bool) : (Info.propertyOf strict).policy.isPlain = true := by cases strict <;> rfl

theorem isPlain_propertyAccess (strict : Bool) : (Info.propertyAccess strict).policy.isPlain = true := by cases strict <;> rfl

/-! ## Keys -/

theorem toList_of_bracketed? {code inner : String} (h : bracketed? code = some inner) :
    code.toList = '[' :: (inner.toList ++ [']']) := by
  unfold bracketed? at h
  split at h
  · rename_i cs hcs
    split at h
    · rename_i hlast
      obtain ⟨own, rfl⟩ := List.getLast?_eq_some_iff.1 (eq_of_beq hlast)
      obtain rfl := Option.some.inj h
      rw [hcs, String.toList_ofList, List.dropLast_concat]
    · cases h
  · cases h

section

variable (hP : P.Lawful r)

include hP

theorem puts_expression {code : String} {start : Nat} {front back : String} (h : P.stands SourceId.template code start)
    (hback : Text.IsPunct back) : Puts P r e (expression code start front back) := hP.puts_expressionIn h rfl hback

theorem puts_quotedKey {key : String} {offset : Nat} {i : Info} (h : P.stands SourceId.template key offset)
    (hi : i.policy.isPlain = true) : Puts P r e (quotedKey key offset i) :=
  puts_onCode fun _ _ => Code.extends_quotedKeyAt (hP.allows_of_stands h) (hP.allows_start h) (hP.allows_stop h) hi

theorem puts_camelizedIn {b : Boundary} (hb : b.source = SourceId.template) {name : String} {offset : Nat}
    (h : P.stands SourceId.template name offset) : Puts P r e (onCode (·.camelizedIn b name offset)) :=
  puts_onCode fun _ _ => Code.extends_camelizedIn (hb.symm ▸ Code.partsAllowed hP h)

theorem puts_objectKey {code : String} {offset : Nat} {i : Info} (h : P.stands SourceId.template code offset)
    (hi : i.policy.isPlain = true) (camelize constant : Bool) : Puts P r e (objectKey code offset i camelize constant) := by
  unfold objectKey
  split
  · rename_i inner hinner
    refine .ite (fun _ => ?_) fun _ => hP.puts_expressionIn h hi (by simp [Text.IsPunct])
    -- What stands between the brackets is read from behind the first one.
    have hbetween := hP.stands_part (k := 1) (u := inner.toList) h ⟨[']'], ['['], toList_of_bracketed? hinner, rfl⟩
    rw [String.ofList_toList] at hbetween
    exact hP.puts_expressionIn hbetween hi (by simp [Text.IsPunct, Text.isPunct])
  · refine .ite (fun _ => .ite (fun _ => puts_camelized (Code.partsAllowed hP h) hi) fun _ => ?_) fun _ => ?_
    · refine .openAt (hP.allows_start h) hi fun b hb => .text (.andThen (puts_camelizedIn hP hb h) fun _ => .text ?_)
      exact puts_close hb (hP.allows_stop h)
    · exact .ite (fun _ => puts_mapped (hP.allows_of_stands h) hi) fun _ => puts_quotedKey hP h hi

theorem puts_propertyAccess {code : String} {offset : Nat} {i : Info} (h : P.stands SourceId.template code offset)
    (hi : i.policy.isPlain = true) : Puts P r e (propertyAccess code offset i) := by
  refine .ite (fun _ => hP.puts_expressionIn h hi (by simp [Text.IsPunct])) fun _ => .ite (fun _ => ?_) fun _ => ?_
  · exact .text (puts_mapped (hP.allows_of_stands h) hi)
  · exact .text (.andThen (puts_quotedKey hP h hi) fun _ => puts_text _)

/-! ## Listeners -/

/-- The key of a listener has its capitalized name behind a text. -/
theorem puts_listenerKey {name : String} {start : Nat} {front : String} (hfront : front.isEmpty = false)
    (h : P.stands SourceId.template name start) (hl : P.listens name) : Puts P r e (listenerKey name start front) := by
  obtain ⟨hparts, hstop⟩ := hP.listener_allowed h hl
  refine .andThen gives_read.puts fun setting => ?_
  extract_lets i key
  have hkey : key = Text.capitalize name := by simp only [key, hfront, Bool.false_eq_true, if_false]
  rw [hkey]
  refine .openAt (hP.allows_start h) (isPlain_propertyOf _) fun b hb => Puts.whenever (puts_text _) ?_
  refine .text (.andThen (puts_onCode fun _ _ => Code.extends_camelizedIn (hb.symm ▸ hparts)) fun _ => ?_)
  exact Puts.whenever (puts_text _) (puts_close hb hstop)

end

theorem puts_eventFunction {body : Gen Unit} (hbody : Puts P r e body) : Puts P r e (eventFunction body) :=
  .text (.andThen hbody fun _ => puts_text _)

section

variable (hP : P.Lawful r)

include hP

theorem puts_listenerValue {d : Directive} (hd : d.Permitted P) : Puts P r e (listenerValue d) := by
  unfold listenerValue
  split
  · exact puts_text _
  · rename_i x hx
    have hexp := hd.exp_stands x hx
    refine .andThen gives_read.puts fun _ => .ite (fun _ => ?_) fun _ => puts_expression hP hexp (by simp [Text.IsPunct, Text.isPunct])
    refine puts_eventFunction (puts_inScope ?_)
    refine .andThen (puts_declare _) fun _ => .andThen puts_writeGuards fun _ => ?_
    exact .andThen (puts_expression hP hexp (by simp [Text.IsPunct])) fun _ => puts_text _

theorem puts_modelListener {d : Directive} (hd : d.Permitted P) : Puts P r e (modelListener d) := by
  unfold modelListener
  split
  · exact puts_text _
  · rename_i x hx
    refine puts_eventFunction (.andThen puts_writeGuards fun _ => ?_)
    exact .andThen (puts_expression hP (hd.exp_stands x hx) (by simp [Text.IsPunct])) fun _ => puts_text _

end

theorem puts_eventsOf (componentVar : String) : Puts P r e (eventsOf componentVar) :=
  .andThen puts_fresh fun _ => .andThen puts_contextVar fun _ => .text (puts_pure _)

/-- The name of an event stands in the argument of its directive, and the text before its property is not empty. -/
theorem EventName.stands (hP : P.Lawful r) {d : Directive} (hd : d.Permitted P) (hon : d.name = "on") {a : Markup.Expression}
    (ha : d.arg = some a) :
    P.stands SourceId.template (EventName.ofDirective d).event (EventName.ofDirective d).start ∧
      (String.ofList (EventName.ofDirective d).propertyFront.toList.dropLast).isEmpty = false := by
  have harg := hd.arg_stands a ha
  unfold EventName.ofDirective
  rw [ha]
  simp only [hon]
  rw [if_neg (by decide)]
  split
  · rename_i hmark
    obtain ⟨rest, hrest⟩ := List.isPrefixOf_iff_prefix.1 hmark
    have hdrop : a.content.toList.drop "vue:".length = rest := by
      rw [← hrest]
      rfl
    refine ⟨hP.stands_part harg ⟨[], "vue:".toList, ?_, rfl⟩, ?_⟩
    · rw [hdrop, List.append_nil]
      exact hrest.symm
    · show (String.ofList "onVnode-".toList.dropLast).isEmpty = false
      decide
  · refine ⟨harg, ?_⟩
    show (String.ofList "on-".toList.dropLast).isEmpty = false
    decide

section

variable (hP : P.Lawful r)

include hP

theorem puts_checkListener (eventsVar : String) {d : Directive} (hd : d.Permitted P)
    (harg : d.name = "on" → ∃ a, d.arg = some a ∧ a.isStatic = true) : Puts P r e (checkListener eventsVar d) := by
  refine .andThen puts_fresh fun _ => .andThen puts_propsVar fun _ => .text (.ite (fun hon => ?_) fun _ => ?_)
  · obtain ⟨a, ha, hstatic⟩ := harg (eq_of_beq hon)
    obtain ⟨hstands, hfront⟩ := EventName.stands hP hd (eq_of_beq hon) ha
    refine .andThen (puts_listenerKey hP hfront hstands (hd.listens (eq_of_beq hon) a ha hstatic).2) fun _ => ?_
    exact .text (.andThen (puts_listenerValue hP hd) fun _ => puts_text _)
  · exact .text (.andThen (puts_modelListener hP hd) fun _ => puts_text _)

theorem puts_checkListeners (componentVar : String) (eventsVar : Option String) {ds : List Directive} (hds : ∀ d ∈ ds, d.Permitted P)
    (hargs : ∀ d ∈ ds, d.name = "on" → ∃ a, d.arg = some a ∧ a.isStatic = true) :
    Puts P r e (checkListeners componentVar eventsVar ds) := by
  induction ds generalizing eventsVar with
  | nil => exact puts_pure ()
  | cons d ds ih =>
    have hrest := fun name => Gives.andThen (puts_checkListener hP (e := e) name (hds d List.mem_cons_self) (hargs d List.mem_cons_self))
      fun _ => ih (some name) (fun d hd => hds d (List.mem_cons_of_mem _ hd)) fun d hd => hargs d (List.mem_cons_of_mem _ hd)
    cases eventsVar with
    | some name => exact .andThen (puts_pure name) hrest
    | none => exact .andThen (puts_eventsOf componentVar) hrest

theorem puts_componentListeners {x : Element} (hprops : ∀ p ∈ x.props, p.Permitted P) (componentVar : String) :
    Puts P r e (componentListeners x componentVar) := by
  refine .andThen gives_read.puts fun setting => puts_checkListeners hP componentVar none ?_ ?_
  · intro d hd
    obtain ⟨p, hp, hpd⟩ := List.mem_filterMap.1 hd
    split at hpd
    · split at hpd
      · obtain rfl := Option.some.inj hpd
        exact hprops _ hp
      · cases hpd
    · cases hpd
  · intro d hd hon
    obtain ⟨p, hp, hpd⟩ := List.mem_filterMap.1 hd
    split at hpd
    · split at hpd
      · rename_i hevent
        obtain rfl := Option.some.inj hpd
        rw [isEventDirective, hon] at hevent
        obtain ⟨a, ha, hstatic⟩ := (Option.any_eq_true ..).1 (by simpa using hevent)
        exact ⟨a, ha, hstatic⟩
      · cases hpd
    · cases hpd

/-! ## Entries of listeners -/

/-- An expression that is left over stands in the template. -/
structure Loose.Permitted (P : Permit) (l : Loose) : Prop where
  stands : P.stands SourceId.template l.code l.offset
  back_isPunct : Text.IsPunct l.back

omit hP in
theorem Loose.permitted_ofExpression {x : Markup.Expression} (h : P.stands SourceId.template x.content x.offset) :
    (Loose.ofExpression x).Permitted P := ⟨h, by simp [Loose.ofExpression, Text.IsPunct, Text.isPunct]⟩

theorem puts_writeLoose {ls : List Loose} (h : ∀ l ∈ ls, l.Permitted P) : Puts P r e (writeLoose ls) := by
  induction ls with
  | nil => exact puts_pure ()
  | cons l ls ih =>
    obtain ⟨hstands, hback⟩ := h l List.mem_cons_self
    exact .andThen (puts_expression hP hstands hback) fun _ => .text (ih fun m hm => h m (List.mem_cons_of_mem _ hm))

theorem gives_listenerEntry (isComponent : Bool) {d : Directive} (hd : d.Permitted P) (hon : d.name = "on") :
    Gives P r e (listenerEntry isComponent d) fun ls => ∀ l ∈ ls, l.Permitted P := by
  unfold listenerEntry
  split
  · rename_i a ha
    refine .ite (fun hstatic => ?_) fun hdynamic => ?_
    · refine .ite (fun _ => .text (.text (gives_pure (by simp)))) fun _ => .text ?_
      refine .andThen (puts_listenerKey hP rfl (hd.arg_stands a ha) (hd.listens hon a ha hstatic).1) fun _ => .text ?_
      exact .andThen (puts_listenerValue hP hd) fun _ => .text (.text (gives_pure (by simp)))
    · split
      · rename_i x hx
        refine gives_pure ?_
        intro l hl
        rcases List.mem_cons.1 hl with rfl | hl
        · exact ⟨(hd.dynamic_stands a ha (Bool.eq_false_iff.2 hdynamic)).1, by simp [Text.IsPunct, Text.isPunct]⟩
        · rw [List.mem_singleton.1 hl]
          exact ⟨hd.exp_stands x hx, by simp [Text.IsPunct, Text.isPunct]⟩
      · exact gives_pure (by simp)
  · rename_i x _ hx
    refine gives_pure ?_
    intro l hl
    rw [List.mem_singleton.1 hl]
    exact Loose.permitted_ofExpression (hd.exp_stands x hx)
  · exact gives_pure (by simp)

omit hP in
/-- Of two generators that leave expressions over, those of both are left over. -/
theorem Gives.looseAppend {g g' : Gen (List Loose)} (hg : Gives P r e g fun ls => ∀ l ∈ ls, l.Permitted P)
    (hg' : Gives P r e g' fun ls => ∀ l ∈ ls, l.Permitted P) :
    Gives P r e (g >>= fun first => g' >>= fun more => pure (first ++ more)) fun ls => ∀ l ∈ ls, l.Permitted P := by
  refine .bind hg fun first hfirst => .bind hg' fun more hmore => gives_pure ?_
  intro l hl
  exact (List.mem_append.1 hl).elim (hfirst l) (hmore l)

theorem gives_listenerEntries (isComponent : Bool) {ps : List Property} (hps : ∀ p ∈ ps, p.Permitted P) :
    Gives P r e (listenerEntries isComponent ps) fun ls => ∀ l ∈ ls, l.Permitted P := by
  induction ps with
  | nil => exact gives_pure (by simp)
  | cons p ps ih =>
    have hrest := ih fun q hq => hps q (List.mem_cons_of_mem _ hq)
    cases p with
    | plain a => exact hrest
    | directive d =>
      refine .ite (fun hon => ?_) fun _ => .looseAppend (gives_pure (by simp)) hrest
      exact .looseAppend (gives_listenerEntry hP isComponent (hps _ List.mem_cons_self) (eq_of_beq hon)) hrest

/-! ## Entries of properties -/

theorem puts_bindingValue {d : Directive} (hd : d.Permitted P) : Puts P r e (bindingValue d) := by
  unfold bindingValue
  split
  · rename_i x hx
    exact puts_expression hP (hd.exp_stands x hx) (by simp [Text.IsPunct, Text.isPunct])
  · split
    · exact puts_text _
    · rename_i a name hshorthand
      obtain ⟨a', ha', hname⟩ := Option.bind_eq_some_iff.1 hshorthand
      obtain rfl : a' = a := by
        dsimp only at hname
        split at hname
        · exact congrArg Prod.fst (Option.some.inj hname)
        · cases hname
      have hown : Puts P r e (camelized a'.content a'.offset Info.checked) :=
        puts_camelized (Code.partsAllowed hP (hd.arg_stands a' ha')) rfl
      refine .andThen gives_get.puts fun _ => .ite (fun _ => hown) fun _ => ?_
      refine .andThen gives_read.puts fun _ => .ite (fun _ => ?_) fun _ => ?_
      · exact .andThen hown fun _ => puts_text _
      · exact .andThen (puts_access _) fun _ => .text hown

omit hP in
theorem puts_spreading (name : String) {g : Gen Unit} (hg : Puts P r e g) : Puts P r e (spreading name g) :=
  Puts.whenever (puts_text _) (.andThen hg fun _ => Puts.whenever (puts_text _) (puts_text _))

theorem puts_modifiers {d : Directive} (hd : d.Permitted P) (hbind : d.name ≠ "bind") (name : String) :
    Puts P r e (modifiers d name) := by
  have hmodifiers := hd.modifiers_stand hbind
  unfold modifiers
  split
  · rename_i first rest last hfirst hlast
    have hstart := (hmodifiers first (by simp [hfirst])).2
    have hstop := hP.allows_stop (hmodifiers last (List.mem_of_getLast? hlast)).1
    refine .andThen (puts_bounded _ hstart hstop rfl) fun _ => .text (.andThen (puts_forIn fun m hm _ => ?_) fun _ => puts_text _)
    exact .andThen (puts_objectKey hP (hmodifiers m hm).1 rfl _ _) fun _ => .text (puts_pure _)
  · exact puts_pure _

/-- The place of an argument, with its brackets if it has them, and that of a directive without one. -/
theorem allows_argumentSpan {d : Directive} (hd : d.Permitted P) :
    P.allows "" SourceId.template (argumentSpan d).start ∧ P.allows "" SourceId.template (argumentSpan d).stop := by
  unfold argumentSpan
  split
  · rename_i a ha
    split
    · exact ⟨hP.allows_start (hd.arg_stands a ha), hP.allows_stop (hd.arg_stands a ha)⟩
    · rename_i hdynamic
      obtain ⟨hstands, hstop⟩ := hd.dynamic_stands a ha (Bool.eq_false_iff.2 hdynamic)
      exact ⟨hP.allows_start hstands, hstop⟩
  · exact ⟨hd.allows_start, hd.allows_stop⟩

omit hP in
/-- The name of a property that an argument gives stands where the argument does, with its brackets if it has them. -/
theorem stands_boundName {o : Options} {x : Element} {d : Directive} (hd : d.Permitted P) {name : String}
    (hname : boundName o x d = some name) (harg : d.arg ≠ none) : P.stands SourceId.template name (argumentSpan d).start := by
  unfold boundName at hname
  unfold argumentSpan
  cases ha : d.arg with
  | none => exact absurd ha harg
  | some a =>
    rw [ha] at hname
    obtain rfl := Option.some.inj hname
    dsimp only
    split
    · exact hd.arg_stands a ha
    · rename_i hdynamic
      exact (hd.dynamic_stands a ha (Bool.eq_false_iff.2 hdynamic)).1

theorem puts_boundEntry {o : Options} {x : Element} {d : Directive} {name : String} {i : Info} (hd : d.Permitted P)
    (hname : boundName o x d = some name) (hmodel : d.arg = none → d.name = "model") (hi : i.policy.isPlain = true) :
    Puts P r e (boundEntry x d name i) := by
  obtain ⟨hstart, hstop⟩ := allows_argumentSpan hP hd
  refine .andThen gives_read.puts fun setting => .andThen (puts_spreading name ?_) fun _ => .ite (fun hmodifiers => ?_) fun _ => ?_
  · refine .openAt hd.allows_start rfl fun b hb => ?_
    extract_lets value
    have hvalue : ∀ u, Puts P r e (value u) := fun _ =>
      .text (.openAt hstart rfl fun v hv => .andThen (puts_bindingValue hP hd) fun _ =>
        .andThen (puts_close hv hstop) fun _ => puts_close hb hd.allows_stop)
    split
    · rename_i a ha
      exact .andThen (puts_objectKey hP (stands_boundName hd hname (by simp [ha])) hi _ _) hvalue
    · rename_i ha
      exact .andThen (puts_bounded _ hd.allows_start (hd.allows_model (hmodel ha)) rfl) hvalue
  · have hbind : d.name ≠ "bind" := by
      rintro hbind
      simp [hbind] at hmodifiers
    exact .andThen (puts_modifiers hP hd hbind _) fun _ => puts_text _
  · exact puts_pure _

omit hP in
theorem permitted_of_mem_loose {d : Directive} (hd : d.Permitted P) : ∀ l ∈ d.exp.toList.map Loose.ofExpression, l.Permitted P := by
  intro l hl
  obtain ⟨x, hx, rfl⟩ := List.mem_map.1 hl
  exact Loose.permitted_ofExpression (hd.exp_stands x (Option.mem_toList.1 hx))

theorem gives_bindingEntry (x : Element) {d : Directive} {i : Info} (hd : d.Permitted P) (hmodel : d.arg = none → d.name = "model")
    (hi : i.policy.isPlain = true) : Gives P r e (bindingEntry x d i) fun ls => ∀ l ∈ ls, l.Permitted P := by
  refine .andThen gives_read.puts fun setting => ?_
  extract_lets o
  split
  · rename_i name hname
    refine .ite (fun _ => gives_pure (permitted_of_mem_loose hd)) fun _ => ?_
    exact .andThen (puts_boundEntry hP hd hname hmodel hi) fun _ => gives_pure (by simp)
  · exact gives_pure (permitted_of_mem_loose hd)

theorem puts_attributeEntry (x : Element) {a : Attribute} {i : Info} (ha : a.Permitted P) (hi : i.policy.isPlain = true) :
    Puts P r e (attributeEntry x a i) := by
  have hstart := hP.allows_start ha.name_stands
  refine .andThen gives_read.puts fun setting => .ite (fun _ => puts_pure _) fun _ => puts_spreading a.name ?_
  refine .openAt hstart rfl fun b hb => .andThen (puts_objectKey hP ha.name_stands hi _ _) fun _ => .text ?_
  refine .ite (fun _ => .text (puts_close hb ha.allows_stop)) fun _ => ?_
  split
  · rename_i v hv
    have hvalue := ha.value_stands v hv
    refine .text (.andThen (puts_onCode fun c _ => ?_) fun _ => .text (puts_close hb ha.allows_stop))
    exact Code.extends_literal (hP.allows_of_stands hvalue) (hP.allows_start hvalue) (hP.allows_stop hvalue) rfl
  · exact .text (puts_close hb ha.allows_stop)

theorem gives_spreadEntry {d : Directive} (hd : d.Permitted P) :
    Gives P r e (spreadEntry d) fun ls => ∀ l ∈ ls, l.Permitted P := by
  unfold spreadEntry
  split
  · exact gives_pure (by simp)
  · rename_i x hx
    have hexp := hd.exp_stands x hx
    refine .ite (fun _ => gives_pure ?_) fun _ => .openAt hd.allows_start rfl fun b hb => .text ?_
    · intro l hl
      rw [List.mem_singleton.1 hl]
      exact Loose.permitted_ofExpression hexp
    · refine .andThen (puts_bindingValue hP hd) fun _ => .andThen (puts_close hb (hP.allows_stop hexp)) fun _ => ?_
      exact .text (gives_pure (by simp))

theorem gives_entry (x : Element) {i : Info} (hi : i.policy.isPlain = true) {p : Property} (hp : p.Permitted P) :
    Gives P r e (entry x i p) fun ls => ∀ l ∈ ls, l.Permitted P := by
  cases p with
  | plain a => exact .andThen (puts_attributeEntry hP x hp hi) fun _ => gives_pure (by simp)
  | directive d =>
    refine .ite (fun hbound => gives_bindingEntry hP x hp ?_ hi) fun _ => .ite (fun _ => gives_spreadEntry hP hp) fun _ => ?_
    · intro ha
      simpa [ha] using hbound
    · exact gives_pure (by simp)

theorem gives_valueEntries (x : Element) {i : Info} (hi : i.policy.isPlain = true) {ps : List Property}
    (hps : ∀ p ∈ ps, p.Permitted P) : Gives P r e (valueEntries x i ps) fun ls => ∀ l ∈ ls, l.Permitted P := by
  induction ps with
  | nil => exact gives_pure (by simp)
  | cons p ps ih =>
    exact .looseAppend (gives_entry hP x hi (hps p List.mem_cons_self)) (ih fun q hq => hps q (List.mem_cons_of_mem _ hq))

/-- What the entries of an element leave over stands in the template. -/
theorem gives_entries (x : Element) {ps : List Property} (hps : ∀ p ∈ ps, p.Permitted P) (strict : Bool) :
    Gives P r e (entries x ps strict) fun ls => ∀ l ∈ ls, l.Permitted P :=
  .looseAppend (gives_listenerEntries hP _ hps) (gives_valueEntries hP x (isPlain_propertyOf strict) hps)

/-! ## Directives -/

theorem puts_directiveName {d : Directive} (h : P.stands SourceId.template ("v-" ++ d.name) d.span.start) :
    Puts P r e (directiveName d) := by
  refine .andThen gives_read.puts fun setting => .openAt (hP.allows_start h) rfl fun b hb => .text ?_
  refine .andThen (puts_camelized (Code.partsAllowed hP h) ?_) fun _ => .andThen (puts_close hb (hP.allows_stop h)) fun _ => ?_
  · split <;> rfl
  · exact .ite (fun _ => puts_access _) fun _ => puts_pure _

theorem puts_directiveArgument {d : Directive} (hd : d.Permitted P) : Puts P r e (directiveArgument d) := by
  unfold directiveArgument
  split
  · exact puts_pure _
  · rename_i a ha
    have harg := hd.arg_stands a ha
    refine .andThen (puts_bounded _ (hP.allows_start harg) (hP.allows_stop harg) rfl) fun _ => .text (.ite (fun _ => ?_) fun _ => ?_)
    · exact .andThen (puts_quotedKey hP harg rfl) fun _ => puts_text _
    · exact .andThen (puts_expression hP harg (by simp [Text.IsPunct, Text.isPunct])) fun _ => puts_text _

theorem puts_directiveValue {d : Directive} (hd : d.Permitted P) : Puts P r e (directiveValue d) := by
  unfold directiveValue
  split
  · exact puts_pure _
  · rename_i x hx
    have hexp := hd.exp_stands x hx
    exact .andThen (puts_bounded _ (hP.allows_start hexp) (hP.allows_stop hexp) rfl) fun _ => .text (puts_bindingValue hP hd)

theorem puts_checkDirective {d : Directive} (hd : d.Permitted P) (hrule : d.name ∉ ["slot", "on", "model", "bind"]) :
    Puts P r e (checkDirective d) := by
  have hbind : d.name ≠ "bind" := by
    rintro hbind
    simp [hbind] at hrule
  refine .andThen gives_read.puts fun setting => .openAt hd.allows_start rfl fun b hb => .text ?_
  refine .andThen (puts_directiveName hP (hd.name_stands hrule)) fun _ => .text (.andThen (puts_directiveArgument hP hd) fun _ => ?_)
  refine .andThen (puts_modifiers hP hd hbind _) fun _ => .andThen (puts_directiveValue hP hd) fun _ => ?_
  exact .text (.andThen (puts_close hb hd.allows_stop) fun _ => puts_text _)

theorem puts_checkDirectives {ps : List Property} (hps : ∀ p ∈ ps, p.Permitted P) : Puts P r e (checkDirectives ps) := by
  induction ps with
  | nil => exact puts_pure ()
  | cons p ps ih =>
    have hrest := ih fun q hq => hps q (List.mem_cons_of_mem _ hq)
    cases p with
    | plain a => exact hrest
    | directive d =>
      refine .ite (fun hrule => .andThen (puts_checkDirective hP (hps _ List.mem_cons_self) ?_) fun _ => hrest) fun _ => hrest
      simpa using hrule

end

end Generate

end TypedSfc
