import TypedSfc.Proofs.Generate.Capitals
import TypedSfc.Proofs.Generate.ChainStatements
import TypedSfc.Proofs.Generate.Waiting

/-!
# Names of listeners

A listener of a component is checked under the name of the property that its event stands for, which is looked up among the properties
and is the key of the value too. What is looked up is put into camelCase as a whole, where a hyphen goes if a word character follows it;
the key is cut at all of its hyphens, and its parts are capitalized one by one. No hyphen is left by the second way, whatever follows
it, so that the two spell a name alike just when each hyphen leads a word.
-/

namespace TypedSfc

namespace Text

/-- Whether each hyphen stands before a word character. -/
def hyphensLead : List Char → Bool
  | [] => true
  | c :: cs => (c != '-' || cs.head?.any isWord) && hyphensLead cs

@[simp]
theorem hyphensLead_cons_of_ne {c : Char} (h : c ≠ '-') (cs : List Char) : hyphensLead (c :: cs) = hyphensLead cs := by
  simp [hyphensLead, h]

@[simp]
theorem hyphensLead_hyphen_cons (cs : List Char) : hyphensLead ('-' :: cs) = (cs.head?.any isWord && hyphensLead cs) := by
  simp [hyphensLead]

/-! ## CamelCase of a whole name -/

theorem ne_hyphen_of_isWord {c : Char} (h : isWord c = true) : c ≠ '-' := by
  rintro rfl
  cases h

/-- A word character is one of ASCII. -/
theorem toUpper_of_isWord {c : Char} (h : isWord c = true) : toUpper c = [c.toUpper] := by
  rcases Bool.or_eq_true_iff.1 h with h | h
  · rcases Bool.or_eq_true_iff.1 h with h | h
    · exact (toUpper_of_isAlpha h).1
    · have hdigit : c.val ≤ '9'.val := of_decide_eq_true (Bool.and_eq_true_iff.1 h).2
      have hascii : c.toNat < 0x80 := Nat.lt_of_le_of_lt (UInt32.le_iff_toNat_le.1 hdigit) (by decide)
      exact if_pos hascii
  · rw [beq_iff_eq.1 h]
    rfl

theorem camelChars_cons_of_ne {c : Char} (h : c ≠ '-') (cs : List Char) : camelChars (c :: cs) = c :: camelChars cs := by
  cases cs with
  | nil => rfl
  | cons d cs => rw [camelChars, if_neg (by simp [h])]

theorem camelChars_hyphen_cons {c : Char} (h : isWord c = true) (cs : List Char) :
    camelChars ('-' :: c :: cs) = c.toUpper :: camelChars cs := by
  rw [camelChars, if_pos (by simp [h])]

/-- A beginning without hyphens stays as it is. -/
theorem camelChars_append {front : List Char} (h : '-' ∉ front) (cs : List Char) : camelChars (front ++ cs) = front ++ camelChars cs := by
  induction front with
  | nil => rfl
  | cons c front ih =>
    obtain ⟨hc, hfront⟩ := not_or.1 (mt List.mem_cons.2 h)
    rw [List.cons_append, camelChars_cons_of_ne (Ne.symm hc), ih hfront]
    rfl

/-- A hyphen goes if and only if it leads a word. -/
theorem hyphen_notMem_camelChars_iff (cs : List Char) : '-' ∉ camelChars cs ↔ hyphensLead cs = true := by
  fun_induction camelChars cs with
  | case1 => simp [hyphensLead]
  | case2 c => simpa [hyphensLead] using ne_comm
  | case3 c d cs h ih =>
    obtain ⟨hc, hd⟩ : c = '-' ∧ isWord d = true := by simpa using h
    have hne : '-' ≠ d.toUpper := by
      have hmem := hyphen_notMem_toUpper (ne_hyphen_of_isWord hd)
      rwa [toUpper_of_isWord hd, List.mem_singleton] at hmem
    have hd' := ne_hyphen_of_isWord hd
    simp [hyphensLead, ih, hd, hd', hne]
  | case4 c d cs h ih =>
    have hcd : c = '-' → isWord d = false := by simpa using h
    by_cases hc : c = '-'
    · simp [hc, hcd hc]
    · rw [List.mem_cons, not_or, ih, hyphensLead_cons_of_ne hc]
      exact and_iff_right (Ne.symm hc)

/-! ## Identifiers -/

theorem isPlainIdent_append {s t : String} (hs : isPlainIdent s = true) (ht : isPlainIdent t = true) : isPlainIdent (s ++ t) = true := by
  unfold isPlainIdent at hs ht ⊢
  rw [String.toList_append]
  cases hs' : s.toList with
  | nil => simp [hs'] at hs
  | cons c cs =>
    cases ht' : t.toList with
    | nil => simp [ht'] at ht
    | cons d ds =>
      rw [hs'] at hs
      rw [ht'] at ht
      obtain ⟨hc, hcs⟩ := Bool.and_eq_true_iff.1 hs
      obtain ⟨hd, hds⟩ := Bool.and_eq_true_iff.1 ht
      have hd' : (isWord d || d == '$') = true := by
        simp only [isWord, Char.isAlphanum, Bool.or_eq_true] at hd ⊢
        tauto
      have hall : ((cs ++ d :: ds).all fun e => isWord e || e == '$') = true := by
        rw [List.all_append, hcs, List.all_cons, hd', hds]
        rfl
      exact Bool.and_eq_true_iff.2 ⟨hc, hall⟩

theorem hyphen_notMem_of_isPlainIdent {s : String} (h : isPlainIdent s = true) : '-' ∉ s.toList := by
  unfold isPlainIdent at h
  intro hmem
  cases hs : s.toList with
  | nil => simp [hs] at hmem
  | cons c cs =>
    rw [hs] at h hmem
    obtain ⟨hc, hcs⟩ := Bool.and_eq_true_iff.1 h
    rcases List.mem_cons.1 hmem with rfl | hmem
    · exact absurd hc (by decide)
    · exact absurd (List.all_eq_true.1 hcs _ hmem) (by decide)

end Text

namespace Code

/-! ## CamelCase part by part -/

/-- What the parts of a hyphenated name spell. -/
def camelSpelling (name : String) : String := String.join ((camelParts name).map (·.2))

/-- How a part is written: the one at the start of a name as it is, and any other one capitalized. -/
def partChars (p : Nat × List Char) : List Char := if p.1 = 0 then p.2 else (Text.capitalize (String.ofList p.2)).toList

theorem partChars_nil (n : Nat) : partChars (n, []) = [] := by
  unfold partChars
  split <;> rfl

theorem toList_camelSpelling (name : String) :
    (camelSpelling name).toList = (hyphenParts 0 [] name.toList).flatMap partChars := by
  unfold camelSpelling camelParts
  generalize hyphenParts 0 [] name.toList = ps
  induction ps with
  | nil => rfl
  | cons p ps ih =>
    obtain ⟨n, cs⟩ := p
    rw [List.flatMap_cons, ← ih]
    cases cs with
    | nil =>
      rw [partChars_nil]
      rfl
    | cons c cs =>
      rw [List.filter_cons_of_pos rfl, List.map_cons, List.map_cons, String.join_cons, String.toList_append, partChars]
      split
      · rw [String.toList_ofList]
      · rfl

/-- Only the first character of a part changes, and none of the part at the start. -/
theorem partChars_append {n : Nat} {part : List Char} (h : part = [] → n = 0) (cs : List Char) :
    partChars (n, part ++ cs) = partChars (n, part) ++ cs := by
  unfold partChars
  split
  · rfl
  · rename_i hn
    obtain ⟨c, part, rfl⟩ := List.exists_cons_of_ne_nil (mt h hn)
    simp [Text.capitalize]

theorem partChars_of_isWord {n : Nat} {c : Char} (hn : n ≠ 0) (hc : Text.isWord c = true) : partChars (n, [c]) = [c.toUpper] := by
  rw [partChars, if_neg hn, Text.capitalize_of_cons String.toList_ofList, Text.toUpper_of_isWord hc, String.toList_ofList]
  rfl

/-- No hyphen is left in the parts, since none is made by capitalizing. -/
theorem hyphen_notMem_flatMap_partChars {part cs : List Char} (h : '-' ∉ part) (pos : Nat) :
    '-' ∉ (hyphenParts pos part cs).flatMap partChars := by
  have hpart : ∀ {n : Nat} {part : List Char}, '-' ∉ part → '-' ∉ partChars (n, part) := by
    intro n part h
    unfold partChars
    split
    · exact h
    · cases part with
      | nil => simp [Text.capitalize]
      | cons c part =>
        obtain ⟨hc, hpart⟩ := not_or.1 (mt List.mem_cons.2 h)
        rw [Text.capitalize_of_cons String.toList_ofList, String.toList_ofList, List.mem_append, not_or]
        exact ⟨Text.hyphen_notMem_toUpper (Ne.symm hc), hpart⟩
  induction cs generalizing pos part with
  | nil =>
    rw [hyphenParts, List.flatMap_singleton]
    exact hpart (by simpa using h)
  | cons c cs ih =>
    rw [hyphenParts]
    split
    · rw [List.flatMap_cons, List.mem_append, not_or]
      exact ⟨hpart (by simpa using h), ih List.not_mem_nil _⟩
    · rename_i hc
      exact ih (by simpa [h] using Ne.symm (by simpa using hc)) _

/-- Behind a part that is begun, or at the start, a name whose hyphens lead words is spelled as it is in camelCase. -/
theorem flatMap_partChars_of_lead {cs : List Char} (h : Text.hyphensLead cs = true) {pos : Nat} {part : List Char}
    (hpart : part = [] → pos = 0) :
    (hyphenParts pos part cs).flatMap partChars = partChars (pos - Text.size part, part.reverse) ++ Text.camelChars cs := by
  -- Neither case changes what is begun; the character goes to its end.
  have hbegun : ∀ (c : Char) {pos : Nat} {part : List Char}, (part = [] → pos = 0) →
      partChars (pos + c.utf8Size - Text.size (c :: part), (c :: part).reverse) = partChars (pos - Text.size part, part.reverse) ++ [c] := by
    intro c pos part hpart
    have hzero : part.reverse = [] → pos - Text.size part = 0 := fun hnil => by
      rw [hpart (List.reverse_eq_nil_iff.1 hnil), Nat.zero_sub]
    rw [Text.size_cons, List.reverse_cons, Nat.add_comm c.utf8Size, Nat.add_sub_add_right, partChars_append hzero]
  fun_induction Text.camelChars cs generalizing pos part with
  | case1 => rw [hyphenParts, List.flatMap_singleton, List.append_nil]
  | case2 c =>
    have hc : c ≠ '-' := by simpa [Text.hyphensLead] using h
    rw [hyphenParts, if_neg (by simp [hc]), hyphenParts, List.flatMap_singleton, hbegun c hpart]
  | case3 c d cs hcd ih =>
    obtain ⟨rfl, hd⟩ : c = '-' ∧ Text.isWord d = true := by simpa using hcd
    have hd' := Text.ne_hyphen_of_isWord hd
    have hlead : Text.hyphensLead cs = true := by simpa [hd, hd'] using h
    have hbehind : pos + '-'.utf8Size ≠ 0 := Nat.succ_ne_zero pos
    rw [hyphenParts, if_pos (by rfl), List.flatMap_cons, hyphenParts, if_neg (by simp [hd']), ih hlead (by simp),
      Text.size_cons, Text.size_nil, Nat.add_zero, Nat.add_sub_cancel, List.reverse_singleton,
      partChars_of_isWord hbehind hd]
    rfl
  | case4 c d cs hcd ih =>
    have hc : c ≠ '-' := by
      rintro rfl
      have hd : Text.isWord d = false := by simpa using hcd
      simp [hd] at h
    rw [Text.hyphensLead_cons_of_ne hc] at h
    rw [hyphenParts, if_neg (by simp [hc]), ih h (by simp), hbegun c hpart, List.append_assoc]
    rfl

/-- The parts of a name spell it in camelCase if and only if each of its hyphens leads a word. -/
theorem camelSpelling_eq_camelize_iff (name : String) :
    camelSpelling name = Text.camelize name ↔ Text.hyphensLead name.toList = true := by
  rw [← String.toList_inj, toList_camelSpelling, Text.camelize, String.toList_ofList]
  constructor
  · intro heq
    rw [← Text.hyphen_notMem_camelChars_iff, ← heq]
    exact hyphen_notMem_flatMap_partChars List.not_mem_nil 0
  · intro h
    exact flatMap_partChars_of_lead h fun _ => rfl

/-- So they spell a capitalized name as it is in camelCase behind a hyphen, if each hyphen leads a word then. -/
theorem camelSpelling_capitalize_iff (name : String) :
    (camelSpelling (Text.capitalize name)).toList = Text.camelChars ('-' :: name.toList) ↔
      Text.hyphensLead ('-' :: name.toList) = true := by
  constructor
  · intro heq
    rw [← Text.hyphen_notMem_camelChars_iff, ← heq, toList_camelSpelling]
    exact hyphen_notMem_flatMap_partChars List.not_mem_nil 0
  · intro h
    cases hname : name.toList with
    | nil => simp [hname] at h
    | cons c cs =>
      obtain ⟨hc, hcs⟩ : Text.isWord c = true ∧ Text.hyphensLead (c :: cs) = true := by simpa [hname] using h
      have hne : c.toUpper ≠ '-' := by
        have hmem := Text.hyphen_notMem_toUpper (Text.ne_hyphen_of_isWord hc)
        rw [Text.toUpper_of_isWord hc, List.mem_singleton] at hmem
        exact Ne.symm hmem
      have hcapital : (Text.capitalize name).toList = c.toUpper :: cs := by
        rw [Text.capitalize_of_cons hname, String.toList_ofList, Text.toUpper_of_isWord hc]
        rfl
      rw [Text.hyphensLead_cons_of_ne (Text.ne_hyphen_of_isWord hc), ← Text.hyphensLead_cons_of_ne hne, ← hcapital] at hcs
      rw [(camelSpelling_eq_camelize_iff _).2 hcs, Text.camelize, String.toList_ofList, hcapital, Text.camelChars_cons_of_ne hne,
        Text.camelChars_hyphen_cons hc]

/-! ## Text in groups -/

theorem toText_joined (c : Code) (b : Boundary) (t : String) (offset : Nat) : (c.joined b t offset).toText = c.toText ++ t :=
  Segment.contents_snoc c.segments _

theorem toText_opened (c : Code) (source : SourceId) (start : Nat) (i : Info) : (c.opened source start i).2.toText = c.toText :=
  (Segment.contents_snoc c.segments _).trans String.append_empty

theorem toText_closed (c : Code) (b : Boundary) (stop : Nat) : (c.closed b stop).toText = c.toText :=
  (Segment.contents_snoc c.segments _).trans String.append_empty

theorem toText_camelizedIn (c : Code) (b : Boundary) (name : String) (offset : Nat) :
    (c.camelizedIn b name offset).toText = c.toText ++ camelSpelling name := by
  unfold camelizedIn camelSpelling
  induction camelParts name generalizing c with
  | nil => exact String.append_empty.symm
  | cons p ps ih => rw [List.foldl_cons, ih, toText_joined, List.map_cons, String.join_cons, String.append_assoc]

end Code

namespace Generate

open Markup (Directive)

namespace EventName

/-! ## The key and the property of an event -/

/-- The property that is looked up for an event. -/
def property (n : EventName) : String := Text.camelize (n.propertyFront ++ n.event)

/-- What stands before the name of an event in the key of its listener. -/
def front (n : EventName) : String := String.ofList n.propertyFront.toList.dropLast

/-- The key of the listener of an event, without quotes. -/
def key (n : EventName) : String := n.front ++ Code.camelSpelling (Text.capitalize n.event)

/-- Whether the key of a listener is written without quotes. -/
def isBare (n : EventName) : Bool := Text.isPlainIdent (Text.camelize (Text.capitalize n.event))

/-- What stands on both sides of the key of a listener. -/
def quote (n : EventName) : String := if n.isBare then "" else "\""

/-- What is written of the check of an event before the key of its listener. -/
def checkHead (n : EventName) (normalized props eventsVar : String) : String :=
  "const " ++ normalized ++ ": " ++ Names.ofKey "NormalizeComponentEvent" ++ "<typeof " ++ props ++ ", typeof " ++ eventsVar ++
    ", \"" ++ n.property ++ "\", \"" ++ (n.eventFront ++ n.event) ++ "\", \"" ++ Text.camelize (n.eventFront ++ n.event) ++ "\"> = (\x7b\n"

/-- Whether an event is listened to as one of the component or as one of its hooks, and is not the update of a model. -/
def Listens (n : EventName) : Prop := n.propertyFront = "on-" ∨ n.propertyFront = "onVnode-"

variable {n : EventName}

theorem listens_of_on {d : Directive} (hon : d.name = "on") : (ofDirective d).Listens := by
  unfold Listens ofDirective
  dsimp only
  rw [if_neg (by simp [hon])]
  cases d.arg <;> (dsimp only; split <;> simp)

/-- The key is the property that is looked up if and only if each hyphen leads a word, the one before the name of the event included. -/
theorem Listens.key_eq_property_iff (h : n.Listens) : n.key = n.property ↔ Text.hyphensLead ('-' :: n.event.toList) = true := by
  have hboth : ∀ front : List Char, '-' ∉ front → n.propertyFront = String.ofList (front ++ ['-']) →
      (n.key = n.property ↔ Text.hyphensLead ('-' :: n.event.toList) = true) := by
    intro front hfront heq
    have hproperty : n.property.toList = front ++ Text.camelChars ('-' :: n.event.toList) := by
      rw [property, Text.camelize, String.toList_ofList, heq, String.toList_append, String.toList_ofList, List.append_assoc,
        Text.camelChars_append hfront]
      rfl
    rw [← String.toList_inj, hproperty, key, EventName.front, heq, String.toList_append, String.toList_ofList, String.toList_ofList,
      List.dropLast_concat, List.append_cancel_left_eq, Code.camelSpelling_capitalize_iff]
  rcases h with hfront | hfront
  · exact hboth ['o', 'n'] (by decide) hfront
  · exact hboth "onVnode".toList (by decide) hfront

/-- A key without quotes is an identifier. -/
theorem Listens.isPlainIdent_key (h : n.Listens) (hbare : n.isBare = true) : Text.isPlainIdent n.key = true := by
  -- An identifier has no hyphen, so that the name is spelled by its parts as it is in camelCase.
  have hhyphen : '-' ∉ Text.camelChars (Text.capitalize n.event).toList := by
    have hmem := Text.hyphen_notMem_of_isPlainIdent hbare
    rwa [Text.camelize, String.toList_ofList] at hmem
  have hspelling := (Code.camelSpelling_eq_camelize_iff _).2 ((Text.hyphen_notMem_camelChars_iff _).1 hhyphen)
  rw [key, hspelling]
  refine Text.isPlainIdent_append ?_ hbare
  unfold EventName.front
  rcases h with hfront | hfront <;> (rw [hfront]; decide)

end EventName

/-! ## What is written of a check -/

section

variable {r : Setting}

theorem code_after_fresh (s : State) : (fresh.after r s).2.code = s.code := rfl

theorem code_after_propsVar (s : State) : (propsVar.after r s).2.code = s.code := by
  unfold propsVar ofComponent
  rw [after_get_bind]
  cases s.components <;> rfl

/-- The key of a listener is written with its quotes. -/
theorem toText_after_listenerKey {n : EventName} (h : n.Listens) (start : Nat) (s : State) :
    ((listenerKey n.event start n.front).after r s).2.code.toText = s.code.toText ++ (n.quote ++ n.key ++ n.quote) := by
  have hne : ¬n.front.isEmpty = true := by
    unfold EventName.front
    rcases h with hfront | hfront <;> (rw [hfront]; decide)
  unfold listenerKey EventName.quote EventName.isBare EventName.key
  rw [after_read_bind]
  dsimp only
  rw [if_neg hne]
  generalize n.front = front
  cases Text.isPlainIdent (Text.camelize (Text.capitalize n.event)) with
  | true =>
    show Code.toText (Code.closed (Code.camelizedIn (Code.text (Code.opened s.code SourceId.template start _).2 front) _ _ _) _ _) = _
    rw [Code.toText_closed, Code.toText_camelizedIn, Code.toText_text, Code.toText_opened, if_pos rfl, String.empty_append,
      String.append_empty, String.append_assoc]
  | false =>
    show Code.toText (Code.closed (Code.text (Code.camelizedIn (Code.text (Code.text (Code.opened s.code SourceId.template start _).2 "\"")
      front) _ _ _) "\"") _ _) = _
    rw [Code.toText_closed, Code.toText_text, Code.toText_camelizedIn, Code.toText_text, Code.toText_text, Code.toText_opened]
    simp only [String.append_assoc]
    rfl

/-- Writes the check of a listener up to its value. -/
def checkOpening (eventsVar : String) (n : EventName) : Gen Unit := do
  let normalized ← fresh
  let props ← propsVar
  text (n.checkHead normalized props eventsVar)
  listenerKey n.event n.start n.front
  text ": "

theorem checkListener_eq (eventsVar : String) {d : Directive} (hon : d.name = "on") :
    checkListener eventsVar d = (do
      checkOpening eventsVar (EventName.ofDirective d)
      listenerValue d
      text "\x7d);\n") := by
  unfold checkListener checkOpening
  simp only [hon, beq_self_eq_true, if_true, bind_assoc]
  rfl

theorem toText_after_checkOpening (eventsVar : String) {n : EventName} (h : n.Listens) (s : State) :
    ((checkOpening eventsVar n).after r s).2.code.toText = s.code.toText ++
      (n.checkHead (fresh.after r s).1 (propsVar.after r (fresh.after r s).2).1 eventsVar ++ (n.quote ++ n.key ++ n.quote ++ ": ")) := by
  unfold checkOpening
  rw [after_bind, after_bind, after_bind, after_bind]
  have hprops := code_after_propsVar (r := r) (fresh.after r s).2
  generalize propsVar.after r (fresh.after r s).2 = x at hprops
  have hkey := toText_after_listenerKey (r := r) h n.start
    ((text (n.checkHead (fresh.after r s).1 x.1 eventsVar)).after r x.2).2
  rw [toText_after_text, hkey, toText_after_text, hprops, code_after_fresh]
  simp only [String.append_assoc]

/-- A listener of a component is named by its event twice: by the property that is looked up, and by the key of its value, which stands
in quotes unless it is an identifier. The two are the same if and only if each hyphen leads a word in the name of the event with a hyphen
before it. -/
theorem listener_named (r : Setting) (s : State) (eventsVar : String) {d : Directive} (hon : d.name = "on") :
    let n := EventName.ofDirective d
    let head := n.checkHead (fresh.after r s).1 (propsVar.after r (fresh.after r s).2).1 eventsVar
    let u := ((checkOpening eventsVar n).after r s).2
    ((checkListener eventsVar d).after r s).2 = ((text "\x7d);\n").after r ((listenerValue d).after r u).2).2 ∧
      u.code.toText = s.code.toText ++ (head ++ (n.quote ++ n.key ++ n.quote ++ ": ")) ∧
      (n.key = n.property ↔ Text.hyphensLead ('-' :: n.event.toList) = true) ∧ (n.isBare = true → Text.isPlainIdent n.key = true) := by
  dsimp only
  have hlistens := EventName.listens_of_on hon
  refine ⟨?_, toText_after_checkOpening eventsVar hlistens s, hlistens.key_eq_property_iff, hlistens.isPlainIdent_key⟩
  rw [checkListener_eq eventsVar hon, after_bind, after_bind]

/-- A listener of a hook of a component. -/
def hookListener : Directive := ⟨"on", "@vue:before-mount", some ⟨"vue:before-mount", 4, true⟩, none, [], ⟨3, 20⟩⟩

/-- Its key is the property that is looked up, and an identifier. -/
theorem listener_named_hook :
    hookListener.name = "on" ∧ (EventName.ofDirective hookListener).property = "onVnodeBeforeMount" ∧
      (EventName.ofDirective hookListener).key = (EventName.ofDirective hookListener).property ∧
      Text.isPlainIdent (EventName.ofDirective hookListener).key = true := by
  have hnamed := listener_named bareSetting {} "events" (d := hookListener) rfl
  have hlead : Text.hyphensLead ('-' :: (EventName.ofDirective hookListener).event.toList) = true := by decide +kernel
  have hbare : (EventName.ofDirective hookListener).isBare = true := by decide +kernel
  exact ⟨rfl, by decide +kernel, hnamed.2.2.1.2 hlead, hnamed.2.2.2 hbare⟩

/-- A listener whose name has two hyphens in a row. -/
def hyphenListener : Directive := ⟨"on", "@a--b", some ⟨"a--b", 4, true⟩, none, [], ⟨3, 8⟩⟩

/-- The properties of a node, if it is an element. -/
def propertiesOf : Markup.Node → List Markup.Property
  | .element e _ => e.props
  | _ => []

/-- One of the hyphens is left in the property that is looked up, and none in the key. -/
theorem key_ne_property_of_doubled_hyphen :
    ((Markup.parseTemplate "<C @a--b/>").1.nodes.flatMap propertiesOf) = [.directive hyphenListener] ∧
      (EventName.ofDirective hyphenListener).property = "onA-B" ∧ (EventName.ofDirective hyphenListener).key = "onAB" ∧
      ((checkListener "events" hyphenListener).after bareSetting {}).2.code.toText =
        "const __VLS_0: __VLS_NormalizeComponentEvent<typeof \x7b\x7d, typeof events, \"onA-B\", \"a--b\", \"a-B\"> = (\x7b\n" ++
          "\"onAB\": () => \x7b\x7d\x7d);\n" := by
  decide +kernel

end

end Generate

end TypedSfc
