import TypedSfc.Proofs.Document.ClassNames
import TypedSfc.Proofs.Document.Comments

/-!
# Class names of rules

The declarations of a rule are blanked from the brace that opens them to the last semicolon before the next brace. In a sheet of plain
rules that semicolon is the last one of the declarations themselves, so what stands behind it is not blanked, and is searched like a
selector. `classNames_of_rules` says that the names in there are all that is found besides the names in the selectors.
-/

namespace TypedSfc

namespace Stylesheet

/-- A text without braces, backslashes and marks at which comments begin. -/
structure Plain (cs : List Char) : Prop where
  no_open : '\x7b' ∉ cs
  no_close : '\x7d' ∉ cs
  no_backslash : '\\' ∉ cs
  no_block : ¬['/', '*'] <:+: cs
  no_line : ¬['/', '/'] <:+: cs

/-- A selector with declarations. -/
structure Rule where
  selector : List Char
  body : List Char
  selector_plain : Plain selector
  selector_no_semicolon : ';' ∉ selector
  body_plain : Plain body

namespace Rule

/-- A rule as it is written. -/
def text (r : Rule) : List Char := r.selector ++ '\x7b' :: (r.body ++ ['\x7d'])

/-- What stands behind the last semicolon of the declarations. -/
def openEnd (r : Rule) : List Char := r.body.rtakeWhile (· != ';')

/-- A class name stands in the selector. -/
def InSelector (r : Rule) (n : Nat) (t : List Char) : Prop := NamesClass (r.selector ++ ['\x7b']) n t

/-- A class name stands in the declarations, behind their last semicolon. -/
def InOpenEnd (r : Rule) (n : Nat) (t : List Char) : Prop :=
  ∃ k, n = Text.size r.selector + 1 + (Text.size r.body - Text.size r.openEnd) + k ∧ NamesClass r.openEnd k t

end Rule

/-- Rules one after the other, and white space behind them. -/
structure Sheet where
  rules : List Rule
  ending : List Char
  ending_blank : ∀ c ∈ ending, Text.isAsciiBlank c = true

/-- The text of a sheet. -/
def Sheet.text (s : Sheet) : String := String.ofList (s.rules.flatMap Rule.text ++ s.ending)

/-- Something is at a position of rules one after the other: it is in one of them, at its place there. -/
def At (P : Rule → Nat → List Char → Prop) (rs : List Rule) (n : Nat) (t : List Char) : Prop :=
  ∃ front r back k, rs = front ++ r :: back ∧ n = Text.size (front.flatMap Rule.text) + k ∧ P r k t

theorem at_cons_iff {P : Rule → Nat → List Char → Prop} {r : Rule} {rs : List Rule} {n : Nat} {t : List Char} :
    At P (r :: rs) n t ↔ P r n t ∨ ∃ k, n = Text.size r.text + k ∧ At P rs k t := by
  constructor
  · rintro ⟨front, r', back, k, heq, rfl, h⟩
    cases front with
    | nil =>
      obtain ⟨rfl, rfl⟩ := List.cons.inj heq
      exact .inl (by simpa using h)
    | cons f front =>
      obtain ⟨rfl, rfl⟩ := List.cons.inj heq
      exact .inr ⟨_, by simp [Nat.add_assoc], front, r', back, k, rfl, rfl, h⟩
  · rintro (h | ⟨-, rfl, front, r', back, k, rfl, rfl, h⟩)
    · exact ⟨[], r, rs, n, rfl, by simp, h⟩
    · exact ⟨r :: front, r', back, k, rfl, by simp [Nat.add_assoc], h⟩

/-! ## Comments -/

theorem Plain.tail {c : Char} {cs : List Char} (h : Plain (c :: cs)) : Plain cs where
  no_open := fun hmem => h.no_open (.tail _ hmem)
  no_close := fun hmem => h.no_close (.tail _ hmem)
  no_backslash := fun hmem => h.no_backslash (.tail _ hmem)
  no_block := fun hin => h.no_block (hin.trans (List.suffix_cons c cs).isInfix)
  no_line := fun hin => h.no_line (hin.trans (List.suffix_cons c cs).isInfix)

/-- Behind a plain text comments begin as they do without it, unless its last character makes a mark with what follows. -/
theorem blankComments_plain_append {as bs : List Char} (has : Plain as) (hbs : bs.head? ≠ some '*' ∧ bs.head? ≠ some '/') :
    blankComments .code (as ++ bs) = as ++ blankComments .code bs := by
  induction as with
  | nil => rfl
  | cons a as ih =>
    rw [List.cons_append, blankComments_code_cons, ih has.tail, List.cons_append]
    rintro rfl
    cases as with
    | nil => exact hbs
    | cons b as =>
      constructor
      · intro hb
        obtain rfl := Option.some.inj hb
        exact has.no_block ⟨[], as, rfl⟩
      · intro hb
        obtain rfl := Option.some.inj hb
        exact has.no_line ⟨[], as, rfl⟩

theorem blankComments_rule_append (r : Rule) (rest : List Char) :
    blankComments .code (r.text ++ rest) = r.text ++ blankComments .code rest := by
  have htext : ∀ rest, r.text ++ rest = r.selector ++ '\x7b' :: (r.body ++ '\x7d' :: rest) := by simp [Rule.text]
  rw [htext, htext, blankComments_plain_append r.selector_plain (by simp), blankComments_code_cons (by simp),
    blankComments_plain_append r.body_plain (by simp), blankComments_code_cons (by simp)]

/-- There are no comments in a sheet. -/
theorem blankComments_sheet (rs : List Rule) {ending : List Char} (h : ∀ c ∈ ending, Text.isAsciiBlank c = true) :
    blankComments .code (rs.flatMap Rule.text ++ ending) = rs.flatMap Rule.text ++ ending := by
  induction rs with
  | nil =>
    rw [List.flatMap_nil, List.nil_append]
    induction ending with
    | nil => rfl
    | cons c ending ih =>
      obtain ⟨hc, hending⟩ := List.forall_mem_cons.1 h
      rw [blankComments_code_cons, ih hending]
      rintro rfl
      cases hc
  | cons r rs ih => rw [List.flatMap_cons, List.append_assoc, blankComments_rule_append, ih]

/-! ## Declarations -/

theorem declarationLength_append_eq_none {as bs : List Char} (has : ';' ∉ as) (hbs : ∀ p, declarationLength p bs = none) (p : Char) :
    declarationLength p (as ++ bs) = none := by
  induction as generalizing p with
  | nil => exact hbs p
  | cons a as ih =>
    obtain ⟨ha, has⟩ := List.ne_and_not_mem_of_not_mem_cons has
    rw [List.cons_append, declarationLength, ih has]
    have ha : (a == ';') = false := by simpa using Ne.symm ha
    simp [ha]

/-- Declarations go up to their last semicolon. -/
theorem declarationLength_append_semicolon {as bs : List Char} (hopen : '\x7b' ∉ as) (hbackslash : '\\' ∉ as)
    (hbs : ∀ p, declarationLength p bs = none) {p : Char} (hp : p ≠ '\\') : declarationLength p (as ++ ';' :: bs) = some as.length := by
  induction as generalizing p with
  | nil =>
    rw [List.nil_append, declarationLength, hbs]
    simp [hp]
  | cons a as ih =>
    obtain ⟨ha, hopen⟩ := List.ne_and_not_mem_of_not_mem_cons hopen
    obtain ⟨ha', hbackslash⟩ := List.ne_and_not_mem_of_not_mem_cons hbackslash
    rw [List.cons_append, declarationLength, ih hopen hbackslash (Ne.symm ha')]
    simp [Ne.symm ha]

theorem blankDeclarations_append {as : List Char} (bs : List Char) (has : '\x7b' ∉ as) :
    blankDeclarations 0 false (as ++ bs) = as ++ blankDeclarations 0 false bs := by
  induction as with
  | nil => rfl
  | cons a as ih =>
    obtain ⟨ha, has⟩ := List.ne_and_not_mem_of_not_mem_cons has
    rw [List.cons_append, blankDeclarations, ih has]
    simp [Ne.symm ha]

/-- Declarations are blanked, and the semicolon behind them is kept. -/
theorem blankDeclarations_inside (as bs : List Char) :
    blankDeclarations as.length true (as ++ ';' :: bs) = blank as ++ ';' :: blankDeclarations 0 false bs := by
  induction as with
  | nil => rfl
  | cons a as ih =>
    rw [List.length_cons, List.cons_append, blankDeclarations, ih]
    simp [blank]

/-- Declarations have a last semicolon with a text behind it that has none, or no semicolon at all. -/
theorem Rule.exists_openEnd (r : Rule) :
    ';' ∉ r.openEnd ∧ ((∃ front, r.body = front ++ ';' :: r.openEnd) ∨ r.body = r.openEnd) := by
  have hsplit : r.body.rdropWhile (· != ';') ++ r.openEnd = r.body := List.rdropWhile_append_rtakeWhile ..
  refine ⟨fun hmem => by simpa using List.mem_rtakeWhile_imp hmem, ?_⟩
  by_cases hnil : r.body.rdropWhile (· != ';') = []
  · rw [hnil, List.nil_append] at hsplit
    exact .inr hsplit.symm
  · have hlast := List.rdropWhile_last_not (· != ';') r.body hnil
    refine .inl ⟨(r.body.rdropWhile (· != ';')).dropLast, ?_⟩
    have hsemicolon : (r.body.rdropWhile (· != ';')).getLast hnil = ';' := by simpa using hlast
    have hconcat := List.dropLast_append_getLast hnil
    rw [hsemicolon] at hconcat
    rw [← List.singleton_append, ← List.append_assoc, hconcat, hsplit]

/-- The declarations of a rule are blanked up to their last semicolon, if what follows the rule has none before the next brace. -/
theorem Rule.exists_blankDeclarations (r : Rule) {rest : List Char} (hrest : ∀ p, declarationLength p rest = none) :
    ∃ mid, Text.size mid = Text.size r.body - Text.size r.openEnd ∧ (∀ d ∈ mid, Separates d) ∧
      blankDeclarations 0 false (r.text ++ rest) =
        r.selector ++ '\x7b' :: (mid ++ (r.openEnd ++ '\x7d' :: blankDeclarations 0 false rest)) := by
  obtain ⟨hsemicolon, hbody⟩ := r.exists_openEnd
  have hopenEnd : '\x7b' ∉ r.openEnd := fun hmem => r.body_plain.no_open ((List.rtakeWhile_suffix ..).subset hmem)
  have hquiet : ∀ p, declarationLength p (r.openEnd ++ '\x7d' :: rest) = none := by
    refine declarationLength_append_eq_none hsemicolon fun p => ?_
    show declarationLength p (['\x7d'] ++ rest) = none
    exact declarationLength_append_eq_none (by simp) hrest p
  have hend : blankDeclarations 0 false (r.openEnd ++ '\x7d' :: rest) = r.openEnd ++ '\x7d' :: blankDeclarations 0 false rest := by
    rw [blankDeclarations_append _ hopenEnd]
    rfl
  have htext : r.text ++ rest = r.selector ++ '\x7b' :: (r.body ++ '\x7d' :: rest) := by simp [Rule.text]
  rw [htext, blankDeclarations_append _ r.selector_plain.no_open]
  rcases hbody with ⟨front, hfront⟩ | hbody
  · have hplain := r.body_plain
    rw [hfront] at hplain
    have hopen : '\x7b' ∉ front := fun hmem => hplain.no_open (List.mem_append_left _ hmem)
    have hbackslash : '\\' ∉ front := fun hmem => hplain.no_backslash (List.mem_append_left _ hmem)
    refine ⟨blank front ++ [';'], ?_, ?_, ?_⟩
    · conv => rhs; rw [hfront]
      simp only [Text.size_append, size_blank_list, Text.size_cons, Text.size_nil]
      omega
    · intro d hd
      rcases List.mem_append.1 hd with hd | hd
      · rw [eq_space_of_mem_blank hd]
        exact ⟨by decide, by decide, rfl⟩
      · rw [List.mem_singleton.1 hd]
        exact ⟨by decide, by decide, rfl⟩
    · conv => lhs; rw [hfront]
      rw [List.append_assoc, List.cons_append, blankDeclarations,
        declarationLength_append_semicolon hopen hbackslash hquiet (by decide)]
      simp only [blankDeclarations_inside, hend]
      simp
  · refine ⟨[], by rw [← hbody]; simp, by simp, ?_⟩
    conv => lhs; rw [hbody]
    rw [blankDeclarations, hquiet]
    simp only [hend]
    simp

/-! ## Names of sheets -/

theorem separates_brace : Separates '\x7b' ∧ Separates '\x7d' := ⟨⟨by decide, by decide, rfl⟩, by decide, by decide, rfl⟩

theorem separates_of_isAsciiBlank {c : Char} (h : Text.isAsciiBlank c = true) : Separates c := by
  simp only [Text.isAsciiBlank, Bool.or_eq_true, beq_iff_eq] at h
  rcases h with (((rfl | rfl) | rfl) | rfl) | rfl <;> exact ⟨by decide, by decide, rfl⟩

/-- The names of a rule of which the declarations are blanked up to their last semicolon, and of what follows the rule. -/
theorem Rule.namesClass_blanked_iff (r : Rule) {mid more t : List Char} {n : Nat}
    (hsize : Text.size mid = Text.size r.body - Text.size r.openEnd) (hmid : ∀ d ∈ mid, Separates d) :
    NamesClass (r.selector ++ '\x7b' :: (mid ++ (r.openEnd ++ '\x7d' :: more))) n t ↔
      r.InSelector n t ∨ r.InOpenEnd n t ∨ ∃ k, n = Text.size r.text + k ∧ NamesClass more k t := by
  have hle : Text.size r.openEnd ≤ Text.size r.body := by
    obtain ⟨front, hfront⟩ := List.rtakeWhile_suffix (· != ';') r.body
    rw [← hfront, Text.size_append]
    exact Nat.le_add_left ..
  have hbrace : ('\x7b' : Char).utf8Size = 1 ∧ ('\x7d' : Char).utf8Size = 1 := by decide
  have htext : Text.size r.text = Text.size r.selector + 1 + Text.size mid + Text.size r.openEnd + 1 := by
    simp only [Rule.text, Text.size_append, Text.size_cons, Text.size_nil, hbrace]
    omega
  have hopenEnd : ∀ k, NamesClass (r.openEnd ++ '\x7d' :: more) k t ↔
      NamesClass r.openEnd k t ∨ ∃ j, k = Text.size r.openEnd + 1 + j ∧ NamesClass more j t := by
    intro k
    rw [namesClass_append_cons_iff separates_brace.2, namesClass_concat_iff rfl, Text.size_append, Text.size_cons, hbrace.2]
    rfl
  rw [namesClass_append_cons_iff separates_brace.1, Text.size_append, Text.size_cons, hbrace.1]
  refine or_congr_right ?_
  constructor
  · rintro ⟨k', rfl, hbehind⟩
    obtain ⟨k, rfl, hname⟩ := (namesClass_separated_iff hmid).1 hbehind
    rcases (hopenEnd k).1 hname with hin | ⟨j, rfl, hin⟩
    · refine .inl ⟨k, ?_, hin⟩
      rw [Text.size_nil, hsize]
      omega
    · refine .inr ⟨j, ?_, hin⟩
      rw [Text.size_nil, htext]
      omega
  · rintro (⟨k, rfl, h⟩ | ⟨j, rfl, h⟩)
    · refine ⟨Text.size mid + k, ?_, (namesClass_separated_iff hmid).2 ⟨k, rfl, (hopenEnd k).2 (.inl h)⟩⟩
      rw [Text.size_nil, hsize]
      omega
    · refine ⟨Text.size mid + (Text.size r.openEnd + 1 + j), ?_,
        (namesClass_separated_iff hmid).2 ⟨_, rfl, (hopenEnd _).2 (.inr ⟨j, rfl, h⟩)⟩⟩
      rw [Text.size_nil, htext]
      omega

/-- The names of a sheet of which the declarations are blanked: those of its selectors, and those behind the last semicolon of its
declarations. -/
theorem namesClass_blankDeclarations_iff (rs : List Rule) {ending : List Char} (h : ∀ c ∈ ending, Text.isAsciiBlank c = true) {n : Nat}
    {t : List Char} : NamesClass (blankDeclarations 0 false (rs.flatMap Rule.text ++ ending)) n t ↔
      At Rule.InSelector rs n t ∨ At Rule.InOpenEnd rs n t := by
  have hnot : ∀ d : Char, Text.isAsciiBlank d = false → d ∉ ending := by
    intro d hd hmem
    rw [h d hmem] at hd
    cases hd
  induction rs generalizing n with
  | nil =>
    have hblank : blankDeclarations 0 false ending = ending := by
      have happend := blankDeclarations_append [] (hnot '\x7b' rfl)
      rwa [List.append_nil, blankDeclarations, List.append_nil] at happend
    refine iff_of_false ?_ ?_
    · rw [List.flatMap_nil, List.nil_append, hblank]
      intro hname
      rw [← List.append_nil ending, namesClass_separated_iff fun d hd => separates_of_isAsciiBlank (h d hd)] at hname
      obtain ⟨k, -, hk⟩ := hname
      exact not_namesClass_nil k t hk
    · rintro (⟨front, r, back, k, heq, -⟩ | ⟨front, r, back, k, heq, -⟩) <;> simp at heq
  | cons r rs ih =>
    have hquiet : ∀ p, declarationLength p (rs.flatMap Rule.text ++ ending) = none := by
      cases rs with
      | nil =>
        have hending := declarationLength_append_eq_none (hnot ';' rfl) fun _ => show declarationLength _ [] = none from rfl
        rwa [List.append_nil] at hending
      | cons r' rs =>
        have htext : (r' :: rs).flatMap Rule.text ++ ending =
            r'.selector ++ '\x7b' :: (r'.body ++ ['\x7d'] ++ (rs.flatMap Rule.text ++ ending)) := by
          simp [Rule.text]
        rw [htext]
        exact declarationLength_append_eq_none r'.selector_no_semicolon fun _ => rfl
    obtain ⟨mid, hsize, hmid, hblanked⟩ := r.exists_blankDeclarations hquiet
    rw [List.flatMap_cons, List.append_assoc, hblanked, r.namesClass_blanked_iff hsize hmid, at_cons_iff, at_cons_iff]
    simp only [ih]
    constructor
    · rintro (hin | hin | ⟨k, rfl, hin | hin⟩)
      · exact .inl (.inl hin)
      · exact .inr (.inl hin)
      · exact .inl (.inr ⟨k, rfl, hin⟩)
      · exact .inr (.inr ⟨k, rfl, hin⟩)
    · rintro ((hin | ⟨k, rfl, hin⟩) | hin | ⟨k, rfl, hin⟩)
      · exact .inl hin
      · exact .inr (.inr ⟨k, rfl, .inl hin⟩)
      · exact .inr (.inl hin)
      · exact .inr (.inr ⟨k, rfl, .inr hin⟩)

/-- What is a name in each rule that it is in is a name of the sheet. -/
theorem At.namesClass {P : Rule → Nat → List Char → Prop} (hP : ∀ r n t, P r n t → NamesClass r.text n t) {rs : List Rule} {n : Nat}
    {t : List Char} (h : At P rs n t) (ending : List Char) : NamesClass (rs.flatMap Rule.text ++ ending) n t := by
  obtain ⟨front, r, back, k, rfl, rfl, h⟩ := h
  have hsplit : (front ++ r :: back).flatMap Rule.text ++ ending =
      front.flatMap Rule.text ++ (r.text ++ (back.flatMap Rule.text ++ ending)) := by simp
  rw [hsplit]
  exact ((hP r k t h).append_right _).append_left _

namespace Rule

variable {r : Rule} {n : Nat} {t : List Char}

theorem InSelector.namesClass (h : r.InSelector n t) : NamesClass r.text n t := by
  have htext : r.text = (r.selector ++ ['\x7b']) ++ (r.body ++ ['\x7d']) := by simp [text]
  rw [htext]
  exact NamesClass.append_right h _

theorem InOpenEnd.namesClass (h : r.InOpenEnd n t) : NamesClass r.text n t := by
  obtain ⟨k, rfl, h⟩ := h
  obtain ⟨front, hfront⟩ : r.openEnd <:+ r.body := List.rtakeWhile_suffix ..
  have htext : r.text = (r.selector ++ '\x7b' :: front) ++ (r.openEnd ++ ['\x7d']) := by simp [text, ← hfront]
  have hbrace : ('\x7b' : Char).utf8Size = 1 := rfl
  have hsize : Text.size r.selector + 1 + (Text.size r.body - Text.size r.openEnd) = Text.size (r.selector ++ '\x7b' :: front) := by
    rw [← hfront, Text.size_append, Text.size_append, Text.size_cons, hbrace]
    omega
  rw [htext, hsize]
  exact (h.append_right _).append_left _

/-- A name in a selector is in front of the brace. -/
theorem InSelector.lt (h : r.InSelector n t) : n < Text.size r.selector := by
  have hlt := NamesClass.lt_size h
  have hpos := Text.size_pos h.1.ne_nil
  have hbrace : ('\x7b' : Char).utf8Size = 1 := rfl
  rw [Text.size_append, Text.size_cons, Text.size_nil, hbrace] at hlt
  omega

theorem InOpenEnd.selector_lt (h : r.InOpenEnd n t) : Text.size r.selector < n := by
  obtain ⟨k, rfl, -⟩ := h
  omega

end Rule

/-- No name is in a selector and in declarations. -/
theorem not_at_openEnd_of_at_selector {rs : List Rule} {n : Nat} {t u : List Char} (h : At Rule.InSelector rs n t) :
    ¬At Rule.InOpenEnd rs n u := by
  induction rs generalizing n with
  | nil =>
    obtain ⟨front, r, back, k, heq, -⟩ := h
    simp at heq
  | cons r rs ih =>
    rw [at_cons_iff] at h ⊢
    rintro (hopen | ⟨k, rfl, hopen⟩)
    · rcases h with hselector | ⟨k, rfl, -⟩
      · have hlt := hselector.lt
        have hlt' := hopen.selector_lt
        omega
      · have hlt := hopen.namesClass.lt_size
        omega
    · rcases h with hselector | ⟨k', heq, hselector⟩
      · have hlt := hselector.namesClass.lt_size
        omega
      · obtain rfl : k = k' := by omega
        exact ih hselector hopen

/-- What is found in a sheet are the names in its selectors and those behind the last semicolon of its declarations. -/
theorem mem_classNames_iff (s : Sheet) (c : StyleRef) : c ∈ classNames s.text ↔
    At Rule.InSelector s.rules c.offset c.text.toList ∨ At Rule.InOpenEnd s.rules c.offset c.text.toList := by
  have htext : s.text.toList = s.rules.flatMap Rule.text ++ s.ending := String.toList_ofList
  -- Blanking moves no name, so what is found reads the name in the sheet itself.
  have hspan : ∀ n t, At Rule.InSelector s.rules n t ∨ At Rule.InOpenEnd s.rules n t →
      refAt s.text.toList ⟨n, n + Text.size t⟩ = ⟨String.ofList t, n⟩ := by
    intro n t h
    have hname : NamesClass s.text.toList n t := by
      rw [htext]
      rcases h with h | h
      · exact h.namesClass (fun _ _ _ => Rule.InSelector.namesClass) _
      · exact h.namesClass (fun _ _ _ => Rule.InOpenEnd.namesClass) _
    exact refAt_eq ⟨hname.standsAt, rfl⟩
  rw [classNames, List.mem_map]
  simp only [mem_classSpans_iff, Nat.zero_add]
  rw [htext, blankComments_sheet s.rules s.ending_blank, ← htext]
  constructor
  · rintro ⟨-, ⟨n, t, hname, rfl⟩, rfl⟩
    rw [htext, namesClass_blankDeclarations_iff s.rules s.ending_blank] at hname
    rw [hspan n t hname, String.toList_ofList]
    exact hname
  · intro hname
    refine ⟨_, ⟨c.offset, c.text.toList, ?_, rfl⟩, ?_⟩
    · rw [htext]
      exact (namesClass_blankDeclarations_iff s.rules s.ending_blank).2 hname
    · rw [hspan _ _ hname, String.ofList_toList]

/-- What is found in a sheet of plain rules. The class names come in order, each once with its position, and they are the names in the
selectors and the names behind the last semicolon of declarations. So they are those of the selectors alone exactly when there is no name
behind the last semicolon of any declarations. -/
theorem classNames_of_rules (s : Sheet) :
    ((classNames s.text).Pairwise fun a b => a.offset < b.offset) ∧
    (∀ c : StyleRef, c ∈ classNames s.text ↔
      At Rule.InSelector s.rules c.offset c.text.toList ∨ At Rule.InOpenEnd s.rules c.offset c.text.toList) ∧
    ((∀ c : StyleRef, c ∈ classNames s.text ↔ At Rule.InSelector s.rules c.offset c.text.toList) ↔
      ∀ r ∈ s.rules, ∀ n t, ¬NamesClass r.openEnd n t) := by
  refine ⟨?_, mem_classNames_iff s, ?_⟩
  · rw [classNames, List.pairwise_map]
    exact pairwise_classSpans 0 _
  · constructor
    · intro honly r hr n t hname
      obtain ⟨front, back, hrules⟩ := List.append_of_mem hr
      have hopen : At Rule.InOpenEnd s.rules _ (String.ofList t).toList :=
        ⟨front, r, back, _, hrules, rfl, n, rfl, by rwa [String.toList_ofList]⟩
      have hfound := (honly ⟨String.ofList t, _⟩).1 ((mem_classNames_iff s _).2 (.inr hopen))
      exact not_at_openEnd_of_at_selector hfound hopen
    · intro hnone c
      rw [mem_classNames_iff, or_iff_left]
      rintro ⟨front, r, back, k, hrules, -, n, -, hname⟩
      exact hnone r (by simp [hrules]) n _ hname

/-- A declaration without a semicolon behind it is searched for class names, and a file ending is found as one. -/
theorem classNames_of_open_declaration : ∃ s : Sheet, s.text = ".a \x7b background: url(x.png) \x7d" ∧
    classNames s.text = [⟨".a", 0⟩, ⟨".png", 22⟩] ∧ ¬At Rule.InSelector s.rules 22 ".png".toList := by
  let rule : Rule :=
    { selector := ".a ".toList, body := " background: url(x.png) ".toList
      selector_plain := by constructor <;> decide +kernel
      selector_no_semicolon := by decide +kernel
      body_plain := by constructor <;> decide +kernel }
  refine ⟨⟨[rule], [], by simp⟩, by decide +kernel, by decide +kernel, ?_⟩
  rw [at_cons_iff]
  rintro (hselector | ⟨-, -, front, r, back, -, heq, -⟩)
  · exact absurd hselector.lt (by decide +kernel)
  · simp at heq

end Stylesheet

end TypedSfc
