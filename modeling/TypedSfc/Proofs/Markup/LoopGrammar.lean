import TypedSfc.Proofs.Markup.Loops

/-!
# The grammar of loop expressions

A loop expression is cut at the first "in" or "of" that has white space on both sides and a source behind it. What stands before is an
alias list, parted at the leftmost comma that is no comma of a pattern. The white space before a keyword is any Unicode white space; the
white space behind it has to begin with an ASCII blank, and that is all that sets what is read apart from the grammar.
-/

namespace TypedSfc

namespace Text

/-! ## White space -/

theorem isSpace_of_isAsciiBlank {c : Char} (h : isAsciiBlank c = true) : isSpace c = true := by
  simp only [isAsciiBlank, Bool.or_eq_true, beq_iff_eq] at h
  rcases h with (((rfl | rfl) | rfl) | rfl) | rfl <;> decide

/-- A text is `own` between white space, and `own` neither begins nor ends with white space. -/
structure Trims (cs gap own back : List Char) : Prop where
  eq : cs = gap ++ (own ++ back)
  gap : ∀ c ∈ gap, isSpace c = true
  back : ∀ c ∈ back, isSpace c = true
  head : ∀ c ∈ own.head?, isSpace c = false
  last : ∀ c ∈ own.getLast?, isSpace c = false

theorem exists_trims (cs : List Char) : ∃ back, Trims cs (cs.takeWhile isSpace) (trim cs) back := by
  obtain ⟨back, heq, hback, hlast⟩ := exists_trimEnd (trimStart cs)
  refine ⟨back, ?_, fun c hc => List.mem_takeWhile_imp hc, hback, ?_, hlast⟩
  · rw [trim, ← heq]
    exact List.takeWhile_append_dropWhile.symm
  · intro c hc
    refine isSpace_head_trimStart cs c ?_
    have hc' : (trimEnd (trimStart cs)).head? = some c := hc
    rw [heq, List.head?_append, hc']
    rfl

/-- All white space before something else is taken from the start. -/
theorem trimStart_append {gap cs : List Char} (hgap : ∀ c ∈ gap, isSpace c = true) (hcs : ∃ c ∈ cs.head?, isSpace c = false) :
    trimStart (gap ++ cs) = cs := by
  obtain ⟨c, hc, hnot⟩ := hcs
  obtain ⟨more, rfl⟩ := List.head?_eq_some_iff.1 hc
  rw [trimStart, List.dropWhile_append_of_pos hgap, List.dropWhile_cons_of_neg (by simp [hnot])]

/-- All white space behind something else is taken from the end. -/
theorem trimEnd_append {gap cs : List Char} (hgap : ∀ c ∈ gap, isSpace c = true) (hcs : ∃ c ∈ cs.getLast?, isSpace c = false) :
    trimEnd (cs ++ gap) = cs := by
  obtain ⟨c, hc, hnot⟩ := hcs
  obtain ⟨front, rfl⟩ := List.getLast?_eq_some_iff.1 hc
  rw [trimEnd, List.reverse_append, List.dropWhile_append_of_pos (by simpa using hgap), List.reverse_append]
  show (List.dropWhile isSpace (c :: front.reverse)).reverse = _
  rw [List.dropWhile_cons_of_neg (by simp [hnot]), List.reverse_cons, List.reverse_reverse]

/-- All white space around something else is taken away. -/
theorem trim_append {front cs back : List Char} (hfront : ∀ c ∈ front, isSpace c = true) (hback : ∀ c ∈ back, isSpace c = true)
    (hfirst : ∃ c ∈ cs.head?, isSpace c = false) (hlast : ∃ c ∈ cs.getLast?, isSpace c = false) :
    trim (front ++ (cs ++ back)) = cs := by
  have hhead : ∃ c ∈ (cs ++ back).head?, isSpace c = false := by
    obtain ⟨c, hc, hnot⟩ := hfirst
    exact ⟨c, List.head?_append.trans (by rw [hc, Option.some_or]), hnot⟩
  rw [trim, trimStart_append hfront hhead, trimEnd_append hback hlast]

theorem size_trimStart (cs : List Char) : size cs - size (trimStart cs) = size (cs.takeWhile isSpace) := by
  have hsize := congrArg size (List.takeWhile_append_dropWhile (p := isSpace) (l := cs))
  rw [size_append] at hsize
  unfold trimStart
  omega

end Text

namespace Markup

namespace Loop

/-! ## The grammar -/

/-- A text is a keyword, white space that begins with a blank of some kind, and the source. -/
def BeginsKeyword (blank : Char → Bool) (cs right : List Char) : Prop :=
  ∃ keyword c gap, cs = keyword ++ (c :: gap ++ right) ∧ (keyword = ['i', 'n'] ∨ keyword = ['o', 'f']) ∧
    (blank c = true ∧ Text.isSpace c = true) ∧ (∀ d ∈ gap, Text.isSpace d = true) ∧ ∃ d ∈ right.head?, Text.isSpace d = false

/-- A text may be cut into the aliases and the source: white space and a keyword stand between. -/
def IsCut (blank : Char → Bool) (cs left right : List Char) : Prop :=
  ∃ gap rest, cs = left ++ (gap ++ rest) ∧ gap ≠ [] ∧ (∀ d ∈ gap, Text.isSpace d = true) ∧ BeginsKeyword blank rest right

/-- The cut with the shortest text before it. -/
structure IsFirstCut (blank : Char → Bool) (cs left right : List Char) : Prop where
  cut : IsCut blank cs left right
  first : ∀ left' right', IsCut blank cs left' right' → left.length ≤ left'.length

/-- A text without the parentheses at its ends, one on each side. -/
structure Unwraps (body open' inner close : List Char) : Prop where
  eq : body = open' ++ (inner ++ close)
  opened : open' = ['('] ∨ (open' = [] ∧ '(' ∉ body.head?)
  closed : close = [')'] ∨ (close = [] ∧ ')' ∉ inner.getLast?)

/-- The alias list of a text, and what stands before it: white space, a parenthesis and white space again. -/
def IsAliasList (left front list : List Char) : Prop :=
  ∃ gap body back open' inner close gap' back',
    Text.Trims left gap body back ∧ Unwraps body open' inner close ∧ Text.Trims inner gap' list back' ∧ front = gap ++ (open' ++ gap')

/-- What may follow a comma that parts an alias list: one more comma, and no end of a pattern. -/
structure EndsAliases (rest : List Char) : Prop where
  commas : rest.count ',' ≤ 1
  bracket : ']' ∉ rest
  brace : '}' ∉ rest

/-- The leftmost comma that parts an alias list. -/
structure IsFirstComma (list value rest : List Char) : Prop where
  eq : list = value ++ ',' :: rest
  ends : EndsAliases rest
  first : ∀ value' rest', list = value' ++ ',' :: rest' → EndsAliases rest' → value.length ≤ value'.length

/-- An expression is what a text at a position holds between white space; there is none when the text holds nothing else. -/
def Yields (pos : Nat) (cs : List Char) (e : Option Expression) : Prop :=
  ∃ gap own back, Text.Trims cs gap own back ∧ e = if own = [] then none else some ⟨String.ofList own, pos + Text.size gap, false⟩

/-- An alias list at a position is read as a value; a value and a key; or a value, a key and an index. -/
inductive ReadsAliases (pos : Nat) (list : List Char) (head : LoopHead) : Prop where
  | whole : (∀ value rest, list = value ++ ',' :: rest → ¬EndsAliases rest) →
      Yields pos list head.value → head.key = none → head.index = none → ReadsAliases pos list head
  | key {value key : List Char} : IsFirstComma list value key → ',' ∉ key →
      Yields pos value head.value → Yields (pos + Text.size value + 1) key head.key → head.index = none → ReadsAliases pos list head
  | index {value key index : List Char} : IsFirstComma list value (key ++ ',' :: index) →
      Yields pos value head.value → Yields (pos + Text.size value + 1) key head.key →
      Yields (pos + Text.size value + 1 + Text.size key + 1) index head.index → ReadsAliases pos list head

/-- What a cut says of a loop: the source without the white space behind it, and the aliases. -/
structure ReadsCut (e : Expression) (left right : List Char) (head : LoopHead) : Prop where
  source : ∃ front own back, e.content.toList = front ++ right ∧ right = own ++ back ∧ (∀ c ∈ back, Text.isSpace c = true) ∧
    (∀ c ∈ own.getLast?, Text.isSpace c = false) ∧ head.source = some ⟨String.ofList own, e.offset + Text.size front, false⟩
  aliases : ∃ front list, IsAliasList left front list ∧ ReadsAliases (e.offset + Text.size front) list head

/-- The grammar of loop expressions, for a notion of what blank may follow a keyword. -/
structure Follows (blank : Char → Bool) (e : Expression) (result : Option LoopHead) : Prop where
  fails : result = none ↔ ∀ left right, ¬IsCut blank e.content.toList left right
  reads : ∀ head ∈ result, ∃ left right, IsFirstCut blank e.content.toList left right ∧ ReadsCut e left right head

/-! ## Cuts -/

variable {blank : Char → Bool} {c : Char} {cs left right rest : List Char}

/-- A keyword begins with a letter. -/
theorem BeginsKeyword.head (h : BeginsKeyword blank rest right) : ∃ d ∈ rest.head?, Text.isSpace d = false := by
  obtain ⟨keyword, c, gap, rfl, rfl | rfl, -⟩ := h
  · exact ⟨'i', rfl, by decide⟩
  · exact ⟨'o', rfl, by decide⟩

/-- The source behind a keyword is all but the white space. -/
theorem BeginsKeyword.unique {right' : List Char} (h : BeginsKeyword blank rest right) (h' : BeginsKeyword blank rest right') :
    right = right' := by
  obtain ⟨keyword, c, gap, rfl, hkeyword, ⟨-, hspace⟩, hgap, hright⟩ := h
  obtain ⟨keyword', c', gap', heq, hkeyword', ⟨-, hspace'⟩, hgap', hright'⟩ := h'
  have hlength : ∀ {k : List Char}, k = ['i', 'n'] ∨ k = ['o', 'f'] → k.length = 2 := by
    rintro k (rfl | rfl) <;> rfl
  have htail := List.append_inj_right heq ((hlength hkeyword).trans (hlength hkeyword').symm)
  rw [← Text.trimStart_append (List.forall_mem_cons.2 ⟨hspace, hgap⟩) hright, htail,
    Text.trimStart_append (List.forall_mem_cons.2 ⟨hspace', hgap'⟩) hright']

theorem afterKeyword_eq_some_iff : afterKeyword cs = some right ↔ BeginsKeyword Text.isAsciiBlank cs right := by
  constructor
  · intro h
    unfold afterKeyword at h
    split at h
    · rename_i a b c cs
      split at h
      · rename_i hkeyword
        split at h
        · cases h
        · rename_i hne
          obtain rfl := Option.some.inj h
          rw [Bool.and_eq_true] at hkeyword
          have hspace := Text.isSpace_of_isAsciiBlank hkeyword.2
          have htrim : Text.trimStart (c :: cs) = Text.trimStart cs := by simp [Text.trimStart, hspace]
          refine ⟨[a, b], c, cs.takeWhile Text.isSpace, ?_, ?_, ⟨hkeyword.2, hspace⟩, fun d hd => List.mem_takeWhile_imp hd, ?_⟩
          · rw [htrim]
            exact congrArg (a :: b :: c :: ·) List.takeWhile_append_dropWhile.symm
          · simpa using hkeyword.1
          · obtain ⟨d, more, hd⟩ := List.exists_cons_of_ne_nil hne
            exact ⟨d, by rw [hd]; rfl, Text.isSpace_head_trimStart (c :: cs) d (by rw [hd]; rfl)⟩
      · cases h
    · cases h
  · rintro ⟨keyword, c, gap, rfl, hkeyword, ⟨hblank, hspace⟩, hgap, d, hd, hnot⟩
    have htrim := Text.trimStart_append (List.forall_mem_cons.2 ⟨hspace, hgap⟩) ⟨d, hd, hnot⟩
    obtain ⟨more, rfl⟩ := List.head?_eq_some_iff.1 hd
    rw [List.cons_append] at htrim
    rcases hkeyword with rfl | rfl
    all_goals
      simp only [List.cons_append, List.nil_append, afterKeyword, htrim]
      simp [hblank]

/-- A cut of a text either starts where the text does, with white space, or is a cut of what follows the first character. -/
theorem isCut_cons : IsCut blank (c :: cs) left right ↔
    (left = [] ∧ Text.isSpace c = true ∧ BeginsKeyword blank (Text.trimStart (c :: cs)) right) ∨
      ∃ left', left = c :: left' ∧ IsCut blank cs left' right := by
  constructor
  · rintro ⟨gap, rest, heq, hne, hgap, hrest⟩
    cases left with
    | nil =>
      obtain ⟨d, gap, rfl⟩ := List.exists_cons_of_ne_nil hne
      have hstart := Text.trimStart_append hgap hrest.head
      rw [List.nil_append] at heq
      obtain rfl : c = d := (List.cons.inj heq).1
      refine .inl ⟨rfl, hgap c List.mem_cons_self, ?_⟩
      rw [heq, hstart]
      exact hrest
    | cons d left =>
      obtain ⟨rfl, htail⟩ := List.cons.inj heq
      exact .inr ⟨left, rfl, gap, rest, htail, hne, hgap, hrest⟩
  · rintro (⟨rfl, hspace, hrest⟩ | ⟨left', rfl, gap, rest, rfl, hne, hgap, hrest⟩)
    · refine ⟨(c :: cs).takeWhile Text.isSpace, _, List.takeWhile_append_dropWhile.symm, ?_, ?_, hrest⟩
      · simp [hspace]
      · exact fun d hd => List.mem_takeWhile_imp hd
    · exact ⟨gap, rest, rfl, hne, hgap, hrest⟩

theorem not_isCut_nil : ¬IsCut blank [] left right := by
  rintro ⟨gap, rest, heq, hne, -⟩
  obtain ⟨-, h⟩ := List.append_eq_nil_iff.1 heq.symm
  exact hne (List.append_eq_nil_iff.1 h).1

/-- Behind a character that no cut starts at, the first cut is the first of all. -/
theorem IsFirstCut.cons (h : IsFirstCut blank cs left right)
    (hc : ∀ right, ¬(Text.isSpace c = true ∧ BeginsKeyword blank (Text.trimStart (c :: cs)) right)) :
    IsFirstCut blank (c :: cs) (c :: left) right := by
  refine ⟨isCut_cons.2 (.inr ⟨left, rfl, h.cut⟩), ?_⟩
  intro left' right' hcut
  rcases isCut_cons.1 hcut with ⟨-, hhere⟩ | ⟨left', rfl, hcut'⟩
  · exact absurd hhere (hc right')
  · exact Nat.succ_le_succ (h.first left' right' hcut')

/-- Where there are cuts one is the first. -/
theorem IsCut.exists_isFirstCut (h : IsCut blank cs left right) : ∃ left' right', IsFirstCut blank cs left' right' := by
  induction cs generalizing left right with
  | nil => exact absurd h not_isCut_nil
  | cons c cs ih =>
    by_cases hhere : ∃ right, Text.isSpace c = true ∧ BeginsKeyword blank (Text.trimStart (c :: cs)) right
    · obtain ⟨right', hhere⟩ := hhere
      exact ⟨[], right', isCut_cons.2 (.inl ⟨rfl, hhere⟩), fun _ _ _ => Nat.zero_le _⟩
    · rcases isCut_cons.1 h with ⟨-, h⟩ | ⟨left', -, h⟩
      · exact absurd ⟨right, h⟩ hhere
      · obtain ⟨left'', right'', hfirst⟩ := ih h
        exact ⟨c :: left'', right'', hfirst.cons (not_exists.1 hhere)⟩

/-- The text before a cut tells the source. -/
theorem IsFirstCut.right_eq {left' right' : List Char} (h : IsFirstCut blank cs left right) (h' : IsFirstCut blank cs left' right') :
    right = right' := by
  have hlength := Nat.le_antisymm (h.first left' right' h'.cut) (h'.first left right h.cut)
  obtain ⟨gap, rest, heq, -, hgap, hrest⟩ := h.cut
  obtain ⟨gap', rest', heq', -, hgap', hrest'⟩ := h'.cut
  have hbehind := List.append_inj_right (heq.symm.trans heq') hlength
  have hsame : rest = rest' := by
    rw [← Text.trimStart_append hgap hrest.head, hbehind, Text.trimStart_append hgap' hrest'.head]
  exact hrest.unique (hsame ▸ hrest')

/-- Where no character starts a cut the search goes on, and where one does it ends. -/
theorem splitKeyword_cases (before : List Char) (c : Char) (cs : List Char) :
    (∃ right, Text.isSpace c = true ∧ BeginsKeyword Text.isAsciiBlank (Text.trimStart (c :: cs)) right ∧
      splitKeyword before (c :: cs) = some (before.reverse, right)) ∨
    ((∀ right, ¬(Text.isSpace c = true ∧ BeginsKeyword Text.isAsciiBlank (Text.trimStart (c :: cs)) right)) ∧
      splitKeyword before (c :: cs) = splitKeyword (c :: before) cs) := by
  rw [splitKeyword_cons]
  by_cases hspace : Text.isSpace c = true
  · rw [if_pos hspace]
    cases hkeyword : afterKeyword (Text.trimStart (c :: cs)) with
    | some right => exact .inl ⟨right, hspace, afterKeyword_eq_some_iff.1 hkeyword, rfl⟩
    | none =>
      refine .inr ⟨fun right h => ?_, rfl⟩
      rw [afterKeyword_eq_some_iff.2 h.2] at hkeyword
      cases hkeyword
  · rw [if_neg hspace]
    exact .inr ⟨fun right h => hspace h.1, rfl⟩

theorem not_isCut_of_splitKeyword {before : List Char} (h : splitKeyword before cs = none) : ¬IsCut Text.isAsciiBlank cs left right := by
  induction cs generalizing before left with
  | nil => exact not_isCut_nil
  | cons c cs ih =>
    rcases splitKeyword_cases before c cs with ⟨right', -, -, hfound⟩ | ⟨hhere, hnext⟩
    · rw [hfound] at h
      cases h
    · rw [hnext] at h
      intro hcut
      rcases isCut_cons.1 hcut with ⟨-, hcut⟩ | ⟨left', -, hcut⟩
      · exact hhere right hcut
      · exact ih h hcut

/-- The search finds the first cut whose keyword is followed by an ASCII blank. -/
theorem isFirstCut_of_splitKeyword {before : List Char} (h : splitKeyword before cs = some (left, right)) :
    ∃ left', left = before.reverse ++ left' ∧ IsFirstCut Text.isAsciiBlank cs left' right := by
  induction cs generalizing before with
  | nil => cases h
  | cons c cs ih =>
    rcases splitKeyword_cases before c cs with ⟨right', hspace, hkeyword, hfound⟩ | ⟨hhere, hnext⟩
    · rw [hfound] at h
      obtain ⟨rfl, rfl⟩ := Prod.mk.inj (Option.some.inj h)
      exact ⟨[], (List.append_nil _).symm, isCut_cons.2 (.inl ⟨rfl, hspace, hkeyword⟩), fun _ _ _ => Nat.zero_le _⟩
    · rw [hnext] at h
      obtain ⟨left', rfl, hfirst⟩ := ih h
      exact ⟨c :: left', by simp, hfirst.cons hhere⟩

/-! ## Aliases -/

theorem splitLastComma_eq_none_iff : splitLastComma cs = none ↔ ',' ∉ cs := by
  induction cs with
  | nil => simp [splitLastComma]
  | cons c cs ih =>
    rw [splitLastComma, List.mem_cons, not_or]
    cases hsplit : splitLastComma cs with
    | some parts =>
      have hmem : ',' ∈ cs := by
        by_contra hcomma
        simp [ih.2 hcomma] at hsplit
      simp [hmem]
    | none =>
      have hcomma : (c == ',') = true ↔ ',' = c := beq_iff_eq.trans eq_comm
      simp only [ih.1 hsplit, not_false_eq_true, and_true, ← hcomma]
      split <;> simp_all

/-- Behind the last comma there is none. -/
theorem not_mem_of_splitLastComma {before last : List Char} (h : splitLastComma cs = some (before, last)) : ',' ∉ last := by
  induction cs generalizing before with
  | nil => cases h
  | cons c cs ih =>
    rw [splitLastComma] at h
    split at h
    · rename_i before' last' hsplit
      obtain ⟨-, rfl⟩ := Prod.mk.inj (Option.some.inj h)
      exact ih hsplit
    · split at h
      · rename_i hnone _
        obtain ⟨-, rfl⟩ := Prod.mk.inj (Option.some.inj h)
        exact splitLastComma_eq_none_iff.1 hnone
      · cases h

/-- A comma is the last one, or it stands before it. -/
theorem comma_cases {before last value rest : List Char} (h : before ++ ',' :: last = value ++ ',' :: rest) (hlast : ',' ∉ last) :
    (value = before ∧ rest = last) ∨ ∃ between, before = value ++ ',' :: between ∧ rest = between ++ ',' :: last := by
  rcases List.append_eq_append_iff.1 h with ⟨more, rfl, heq⟩ | ⟨more, rfl, heq⟩
  · cases more with
    | nil => exact .inl ⟨List.append_nil _, (List.cons.inj heq).2.symm⟩
    | cons c more =>
      refine absurd ?_ hlast
      rw [(List.cons.inj heq).2]
      simp
  · cases more with
    | nil => exact .inl ⟨(List.append_nil _).symm, (List.cons.inj heq).2⟩
    | cons c more =>
      obtain ⟨rfl, hrest⟩ := List.cons.inj heq
      exact .inr ⟨more, rfl, hrest⟩

theorem closesPattern_eq_false_iff : closesPattern cs = false ↔ ']' ∉ cs ∧ '}' ∉ cs := by
  simp only [closesPattern, List.any_eq_false, Bool.or_eq_true, beq_iff_eq, not_or]
  constructor
  · intro h
    exact ⟨fun hc => (h _ hc).2 rfl, fun hc => (h _ hc).1 rfl⟩
  · rintro ⟨hbracket, hbrace⟩ c hc
    exact ⟨fun h => hbrace (h ▸ hc), fun h => hbracket (h ▸ hc)⟩

/-- What may follow a comma that parts the list does not close a pattern anywhere. -/
theorem EndsAliases.closesPattern_eq {part : List Char} (h : EndsAliases rest) (hpart : part <:+: rest) : closesPattern part = false :=
  closesPattern_eq_false_iff.2 ⟨fun hc => h.bracket (hpart.subset hc), fun hc => h.brace (hpart.subset hc)⟩

/-- A last part stands behind every comma, so none closes a pattern behind a comma that parts the list. -/
theorem EndsAliases.closesPattern_last {before last value more : List Char} (h : EndsAliases (rest ++ more))
    (heq : before ++ ',' :: last = value ++ ',' :: rest) (hlast : ',' ∉ last) : closesPattern last = false := by
  rcases comma_cases heq hlast with ⟨-, rfl⟩ | ⟨between, -, rfl⟩
  · exact h.closesPattern_eq (List.prefix_append _ _).isInfix
  · exact h.closesPattern_eq ⟨between ++ [','], more, by simp⟩

theorem endsAliases_of_not_mem (hcomma : ',' ∉ rest) (hclose : closesPattern rest = false) : EndsAliases rest := by
  obtain ⟨hbracket, hbrace⟩ := closesPattern_eq_false_iff.1 hclose
  exact ⟨by rw [List.count_eq_zero.2 hcomma]; exact Nat.zero_le _, hbracket, hbrace⟩

/-- The last comma is the leftmost that parts the list, when none before it does. -/
theorem isFirstComma_last {before last : List Char} (hcomma : ',' ∉ last) (hclose : closesPattern last = false)
    (hbefore : ∀ value between, before = value ++ ',' :: between → ¬EndsAliases (between ++ ',' :: last)) :
    IsFirstComma (before ++ ',' :: last) before last := by
  refine ⟨rfl, endsAliases_of_not_mem hcomma hclose, ?_⟩
  intro value rest heq hends
  rcases comma_cases heq hcomma with ⟨rfl, -⟩ | ⟨between, hvalue, rfl⟩
  · exact Nat.le_refl _
  · exact absurd hends (hbefore value between hvalue)

/-- The comma before the last is the leftmost that parts the list, when no end of a pattern follows it. -/
theorem isFirstComma_second {value key last : List Char} (hkey : ',' ∉ key) (hlast : ',' ∉ last) (hclose : closesPattern key = false)
    (hclose' : closesPattern last = false) : IsFirstComma (value ++ ',' :: (key ++ ',' :: last)) value (key ++ ',' :: last) := by
  obtain ⟨hbracket, hbrace⟩ := closesPattern_eq_false_iff.1 hclose
  obtain ⟨hbracket', hbrace'⟩ := closesPattern_eq_false_iff.1 hclose'
  refine ⟨rfl, ⟨?_, by simp [hbracket, hbracket'], by simp [hbrace, hbrace']⟩, ?_⟩
  · simp [List.count_eq_zero.2 hkey, List.count_eq_zero.2 hlast]
  · intro value' rest' heq hends
    have heq' : (value ++ ',' :: key) ++ ',' :: last = value' ++ ',' :: rest' := by simpa using heq
    rcases comma_cases heq' hlast with ⟨rfl, -⟩ | ⟨between, hbetween, rfl⟩
    · simp
    · rcases comma_cases hbetween hkey with ⟨rfl, -⟩ | ⟨between', -, rfl⟩
      · exact Nat.le_refl _
      · -- A comma further left has both of them behind it.
        have hcommas := hends.commas
        simp only [List.count_append, List.count_cons_self] at hcommas
        omega

/-- An alias list is parted at the leftmost comma that does so, and at the comma behind it. -/
theorem splitAliases_cases (list : List Char) :
    (splitAliases list = (list, none, none) ∧ ∀ value rest, list = value ++ ',' :: rest → ¬EndsAliases rest) ∨
    (∃ value key, splitAliases list = (value, some key, none) ∧ IsFirstComma list value key ∧ ',' ∉ key) ∨
    ∃ value key index, splitAliases list = (value, some key, some index) ∧ IsFirstComma list value (key ++ ',' :: index) := by
  cases hlast : splitLastComma list with
  | none =>
    refine .inl ⟨by simp only [splitAliases, hlast], ?_⟩
    rintro value rest rfl
    exact absurd (splitLastComma_eq_none_iff.1 hlast) (by simp)
  | some parts =>
    obtain ⟨before, last⟩ := parts
    obtain rfl := eq_of_splitLastComma hlast
    have hcomma := not_mem_of_splitLastComma hlast
    cases hclose : closesPattern last with
    | true =>
      refine .inl ⟨by simp only [splitAliases, hlast, hclose, if_true], ?_⟩
      intro value rest heq hends
      have hfree : closesPattern last = false := by
        rw [← List.append_nil rest] at hends
        exact hends.closesPattern_last heq hcomma
      rw [hclose] at hfree
      cases hfree
    | false =>
      cases hkey : splitLastComma before with
      | none =>
        refine .inr (.inl ⟨before, last, ?_, isFirstComma_last hcomma hclose ?_, hcomma⟩)
        · simp only [splitAliases, hlast, hclose, hkey, Bool.false_eq_true, if_false]
        · rintro value between rfl
          exact absurd (splitLastComma_eq_none_iff.1 hkey) (by simp)
      | some parts =>
        obtain ⟨value, key⟩ := parts
        obtain rfl := eq_of_splitLastComma hkey
        have hcomma' := not_mem_of_splitLastComma hkey
        cases hclose' : closesPattern key with
        | true =>
          refine .inr (.inl ⟨value ++ ',' :: key, last, ?_, isFirstComma_last hcomma hclose ?_, hcomma⟩)
          · simp only [splitAliases, hlast, hclose, hkey, hclose', Bool.false_eq_true, if_false, if_true]
          · intro value' between heq hends
            have hfree : closesPattern key = false := hends.closesPattern_last heq hcomma'
            rw [hclose'] at hfree
            cases hfree
        | false =>
          refine .inr (.inr ⟨value, key, last, ?_, ?_⟩)
          · simp only [splitAliases, hlast, hclose, hkey, hclose', Bool.false_eq_true, if_false]
          · rw [List.append_assoc, List.cons_append]
            exact isFirstComma_second hcomma' hcomma hclose' hclose

/-! ## What is read -/

theorem yields_piece (pos : Nat) (cs : List Char) : Yields pos cs (piece pos cs) := by
  obtain ⟨back, htrims⟩ := Text.exists_trims cs
  refine ⟨_, _, _, htrims, ?_⟩
  unfold piece
  rw [Text.size_trimStart]
  split
  · rename_i hown
    rw [if_pos hown]
  · rename_i hown
    rw [if_neg hown]

/-- An alias list is read by the leftmost comma that parts it. -/
theorem readsAliases_splitAliases {pos : Nat} {list : List Char} {head : LoopHead}
    (hvalue : head.value = piece pos (splitAliases list).1)
    (hkey : head.key = (splitAliases list).2.1.bind (piece (pos + Text.size (splitAliases list).1 + 1)))
    (hindex : head.index = (splitAliases list).2.1.bind fun k =>
      (splitAliases list).2.2.bind (piece (pos + Text.size (splitAliases list).1 + 1 + Text.size k + 1))) :
    ReadsAliases pos list head := by
  rcases splitAliases_cases list with ⟨hparts, hnone⟩ | ⟨value, key, hparts, hfirst, hcomma⟩ | ⟨value, key, index, hparts, hfirst⟩
  all_goals rw [hparts] at hvalue hkey hindex
  · exact .whole hnone (hvalue ▸ yields_piece pos list) hkey hindex
  · exact .key hfirst hcomma (hvalue ▸ yields_piece _ _) (hkey ▸ yields_piece _ _) hindex
  · exact .index hfirst (hvalue ▸ yields_piece _ _) (hkey ▸ yields_piece _ _) (hindex ▸ yields_piece _ _)

/-- A body is what is left without its parentheses, between them. -/
theorem exists_unwraps (body : List Char) : ∃ open' close, Unwraps body open' (dropClose (dropOpen body)) close ∧
    body = open' ++ dropOpen body := by
  have hopen : ∃ open', body = open' ++ dropOpen body ∧ (open' = ['('] ∨ (open' = [] ∧ '(' ∉ body.head?)) := by
    unfold dropOpen
    split
    · exact ⟨['('], rfl, .inl rfl⟩
    · rename_i hnot
      refine ⟨[], rfl, .inr ⟨rfl, fun h => ?_⟩⟩
      obtain ⟨more, hmore⟩ := List.head?_eq_some_iff.1 h
      exact hnot more hmore
  have hclose : ∀ inner : List Char, ∃ close, inner = dropClose inner ++ close ∧
      (close = [')'] ∨ (close = [] ∧ ')' ∉ (dropClose inner).getLast?)) := by
    intro inner
    unfold dropClose
    split
    · rename_i rest hreverse
      exact ⟨[')'], List.reverse_eq_cons_iff.1 hreverse, .inl rfl⟩
    · rename_i hnot
      refine ⟨[], (List.append_nil inner).symm, .inr ⟨rfl, fun h => ?_⟩⟩
      rw [← List.head?_reverse] at h
      obtain ⟨more, hmore⟩ := List.head?_eq_some_iff.1 h
      exact hnot more hmore
  obtain ⟨open', hbody, hopened⟩ := hopen
  obtain ⟨close, hinner, hclosed⟩ := hclose (dropOpen body)
  exact ⟨open', close, ⟨by rw [← hinner]; exact hbody, hopened, hclosed⟩, hbody⟩

/-- What is read of a loop expression follows the grammar, with an ASCII blank behind the keyword. -/
theorem parse_follows (e : Expression) : Follows Text.isAsciiBlank e (parse e) := by
  refine ⟨?_, ?_⟩
  · rw [parse, Option.map_eq_none_iff]
    constructor
    · exact fun h left right => not_isCut_of_splitKeyword h
    · intro h
      cases hsplit : splitKeyword [] e.content.toList with
      | none => rfl
      | some parts =>
        obtain ⟨left, right⟩ := parts
        obtain ⟨left', -, hfirst⟩ := isFirstCut_of_splitKeyword hsplit
        exact absurd hfirst.cut (h _ _)
  · intro head hhead
    obtain ⟨⟨left, right⟩, hsplit, rfl⟩ := Option.map_eq_some_iff.1 hhead
    obtain ⟨left', hleft, hfirst⟩ := isFirstCut_of_splitKeyword hsplit
    rw [List.reverse_nil, List.nil_append] at hleft
    obtain rfl := hleft
    refine ⟨left, right, hfirst, ?_, ?_⟩
    · obtain ⟨-, front, hfront⟩ := exists_of_splitKeyword hsplit
      rw [List.reverse_nil, List.nil_append] at hfront
      obtain ⟨back, hback, hwhite, hlast⟩ := Text.exists_trimEnd right
      refine ⟨front, Text.trimEnd right, back, hfront, hback, hwhite, hlast, ?_⟩
      dsimp only
      rw [hfront, Text.size_append, Nat.add_sub_cancel]
    · obtain ⟨back, hbody⟩ := Text.exists_trims left
      obtain ⟨open', close, hunwraps, hopen⟩ := exists_unwraps (Text.trim left)
      obtain ⟨back', hlist⟩ := Text.exists_trims (dropClose (dropOpen (Text.trim left)))
      refine ⟨_, _, ⟨_, _, _, _, _, _, _, _, hbody, hunwraps, hlist, rfl⟩, ?_⟩
      have hpos : e.offset + (Text.size left - Text.size (Text.trimStart left)) +
          (Text.size (Text.trim left) - Text.size (dropOpen (Text.trim left))) +
          (Text.size (dropClose (dropOpen (Text.trim left))) - Text.size (Text.trimStart (dropClose (dropOpen (Text.trim left))))) =
          e.offset + Text.size (left.takeWhile Text.isSpace ++
            (open' ++ (dropClose (dropOpen (Text.trim left))).takeWhile Text.isSpace)) := by
        have hsize := congrArg Text.size hopen
        rw [Text.size_append] at hsize
        rw [Text.size_trimStart, Text.size_trimStart, Text.size_append, Text.size_append]
        omega
      rw [← hpos]
      -- The parts are compared as they are written: left to unification, the cut into parts is computed on both sides.
      refine readsAliases_splitAliases ?_ ?_ ?_
      all_goals
        unfold Text.trim
        dsimp only

/-! ## Blanks behind the keyword -/

theorem IsCut.isSpace (h : IsCut Text.isAsciiBlank cs left right) : IsCut Text.isSpace cs left right := by
  obtain ⟨gap, rest, heq, hne, hgap, keyword, c, gap', hrest, hkeyword, ⟨-, hspace⟩, hgap', hright⟩ := h
  exact ⟨gap, rest, heq, hne, hgap, keyword, c, gap', hrest, hkeyword, ⟨hspace, hspace⟩, hgap', hright⟩

/-- Two ways to see a text as something and the white space behind it are one. -/
theorem white_eq {as bs gap gap' : List Char} {a b : Char} (h : as ++ a :: gap = bs ++ b :: gap') (ha : Text.isSpace a = false)
    (hb : Text.isSpace b = false) (hgap : ∀ d ∈ gap, Text.isSpace d = true) (hgap' : ∀ d ∈ gap', Text.isSpace d = true) :
    gap = gap' := by
  have hne : ∀ {d e : Char}, Text.isSpace d = false → Text.isSpace e = true → d ≠ e := by
    rintro d e hd he rfl
    rw [hd] at he
    cases he
  rcases List.append_eq_append_iff.1 h with ⟨more, -, heq⟩ | ⟨more, -, heq⟩
  · cases more with
    | nil => exact (List.cons.inj heq).2
    | cons d more => exact absurd rfl (hne hb (hgap b (by rw [(List.cons.inj heq).2]; simp)))
  · cases more with
    | nil => exact (List.cons.inj heq).2.symm
    | cons d more => exact absurd rfl (hne ha (hgap' a (by rw [(List.cons.inj heq).2]; simp)))

/-- The white space before a source is the same for every cut, so it begins with an ASCII blank in all of them or in none. -/
theorem IsCut.of_same_right {left' : List Char} (h : IsCut Text.isSpace cs left right) (h' : IsCut Text.isAsciiBlank cs left' right) :
    IsCut Text.isAsciiBlank cs left right := by
  obtain ⟨gap, rest, heq, hne, hgap, keyword, c, behind, rfl, hkeyword, ⟨-, hspace⟩, hbehind, hright⟩ := h
  obtain ⟨gap', rest', heq', -, -, keyword', c', behind', rfl, hkeyword', ⟨hblank', hspace'⟩, hbehind', -⟩ := h'
  -- A keyword is a character and another that is no white space.
  have hend : ∀ {k : List Char}, k = ['i', 'n'] ∨ k = ['o', 'f'] → ∃ a b, k = [a, b] ∧ Text.isSpace b = false := by
    rintro k (rfl | rfl) <;> exact ⟨_, _, rfl, by decide⟩
  obtain ⟨a, b, rfl, hb⟩ := hend hkeyword
  obtain ⟨a', b', rfl, hb'⟩ := hend hkeyword'
  have hsame : (left ++ gap ++ [a]) ++ b :: (c :: behind) = (left' ++ gap' ++ [a']) ++ b' :: (c' :: behind') := by
    have hboth : (left ++ gap ++ [a]) ++ b :: (c :: behind) ++ right = (left' ++ gap' ++ [a']) ++ b' :: (c' :: behind') ++ right := by
      simpa using heq.symm.trans heq'
    exact List.append_cancel_right hboth
  have hwhite := white_eq hsame hb hb' (List.forall_mem_cons.2 ⟨hspace, hbehind⟩) (List.forall_mem_cons.2 ⟨hspace', hbehind'⟩)
  have hblank : Text.isAsciiBlank c = true := by
    rw [(List.cons.inj hwhite).1]
    exact hblank'
  exact ⟨gap, _, heq, hne, hgap, [a, b], c, behind, rfl, hkeyword, ⟨hblank, hspace⟩, hbehind, hright⟩

/-- The source of a loop is read at its own place, so it tells what was cut off. -/
theorem ReadsCut.right_eq {e : Expression} {head : LoopHead} {left' right' : List Char} (h : ReadsCut e left right head)
    (h' : ReadsCut e left' right' head) : right = right' := by
  obtain ⟨front, own, back, heq, -, -, -, hsource⟩ := h.source
  obtain ⟨front', own', back', heq', -, -, -, hsource'⟩ := h'.source
  have hoffset := congrArg Expression.offset (Option.some.inj (hsource.symm.trans hsource'))
  have hsize : Text.size front' = Text.size front := by
    dsimp only at hoffset
    omega
  exact Text.Rest.unique ⟨front, heq, rfl⟩ ⟨front', heq', hsize⟩

/-- A loop expression is read by the grammar with ASCII blanks behind the keyword, always; and by the grammar with white space of any
kind there exactly when the first cut of that grammar has an ASCII blank behind its keyword. -/
theorem parse_follows_iff (e : Expression) :
    Follows Text.isAsciiBlank e (parse e) ∧
      (Follows Text.isSpace e (parse e) ↔
        ∀ left right, IsFirstCut Text.isSpace e.content.toList left right → IsCut Text.isAsciiBlank e.content.toList left right) := by
  have hascii := parse_follows e
  refine ⟨hascii, ?_, ?_⟩
  · intro hspace left right hfirst
    cases hparse : parse e with
    | none => exact absurd hfirst.cut (hspace.fails.1 hparse left right)
    | some head =>
      obtain ⟨left', right', hfirst', hreads'⟩ := hascii.reads head hparse
      obtain ⟨left'', right'', hfirst'', hreads''⟩ := hspace.reads head hparse
      obtain rfl := hfirst.right_eq hfirst''
      obtain rfl := hreads''.right_eq hreads'
      exact hfirst.cut.of_same_right hfirst'.cut
  · intro hall
    have hcut : ∀ {left right}, IsCut Text.isSpace e.content.toList left right →
        ∃ left' right', IsFirstCut Text.isSpace e.content.toList left' right' ∧ IsCut Text.isAsciiBlank e.content.toList left' right' := by
      intro left right h
      obtain ⟨left', right', hfirst⟩ := h.exists_isFirstCut
      exact ⟨left', right', hfirst, hall left' right' hfirst⟩
    refine ⟨hascii.fails.trans ⟨?_, ?_⟩, ?_⟩
    · intro hnone left right h
      obtain ⟨left', right', -, h'⟩ := hcut h
      exact hnone left' right' h'
    · exact fun hnone left right h => hnone left right h.isSpace
    · intro head hhead
      obtain ⟨left, right, hfirst, hreads⟩ := hascii.reads head hhead
      obtain ⟨left', right', hfirst', h'⟩ := hcut hfirst.cut.isSpace
      refine ⟨left, right, ⟨hfirst.cut.isSpace, fun left'' right'' h => ?_⟩, hreads⟩
      exact Nat.le_trans (hfirst.first left' right' h') (hfirst'.first left'' right'' h)

/-- A no-break space is white space, but no keyword is seen before it. -/
theorem not_follows_of_no_break_space :
    ¬Follows Text.isSpace ⟨"a in\u00a0b", 0, false⟩ (parse ⟨"a in\u00a0b", 0, false⟩) := by
  intro h
  have hparse : parse ⟨"a in\u00a0b", 0, false⟩ = none := by decide +kernel
  have hcontent : "a in\u00a0b".toList = ['a'] ++ ([' '] ++ ['i', 'n', '\u00a0', 'b']) := by simp
  have hblank : Text.isSpace '\u00a0' = true := by simp [Text.isSpace]
  have hb : Text.isSpace 'b' = false := by simp [Text.isSpace]
  refine h.fails.1 hparse ['a'] ['b'] ⟨[' '], ['i', 'n', '\u00a0', 'b'], hcontent, by simp, by simp [Text.isSpace], ?_⟩
  exact ⟨['i', 'n'], '\u00a0', [], by simp, .inl rfl, ⟨hblank, hblank⟩, by simp, 'b', by simp, hb⟩

end Loop

end Markup

end TypedSfc
