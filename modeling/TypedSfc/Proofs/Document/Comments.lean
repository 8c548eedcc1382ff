import TypedSfc.Proofs.Document.Stylesheets

/-!
# Comments of style sheets

A style sheet is read from its start as characters outside of comments, comments with their ends, and perhaps a comment that never ends,
which is the last piece. Every text is read in one way. Blanking makes spaces of the bodies of the comments that end, and of nothing else,
so that all other characters stay where they are.
-/

namespace TypedSfc

namespace Stylesheet

/-- A piece of a style sheet. -/
inductive Piece where
  /-- A character outside of comments. -/
  | code (c : Char)
  /-- A comment between its marks. -/
  | block (body : List Char)
  /-- A comment up to the end of its line. -/
  | line (body : List Char)
  /-- A comment that never ends, with its mark. -/
  | endless (cs : List Char)
  deriving Repr

namespace Piece

/-- The text of a piece. -/
def text : Piece → List Char
  | code c => [c]
  | block body => '/' :: '*' :: (body ++ ['*', '/'])
  | line body => '/' :: '/' :: (body ++ ['\n'])
  | endless cs => cs

/-- The text of a piece with the body of a comment that ends made blanks. -/
def blanked : Piece → List Char
  | code c => [c]
  | block body => '/' :: '*' :: (blank body ++ ['*', '/'])
  | line body => '/' :: '/' :: (blank body ++ ['\n'])
  | endless cs => cs

/-- Whether a piece is a comment that ends. -/
def isComment : Piece → Bool
  | code _ | endless _ => false
  | block _ | line _ => true

end Piece

/-- The pieces that a style sheet is read as. A comment between marks goes to the first mark that ends it, and one behind two slashes to
the first line feed. -/
inductive Commented : List Char → List Piece → Prop
  | nil : Commented [] []
  | code {c : Char} {cs : List Char} {ps : List Piece} (mark : c = '/' → cs.head? ≠ some '*' ∧ cs.head? ≠ some '/')
      (rest : Commented cs ps) : Commented (c :: cs) (.code c :: ps)
  | block {body cs : List Char} {ps : List Piece} (first : ¬['*', '/'] <:+: body) (rest : Commented cs ps) :
      Commented ('/' :: '*' :: (body ++ '*' :: '/' :: cs)) (.block body :: ps)
  | line {body cs : List Char} {ps : List Piece} (first : '\n' ∉ body) (rest : Commented cs ps) :
      Commented ('/' :: '/' :: (body ++ '\n' :: cs)) (.line body :: ps)
  | endlessBlock {cs : List Char} (never : ¬['*', '/'] <:+: cs) : Commented ('/' :: '*' :: cs) [.endless ('/' :: '*' :: cs)]
  | endlessLine {cs : List Char} (never : '\n' ∉ cs) : Commented ('/' :: '/' :: cs) [.endless ('/' :: '/' :: cs)]

/-- The places of the comments that end, in a text that starts at a position. -/
def commentSpans (pos : Nat) : List Piece → List Span
  | [] => []
  | p :: ps => (if p.isComment then [⟨pos, pos + Text.size p.text⟩] else []) ++ commentSpans (pos + Text.size p.text) ps

/-! ## The first end of a comment -/

/-- A comment ends at the first mark that ends it. -/
theorem splitCommentEnd_append {body : List Char} (hbody : ¬['*', '/'] <:+: body) (cs : List Char) :
    splitCommentEnd (body ++ '*' :: '/' :: cs) = some (body, cs) := by
  induction body with
  | nil => rfl
  | cons b body ih =>
    have hin : ¬['*', '/'] <:+: body := fun hin => hbody (hin.trans (List.suffix_cons b body).isInfix)
    rw [List.cons_append, splitCommentEnd, ih hin]
    · rfl
    · rintro more rfl heq
      cases body with
      | nil =>
        obtain ⟨heq, -⟩ := List.cons.inj heq
        cases heq
      | cons b body =>
        obtain ⟨rfl, -⟩ := List.cons.inj heq
        exact hbody ⟨[], body, rfl⟩

/-- A text has a mark that ends a comment, and then a first one, or it has none. -/
theorem exists_commentEnd (cs : List Char) :
    (∃ body rest, cs = body ++ '*' :: '/' :: rest ∧ ¬['*', '/'] <:+: body) ∨ ¬['*', '/'] <:+: cs := by
  induction cs with
  | nil => exact .inr (by simp)
  | cons c cs ih =>
    by_cases hhere : ['*', '/'] <+: c :: cs
    · obtain ⟨rest, hrest⟩ := hhere
      exact .inl ⟨[], rest, hrest.symm, by simp⟩
    · rcases ih with ⟨body, rest, rfl, hbody⟩ | hnone
      · refine .inl ⟨c :: body, rest, rfl, ?_⟩
        rw [List.infix_cons_iff]
        rintro (hfirst | hin)
        · refine hhere (hfirst.trans ?_)
          rw [← List.cons_append]
          exact List.prefix_append _ _
        · exact hbody hin
      · refine .inr ?_
        rw [List.infix_cons_iff]
        exact fun h => h.elim hhere hnone

/-- In a text without a mark that ends a comment none ends. -/
theorem splitCommentEnd_eq_none {cs : List Char} (h : ¬['*', '/'] <:+: cs) : splitCommentEnd cs = none := by
  induction cs with
  | nil => rfl
  | cons c cs ih =>
    rw [List.infix_cons_iff, not_or] at h
    rw [splitCommentEnd, ih h.2]
    · rfl
    · rintro more rfl rfl
      exact h.1 ⟨more, rfl⟩

/-- What stands in front of the first occurrence of a character, and what stands behind it, are given. -/
theorem append_cons_inj {α : Type} {a : α} {as bs as' bs' : List α} (h : a ∉ as) (h' : a ∉ as') (heq : as ++ a :: bs = as' ++ a :: bs') :
    as = as' ∧ bs = bs' := by
  induction as generalizing as' with
  | nil =>
    cases as' with
    | nil => exact ⟨rfl, (List.cons.inj heq).2⟩
    | cons b as' => exact absurd ((List.cons.inj heq).1 ▸ List.mem_cons_self) h'
  | cons b as ih =>
    cases as' with
    | nil => exact absurd ((List.cons.inj heq).1 ▸ List.mem_cons_self) h
    | cons b' as' =>
      obtain ⟨rfl, hrest⟩ := List.cons.inj heq
      obtain ⟨rfl, hbs⟩ := ih (List.ne_and_not_mem_of_not_mem_cons h).2 (List.ne_and_not_mem_of_not_mem_cons h').2 hrest
      exact ⟨rfl, hbs⟩

/-! ## Blanking -/

theorem blankComments_stopped (cs : List Char) : blankComments .stopped cs = cs := by
  induction cs with
  | nil => rfl
  | cons c cs ih => rw [blankComments, ih]

theorem blankComments_block {body : List Char} (hbody : ¬['*', '/'] <:+: body) (cs : List Char) :
    blankComments .block (body ++ '*' :: '/' :: cs) = blank body ++ '*' :: '/' :: blankComments .code cs := by
  induction body with
  | nil => rfl
  | cons b body ih =>
    have hin : ¬['*', '/'] <:+: body := fun hin => hbody (hin.trans (List.suffix_cons b body).isInfix)
    have hblank : blank (b :: body) = blank [b] ++ blank body := by simp [blank]
    rw [List.cons_append, blankComments, ih hin, hblank, List.append_assoc]
    rintro more rfl heq
    cases body with
    | nil =>
      obtain ⟨heq, -⟩ := List.cons.inj heq
      cases heq
    | cons b body =>
      obtain ⟨rfl, -⟩ := List.cons.inj heq
      exact hbody ⟨[], body, rfl⟩

theorem blankComments_line {body : List Char} (hbody : '\n' ∉ body) (cs : List Char) :
    blankComments .line (body ++ '\n' :: cs) = blank body ++ '\n' :: blankComments .code cs := by
  induction body with
  | nil => rfl
  | cons b body ih =>
    obtain ⟨hb, hbody⟩ := List.ne_and_not_mem_of_not_mem_cons hbody
    have hblank : blank (b :: body) = blank [b] ++ blank body := by simp [blank]
    rw [List.cons_append, blankComments, ih hbody, hblank, List.append_assoc]
    simp [Ne.symm hb]

/-- A character that begins no comment is kept. -/
theorem blankComments_code_cons {c : Char} {cs : List Char} (h : c = '/' → cs.head? ≠ some '*' ∧ cs.head? ≠ some '/') :
    blankComments .code (c :: cs) = c :: blankComments .code cs := by
  rw [blankComments]
  · rintro more rfl rfl
    exact (h rfl).1 rfl
  · rintro more rfl rfl
    exact (h rfl).2 rfl

namespace Commented

variable {cs : List Char} {ps : List Piece}

/-- The pieces of a text make up the text. -/
theorem flatMap_text (h : Commented cs ps) : ps.flatMap Piece.text = cs := by
  induction h with
  | nil => rfl
  | code mark rest ih => rw [List.flatMap_cons, ih]; rfl
  | block first rest ih => simp [Piece.text, ih]
  | line first rest ih => simp [Piece.text, ih]
  | endlessBlock never => simp [Piece.text]
  | endlessLine never => simp [Piece.text]

/-- Blanking makes blanks of the bodies of comments that end. -/
theorem blankComments_eq (h : Commented cs ps) : blankComments .code cs = ps.flatMap Piece.blanked := by
  induction h with
  | nil => rfl
  | code mark rest ih =>
    rw [blankComments_code_cons mark, ih]
    rfl
  | @block body cs ps first rest ih =>
    have hends : hasCommentEnd (body ++ '*' :: '/' :: cs) = true := by rw [hasCommentEnd, splitCommentEnd_append first]; rfl
    rw [blankComments, if_pos hends, blankComments, if_pos rfl, blankComments_block first, ih]
    simp [Piece.blanked]
  | @line body cs ps first rest ih =>
    have hends : (body ++ '\n' :: cs).contains '\n' = true := by simp
    rw [blankComments, if_pos hends, blankComments, if_neg (by decide), blankComments_line first, ih]
    simp [Piece.blanked]
  | @endlessBlock cs never =>
    have hends : ¬hasCommentEnd cs = true := by rw [hasCommentEnd, splitCommentEnd_eq_none never]; decide
    rw [blankComments, if_neg hends, blankComments_stopped]
    simp [Piece.blanked]
  | @endlessLine cs never =>
    have hends : ¬cs.contains '\n' = true := by simpa using never
    rw [blankComments, if_neg hends, blankComments_stopped]
    simp [Piece.blanked]

end Commented

/-- Every text is read as pieces. -/
theorem exists_commented (cs : List Char) : ∃ ps, Commented cs ps := by
  induction hlen : cs.length using Nat.strongRecOn generalizing cs with
  | _ n ih =>
    have hrest : ∀ rest : List Char, rest.length < n → ∃ ps, Commented rest ps := fun rest hlt => ih rest.length hlt rest rfl
    cases cs with
    | nil => exact ⟨[], .nil⟩
    | cons c cs =>
      by_cases mark : c = '/' → cs.head? ≠ some '*' ∧ cs.head? ≠ some '/'
      case pos =>
        obtain ⟨ps, hps⟩ := hrest cs (by rw [← hlen]; exact Nat.lt_succ_self _)
        exact ⟨_, .code mark hps⟩
      case neg =>
        rw [Classical.not_imp, ← not_or, Classical.not_not] at mark
        obtain ⟨rfl, hopens⟩ := mark
        rcases hopens with hblock | hline
        · obtain ⟨cs, rfl⟩ := List.head?_eq_some_iff.1 hblock
          rcases exists_commentEnd cs with ⟨body, rest, rfl, first⟩ | never
          · obtain ⟨ps, hps⟩ := hrest rest (by simp only [List.length_cons, List.length_append] at hlen; omega)
            exact ⟨_, .block first hps⟩
          · exact ⟨_, .endlessBlock never⟩
        · obtain ⟨cs, rfl⟩ := List.head?_eq_some_iff.1 hline
          by_cases never : '\n' ∈ cs
          · obtain ⟨body, rest, rfl, first⟩ := List.eq_append_cons_of_mem never
            obtain ⟨ps, hps⟩ := hrest rest (by simp only [List.length_cons, List.length_append] at hlen; omega)
            exact ⟨_, .line first hps⟩
          · exact ⟨_, .endlessLine never⟩

/-! ## One reading -/

namespace Commented

variable {cs : List Char} {ps qs : List Piece}

theorem of_code {c : Char} (h : Commented (c :: cs) ps) (mark : c = '/' → cs.head? ≠ some '*' ∧ cs.head? ≠ some '/') :
    ∃ ps', ps = .code c :: ps' ∧ Commented cs ps' := by
  cases h with
  | code _ rest => exact ⟨_, rfl, rest⟩
  | block => exact absurd rfl (mark rfl).1
  | line => exact absurd rfl (mark rfl).2
  | endlessBlock => exact absurd rfl (mark rfl).1
  | endlessLine => exact absurd rfl (mark rfl).2

theorem of_block (h : Commented ('/' :: '*' :: cs) ps) :
    (∃ body rest ps', splitCommentEnd cs = some (body, rest) ∧ ps = .block body :: ps' ∧ Commented rest ps') ∨
      splitCommentEnd cs = none ∧ ps = [.endless ('/' :: '*' :: cs)] := by
  cases h with
  | code mark => exact absurd rfl (mark rfl).1
  | block first rest => exact .inl ⟨_, _, _, splitCommentEnd_append first _, rfl, rest⟩
  | endlessBlock never => exact .inr ⟨splitCommentEnd_eq_none never, rfl⟩

theorem of_line (h : Commented ('/' :: '/' :: cs) ps) :
    (∃ body rest ps', cs = body ++ '\n' :: rest ∧ '\n' ∉ body ∧ ps = .line body :: ps' ∧ Commented rest ps') ∨
      '\n' ∉ cs ∧ ps = [.endless ('/' :: '/' :: cs)] := by
  cases h with
  | code mark => exact absurd rfl (mark rfl).2
  | line first rest => exact .inl ⟨_, _, _, rfl, first, rfl, rest⟩
  | endlessLine never => exact .inr ⟨never, rfl⟩

/-- A text is read as pieces in one way. -/
theorem unique (h : Commented cs ps) (h' : Commented cs qs) : ps = qs := by
  induction h generalizing qs with
  | nil =>
    cases h'
    rfl
  | code mark rest ih =>
    obtain ⟨qs, rfl, rest'⟩ := h'.of_code mark
    rw [ih rest']
  | @block body cs ps first rest ih =>
    have hsplit := splitCommentEnd_append first cs
    rcases h'.of_block with ⟨body', cs', qs, hsplit', rfl, rest'⟩ | ⟨hnone, -⟩
    · rw [hsplit] at hsplit'
      obtain ⟨rfl, rfl⟩ := Prod.mk.inj (Option.some.inj hsplit')
      rw [ih rest']
    · rw [hsplit] at hnone
      cases hnone
  | @line body cs ps first rest ih =>
    rcases h'.of_line with ⟨body', cs', qs, heq, first', rfl, rest'⟩ | ⟨never, -⟩
    · obtain ⟨rfl, rfl⟩ := append_cons_inj first first' heq
      rw [ih rest']
    · exact absurd (by simp) never
  | endlessBlock never =>
    rcases h'.of_block with ⟨body, cs, qs, hsplit, -⟩ | ⟨-, rfl⟩
    · rw [splitCommentEnd_eq_none never] at hsplit
      cases hsplit
    · rfl
  | endlessLine never =>
    rcases h'.of_line with ⟨body, cs, qs, rfl, -⟩ | ⟨-, rfl⟩
    · exact absurd (by simp) never
    · rfl

end Commented

/-! ## Within comments -/

theorem size_blank_list (cs : List Char) : Text.size (blank cs) = Text.size cs := by
  induction cs with
  | nil => rfl
  | cons c cs ih =>
    have hsplit : blank (c :: cs) = blank [c] ++ blank cs := by simp [blank]
    rw [hsplit, Text.size_append, Blanks.size_blank, ih, Text.size_cons]

theorem eq_space_of_mem_blank {cs : List Char} {d : Char} (h : d ∈ blank cs) : d = ' ' := by
  obtain ⟨c, -, hd⟩ := List.mem_flatMap.1 h
  exact List.eq_of_mem_replicate hd

namespace Piece

theorem size_blanked (p : Piece) : Text.size p.blanked = Text.size p.text := by
  cases p <;> simp [blanked, text, size_blank_list]

/-- Blanked, a comment has only its marks and blanks. -/
theorem mem_blanked {p : Piece} (h : p.isComment = true) {d : Char} (hd : d ∈ p.blanked) : d = '/' ∨ d = '*' ∨ d = '\n' ∨ d = ' ' := by
  cases p with
  | code c => cases h
  | endless cs => cases h
  | block body =>
    have hd : d = '/' ∨ d = '*' ∨ d ∈ blank body ∨ d = '*' ∨ d = '/' := by simpa [blanked] using hd
    rcases hd with rfl | rfl | hd | rfl | rfl
    · exact .inl rfl
    · exact .inr (.inl rfl)
    · exact .inr (.inr (.inr (eq_space_of_mem_blank hd)))
    · exact .inr (.inl rfl)
    · exact .inl rfl
  | line body =>
    have hd : d = '/' ∨ d ∈ blank body ∨ d = '\n' := by simpa [blanked] using hd
    rcases hd with rfl | hd | rfl
    · exact .inl rfl
    · exact .inr (.inr (.inr (eq_space_of_mem_blank hd)))
    · exact .inr (.inr (.inl rfl))

end Piece

/-- No comment is in front of the text. -/
theorem le_start_of_mem_commentSpans {pos : Nat} {ps : List Piece} {k : Span} (h : k ∈ commentSpans pos ps) : pos ≤ k.start := by
  induction ps generalizing pos with
  | nil => cases h
  | cons p ps ih =>
    rcases List.mem_append.1 h with h | h
    · split at h
      · obtain rfl := List.mem_singleton.1 h
        exact Nat.le_refl pos
      · cases h
    · exact Nat.le_trans (Nat.le_add_right ..) (ih h)

/-- What stands in a comment of the blanked text is a mark or a blank. -/
theorem mem_commentSpans_blanked {pos n : Nat} {ps : List Piece} {k : Span} {d : Char} {more : List Char}
    (hk : k ∈ commentSpans pos ps) (hd : Text.Rest (ps.flatMap Piece.blanked) n (d :: more)) (hlo : k.start ≤ pos + n)
    (hhi : pos + n < k.stop) : d = '/' ∨ d = '*' ∨ d = '\n' ∨ d = ' ' := by
  induction ps generalizing pos n with
  | nil => cases hk
  | cons p ps ih =>
    rw [List.flatMap_cons] at hd
    rcases List.mem_append.1 hk with hk | hk
    · split at hk
      case isFalse => cases hk
      case isTrue hcomment =>
        obtain rfl := List.mem_singleton.1 hk
        have hlt : n < Text.size p.blanked := by
          rw [p.size_blanked]
          exact Nat.lt_of_add_lt_add_left hhi
        obtain ⟨before, heq, rfl⟩ := hd
        obtain ⟨mid, hmid, hbehind⟩ := Text.exists_append_of_size_le heq (Nat.le_of_lt hlt)
        cases mid with
        | nil =>
          rw [hmid, List.append_nil] at hlt
          exact absurd hlt (Nat.lt_irrefl _)
        | cons e mid =>
          obtain ⟨rfl, -⟩ := List.cons.inj hbehind
          exact Piece.mem_blanked hcomment (hmid ▸ List.mem_append_right _ List.mem_cons_self)
    · have hle := le_start_of_mem_commentSpans hk
      have hsize := p.size_blanked
      obtain ⟨before, heq, rfl⟩ := hd
      obtain ⟨mid, rfl, hbehind⟩ := Text.exists_append_of_size_le heq.symm (show Text.size p.blanked ≤ Text.size before by omega)
      rw [Text.size_append] at hlo hhi
      exact ih hk ⟨mid, hbehind, rfl⟩ (by omega) (by omega)

end Stylesheet

end TypedSfc
