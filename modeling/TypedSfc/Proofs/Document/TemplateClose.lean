import TypedSfc.Document.Split
import TypedSfc.Proofs.Text.Places

/-!
# The closing tag of a template

The search for the closing tag of a template meets the tags of templates one after another and counts them. Passing the letters of a
name that was looked at changes nothing, since no tag begins behind a letter: the search is the count of what stands at each place.
-/

namespace TypedSfc

namespace Document

/-! ## The tags of templates -/

/-- A tag of a template that is counted. -/
inductive Mark where
  | opening
  | closing
  deriving DecidableEq, Repr

/-- The tag whose name has `before` before it, last character first; one that closes itself is not counted. -/
def markBehind (closed : Bool) : List Char → Option Mark
  | '/' :: '<' :: _ => some .closing
  | '<' :: _ => if closed then none else some .opening
  | _ => none

/-- The tag of a template whose name begins here. -/
def markAt (before cs : List Char) : Option Mark :=
  if Text.begins templateName cs && endsTagName (cs.drop 8) then markBehind (closesItself (cs.drop 8)) before else none

/-- Where the closing tag of a template starts, by the tags at each place. -/
def closeFrom (depth pos : Nat) (before : List Char) : List Char → Option Nat
  | [] => none
  | c :: cs =>
    match markAt before (c :: cs) with
    | some .closing => if depth = 0 then some (pos - 2) else closeFrom (depth - 1) (pos + c.utf8Size) (c :: before) cs
    | some .opening => closeFrom (depth + 1) (pos + c.utf8Size) (c :: before) cs
    | none => closeFrom depth (pos + c.utf8Size) (c :: before) cs

/-- A character that is no part of the mark before a tag name. -/
def isQuiet (c : Char) : Bool := c != '<' && c != '/'

/-- Behind a character that is no part of a mark, no tag begins. -/
theorem markBehind_of_isQuiet {b : Char} (closed : Bool) (before : List Char) (h : isQuiet b = true) :
    markBehind closed (b :: before) = none := by
  obtain ⟨hangle, hslash⟩ : b ≠ '<' ∧ b ≠ '/' := by simpa [isQuiet] using h
  unfold markBehind
  split
  · rename_i heq
    exact absurd (List.cons.inj heq).1 hslash
  · rename_i heq
    exact absurd (List.cons.inj heq).1 hangle
  · rfl

theorem markAt_of_isQuiet {b : Char} (before cs : List Char) (h : isQuiet b = true) : markAt (b :: before) cs = none := by
  rw [markAt, markBehind_of_isQuiet _ before h, ite_self]

/-- A choice by the characters before a name is a choice by the tag. -/
theorem match_eq_markBehind {α : Type} (closed : Bool) (before : List Char) (onClosing onOpening onNone : α) :
    (match before with
      | '/' :: '<' :: _ => onClosing
      | '<' :: _ => if closed then onNone else onOpening
      | _ => onNone) =
    (match markBehind closed before with
      | some .closing => onClosing
      | some .opening => onOpening
      | none => onNone) := by
  fun_cases markBehind closed before with
  | case1 => rfl
  | case2 _ h =>
    rw [if_pos h]
    rfl
  | case3 _ h =>
    rw [if_neg h]
    rfl
  | case4 _ hclosing hopening =>
    split
    · exact (hclosing _ rfl).elim
    · exact (hopening _ rfl).elim
    · rfl

/-- The letters of the name are no part of a mark. -/
theorem isQuiet_of_mem_templateName : ∀ c ∈ templateName, isQuiet c = true := by
  have hall : templateName.all isQuiet = true := by decide
  exact List.all_eq_true.1 hall

/-- What is left to skip when the search stands behind `before`: none of it is part of a mark, nor is the character before it. -/
def Skips (skip : Nat) (before cs : List Char) : Prop := skip = 0 ∨ ∃ b bs, before = b :: bs ∧ ∀ c ∈ (b :: cs).take skip, isQuiet c = true

/-- Behind the first letter of the name, the other seven are left to skip. -/
theorem skips_of_begins {c : Char} {cs : List Char} (before : List Char) (h : Text.begins templateName (c :: cs) = true) :
    Skips 7 (c :: before) cs := by
  refine .inr ⟨c, before, rfl, fun d hd => isQuiet_of_mem_templateName d ?_⟩
  obtain ⟨more, hmore⟩ := Text.begins_iff.1 h
  rw [hmore] at hd
  exact List.mem_of_mem_take (show d ∈ templateName.take 7 from hd)

/-- The search passes characters that were looked at without a change. -/
theorem templateClose_eq_closeFrom {skip : Nat} {before cs : List Char} (depth pos : Nat) (hskip : Skips skip before cs) :
    templateClose depth skip pos before cs = closeFrom depth pos before cs := by
  induction cs generalizing skip depth pos before with
  | nil => cases skip <;> rfl
  | cons c cs ih =>
    cases skip with
    | succ skip =>
      obtain hzero | ⟨b, bs, rfl, hquiet⟩ := hskip
      · exact absurd hzero (Nat.succ_ne_zero skip)
      · have hb : isQuiet b = true := hquiet b (by simp)
        rw [templateClose, closeFrom, markAt_of_isQuiet bs (c :: cs) hb]
        refine ih depth _ (.inr ⟨c, b :: bs, rfl, fun d hd => hquiet d ?_⟩)
        rw [List.take_succ_cons]
        exact List.mem_cons_of_mem b hd
    | zero =>
      have hnext : ∀ depth', templateClose depth' 0 (pos + c.utf8Size) (c :: before) cs =
          closeFrom depth' (pos + c.utf8Size) (c :: before) cs := fun depth' => ih depth' _ (.inl rfl)
      unfold templateClose closeFrom markAt
      rw [List.drop_succ_cons]
      by_cases hbegins : Text.begins templateName (c :: cs) = true
      · have hname : ∀ depth', templateClose depth' 7 (pos + c.utf8Size) (c :: before) cs =
            closeFrom depth' (pos + c.utf8Size) (c :: before) cs := fun depth' => ih depth' _ (skips_of_begins before hbegins)
        simp only [hbegins, Bool.true_and, if_true]
        split
        · rw [← hname, ← hname, ← hname]
          exact match_eq_markBehind _ before _ _ _
        · exact hname depth
      · rw [Bool.not_eq_true] at hbegins
        rw [hbegins]
        exact hnext depth

/-! ## Where the search ends -/

/-- A closing tag has its mark before its name. -/
theorem before_of_markAt {before cs : List Char} (h : markAt before cs = some .closing) : ∃ bs, before = '/' :: '<' :: bs := by
  unfold markAt at h
  split at h
  · generalize closesItself (cs.drop 8) = closed at h
    fun_cases markBehind closed before with
    | case1 bs => exact ⟨bs, rfl⟩
    | case2 | case3 | case4 => simp_all [markBehind]
  · cases h

/-- The search ends at a closing tag, further on or with its name here. -/
theorem exists_of_closeFrom {depth pos close : Nat} {before cs : List Char} (h : closeFrom depth pos before cs = some close) :
    ∃ mid more, cs = mid ++ more ∧ close = pos + Text.size mid - 2 ∧ markAt (mid.reverse ++ before) more = some .closing := by
  induction cs generalizing depth pos before with
  | nil => cases h
  | cons c cs ih =>
    -- Where the search goes on, what it finds is one character further on from here.
    have hnext : ∀ depth', closeFrom depth' (pos + c.utf8Size) (c :: before) cs = some close →
        ∃ mid more, c :: cs = mid ++ more ∧ close = pos + Text.size mid - 2 ∧ markAt (mid.reverse ++ before) more = some .closing := by
      intro depth' hfound
      obtain ⟨mid, more, rfl, hclose, hmark⟩ := ih hfound
      refine ⟨c :: mid, more, rfl, ?_, ?_⟩
      · rw [Text.size_cons, hclose, Nat.add_assoc]
      · rw [List.reverse_cons, List.append_assoc]
        exact hmark
    rw [closeFrom] at h
    split at h
    · rename_i hmark
      split at h
      · exact ⟨[], c :: cs, rfl, (Option.some.inj h).symm, hmark⟩
      · exact hnext _ h
    · exact hnext _ h
    · exact hnext _ h

/-- Behind a bracket, the closing tag that is found starts no earlier, with its mark. -/
theorem exists_of_findTemplateClose {source before rest : List Char} {pos close : Nat} (hsource : source = before ++ '>' :: rest)
    (hpos : Text.size before + 1 = pos) (h : findTemplateClose source pos = some close) :
    ∃ mid more, rest = mid ++ '<' :: '/' :: more ∧ close = pos + Text.size mid := by
  have hlower : Text.lower source = (Text.lower before ++ ['>']) ++ Text.lower rest := by
    rw [hsource, Text.lower_append, List.append_assoc]
    rfl
  have hsize : Text.size (Text.lower before ++ ['>']) = pos := by
    rw [Text.size_append, Text.size_lower]
    exact hpos
  have hafter : Text.after pos (Text.lower source) = Text.lower rest := Text.Rest.after_eq ⟨_, hlower, hsize⟩
  have hbefore : Text.between 0 pos (Text.lower source) = Text.lower before ++ ['>'] := by
    have hbetween := (Text.rest_zero ((Text.lower before ++ ['>']) ++ Text.lower rest)).between_eq
    rwa [Nat.zero_add, hsize, ← hlower] at hbetween
  unfold findTemplateClose at h
  dsimp only at h
  rw [hafter, hbefore, templateClose_eq_closeFrom 0 pos (.inl rfl), List.reverse_append] at h
  obtain ⟨mid, more, hrest, hclose, hmark⟩ := exists_of_closeFrom h
  obtain ⟨bs, hbs⟩ := before_of_markAt hmark
  -- The bracket before the content is no part of the mark, so all of the mark lies in the content.
  obtain ⟨front, rfl⟩ : ∃ front, mid = front ++ ['<', '/'] := by
    rcases hback : mid.reverse with _ | ⟨x, _ | ⟨y, back⟩⟩ <;> rw [hback] at hbs
    · cases hbs
    · cases hbs
    · refine ⟨back.reverse, ?_⟩
      rw [List.reverse_eq_iff.1 hback]
      cases hbs
      simp
  have hclose' : close = pos + Text.size front := by
    rw [Text.size_append] at hclose
    exact hclose
  rw [List.append_assoc] at hrest
  obtain ⟨own, behind, rfl, hown, hbehind⟩ := List.map_eq_append_iff.1 hrest
  obtain ⟨behind', rfl, hslash⟩ := Text.exists_of_lower_cons (by decide) hbehind
  obtain ⟨behind'', rfl, -⟩ := Text.exists_of_lower_cons (by decide) hslash
  refine ⟨own, behind'', rfl, ?_⟩
  rw [hclose', ← hown]
  exact congrArg (pos + ·) (Text.size_lower own)

end Document

end TypedSfc
