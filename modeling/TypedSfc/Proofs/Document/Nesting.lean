import TypedSfc.Proofs.Document.Extents

/-!
# Templates inside a template

The search for the closing tag of a template counts the tags of templates by their spelling alone: quotes, comments and interpolations
mean nothing to it. So a template ends where its content does exactly when the tags that are spelled in the content are balanced, and a
content that reads without a fault need not be.
-/

namespace TypedSfc

open Markup

namespace Document

/-! ## Balanced tags -/

/-- No beginning of the tags closes more than it opens, and all that is opened is closed. -/
structure Balanced (ms : List Mark) : Prop where
  closing_le : ∀ front back, ms = front ++ back → front.count .closing ≤ front.count .opening
  count_eq : ms.count .closing = ms.count .opening

/-- How many templates are open behind tags, when `depth` are before them; none when one of the tags closes what was not opened. -/
def depthAfter : Nat → List Mark → Option Nat
  | depth, [] => some depth
  | depth, .opening :: ms => depthAfter (depth + 1) ms
  | 0, .closing :: _ => none
  | depth + 1, .closing :: ms => depthAfter depth ms

/-- A beginning of a list with a head is empty, or the head and a beginning of the rest. -/
theorem forall_beginning_cons {m : Mark} {ms : List Mark} {p : List Mark → Prop} (hnil : p []) :
    (∀ front back, m :: ms = front ++ back → p front) ↔ ∀ front back, ms = front ++ back → p (m :: front) := by
  constructor
  · intro h front back hms
    exact h (m :: front) back (by rw [hms, List.cons_append])
  · intro h front back hms
    cases front with
    | nil => exact hnil
    | cons m' front =>
      obtain ⟨rfl, hms'⟩ := List.cons.inj hms
      exact h front back hms'

/-- So many are open behind tags when none of their beginnings closes in excess and the tags open so many more than they close. -/
theorem depthAfter_eq_some_iff {depth depth' : Nat} {ms : List Mark} :
    depthAfter depth ms = some depth' ↔
      (∀ front back, ms = front ++ back → front.count .closing ≤ depth + front.count .opening) ∧
        depth' + ms.count .closing = depth + ms.count .opening := by
  have hne : Mark.opening ≠ Mark.closing := by decide
  induction ms generalizing depth with
  | nil =>
    rw [depthAfter, Option.some_inj]
    constructor
    · rintro rfl
      refine ⟨?_, rfl⟩
      intro front back h
      rw [(List.append_eq_nil_iff.1 h.symm).1]
      exact Nat.zero_le _
    · rintro ⟨-, h⟩
      exact h.symm
  | cons m ms ih =>
    rw [forall_beginning_cons (Nat.zero_le _)]
    cases m with
    | opening =>
      rw [depthAfter]
      refine ih.trans (and_congr (forall₃_congr fun front _ _ => ?_) ?_)
      · rw [List.count_cons_self, List.count_cons_of_ne hne]
        omega
      · rw [List.count_cons_self, List.count_cons_of_ne hne]
        omega
    | closing =>
      cases depth with
      | zero =>
        rw [depthAfter]
        constructor
        · intro h
          cases h
        · rintro ⟨h, -⟩
          exact absurd (h [] ms rfl) (by decide)
      | succ depth =>
        rw [depthAfter]
        refine ih.trans (and_congr (forall₃_congr fun front _ _ => ?_) ?_)
        · rw [List.count_cons_self, List.count_cons_of_ne hne.symm]
          omega
        · rw [List.count_cons_self, List.count_cons_of_ne hne.symm]
          omega

/-- Behind balanced tags, and behind no others, nothing is open and nothing was closed in excess. -/
theorem depthAfter_zero_iff {ms : List Mark} : depthAfter 0 ms = some 0 ↔ Balanced ms := by
  rw [depthAfter_eq_some_iff]
  simp only [Nat.zero_add]
  exact ⟨fun h => ⟨h.1, h.2⟩, fun h => ⟨h.closing_le, h.count_eq⟩⟩

/-! ## The tags of a text -/

/-- The tags of templates whose names begin in a text, with `before` before it, last character first, and `behind` behind it. -/
def marks (before behind : List Char) : List Char → List Mark
  | [] => []
  | c :: cs => (markAt before (c :: (cs ++ behind))).toList ++ marks (c :: before) behind cs

/-- The search goes through a text by its tags: it ends within the text, or goes on behind it with what is open there. -/
theorem closeFrom_append (depth pos : Nat) (before cs behind : List Char) :
    match depthAfter depth (marks before behind cs) with
    | some depth' => closeFrom depth pos before (cs ++ behind) = closeFrom depth' (pos + Text.size cs) (cs.reverse ++ before) behind
    | none => ∃ close, closeFrom depth pos before (cs ++ behind) = some close ∧ close < pos + Text.size cs := by
  induction cs generalizing depth pos before with
  | nil => simp [marks, depthAfter]
  | cons c cs ih =>
    have hc := c.utf8Size_pos
    have hnext := fun depth' => ih depth' (pos + c.utf8Size) (c :: before)
    rw [marks, List.cons_append, closeFrom, Text.size_cons, List.reverse_cons, List.append_assoc, ← Nat.add_assoc]
    cases hmark : markAt before (c :: (cs ++ behind)) with
    | none => exact hnext depth
    | some m =>
      cases m with
      | opening => exact hnext (depth + 1)
      | closing =>
        cases depth with
        | zero => exact ⟨pos - 2, rfl, by omega⟩
        | succ depth => exact hnext depth

/-- A bracket before a text, and what is before it, is no part of the mark before a name. -/
theorem markBehind_append_close (closed : Bool) (before front : List Char) :
    markBehind closed (before ++ '>' :: front) = markBehind closed before := by
  fun_cases markBehind closed before with
  | case1 => rfl
  | case2 bs h => simp [markBehind, h]
  | case3 bs h => simp [markBehind, h]
  | case4 _ hclosing hopening =>
    unfold markBehind
    split
    · rename_i heq
      rcases before with _ | ⟨a, _ | ⟨b, before⟩⟩ <;> cases heq
      exact (hclosing _ rfl).elim
    · rename_i heq
      rcases before with _ | ⟨a, before⟩ <;> cases heq
      exact (hopening _ rfl).elim
    · rfl

theorem markAt_append_close (before front cs : List Char) : markAt (before ++ '>' :: front) cs = markAt before cs := by
  rw [markAt, markAt, markBehind_append_close]

theorem marks_append_close (before front behind cs : List Char) : marks (before ++ '>' :: front) behind cs = marks before behind cs := by
  induction cs generalizing before with
  | nil => rfl
  | cons c cs ih =>
    rw [marks, marks, markAt_append_close]
    exact congrArg _ (ih (c :: before))

/-! ## A document that begins with a template -/

def openingTag : List Char := '<' :: (templateName ++ ['>'])

def closingTag : List Char := '<' :: '/' :: (templateName ++ ['>'])

/-- A document that begins with a template: its tags, `cs` between them, and `rest` behind. -/
def withTemplate (cs rest : List Char) : List Char := openingTag ++ (cs ++ (closingTag ++ rest))

theorem begins_append {w as : List Char} (h : w.length ≤ as.length) (bs : List Char) :
    Text.begins w (as ++ bs) = Text.begins w as := by
  induction w generalizing as with
  | nil => rw [Text.begins, Text.begins]
  | cons c w ih =>
    cases as with
    | nil => exact absurd h (Nat.not_succ_le_zero _)
    | cons a as =>
      rw [List.cons_append, Text.begins, Text.begins, ih (Nat.le_of_succ_le_succ h)]

/-- What is behind the bracket of a tag is no part of the tag. -/
theorem closesItself_append_close (as bs : List Char) : closesItself (as ++ '>' :: bs) = closesItself (as ++ ['>']) := by
  have htake : ∀ bs, (as ++ '>' :: bs).takeWhile (· != '>') = as.takeWhile (· != '>') := by
    intro bs
    induction as with
    | nil => rfl
    | cons a as ih => rw [List.cons_append, List.takeWhile_cons, List.takeWhile_cons, ih]
  rw [closesItself, closesItself, htake, htake]

/-- What is behind the closing tag of a text is no part of a tag in the text. -/
theorem markAt_append_closingTag (before cs rest : List Char) (c : Char) :
    markAt before (c :: (cs ++ (closingTag ++ rest))) = markAt before (c :: (cs ++ closingTag)) := by
  -- The text and the closing tag without its bracket are longer than a name.
  have hlong : templateName.length ≤ (c :: (cs ++ '<' :: '/' :: templateName)).length := by
    rw [List.length_cons, List.length_append]
    exact Nat.le_succ_of_le (Nat.le_add_left_of_le (by decide))
  have hsplit : ∀ rest, c :: (cs ++ (closingTag ++ rest)) = (c :: (cs ++ '<' :: '/' :: templateName)) ++ '>' :: rest := by
    intro rest
    simp [closingTag]
  have hdrop : ∀ rest, (c :: (cs ++ (closingTag ++ rest))).drop 8 = (c :: (cs ++ '<' :: '/' :: templateName)).drop 8 ++ '>' :: rest := by
    intro rest
    rw [hsplit]
    exact List.drop_append_of_le_length hlong
  have hends : ∀ as, endsTagName (as ++ '>' :: rest) = endsTagName (as ++ ['>']) := by
    intro as
    cases as <;> rfl
  have hnone := hdrop []
  have hbegins := hsplit []
  rw [List.append_nil] at hnone hbegins
  unfold markAt
  rw [hdrop, hnone, hsplit, hbegins, begins_append hlong, begins_append hlong, hends, closesItself_append_close]

/-- The tags of a text with a closing tag behind it are the same whatever is behind that. -/
theorem marks_append_closingTag (before cs rest : List Char) : marks before (closingTag ++ rest) cs = marks before closingTag cs := by
  induction cs generalizing before with
  | nil => rfl
  | cons c cs ih => rw [marks, marks, markAt_append_closingTag, ih]

theorem closeFrom_closingTag (depth pos : Nat) (before rest : List Char) :
    closeFrom depth pos before (closingTag ++ rest) =
      if depth = 0 then some pos
      else closeFrom (depth - 1) (pos + 3) ('t' :: '/' :: '<' :: before) (templateName.tail ++ '>' :: rest) := rfl

/-- The tags of templates that are spelled in the content of a template. -/
def nestedTags (cs : List Char) : List Mark := marks [] closingTag (Text.lower cs)

theorem findTemplateClose_withTemplate (cs rest : List Char) :
    findTemplateClose (withTemplate cs rest) 10 =
      closeFrom 0 10 openingTag.reverse (Text.lower cs ++ (closingTag ++ Text.lower rest)) := by
  have hlower : Text.lower (withTemplate cs rest) = openingTag ++ (Text.lower cs ++ (closingTag ++ Text.lower rest)) := by
    rw [withTemplate, Text.lower_append, Text.lower_append, Text.lower_append]
    rfl
  have hafter : Text.after 10 (Text.lower (withTemplate cs rest)) = Text.lower cs ++ (closingTag ++ Text.lower rest) :=
    Text.Rest.after_eq ⟨openingTag, hlower, rfl⟩
  have hbefore : Text.between 0 10 (Text.lower (withTemplate cs rest)) = openingTag := by
    rw [hlower]
    exact (Text.rest_zero _).between_eq
  unfold findTemplateClose
  dsimp only
  rw [hafter, hbefore, templateClose_eq_closeFrom 0 10 (.inl rfl)]

/-- The closing tag behind the content of a template is the one that is found exactly when the tags in the content are balanced. -/
theorem findTemplateClose_eq_iff (cs rest : List Char) :
    findTemplateClose (withTemplate cs rest) 10 = some (10 + Text.size cs) ↔ Balanced (nestedTags cs) := by
  have hrun := closeFrom_append 0 10 openingTag.reverse (Text.lower cs) (closingTag ++ Text.lower rest)
  have hmarks : marks openingTag.reverse (closingTag ++ Text.lower rest) (Text.lower cs) = nestedTags cs := by
    rw [marks_append_closingTag]
    exact marks_append_close [] _ _ _
  rw [hmarks, Text.size_lower] at hrun
  rw [findTemplateClose_withTemplate, ← depthAfter_zero_iff]
  split at hrun
  · rename_i depth hdepth
    rw [hrun, closeFrom_closingTag, hdepth]
    cases depth with
    | zero => simp
    | succ depth =>
      constructor
      · -- The closing tag behind the content closes a template inside, so what is found is further on.
        intro hfound
        obtain ⟨mid, _, -, hclose, -⟩ := exists_of_closeFrom hfound
        omega
      · intro hzero
        cases hzero
  · rename_i hdepth
    obtain ⟨close, hfound, hlt⟩ := hrun
    rw [hfound, hdepth, Option.some_inj]
    constructor
    · intro hclose
      omega
    · intro hnone
      cases hnone

/-! ## The block of the template -/

/-- A reader of a document that begins with a template. -/
def templateReader (cs rest : List Char) : Reader := Reader.new (String.ofList (withTemplate cs rest))

theorem templateReader_eq (cs rest : List Char) :
    templateReader cs rest = ⟨withTemplate cs rest, Token.lex (withTemplate cs rest), []⟩ := by
  rw [templateReader, Reader.new, String.toList_ofList]

theorem templateReader_stands (cs rest : List Char) : (templateReader cs rest).Stands (withTemplate cs rest) 0 := by
  have hnew := Reader.Stands.new (String.ofList (withTemplate cs rest))
  rwa [String.toList_ofList] at hnew

/-- The tokens of the opening tag, and those behind it. -/
theorem tokens_templateReader (cs rest : List Char) : (templateReader cs rest).tokens =
    ⟨.angle, ⟨0, 1⟩⟩ :: ⟨.name, ⟨1, 9⟩⟩ :: ⟨.close, ⟨9, 10⟩⟩ :: Token.lexFrom 10 0 (cs ++ (closingTag ++ rest)) := by
  rw [templateReader_eq]
  rfl

theorem textOf_templateReader (cs rest : List Char) {r : Reader} (h : r.source = withTemplate cs rest) :
    r.textOf ⟨.name, ⟨1, 9⟩⟩ = templateName := by
  have hname : Text.Rest (withTemplate cs rest) 1 (templateName ++ '>' :: (cs ++ (closingTag ++ rest))) := ⟨['<'], rfl, rfl⟩
  rw [Reader.textOf, h]
  exact hname.between_eq

/-- The document begins with an opening tag, of a template without attributes. -/
theorem startTag_templateReader (cs rest : List Char) :
    (templateReader cs rest).atTagOpen = true ∧ (templateReader cs rest).startTag.1 = ⟨"template", 0, [], false, 10, true⟩ := by
  have htokens := tokens_templateReader cs rest
  have hsource := (templateReader_stands cs rest).source_eq
  generalize templateReader cs rest = r at htokens hsource
  obtain ⟨source, tokens, errors⟩ := r
  dsimp only at htokens hsource
  subst htokens
  have htext := fun tokens errors => textOf_templateReader cs rest (r := ⟨source, tokens, errors⟩) hsource
  constructor
  · simp [Reader.atTagOpen, Reader.kind, Reader.current, Reader.peek, Reader.nameFollows, htext]
    decide
  · simp [Reader.startTag, Reader.kind, Reader.current, Reader.peek, Reader.advance, Reader.attributes, Reader.start, htext]
    exact String.ofList_toList

/-- The content of the template goes up to the closing tag that is found, or to the end of the document. -/
theorem inner_blockHere_templateReader (cs rest : List Char) :
    (blockHere (templateReader cs rest)).inner =
      ⟨10, (findTemplateClose (withTemplate cs rest) 10).getD (Text.size (withTemplate cs rest))⟩ := by
  obtain ⟨hopen, htag⟩ := startTag_templateReader cs rest
  have hsource := (Reader.takesTag (templateReader_stands cs rest) hopen).stands.source_eq
  have hsize : (templateReader cs rest).startTag.2.size = Text.size (withTemplate cs rest) := by rw [Reader.size, hsource]
  have hclose : findClose (withTemplate cs rest) "template" 10 = findTemplateClose (withTemplate cs rest) 10 := if_pos rfl
  unfold blockHere blockOf
  dsimp only
  rw [htag, extent, if_neg (by decide)]
  dsimp only
  rw [hsource, hclose]
  split
  · rename_i close hfound
    rw [hfound]
    rfl
  · rename_i hnone
    rw [hnone, hsize]
    rfl

/-- The first turn of splitting such a document sets its template. -/
theorem exists_blocks_templateReader (cs rest : List Char) (d : Draft) :
    ∃ d' r', d'.document.template = some (blockHere (templateReader cs rest)) ∧
      ∀ fuel, blocks (fuel + 1) d (templateReader cs rest) = blocks fuel d' r' := by
  obtain ⟨hopen, htag⟩ := startTag_templateReader cs rest
  refine ⟨_, _, ?_, blocks_of_atTagOpen (templateReader_stands cs rest) hopen d⟩
  rw [htag, addBlock, if_pos rfl]
  dsimp only
  split <;> rfl

/-- The content of the template is the text up to the closing tag behind it when that is the one that is found, and then only. -/
theorem content_eq_iff (cs rest : List Char) : (blockHere (templateReader cs rest)).content.toList = cs ↔
    findTemplateClose (withTemplate cs rest) 10 = some (10 + Text.size cs) := by
  obtain ⟨hblock, -, -⟩ := blockHere_describes (templateReader_stands cs rest) (startTag_templateReader cs rest).1
  have hreads := hblock.content_reads
  rw [inner_blockHere_templateReader] at hreads
  have hcontent : Text.Rest (withTemplate cs rest) 10 (cs ++ (closingTag ++ rest)) := ⟨openingTag, rfl, rfl⟩
  constructor
  · intro hsame
    have hstop := hreads.2
    rw [hsame] at hstop
    cases hfound : findTemplateClose (withTemplate cs rest) 10 with
    | some close =>
      rw [hfound] at hstop
      exact congrArg some hstop
    | none =>
      -- Without a closing tag the content goes on to the end, past the one behind the text.
      rw [hfound] at hstop
      have hsize := hcontent.size_eq
      have hclosing : Text.size closingTag = 11 := rfl
      rw [Text.size_append, Text.size_append, hclosing] at hsize
      change Text.size (withTemplate cs rest) = 10 + Text.size cs at hstop
      omega
  · intro hfound
    have hbetween := hreads.between_eq
    rw [hfound] at hbetween
    rw [← hbetween]
    exact hcontent.between_eq

/-- Whatever text a document has between the tags of a template at its start, and whatever behind them: its first template has the text
as its content, and the closing tag is found right behind the text, exactly when the tags that are spelled in the text are balanced. -/
theorem content_eq_iff_balanced (cs rest : List Char) :
    (∀ d : Draft, ∃ d' r', d'.document.template = some (blockHere (templateReader cs rest)) ∧
      ∀ fuel, blocks (fuel + 1) d (templateReader cs rest) = blocks fuel d' r') ∧
    ((blockHere (templateReader cs rest)).content.toList = cs ↔ Balanced (nestedTags cs)) ∧
    (findTemplateClose (withTemplate cs rest) 10 = some (10 + Text.size cs) ↔ Balanced (nestedTags cs)) := by
  have hfound := findTemplateClose_eq_iff cs rest
  exact ⟨exists_blocks_templateReader cs rest, (content_eq_iff cs rest).trans hfound, hfound⟩

/-- A text that reads as a template without a fault, but whose tags are not balanced: the bracket in a value of a template that closes
itself ends its tag for the search, which takes it for one that is open and finds no closing tag. -/
theorem content_of_bracket_in_value :
    (parseTemplate "<template v-if=\"a > b\"/>").2 = [] ∧
      (split "<template><template v-if=\"a > b\"/></template>").1.template.map (·.content) =
        some "<template v-if=\"a > b\"/></template>" := by
  constructor
  · decide +kernel
  · decide +kernel

end Document

end TypedSfc
