import TypedSfc.Proofs.Markup.ClosingTags
import TypedSfc.Proofs.Markup.Heads
import TypedSfc.Proofs.Markup.Nodes

/-!
# How elements end

An element has no content, or a closing tag, or it is left unclosed. The tree does not keep which; the reading of nodes is followed once
more here, with the ending of each element. A closing tag is its own: it has the name of the element, and behind the content.
-/

namespace TypedSfc

namespace Markup

/-- How an element ends. -/
inductive Ending where
  /-- With its opening tag: that closes itself, is cut off, or is of an element without content. -/
  | empty
  /-- With a closing tag, whose name stands at a position. -/
  | closed (nameOffset : Nat)
  /-- Where its content stops, without a closing tag. -/
  | unclosed
  deriving DecidableEq, Repr

namespace Reader

/-- How an element of a name ends whose content stops here. -/
def ending (r : Reader) (tag : String) : Ending :=
  if r.kind == .angleSlash && Tag.same tag r.closingName then .closed (r.start + 2) else .unclosed

/-- The elements of the nodes that are read, each with its ending. -/
def endings : Nat → List String → Reader → List (Element × Ending)
  | 0, _, _ => []
  | fuel + 1, opened, r =>
    match r.kind with
    | .eof => []
    | .angleSlash =>
      if opened.any (Tag.same · r.closingName) then []
      else endings fuel opened (r.skipClosingTag.2.errorAt (.strayClosingTag r.closingName) r.skipClosingTag.1)
    | .commentOpen => endings fuel opened r.comment.2.2
    | .mustacheOpen => endings fuel opened r.interpolation.2
    | _ =>
      if r.atTagOpen then
        let t := r.startTag.1
        let r := t.behind r.startTag.2
        let own : Span := ⟨t.start, t.stop⟩
        if t.selfClosing || !t.terminated || Tag.isVoid t.tag then (t.element t.stop, .empty) :: endings fuel opened r
        else if Tag.isRaw t.tag then
          let r := r.sync (t.stop + rawLength t.tag (r.rest t.stop))
          let close := r.closingTag t.tag own
          (t.element close.1, r.ending t.tag) :: endings fuel opened close.2
        else
          let below := (nodes fuel (t.tag :: opened) r).2
          let close := below.closingTag t.tag own
          (t.element close.1, below.ending t.tag) :: (endings fuel (t.tag :: opened) r ++ endings fuel opened close.2)
      else endings fuel opened r.text.2

/-- The endings are those of the elements that are read, in their order. -/
theorem map_fst_endings (fuel : Nat) (opened : List String) (r : Reader) :
    (endings fuel opened r).map (·.1) = nodeHeads (nodes fuel opened r).1 := by
  induction fuel generalizing opened r with
  | zero => rfl
  | succ fuel ih =>
    cases hk : r.kind with
    | eof => rw [endings, nodes, hk]; rfl
    | commentOpen => rw [endings, nodes, hk]; exact ih _ _
    | mustacheOpen =>
      rw [endings, nodes, hk]
      dsimp only
      rw [ih, nodeHeads_cons, heads_interpolation, List.nil_append]
    | angleSlash =>
      rw [endings, nodes, hk]
      dsimp only
      split
      · rfl
      · exact ih _ _
    | angle | close | slashClose | slash | equals | doubleQuote | singleQuote | mustacheClose | brace | newline | name =>
      rw [endings, nodes, hk]
      dsimp only
      split
      · split
        · rw [List.map_cons, ih]
          rfl
        · split
          · rw [List.map_cons, ih, nodeHeads_cons, heads_element]
            show _ = _ :: nodeHeads (rawText r.startTag.1 (r.startTag.1.behind r.startTag.2)) ++ _
            rw [nodeHeads_rawText]
            rfl
          · rw [List.map_cons, List.map_append, ih, ih]
            rfl
      · exact ih _ _

end Reader

/-! ## What an ending says -/

/-- What an ending says of the source. A closing tag is behind the opening tag, has the name of the element, and ends the element; that
of an element that holds no markup is the first of the name. -/
inductive EndsAs (source : List Char) (e : Element) : Ending → Prop
  | empty (stop_eq : e.span.stop = e.startTagEnd) : EndsAs source e .empty
  | closed {close : Nat} {mid rest : List Char} (le : e.startTagEnd ≤ close) (closes : ClosesAt source e.tag close)
      (skips : Reader.SkipsTag source close e.span.stop mid rest)
      (first : Tag.isRaw e.tag = true → ∀ p, e.startTagEnd ≤ p → p < close → ¬ClosesAt source e.tag p)
      (selfClosing_eq : e.selfClosing = false) : EndsAs source e (.closed (close + 2))
  | unclosed (selfClosing_eq : e.selfClosing = false) : EndsAs source e .unclosed

/-- An element that was read, with its ending: its content lies behind its opening tag. -/
structure IsEnded (source : List Char) (p : Element × Ending) : Prop where
  start_lt : p.1.span.start < p.1.startTagEnd
  content_fits : (⟨p.1.startTagEnd, p.1.span.stop⟩ : Span).Fits source
  tag_name : ∀ c ∈ p.1.tag.toList, Token.isNameChar c = true
  ends : EndsAs source p.1 p.2

/-- Elements with their endings, in the order of their places between two bytes. -/
structure Ended (source : List Char) (lo : Nat) (ps : List (Element × Ending)) (hi : Nat) : Prop where
  le : lo ≤ hi
  ended : ∀ p ∈ ps, IsEnded source p
  within : ∀ p ∈ ps, lo ≤ p.1.span.start ∧ p.1.span.start < hi
  inOrder : ps.Pairwise fun p q => p.1.span.start < q.1.span.start

namespace Ended

variable {source : List Char} {lo mid hi : Nat} {p : Element × Ending} {ps qs : List (Element × Ending)}

theorem nil (hle : lo ≤ hi) : Ended source lo [] hi := ⟨hle, by simp, by simp, .nil⟩

theorem mono {lo' hi' : Nat} (h : Ended source lo ps hi) (hlo : lo' ≤ lo) (hhi : hi ≤ hi') : Ended source lo' ps hi' := by
  refine ⟨le_trans hlo (le_trans h.le hhi), h.ended, fun p hp => ?_, h.inOrder⟩
  obtain ⟨hstart, hstop⟩ := h.within p hp
  exact ⟨le_trans hlo hstart, lt_of_lt_of_le hstop hhi⟩

theorem append (h : Ended source lo ps mid) (h' : Ended source mid qs hi) : Ended source lo (ps ++ qs) hi := by
  refine ⟨le_trans h.le h'.le, ?_, ?_, ?_⟩
  · intro p hp
    rcases List.mem_append.1 hp with hp | hp
    · exact h.ended p hp
    · exact h'.ended p hp
  · intro p hp
    have hle := h.le
    have hle' := h'.le
    rcases List.mem_append.1 hp with hp | hp
    · have := h.within p hp
      omega
    · have := h'.within p hp
      omega
  · refine List.pairwise_append.2 ⟨h.inOrder, h'.inOrder, fun p hp q hq => ?_⟩
    exact lt_of_lt_of_le (h.within p hp).2 (h'.within q hq).1

/-- An element comes before those that start behind its opening tag. -/
theorem cons (hp : IsEnded source p) (hle : lo ≤ p.1.span.start) (h : Ended source p.1.startTagEnd ps hi) :
    Ended source lo (p :: ps) hi := by
  have hlt := hp.start_lt
  have hhi := h.le
  refine ⟨by omega, List.forall_mem_cons.2 ⟨hp, h.ended⟩, List.forall_mem_cons.2 ⟨by omega, fun q hq => ?_⟩,
    List.pairwise_cons.2 ⟨fun q hq => ?_, h.inOrder⟩⟩
  · have := h.within q hq
    omega
  · have := h.within q hq
    omega

end Ended

namespace Reader

variable {source : List Char} {pos : Nat} {r : Reader}

/-- An element whose content stops here has the ending that is read here. -/
theorem TakesTag.isEnded {t : StartTag} {r' : Reader} {lo : Nat} (h : TakesTag source lo t r') (hs : r.Stands source pos)
    (hle : t.stop ≤ pos) (htag : ∀ c ∈ t.tag.toList, Token.isNameChar c = true) (hself : t.selfClosing = false)
    (hfirst : Tag.isRaw t.tag = true → ∀ p, t.stop ≤ p → p < r.start → ¬ClosesAt source t.tag p) :
    IsEnded source (t.element (r.closingTag t.tag ⟨t.start, t.stop⟩).1, r.ending t.tag) := by
  obtain ⟨hstands, hstop⟩ := closingTag_stands hs t.tag h.fits
  have hstart := hs.le_start
  refine ⟨h.start_lt, ⟨h.stands.isPlace, hstands.isPlace, le_trans hle hstop⟩, htag, ?_⟩
  unfold ending closingTag
  split
  · rename_i hclose
    rw [Bool.and_eq_true, beq_iff_eq] at hclose
    obtain ⟨mid, rest, hskips, -⟩ := skipClosingTag_skips hs hclose.1
    exact .closed (le_trans hle hstart) ((hs.closesAt_start hclose.1).2 hclose.2) hskips hfirst hself
  · exact .unclosed hself

/-- The content of an element that holds no markup stops at its first closing tag, if at any. -/
theorem first_of_rawLength {t : StartTag} (hs : r.Stands source t.stop) (htag : ∀ c ∈ t.tag.toList, Token.isNameChar c = true)
    {p : Nat} (hle : t.stop ≤ p) (hlt : p < (r.sync (t.stop + rawLength t.tag (r.rest t.stop))).start) :
    ¬ClosesAt source t.tag p := by
  intro hcloses
  obtain ⟨rest, hrest⟩ := hs.isPlace
  obtain ⟨n, hfind, hfirst⟩ := hcloses.exists_find hrest hle
  obtain ⟨-, name, more, hmore, -, -⟩ := closesAt_of_find hrest htag hfind
  have hlength : rawLength t.tag rest = n := by rw [rawLength, hfind]; rfl
  -- The reader is brought to what the search found, and faces the marks there.
  obtain ⟨-, -, -, -, hstart⟩ := (hs.sync hmore.isPlace (Nat.le_add_right ..)).faces_of_rest hmore rfl
  rw [hs.rest_eq hrest, hlength, hstart] at hlt
  omega

/-- The elements that are read are in order, each with the ending that it has, and the reader stands behind them. -/
theorem endings_ended (fuel : Nat) (opened : List String) (h : r.Stands source pos) :
    ∃ pos', (nodes fuel opened r).2.Stands source pos' ∧ Ended source pos (endings fuel opened r) pos' := by
  induction fuel generalizing r pos opened with
  | zero => exact ⟨pos, h, .nil (Nat.le_refl _)⟩
  | succ fuel ih =>
    have hnode : ∀ {n : Node} {r' : Reader}, Yields source pos n r' →
        ∃ pos', (nodes fuel opened r').2.Stands source pos' ∧ Ended source pos (endings fuel opened r') pos' := by
      intro n r' hyields
      obtain ⟨pos', hstands, hended⟩ := ih opened hyields.stands
      exact ⟨pos', hstands, hended.mono hyields.lt.le (Nat.le_refl _)⟩
    cases hk : r.kind with
    | eof =>
      rw [nodes, endings, hk]
      exact ⟨pos, h, .nil (Nat.le_refl _)⟩
    | commentOpen =>
      rw [nodes, endings, hk]
      exact hnode (yields_comment h hk)
    | mustacheOpen =>
      rw [nodes, endings, hk]
      exact hnode (yields_interpolation h hk)
    | angleSlash =>
      rw [nodes, endings, hk]
      dsimp only
      split
      · exact ⟨pos, h, .nil (Nat.le_refl _)⟩
      · obtain ⟨hstands, hstart, hstop⟩ := skipClosingTag_stands h hk
        have hle := h.le_start
        obtain ⟨pos', hstands', hended⟩ := ih opened
          (hstands.errorAt (.strayClosingTag r.closingName) (skipClosingTag_fits h hk))
        exact ⟨pos', hstands', hended.mono (by omega) (Nat.le_refl _)⟩
    | angle | close | slashClose | slash | equals | doubleQuote | singleQuote | mustacheClose | brace | newline | name =>
      rw [nodes, endings, hk]
      dsimp only
      split
      · rename_i ho
        have htag := takesTag h ho
        have hbehind := htag.behind
        have hname := isNameChar_of_mem_tag h ho
        split
        · obtain ⟨pos', hstands, hended⟩ := ih opened hbehind
          have hempty : IsEnded source (r.startTag.1.element r.startTag.1.stop, .empty) :=
            ⟨htag.start_lt, ⟨hbehind.isPlace, hbehind.isPlace, Nat.le_refl _⟩, hname, .empty rfl⟩
          exact ⟨pos', hstands, .cons hempty htag.le_start hended⟩
        · rename_i hcontent
          have hself : r.startTag.1.selfClosing = false := by
            rw [Bool.not_eq_true, Bool.or_eq_false_iff, Bool.or_eq_false_iff] at hcontent
            exact hcontent.1.1
          split
          · have hsync := hbehind.sync (rawText_siblings hbehind).2 (Nat.le_add_right ..)
            have hended := htag.isEnded hsync (Nat.le_add_right ..) hname hself fun _ p => first_of_rawLength hbehind hname
            obtain ⟨hclose, hle⟩ := closingTag_stands hsync r.startTag.1.tag htag.fits
            obtain ⟨pos', hstands, hbehind'⟩ := ih opened hclose
            exact ⟨pos', hstands, .cons hended htag.le_start
              (hbehind'.mono (le_trans (Nat.le_add_right ..) hle) (Nat.le_refl _))⟩
          · rename_i hraw
            obtain ⟨mid, hmid, hbelow⟩ := ih (r.startTag.1.tag :: opened) hbehind
            have hended := htag.isEnded hmid hbelow.le hname hself fun h => absurd h hraw
            obtain ⟨hclose, hle⟩ := closingTag_stands hmid r.startTag.1.tag htag.fits
            obtain ⟨pos', hstands, hbehind'⟩ := ih opened hclose
            exact ⟨pos', hstands, .cons hended htag.le_start
              (hbelow.append (hbehind'.mono hle (Nat.le_refl _)))⟩
      · exact hnode (yields_text h (by rw [hk]; decide))

end Reader

/-- The elements of a template as they are read, each with its ending. -/
def endingsOf (source : String) : List (Element × Ending) :=
  Reader.endings ((Reader.new source).size + 1) [] (Reader.new source)

theorem exists_ended (source : String) : ∃ pos, Ended source.toList 0 (endingsOf source) pos := by
  obtain ⟨pos, -, hended⟩ := Reader.endings_ended ((Reader.new source).size + 1) [] (Reader.Stands.new source)
  exact ⟨pos, hended⟩

end Markup

end TypedSfc
