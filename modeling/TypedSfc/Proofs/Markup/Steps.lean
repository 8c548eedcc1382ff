import TypedSfc.Proofs.Markup.Directives
import TypedSfc.Proofs.Markup.Standing

/-!
# The steps of a reader

Each step takes the source from the token here up to a place further on, and the reader stands there. What is read from the source
behind the token is cut at places, so it stands at the offset that is kept with it.
-/

namespace TypedSfc

namespace Markup

namespace Reader

variable {source : List Char} {pos : Nat} {r : Reader} {k : TokenKind} {own more : List Char}

theorem standsAt_ofList {n : Nat} {cs : List Char} (h : Text.StandsAt source n cs) :
    Text.StandsAt source n (String.ofList cs).toList := by
  rw [String.toList_ofList]
  exact h

/-- What a token and a mark further on enclose: the text between them, and the place of all three. -/
theorem exists_delimited {w : List Char} {n : Nat} (hf : r.Faces source k own more) (hfind : Text.find w more = some n) :
    ∃ inner, Text.between 0 n more = inner ∧ Text.size inner = n ∧
      (⟨r.start, r.start + Text.size own + n + Text.size w⟩ : Span).Reads source (own ++ (inner ++ w)) := by
  obtain ⟨inner, behind, rfl, rfl⟩ := Text.exists_of_find hfind
  refine ⟨inner, ?_, rfl, ⟨behind, ?_⟩, ?_⟩
  · have hbetween := (Text.rest_zero (inner ++ (w ++ behind))).between_eq
    rwa [Nat.zero_add] at hbetween
  · rw [List.append_assoc, List.append_assoc]
    exact hf.rest
  · simp only [Text.size_append, Nat.add_assoc]

/-- What a token and the end of the source enclose. -/
theorem Faces.reads_all (hf : r.Faces source k own more) :
    (⟨r.start, Text.size source⟩ : Span).Reads source (own ++ more) :=
  ⟨⟨[], by rw [List.append_nil]; exact hf.rest⟩, hf.rest.size_eq.symm⟩

/-! ## Nodes that hold no nodes -/

/-- A node was read: it describes the source from the token here on, and the reader stands behind it. -/
structure Yields (source : List Char) (pos : Nat) (n : Node) (r : Reader) : Prop where
  describes : n.Describes source
  le_start : pos ≤ n.span.start
  start_lt : n.span.start < n.span.stop
  stands : r.Stands source n.span.stop

theorem Yields.lt {n : Node} (h : Yields source pos n r) : pos < n.span.stop := Nat.lt_of_le_of_lt h.le_start h.start_lt

theorem yields_comment (h : r.Stands source pos) (hk : r.kind = .commentOpen) :
    Yields source pos (.comment r.comment.1 r.comment.2.1) r.comment.2.2 := by
  obtain ⟨own, more, hf, hle⟩ := h.faces (by rw [hk]; decide)
  obtain rfl : own = ['<', '!', '-', '-'] := by
    have hwritten := hf.written
    rwa [hk] at hwritten
  have hinner : r.rest (r.start + 4) = more := h.rest_eq hf.rest.step
  unfold comment
  dsimp only
  rw [hinner]
  split
  · rename_i n hfind
    obtain ⟨inner, hbetween, hsize, hreads⟩ := exists_delimited hf hfind
    rw [hbetween]
    refine ⟨.comment ?_, hle, ?_, h.sync hreads.fits.stop ?_⟩
    · rw [String.toList_ofList]
      exact hreads
    · show r.start < r.start + 4 + n + 3
      omega
    · show pos ≤ r.start + 4 + n + 3
      omega
  · have hreads := hf.reads_all
    rw [← h.size_eq] at hreads
    refine ⟨.openComment ?_ h.size_eq, hle, ?_, (h.error _).sync hreads.fits.stop ?_⟩
    · rw [String.toList_ofList]
      exact hreads
    · have hlt := hf.start_lt
      have hstop := hf.rest.step.isPlace.le_size
      show r.start < r.size
      rw [h.size_eq]
      omega
    · exact le_trans hle h.start_le

theorem yields_interpolation (h : r.Stands source pos) (hk : r.kind = .mustacheOpen) :
    Yields source pos r.interpolation.1 r.interpolation.2 := by
  obtain ⟨own, more, hf, hle⟩ := h.faces (by rw [hk]; decide)
  obtain rfl : own = ['{', '{'] := by
    have hwritten := hf.written
    rwa [hk] at hwritten
  have hinner : r.rest (r.start + 2) = more := h.rest_eq hf.rest.step
  unfold interpolation
  dsimp only
  rw [hinner]
  split
  · rename_i n hfind
    obtain ⟨inner, hbetween, hsize, hreads⟩ := exists_delimited hf hfind
    rw [hbetween]
    refine ⟨.interpolation ?_ rfl, hle, ?_, h.sync hreads.fits.stop ?_⟩
    · rw [String.toList_ofList]
      exact hreads
    · show r.start < r.start + 2 + n + 2
      omega
    · show pos ≤ r.start + 2 + n + 2
      omega
  · -- An interpolation that does not end is a text, with its braces.
    have hreads := hf.reads_all
    rw [← h.size_eq] at hreads
    refine ⟨.text ?_, hle, ?_, (h.error _).sync hreads.fits.stop ?_⟩
    · rw [String.toList_ofList, h.rest_eq hf.rest]
      exact hreads
    · have hlt := hf.start_lt
      have hstop := hf.rest.step.isPlace.le_size
      show r.start < r.size
      rw [h.size_eq]
      omega
    · exact le_trans hle h.start_le

/-- A text goes on from its start. -/
theorem exists_append_plainText (cs : List Char) : ∃ behind, cs = plainText cs ++ behind := by
  fun_induction plainText cs with
  | case1 => exact ⟨[], rfl⟩
  | case2 cs => exact ⟨_, rfl⟩
  | case3 c cs => exact ⟨_, rfl⟩
  | case4 c cs _ ih =>
    obtain ⟨behind, hbehind⟩ := ih
    exact ⟨behind, by rw [List.cons_append, ← hbehind]⟩
  | case5 c cs _ _ ih =>
    obtain ⟨behind, hbehind⟩ := ih
    exact ⟨behind, by rw [List.cons_append, ← hbehind]⟩

theorem yields_text (h : r.Stands source pos) (hk : r.kind ≠ .eof) : Yields source pos r.text.1 r.text.2 := by
  obtain ⟨own, more, hf, hle⟩ := h.faces hk
  obtain ⟨c, own, rfl⟩ := List.exists_cons_of_ne_nil hf.written.ne_nil
  obtain ⟨behind, hbehind⟩ := exists_append_plainText (own ++ more)
  have hrest : Text.Rest source r.start (c :: plainText (own ++ more) ++ behind) := by
    rw [List.cons_append, ← hbehind]
    exact hf.rest
  unfold text
  rw [h.rest_eq hf.rest]
  dsimp only [List.cons_append]
  refine ⟨.text ⟨standsAt_ofList hrest.standsAt, ?_⟩, hle, ?_, ?_⟩
  · rw [String.toList_ofList]
  · have hpos := Text.size_pos (List.cons_ne_nil c (plainText (own ++ more)))
    show r.start < r.start + Text.size (c :: plainText (own ++ more))
    omega
  · exact h.sync hrest.step.isPlace (le_trans hle (Nat.le_add_right ..))

/-! ## Closing tags -/

/-- The reader at a closing tag faces its marks. -/
theorem Stands.faces_closing (h : r.Stands source pos) (hk : r.kind = .angleSlash) :
    ∃ more, r.Faces source .angleSlash ['<', '/'] more ∧ pos ≤ r.start := by
  obtain ⟨own, more, hf, hle⟩ := h.faces (by rw [hk]; decide)
  obtain rfl : own = ['<', '/'] := by
    have hwritten := hf.written
    rwa [hk] at hwritten
  exact ⟨more, hk ▸ hf, hle⟩

/-- What is skipped of a closing tag is its marks and a text without brackets, up to and with the bracket that ends it if it has one, and
before the next bracket or the end of the source if not. -/
structure SkipsTag (source : List Char) (start stop : Nat) (mid rest : List Char) : Prop where
  stands : Text.Rest source start ('<' :: '/' :: (mid ++ rest))
  stop_eq : stop = start + 2 + Text.size mid
  notMem : '<' ∉ mid
  ends : (∃ front, mid = front ++ ['>']) ∨ ∀ c ∈ rest.head?, c = '<'

/-- A token that does not end a closing tag has no bracket in its text. -/
theorem notMem_of_written {t : Token} {own : List Char} (ht : endsClosingTag t.kind = false) (hown : Token.Written t.kind own) :
    '<' ∉ own := by
  intro hmem
  cases hk : t.kind with
  | commentOpen | angleSlash | angle | close | eof =>
    rw [hk] at ht
    cases ht
  | name =>
    rw [hk] at hown
    have := hown.2 '<' hmem
    revert this
    decide
  | brace =>
    rw [hk] at hown
    rcases hown with rfl | rfl <;> revert hmem <;> decide
  | slashClose | slash | equals | doubleQuote | singleQuote | mustacheOpen | mustacheClose | newline =>
    rw [hk] at hown
    obtain rfl := hown
    revert hmem
    decide

/-- The reader at the token that ends the closing tag here. -/
def tagEnd (r : Reader) : Reader := { r with tokens := r.tokens.tail.dropWhile fun t => !endsClosingTag t.kind }

theorem skipClosingTag_eq (r : Reader) : r.skipClosingTag =
    if r.tagEnd.kind == .close then (⟨r.start, r.tagEnd.current.span.stop⟩, r.tagEnd.advance)
    else (⟨r.start, r.tagEnd.start⟩, r.tagEnd) := rfl

theorem endsClosingTag_tagEnd (r : Reader) : endsClosingTag r.tagEnd.kind = true := by
  have hnot := List.head?_dropWhile_not (fun t : Token => !endsClosingTag t.kind) r.tokens.tail
  unfold kind current peek tagEnd
  cases hleft : r.tokens.tail.dropWhile fun t => !endsClosingTag t.kind with
  | nil => rfl
  | cons t ts =>
    rw [hleft] at hnot
    simpa using hnot

/-- Up to the token that ends a closing tag there are no brackets behind its marks. -/
theorem tagEnd_stands (h : r.Stands source pos) (hk : r.kind = .angleSlash) :
    ∃ mid rest, Text.Rest source r.start ('<' :: '/' :: (mid ++ rest)) ∧ '<' ∉ mid ∧ (∀ c ∈ rest.head?, Token.isSkipped c = false) ∧
      r.tagEnd.Stands source (r.start + 2 + Text.size mid) := by
  obtain ⟨more, hf, -⟩ := h.faces_closing hk
  have htail : r.tokens.tail = Token.lexFrom (r.start + 2) 0 more := by
    rw [hf.tokens_eq]
    rfl
  obtain ⟨mid, rest, rfl, hdrop, hhead, hmid⟩ := Token.exists_dropWhile_lexFrom (p := fun t => !endsClosingTag t.kind)
    (by intro t ht; rw [ht]; rfl) more (r.start + 2)
  have hmore : Text.Rest source (r.start + 2) (mid ++ rest) := hf.rest.step
  refine ⟨mid, rest, hf.rest, ?_, hhead, h.source_eq, ⟨rest, hmore.step, by rw [← hdrop, ← htail]; rfl⟩, h.errors_fit⟩
  intro hmem
  rcases hmid '<' hmem with hblank | ⟨t, own, ht, hown, hmem'⟩
  · revert hblank
    decide
  · rw [Bool.not_eq_true'] at ht
    exact notMem_of_written ht hown hmem'

theorem skipClosingTag_skips (h : r.Stands source pos) (hk : r.kind = .angleSlash) :
    ∃ mid rest, SkipsTag source r.start r.skipClosingTag.1.stop mid rest ∧
      r.skipClosingTag.2.Stands source r.skipClosingTag.1.stop := by
  obtain ⟨mid, rest, hmarks, hmid, hhead, hstands⟩ := tagEnd_stands h hk
  have hrest : Text.Rest source (r.start + 2 + Text.size mid) rest := by
    have hbehind : Text.Rest source r.start (['<', '/'] ++ (mid ++ rest)) := hmarks
    exact hbehind.step.step
  have hstart : r.tagEnd.start = r.start + 2 + Text.size mid := hstands.start_eq hrest hhead
  by_cases hclose : r.tagEnd.kind = .close
  · obtain ⟨own, more, hf, -⟩ := hstands.faces (by rw [hclose]; decide)
    obtain rfl : own = ['>'] := by
      have hwritten := hf.written
      rwa [hclose] at hwritten
    obtain rfl : rest = ['>'] ++ more := hrest.unique (hstart ▸ hf.rest)
    rw [skipClosingTag_eq, if_pos (by simpa using hclose), hf.stop_eq]
    refine ⟨mid ++ ['>'], more, ⟨?_, ?_, by simp [hmid], .inl ⟨mid, rfl⟩⟩, hstands.advance hf⟩
    · rw [List.append_assoc]
      exact hmarks
    · rw [hstart, Text.size_append, ← Nat.add_assoc]
  · rw [skipClosingTag_eq, if_neg (by simpa using hclose)]
    refine ⟨mid, rest, ⟨hmarks, hstart, hmid, .inr fun c hc => ?_⟩, hstands.atStart⟩
    -- What ends the tag, and is not its own bracket, begins another.
    obtain ⟨rest, rfl⟩ := List.head?_eq_some_iff.1 hc
    obtain ⟨own, more, hown, hf, -⟩ := hstands.faces_of_rest hrest (hhead c rfl)
    have hends := endsClosingTag_tagEnd r
    have hwritten := hf.written
    rw [← hf.kind_eq] at hwritten
    cases hk' : r.tagEnd.kind with
    | close => exact absurd hk' hclose
    | eof => exact absurd hk' hwritten.ne_eof
    | angle | angleSlash | commentOpen =>
      rw [hk'] at hwritten
      obtain rfl := hwritten
      exact (List.cons.inj hown).1
    | slashClose | slash | equals | doubleQuote | singleQuote | mustacheOpen | mustacheClose | brace | newline | name =>
      rw [hk'] at hends
      cases hends

/-- Past a closing tag, which takes its two marks at least. -/
theorem skipClosingTag_stands (h : r.Stands source pos) (hk : r.kind = .angleSlash) :
    r.skipClosingTag.2.Stands source r.skipClosingTag.1.stop ∧ r.skipClosingTag.1.start = r.start ∧
      r.start + 2 ≤ r.skipClosingTag.1.stop := by
  obtain ⟨mid, rest, hskips, hstands⟩ := skipClosingTag_skips h hk
  refine ⟨hstands, ?_, ?_⟩
  · unfold skipClosingTag
    dsimp only
    split <;> rfl
  · rw [hskips.stop_eq]
    exact Nat.le_add_right ..

theorem skipClosingTag_fits (h : r.Stands source pos) (hk : r.kind = .angleSlash) : r.skipClosingTag.1.Fits source := by
  obtain ⟨hstands, hstart, hstop⟩ := skipClosingTag_stands h hk
  refine ⟨hstart ▸ h.isPlace_start, hstands.isPlace, ?_⟩
  omega

/-- An element ends behind its closing tag, or where its content stops. -/
theorem closingTag_stands (h : r.Stands source pos) (tag : String) {startTag : Span} (hs : startTag.Fits source) :
    (r.closingTag tag startTag).2.Stands source (r.closingTag tag startTag).1 ∧ pos ≤ (r.closingTag tag startTag).1 := by
  have hle := h.le_start
  unfold closingTag
  split
  · rename_i hclose
    have hk : r.kind = .angleSlash := by
      rw [Bool.and_eq_true] at hclose
      exact eq_of_beq hclose.1
    obtain ⟨hstands, -, hstop⟩ := skipClosingTag_stands h hk
    refine ⟨hstands, ?_⟩
    show pos ≤ r.skipClosingTag.1.stop
    omega
  · exact ⟨(h.errorAt _ hs).atStart, hle⟩

end Reader

end Markup

end TypedSfc
