import TypedSfc.Proofs.Markup.Origins

/-!
# The nodes of a template

What one turn of the reader can do is said once, in `Turn`: it ends, passes over a stray closing tag, takes a node that holds no other
nodes, or enters an element. That the nodes describe the source, that the reading ends at the end of the file, and that the bound on
its steps is never met follow from it by induction.
-/

namespace TypedSfc

namespace Markup

namespace Reader

variable {source : List Char} {pos : Nat} {r : Reader}

/-! ## Elements -/

/-- The element of an opening tag that ends at `stop`. -/
def StartTag.element (t : StartTag) (stop : Nat) : Element :=
  ⟨⟨t.start, stop⟩, t.tag, TagKind.of t.tag (properties t.attributes).1, (properties t.attributes).1, t.selfClosing, t.stop⟩

/-- The reader behind an opening tag, with the faults of its properties. -/
def StartTag.behind (t : StartTag) (r : Reader) : Reader := { r with errors := r.errors ++ (properties t.attributes).2 }

theorem TakesTag.behind {t : StartTag} {r' : Reader} (h : TakesTag source pos t r') : (t.behind r').Stands source t.stop :=
  h.stands.withErrors (properties_describe fun a ha => (h.attributes_between a ha).1).2

/-- An element that ends behind its opening tag describes the source. -/
theorem TakesTag.element_describes {t : StartTag} {r' : Reader} (h : TakesTag source pos t r') {stop : Nat} (hle : t.stop ≤ stop)
    (hstop : Text.IsPlace source stop) : (t.element stop).Describes source := by
  obtain ⟨hprops, -⟩ := properties_describe fun a ha => (h.attributes_between a ha).1
  have hlt := h.start_lt
  refine ⟨⟨h.start_isPlace, hstop, ?_⟩, h.stands.isPlace, hlt.le, h.tag_stands, fun p hp => (hprops p hp).1, ?_⟩
  · show t.start ≤ stop
    omega
  · intro p hp
    obtain ⟨-, a, ha, hspan⟩ := hprops p hp
    rw [hspan]
    exact (h.attributes_between a ha).2

/-- An element has the properties of the attributes of its opening tag, whose faults the reader has noted. -/
theorem TakesTag.isRead {t : StartTag} {r' : Reader} (h : TakesTag source pos t r') (stop : Nat) :
    (t.element stop).IsRead source (t.behind r').errors := by
  refine ⟨h.tag_letter, fun p hp => ?_⟩
  obtain ⟨a, ha, hproperty, hfaults⟩ := exists_of_mem_properties hp
  exact ⟨a, (h.attributes_between a ha).1, hproperty, List.Subset.trans hfaults (List.subset_append_right _ _)⟩

/-- An element without nodes that were read, which ends behind its opening tag. -/
theorem TakesTag.yields {t : StartTag} {r' r'' : Reader} (h : TakesTag source pos t r') {stop : Nat} {children : List Node}
    (hbelow : Siblings source t.stop children stop) (hstands : r''.Stands source stop) :
    Yields source pos (.element (t.element stop) children) r'' := by
  have hlt := h.start_lt
  have hle := hbelow.le
  refine ⟨.element (h.element_describes hle hstands.isPlace) hbelow, h.le_start, ?_, hstands⟩
  show t.start < stop
  omega

/-- The content of an element that holds no markup, up to the place where its closing tag is looked for. -/
theorem exists_append_rawLength (tag : String) (rest : List Char) :
    ∃ t more, rest = t ++ more ∧ rawLength tag rest = Text.size t := by
  unfold rawLength
  cases hfind : Text.find ('<' :: '/' :: Text.lower tag.toList) (Text.lower rest) with
  | none => exact ⟨rest, [], (List.append_nil rest).symm, rfl⟩
  | some k =>
    obtain ⟨before, more, hsplit, hsize, -⟩ := Text.exists_of_find_lower hfind
    exact ⟨before, more, hsplit, hsize.symm⟩

/-- The text of an element that holds no markup. -/
def rawText (t : StartTag) (r : Reader) : List Node :=
  if t.stop < t.stop + rawLength t.tag (r.rest t.stop) then
    [.text ⟨t.stop, t.stop + rawLength t.tag (r.rest t.stop)⟩
      (String.ofList (Text.between t.stop (t.stop + rawLength t.tag (r.rest t.stop)) r.source))]
  else []

theorem nodeHeads_rawText (t : StartTag) (r : Reader) : nodeHeads (rawText t r) = [] := by
  unfold rawText
  split <;> rfl

theorem rawText_siblings {t : StartTag} (h : r.Stands source t.stop) :
    Siblings source t.stop (rawText t r) (t.stop + rawLength t.tag (r.rest t.stop)) ∧
      Text.IsPlace source (t.stop + rawLength t.tag (r.rest t.stop)) := by
  obtain ⟨rest, hrest⟩ := h.isPlace
  obtain ⟨own, more, rfl, hlength⟩ := exists_append_rawLength t.tag rest
  unfold rawText
  rw [h.rest_eq hrest, hlength, h.source_eq, hrest.between_eq]
  refine ⟨?_, hrest.step.isPlace⟩
  split
  · refine .single (.text ⟨standsAt_ofList hrest.standsAt, ?_⟩) (Nat.le_refl _) (Nat.le_refl _)
    rw [String.toList_ofList]
  · exact .nil (Nat.le_add_right ..)

/-! ## Turns -/

/-- Whether nodes end here: at the end of the file, or at the closing tag of an element that is open. -/
def endsNodes (opened : List String) (r : Reader) : Bool :=
  r.kind == .eof || (r.kind == .angleSlash && opened.any (Tag.same · r.closingName))

/-- What one turn of reading nodes can do. Faults are kept, and elements are as they were read. -/
inductive Turn (source : List Char) (pos : Nat) (opened : List String) (r : Reader) : Prop
  | ends (h : endsNodes opened r = true) (eq : ∀ fuel, nodes (fuel + 1) opened r = ([], r))
  /-- A stray closing tag. -/
  | passes (r' : Reader) (pos' : Nat) (lt : pos < pos') (stands : r'.Stands source pos')
      (eq : ∀ fuel, nodes (fuel + 1) opened r = nodes fuel opened r') (keeps : r.errors ⊆ r'.errors)
  /-- A node whose children, if it has any, are no nodes that were read. -/
  | takes (n : Node) (r' : Reader) (yields : Yields source pos n r')
      (eq : ∀ fuel, nodes (fuel + 1) opened r = (n :: (nodes fuel opened r').1, (nodes fuel opened r').2))
      (keeps : r.errors ⊆ r'.errors) (read : ∀ e ∈ n.heads, e.IsRead source r'.errors)
  /-- An element, whose children are read from behind its opening tag. -/
  | enters (t : StartTag) (r' : Reader) (tag : TakesTag source pos t r')
      (eq : ∀ fuel, nodes (fuel + 1) opened r =
        let below := nodes fuel (t.tag :: opened) (t.behind r')
        let close := below.2.closingTag t.tag ⟨t.start, t.stop⟩
        let next := nodes fuel opened close.2
        (.element (t.element close.1) below.1 :: next.1, next.2))
      (keeps : r.errors ⊆ (t.behind r').errors)

/-- A turn at an opening tag. -/
theorem turn_of_atTagOpen (h : r.Stands source pos) (opened : List String) (ho : r.atTagOpen = true) : Turn source pos opened r := by
  have hk : r.kind = .angle := by
    rw [atTagOpen, Bool.and_eq_true, Bool.and_eq_true, beq_iff_eq] at ho
    exact ho.1.1
  have htag := takesTag h ho
  have hbehind := htag.behind
  have hkeeps : r.errors ⊆ (r.startTag.1.behind r.startTag.2).errors := List.Subset.trans r.errors_startTag (List.subset_append_left _ _)
  by_cases hempty : (r.startTag.1.selfClosing || !r.startTag.1.terminated || Tag.isVoid r.startTag.1.tag) = true
  · refine .takes _ _ (htag.yields (.nil (Nat.le_refl _)) hbehind) (fun fuel => ?_) hkeeps (by simpa using htag.isRead _)
    rw [nodes, hk]
    simp only [ho, hempty, if_true]
    rfl
  · by_cases hraw : Tag.isRaw r.startTag.1.tag = true
    · obtain ⟨hsiblings, hplace⟩ := rawText_siblings hbehind
      obtain ⟨hstands, hle⟩ := closingTag_stands (hbehind.sync hplace (Nat.le_add_right ..)) r.startTag.1.tag htag.fits
      have hclosing := errors_closingTag ((r.startTag.1.behind r.startTag.2).sync
        (r.startTag.1.stop + rawLength r.startTag.1.tag ((r.startTag.1.behind r.startTag.2).rest r.startTag.1.stop)))
        r.startTag.1.tag ⟨r.startTag.1.start, r.startTag.1.stop⟩
      rw [errors_sync] at hclosing
      have hread := fun stop => (htag.isRead stop).mono hclosing
      refine .takes _ _ (htag.yields (hsiblings.mono (Nat.le_refl _) hle) hstands) (fun fuel => ?_) (List.Subset.trans hkeeps hclosing)
        (by simpa [nodeHeads_rawText] using hread _)
      rw [nodes, hk]
      simp only [ho, hempty, hraw, if_true]
      rfl
    · refine .enters _ _ htag (fun fuel => ?_) hkeeps
      rw [nodes, hk]
      simp only [ho, hempty, hraw, if_true]
      rfl

/-- A reader always has a turn. -/
theorem Stands.turn (h : r.Stands source pos) (opened : List String) : Turn source pos opened r := by
  -- Where no tag opens, whatever stands here is a text.
  have htext : r.kind ≠ .eof → (r.atTagOpen = false → ∀ fuel, nodes (fuel + 1) opened r =
      (r.text.1 :: (nodes fuel opened r.text.2).1, (nodes fuel opened r.text.2).2)) → Turn source pos opened r := by
    intro hk heq
    cases ho : r.atTagOpen with
    | true => exact turn_of_atTagOpen h opened ho
    | false => exact .takes _ _ (yields_text h hk) (heq ho) r.errors_text (by simp [text, Node.heads])
  cases hk : r.kind with
  | eof => exact .ends (by rw [endsNodes, hk]; rfl) fun fuel => by rw [nodes, hk]
  | angleSlash =>
    by_cases hopen : opened.any (Tag.same · r.closingName) = true
    · refine .ends (by rw [endsNodes, hk, hopen]; rfl) fun fuel => ?_
      rw [nodes, hk]
      simp only [hopen, if_true]
    · obtain ⟨hstands, hstart, hstop⟩ := skipClosingTag_stands h hk
      have hle := h.le_start
      refine .passes _ r.skipClosingTag.1.stop (by omega)
        (hstands.errorAt (.strayClosingTag r.closingName) (skipClosingTag_fits h hk)) (fun fuel => ?_)
        (by simpa using r.skipClosingTag.2.errors_errorAt _ _)
      rw [nodes, hk]
      simp only [hopen]
      rfl
  | commentOpen =>
    exact .takes _ _ (yields_comment h hk) (fun fuel => by rw [nodes, hk]) r.errors_comment (by simp [Node.heads])
  | mustacheOpen =>
    exact .takes _ _ (yields_interpolation h hk) (fun fuel => by rw [nodes, hk]) r.errors_interpolation
      (by simp [heads_interpolation])
  | angle | close | slashClose | slash | equals | doubleQuote | singleQuote | mustacheClose | brace | newline | name =>
    refine htext (by rw [hk]; decide) fun ho fuel => ?_
    rw [nodes, hk]
    simp only [ho]
    rfl

/-! ## Runs -/

/-- The nodes that are read describe the source one behind another, and the reader stands behind them. -/
theorem nodes_describe (fuel : Nat) (opened : List String) (h : r.Stands source pos) :
    ∃ pos', (nodes fuel opened r).2.Stands source pos' ∧ Siblings source pos (nodes fuel opened r).1 pos' := by
  induction fuel generalizing r pos opened with
  | zero => exact ⟨pos, h, .nil (Nat.le_refl _)⟩
  | succ fuel ih =>
    cases h.turn opened with
    | ends _ heq =>
      rw [heq]
      exact ⟨pos, h, .nil (Nat.le_refl _)⟩
    | passes r' pos' hlt hstands heq =>
      obtain ⟨hi, hhi, hns⟩ := ih opened hstands
      rw [heq]
      exact ⟨hi, hhi, hns.mono hlt.le (Nat.le_refl _)⟩
    | takes n r' hyields heq =>
      obtain ⟨hi, hhi, hns⟩ := ih opened hyields.stands
      rw [heq]
      exact ⟨hi, hhi, .cons hyields.le_start hyields.describes hns⟩
    | enters t r' htag heq =>
      rw [heq]
      obtain ⟨mid, hmid, hbelow⟩ := ih (t.tag :: opened) htag.behind
      obtain ⟨hclose, hle⟩ := closingTag_stands hmid t.tag htag.fits
      obtain ⟨hi, hhi, hns⟩ := ih opened hclose
      have hyields := htag.yields (hbelow.mono (Nat.le_refl _) hle) hclose
      exact ⟨hi, hhi, .cons hyields.le_start hyields.describes hns⟩

/-- Faults are kept, and the elements of the nodes are as they were read. -/
theorem nodes_read (fuel : Nat) (opened : List String) (h : r.Stands source pos) :
    r.errors ⊆ (nodes fuel opened r).2.errors ∧
      ∀ e ∈ nodeHeads (nodes fuel opened r).1, e.IsRead source (nodes fuel opened r).2.errors := by
  induction fuel generalizing r pos opened with
  | zero => exact ⟨List.Subset.refl _, by simp [nodes]⟩
  | succ fuel ih =>
    cases h.turn opened with
    | ends _ heq =>
      rw [heq]
      exact ⟨List.Subset.refl _, by simp⟩
    | passes r' pos' hlt hstands heq hkeeps =>
      obtain ⟨hnext, hread⟩ := ih opened hstands
      rw [heq]
      exact ⟨List.Subset.trans hkeeps hnext, hread⟩
    | takes n r' hyields heq hkeeps hn =>
      obtain ⟨hnext, hread⟩ := ih opened hyields.stands
      rw [heq]
      refine ⟨List.Subset.trans hkeeps hnext, fun e he => ?_⟩
      rcases List.mem_append.1 he with he | he
      · exact (hn e he).mono hnext
      · exact hread e he
    | enters t r' htag heq hkeeps =>
      rw [heq]
      obtain ⟨hbelow, hread⟩ := ih (t.tag :: opened) htag.behind
      obtain ⟨mid, hmid, -⟩ := nodes_describe fuel (t.tag :: opened) htag.behind
      obtain ⟨hclose, -⟩ := closingTag_stands hmid t.tag htag.fits
      obtain ⟨hnext, hread'⟩ := ih opened hclose
      have hclosing := List.Subset.trans (errors_closingTag (nodes fuel (t.tag :: opened) (t.behind r')).2 t.tag ⟨t.start, t.stop⟩) hnext
      refine ⟨List.Subset.trans hkeeps (List.Subset.trans hbelow hclosing), fun e he => ?_⟩
      rcases List.mem_append.1 he with he | he
      · rcases List.mem_cons.1 he with rfl | he
        · exact (htag.isRead _).mono (List.Subset.trans hbelow hclosing)
        · exact (hread e he).mono hclosing
      · exact hread' e he

/-- With a bound that is more than the bytes that are left, nodes are read to their end. -/
theorem endsNodes_nodes {fuel : Nat} (opened : List String) (h : r.Stands source pos) (hfuel : Text.size source < pos + fuel) :
    endsNodes opened (nodes fuel opened r).2 = true := by
  induction fuel generalizing r pos with
  | zero =>
    have := h.isPlace.le_size
    omega
  | succ fuel ih =>
    cases h.turn opened with
    | ends hends heq =>
      rw [heq]
      exact hends
    | passes r' pos' hlt hstands heq =>
      rw [heq]
      exact ih hstands (by omega)
    | takes n r' hyields heq =>
      have hlt := hyields.lt
      rw [heq]
      exact ih hyields.stands (by omega)
    | enters t r' htag heq =>
      rw [heq]
      obtain ⟨mid, hmid, hbelow⟩ := nodes_describe fuel (t.tag :: opened) htag.behind
      obtain ⟨hclose, hle⟩ := closingTag_stands hmid t.tag htag.fits
      have hlt := htag.start_lt
      have hstart := htag.le_start
      have hmidle := hbelow.le
      exact ih hclose (by omega)

/-- A bound that is more than the bytes that are left does not matter. -/
theorem nodes_enough {fuel fuel' : Nat} (opened : List String) (h : r.Stands source pos) (hfuel : Text.size source < pos + fuel)
    (hfuel' : Text.size source < pos + fuel') : nodes fuel opened r = nodes fuel' opened r := by
  have hplace := h.isPlace.le_size
  induction fuel generalizing r pos opened fuel' with
  | zero => omega
  | succ fuel ih =>
    obtain ⟨fuel', rfl⟩ : ∃ k, fuel' = k + 1 := ⟨fuel' - 1, by omega⟩
    cases h.turn opened with
    | ends _ heq => rw [heq, heq]
    | passes r' pos' hlt hstands heq =>
      have hsame := ih opened hstands (by omega) (by omega : Text.size source < pos' + fuel') hstands.isPlace.le_size
      rw [heq, heq, hsame]
    | takes n r' hyields heq =>
      have hlt := hyields.lt
      have hsame := ih opened hyields.stands (by omega) (by omega : Text.size source < n.span.stop + fuel') hyields.stands.isPlace.le_size
      rw [heq, heq, hsame]
    | enters t r' htag heq =>
      have hlt := htag.start_lt
      have hstart := htag.le_start
      have hbehind := htag.behind
      have hbelow := ih (t.tag :: opened) hbehind (by omega) (by omega : Text.size source < t.stop + fuel') hbehind.isPlace.le_size
      obtain ⟨mid, hmid, hsiblings⟩ := nodes_describe fuel' (t.tag :: opened) hbehind
      obtain ⟨hclose, hle⟩ := closingTag_stands hmid t.tag htag.fits
      have hmidle := hsiblings.le
      have hnext := ih opened hclose (by omega) (by omega : Text.size source < _ + fuel') hclose.isPlace.le_size
      rw [heq, heq]
      dsimp only
      rw [hbelow, hnext]

end Reader

end Markup

end TypedSfc
