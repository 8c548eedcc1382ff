import Mathlib.Data.List.TakeWhile
import TypedSfc.LineIndex
import TypedSfc.Proofs.Text.Places

/-!
# Lines and columns stand for positions

The starts of the lines grow, from the start of the text up to its end at most, so every position lies on one line: the last that starts
no later. Positions of one line are told apart by their columns, in bytes always and in UTF-16 units where characters start; so a line
and a column lead back to the position they were made of.
-/

namespace TypedSfc

/-! ## UTF-16 units -/

namespace Text

@[simp] theorem units_nil : units [] = 0 := rfl

theorem units_cons (c : Char) (cs : List Char) : units (c :: cs) = units [c] + units cs := by simp [units]

theorem units_append (as bs : List Char) : units (as ++ bs) = units as + units bs := by
  induction as with
  | nil => simp
  | cons a as ih => rw [List.cons_append, units_cons, units_cons a as, ih, Nat.add_assoc]

/-- A character takes a unit at least. -/
theorem units_pos {cs : List Char} (h : cs ≠ []) : 0 < units cs := by
  obtain ⟨c, cs, rfl⟩ := List.exists_cons_of_ne_nil h
  rw [units]
  split <;> omega

/-- Of two places behind a third, the later has more units between. -/
theorem units_between_lt {cs : List Char} {start n n' : Nat} (hstart : IsPlace cs start) (hn : IsPlace cs n) (hn' : IsPlace cs n')
    (hle : start ≤ n) (hlt : n < n') : units (between start n cs) < units (between start n' cs) := by
  obtain ⟨rest, hrest⟩ := hstart
  obtain ⟨rest', hrest'⟩ := hn
  obtain ⟨rest'', hrest''⟩ := hn'
  obtain ⟨as, rfl, rfl⟩ := hrest.split hrest' hle
  obtain ⟨bs, rfl, rfl⟩ := hrest'.split hrest'' (Nat.le_of_lt hlt)
  have hbs : bs ≠ [] := by
    rintro rfl
    simp at hlt
  have hlong : between start (start + size as + size bs) cs = as ++ bs := by
    rw [← List.append_assoc] at hrest
    rw [Nat.add_assoc, ← size_append]
    exact hrest.between_eq
  have hpos := units_pos hbs
  rw [hrest.between_eq, hlong, units_append]
  omega

end Text

/-- A position comes before another: on an earlier line, or on the same line in an earlier column. -/
def LineCol.Precedes (p q : LineCol) : Prop := p.line < q.line ∨ (p.line = q.line ∧ p.col < q.col)

namespace LineIndex

/-! ## Where lines start -/

/-- Lines start right behind the line feeds. -/
theorem mem_startsAfter_iff {pos n : Nat} {cs : List Char} :
    n ∈ startsAfter pos cs ↔ ∃ before more, cs = before ++ '\n' :: more ∧ n = pos + Text.size before + 1 := by
  induction cs generalizing pos with
  | nil => simp [startsAfter]
  | cons c cs ih =>
    -- A line feed further on is as far behind the next character.
    have hpass : n ∈ startsAfter (pos + c.utf8Size) cs ↔
        ∃ before more, cs = before ++ '\n' :: more ∧ n = pos + Text.size (c :: before) + 1 := by
      rw [ih]
      simp only [Text.size_cons, Nat.add_assoc]
    have hsplit : (∃ before more, c :: cs = before ++ '\n' :: more ∧ n = pos + Text.size before + 1) ↔
        (c = '\n' ∧ n = pos + 1) ∨ ∃ before more, cs = before ++ '\n' :: more ∧ n = pos + Text.size (c :: before) + 1 := by
      constructor
      · rintro ⟨before, more, hcs, hn⟩
        cases before with
        | nil => exact .inl ⟨(List.cons.inj hcs).1, hn⟩
        | cons d before =>
          obtain ⟨rfl, hrest⟩ := List.cons.inj hcs
          exact .inr ⟨before, more, hrest, hn⟩
      · rintro (⟨rfl, hn⟩ | ⟨before, more, rfl, hn⟩)
        · exact ⟨[], cs, rfl, hn⟩
        · exact ⟨c :: before, more, rfl, hn⟩
    rw [hsplit, startsAfter]
    split
    · rename_i hc
      obtain rfl := eq_of_beq hc
      rw [List.mem_cons, hpass]
      exact or_congr_left (and_iff_right rfl).symm
    · rename_i hc
      rw [hpass]
      simp [show c ≠ '\n' from fun h => hc (beq_iff_eq.2 h)]

/-- The starts of the lines grow. -/
theorem pairwise_startsAfter (pos : Nat) (cs : List Char) : (pos :: startsAfter pos cs).Pairwise (· < ·) := by
  induction cs generalizing pos with
  | nil => simp [startsAfter]
  | cons c cs ih =>
    have hc := c.utf8Size_pos
    obtain ⟨hlt, hpairwise⟩ := List.pairwise_cons.1 (ih (pos + c.utf8Size))
    rw [startsAfter]
    split
    · refine List.pairwise_cons.2 ⟨fun n hn => ?_, ih _⟩
      rcases List.mem_cons.1 hn with rfl | hn
      · omega
      · have := hlt n hn
        omega
    · refine List.pairwise_cons.2 ⟨fun n hn => ?_, hpairwise⟩
      have := hlt n hn
      omega

variable {text : String} {line start stop : Nat}

/-- A line starts at the start of the text or behind a line feed. -/
theorem exists_lineStart_iff {n : Nat} :
    (∃ line, (ofText text).lineStart line = some n) ↔ n = 0 ∨ ∃ m, n = m + 1 ∧ Text.StandsAt text.toList m ['\n'] := by
  have hmem : (∃ line, (ofText text).lineStart line = some n) ↔ n ∈ 0 :: startsAfter 0 text.toList := List.mem_iff_getElem?.symm
  rw [hmem, List.mem_cons, mem_startsAfter_iff]
  refine or_congr Iff.rfl ⟨?_, ?_⟩
  · rintro ⟨before, more, htext, hn⟩
    exact ⟨Text.size before, by omega, more, before, htext, rfl⟩
  · rintro ⟨m, hn, more, before, htext, rfl⟩
    exact ⟨before, more, htext, by omega⟩

/-- A line starts at a place of the text. -/
theorem isPlace_lineStart (h : (ofText text).lineStart line = some start) : Text.IsPlace text.toList start := by
  rcases exists_lineStart_iff.1 ⟨line, h⟩ with rfl | ⟨m, rfl, hfeed⟩
  · exact Text.isPlace_zero _
  · exact hfeed.isPlace_stop

/-- A line ends before the line feed behind it, or with the text. -/
theorem lineEnd_eq (h : (ofText text).lineEnd line = some stop) :
    (ofText text).lineStart (line + 1) = some (stop + 1) ∨
      ((ofText text).lineStart (line + 1) = none ∧ stop = Text.size text.toList) := by
  unfold lineEnd at h
  split at h
  · obtain rfl := Option.some.inj h
    split
    · rename_i next hnext
      have hnext' : (ofText text).lineStart (line + 1) = some next := hnext
      left
      rcases exists_lineStart_iff.1 ⟨line + 1, hnext'⟩ with rfl | ⟨m, rfl, -⟩
      · -- The first line alone starts at the start of the text.
        have hpairwise := pairwise_startsAfter 0 text.toList
        have hmem : 0 ∈ startsAfter 0 text.toList := List.mem_of_getElem? hnext'
        exact absurd ((List.pairwise_cons.1 hpairwise).1 0 hmem) (Nat.lt_irrefl 0)
      · exact hnext'
    · rename_i hnext
      exact .inr ⟨hnext, rfl⟩
  · cases h

/-- A line ends at a place of the text. -/
theorem isPlace_lineEnd (h : (ofText text).lineEnd line = some stop) : Text.IsPlace text.toList stop := by
  rcases lineEnd_eq h with hnext | ⟨-, rfl⟩
  · rcases exists_lineStart_iff.1 ⟨line + 1, hnext⟩ with hzero | ⟨m, hm, hfeed⟩
    · exact absurd hzero (Nat.succ_ne_zero stop)
    · obtain rfl := Nat.succ.inj hm
      exact hfeed.isPlace
  · exact Text.isPlace_size _

/-- Every line that starts ends, no earlier. -/
theorem exists_lineEnd (h : (ofText text).lineStart line = some start) :
    ∃ stop, (ofText text).lineEnd line = some stop ∧ start ≤ stop := by
  obtain ⟨hlt, hstart⟩ := List.getElem?_eq_some_iff.1 h
  have hstop : (ofText text).lineEnd line = some _ := if_pos hlt
  refine ⟨_, hstop, ?_⟩
  rcases lineEnd_eq hstop with hnext | ⟨-, hsize⟩
  · obtain ⟨hlt', hnext⟩ := List.getElem?_eq_some_iff.1 hnext
    have hgrows := List.pairwise_iff_getElem.1 (pairwise_startsAfter 0 text.toList) line (line + 1) hlt hlt' (Nat.lt_succ_self line)
    change (ofText text).starts[line] < (ofText text).starts[line + 1] at hgrows
    rw [hstart, hnext] at hgrows
    exact Nat.le_of_lt_succ hgrows
  · rw [hsize]
    exact (isPlace_lineStart h).le_size

/-! ## The line of a position -/

/-- The last of the first elements with a property, when the very first has it. -/
theorem exists_getElem?_takeWhile {p : Nat → Bool} (a : Nat) (as : List Nat) (ha : p a = true) :
    ∃ x, (a :: as)[(as.takeWhile p).length]? = some x ∧ p x = true ∧
      ∀ y, (a :: as)[(as.takeWhile p).length + 1]? = some y → p y = false := by
  induction as generalizing a with
  | nil => exact ⟨a, rfl, ha, by simp⟩
  | cons b as ih =>
    cases hb : p b with
    | true =>
      rw [List.takeWhile_cons_of_pos hb]
      exact ih b hb
    | false =>
      rw [List.takeWhile_cons_of_neg (by rw [hb]; exact Bool.false_ne_true)]
      refine ⟨a, rfl, ha, fun y hy => ?_⟩
      obtain rfl := Option.some.inj hy
      exact hb

theorem lineOf_ofText (text : String) (o : Nat) :
    (ofText text).lineOf o = ((startsAfter 0 text.toList).takeWhile (· ≤ o)).length := by
  unfold lineOf ofText
  rw [List.takeWhile_cons_of_pos (by simp), List.length_cons, Nat.add_sub_cancel]

/-- The line of a position starts no later, and the next line starts behind it. -/
theorem exists_lineStart_lineOf (text : String) (o : Nat) :
    ∃ start, (ofText text).lineStart ((ofText text).lineOf o) = some start ∧ start ≤ o ∧
      ∀ next, (ofText text).lineStart ((ofText text).lineOf o + 1) = some next → o < next := by
  obtain ⟨start, hstart, hle, hnext⟩ :=
    exists_getElem?_takeWhile (p := (· ≤ o)) 0 (startsAfter 0 text.toList) (by simp)
  rw [lineOf_ofText]
  refine ⟨start, hstart, of_decide_eq_true hle, fun next h => ?_⟩
  exact Nat.lt_of_not_le (of_decide_eq_false (hnext next h))

/-- Of two positions, the later is on the same line or on a later one. -/
theorem lineOf_mono (text : String) {o o' : Nat} (hle : o ≤ o') : (ofText text).lineOf o ≤ (ofText text).lineOf o' := by
  have hboth : (startsAfter 0 text.toList).takeWhile (· ≤ o) =
      ((startsAfter 0 text.toList).takeWhile (· ≤ o')).takeWhile (· ≤ o) := by
    rw [List.takeWhile_takeWhile]
    congr 1
    funext n
    have hboth : n ≤ o ↔ n ≤ o ∧ n ≤ o' := ⟨fun h => ⟨h, le_trans h hle⟩, And.left⟩
    simpa using hboth
  rw [lineOf_ofText, lineOf_ofText, hboth]
  exact (List.takeWhile_prefix _).length_le

/-! ## The position of a line and a column -/

theorem lineCol_eq_none_iff {o : Nat} : (ofText text).lineCol o = none ↔ Text.size text.toList < o := by
  obtain ⟨start, hstart, -⟩ := exists_lineStart_lineOf text o
  have hsize : (ofText text).size = Text.size text.toList := rfl
  unfold lineCol
  dsimp only
  rw [hstart, hsize]
  split
  · rename_i hle
    simpa using hle
  · rename_i hlt
    simpa using hlt

/-- The line and the column of a position of the text. -/
theorem lineCol_eq {o : Nat} {p : LineCol} (h : (ofText text).lineCol o = some p) :
    o ≤ Text.size text.toList ∧ p.line = (ofText text).lineOf o ∧
      ∃ start, (ofText text).lineStart p.line = some start ∧ start ≤ o ∧ p.col = o - start := by
  obtain ⟨start, hstart, hle, -⟩ := exists_lineStart_lineOf text o
  unfold lineCol at h
  split at h
  · rename_i hsize
    dsimp only at h
    rw [hstart] at h
    obtain rfl := Option.some.inj h
    exact ⟨hsize, rfl, start, hstart, hle, rfl⟩
  · cases h

/-- A position lies on its line, up to the end of the line. -/
theorem exists_line_of_lineCol {o : Nat} {p : LineCol} (h : (ofText text).lineCol o = some p) :
    ∃ start stop, (ofText text).lineStart p.line = some start ∧ (ofText text).lineEnd p.line = some stop ∧ start ≤ o ∧ o ≤ stop := by
  obtain ⟨hsize, hline, start, hstart, hle, -⟩ := lineCol_eq h
  obtain ⟨stop, hstop, -⟩ := exists_lineEnd hstart
  refine ⟨start, stop, hstart, hstop, hle, ?_⟩
  rcases lineEnd_eq hstop with hnext | ⟨-, rfl⟩
  · obtain ⟨-, -, -, hbefore⟩ := exists_lineStart_lineOf text o
    rw [hline] at hnext
    exact Nat.le_of_lt_succ (hbefore _ hnext)
  · exact hsize

theorem offset_lineCol {o : Nat} {p : LineCol} (h : (ofText text).lineCol o = some p) : (ofText text).offset p = some o := by
  obtain ⟨hsize, -, start, hstart, hle, hcol⟩ := lineCol_eq h
  have hback : start + p.col = o := by omega
  unfold offset
  rw [hstart, Option.bind_some, hback]
  exact if_pos hsize

/-- Of two positions, the earlier has the line and the column that come before. -/
theorem precedes_lineCol {o o' : Nat} {p p' : LineCol} (hlt : o < o') (h : (ofText text).lineCol o = some p)
    (h' : (ofText text).lineCol o' = some p') : p.Precedes p' := by
  obtain ⟨-, hline, start, hstart, hle, hcol⟩ := lineCol_eq h
  obtain ⟨-, hline', start', hstart', hle', hcol'⟩ := lineCol_eq h'
  have hmono := lineOf_mono text (Nat.le_of_lt hlt)
  rw [← hline, ← hline'] at hmono
  rcases Nat.lt_or_eq_of_le hmono with hbefore | hsame
  · exact .inl hbefore
  · rw [← hsame, hstart] at hstart'
    obtain rfl := Option.some.inj hstart'
    exact .inr ⟨hsame, by omega⟩

/-! ## The position of a line and a UTF-16 column -/

/-- The first place of a text between `start` and `stop` that has so many UTF-16 units before it, from `start` on, or `stop` when
there is none. -/
structure IsFirstPlace (text : List Char) (start stop units pos : Nat) : Prop where
  isPlace : Text.IsPlace text pos
  start_le : start ≤ pos
  le_stop : pos ≤ stop
  units_lt : ∀ n, Text.IsPlace text n → start ≤ n → n < pos → Text.units (Text.between start n text) < units
  le_units : pos < stop → units ≤ Text.units (Text.between start pos text)

/-- Seeking ends behind the shortest beginning of a text that has so many units, or behind all of the text. -/
theorem exists_seekUnits (pos units : Nat) (cs : List Char) :
    ∃ before more, cs = before ++ more ∧ seekUnits pos units cs = pos + Text.size before ∧
      (∀ mid back, before = mid ++ back → back ≠ [] → Text.units mid < units) ∧ (more ≠ [] → units ≤ Text.units before) := by
  fun_induction seekUnits pos units cs with
  | case1 pos units => exact ⟨[], [], rfl, rfl, by simp, by simp⟩
  | case2 pos c cs => exact ⟨[], c :: cs, rfl, rfl, by simp, by simp⟩
  | case3 pos units c cs hne ih =>
    obtain ⟨before, more, rfl, hseek, hlt, hle⟩ := ih
    refine ⟨c :: before, more, rfl, ?_, ?_, ?_⟩
    · rw [hseek, Text.size_cons, Nat.add_assoc]
    · intro mid back hmid hback
      cases mid with
      | nil => exact Nat.pos_of_ne_zero hne
      | cons d mid =>
        obtain ⟨rfl, rfl⟩ := List.cons.inj hmid
        have := hlt mid back rfl hback
        rw [Text.units_cons]
        omega
    · intro hmore
      have := hle hmore
      rw [Text.units_cons]
      omega

/-- A UTF-16 column of a line leads to the first place of the line with so many units before it. -/
theorem exists_offsetUnits (units : Nat) (hstart : (ofText text).lineStart line = some start)
    (hstop : (ofText text).lineEnd line = some stop) :
    ∃ pos, (ofText text).offsetUnits ⟨line, units⟩ = some pos ∧ IsFirstPlace text.toList start stop units pos := by
  obtain ⟨rest, hrest⟩ := isPlace_lineStart hstart
  obtain ⟨behind, hbehind⟩ := isPlace_lineEnd hstop
  obtain ⟨stop', hstop', hle⟩ := exists_lineEnd hstart
  rw [hstop] at hstop'
  obtain rfl := Option.some.inj hstop'
  obtain ⟨own, rfl, rfl⟩ := hrest.split hbehind hle
  obtain ⟨before, more, rfl, hseek, hlt, hle'⟩ := exists_seekUnits start units own
  refine ⟨start + Text.size before, ?_, ?_, Nat.le_add_right .., ?_, ?_, ?_⟩
  · have htext : (ofText text).text = text.toList := rfl
    unfold offsetUnits
    rw [hstart, Option.bind_some, hstop, Option.map_some, htext, hrest.between_eq, hseek]
  · rw [List.append_assoc] at hrest
    exact hrest.step.isPlace
  · rw [Text.size_append]
    omega
  · intro n hn hstart' hn'
    obtain ⟨rest', hrest'⟩ := hn
    obtain ⟨mid, hmid, rfl⟩ := hrest.split hrest' hstart'
    have hsizes : Text.size mid ≤ Text.size before := by omega
    rw [List.append_assoc] at hmid
    obtain ⟨back, rfl, -⟩ := Text.exists_append_of_size_le hmid hsizes
    rw [List.append_assoc, List.append_assoc] at hrest
    rw [hrest.between_eq]
    refine hlt mid back rfl ?_
    rintro rfl
    simp at hn'
  · intro hshort
    rw [List.append_assoc] at hrest
    rw [hrest.between_eq]
    refine hle' ?_
    rintro rfl
    simp at hshort

/-- A place with so many units before it is the first one, since every character takes some. -/
theorem IsFirstPlace.eq {text : List Char} {units pos o : Nat} (h : IsFirstPlace text start stop units pos)
    (hstart : Text.IsPlace text start) (ho : Text.IsPlace text o) (hlo : start ≤ o) (hhi : o ≤ stop)
    (hunits : Text.units (Text.between start o text) = units) : pos = o := by
  rcases Nat.lt_trichotomy pos o with hlt | heq | hgt
  · have hmore := Text.units_between_lt hstart h.isPlace ho h.start_le hlt
    have := h.le_units (Nat.lt_of_lt_of_le hlt hhi)
    omega
  · exact heq
  · have := h.units_lt o ho hlo hgt
    omega

/-- A place has the line of its position and so many UTF-16 units before it on the line, and they lead back to it. -/
theorem exists_lineColUnits {o : Nat} (ho : Text.IsPlace text.toList o) :
    ∃ p start, (ofText text).lineColUnits o = some p ∧ (ofText text).lineStart p.line = some start ∧
      p.col = Text.units (Text.between start o text.toList) ∧ (ofText text).offsetUnits p = some o := by
  cases hcol : (ofText text).lineCol o with
  | none => exact absurd (lineCol_eq_none_iff.1 hcol) (Nat.not_lt.2 ho.le_size)
  | some p =>
    obtain ⟨-, -, start, hstart, hle, hp⟩ := lineCol_eq hcol
    obtain ⟨start', stop, hstart', hstop, -, hhi⟩ := exists_line_of_lineCol hcol
    have hplace := isPlace_lineStart hstart
    have hback : o - p.col = start := by omega
    obtain ⟨before, hreads⟩ := (⟨hplace, ho, hle⟩ : (⟨start, o⟩ : Span).Fits text.toList).exists_reads
    have hslice : Text.slice start o text.toList = some before := hreads.slice_eq
    have hbetween : Text.between start o text.toList = before := hreads.between_eq
    have htext : (ofText text).text = text.toList := rfl
    obtain ⟨pos, hpos, hfirst⟩ := exists_offsetUnits (Text.units before) hstart hstop
    refine ⟨⟨p.line, Text.units before⟩, start, ?_, hstart, by rw [hbetween], ?_⟩
    · unfold lineColUnits
      rw [hcol, Option.bind_some, hback, htext, hslice, Option.map_some]
    · rw [hpos, hfirst.eq hplace ho hle hhi (by rw [hbetween])]

/-- Lines and columns of a text are another way to write its positions. A line starts at the start of the text and behind each line feed.
Every position up to the end of the text, and no other, has a line, on which it lies, and a column; they lead back to it, and come
before those of a later position. A place leads back from its UTF-16 column too, and each UTF-16 column of a line leads to the first
place of the line that has so many units before it, or to the end of the line. -/
theorem converts_back (text : String) :
    (∀ n, (∃ line, (ofText text).lineStart line = some n) ↔ n = 0 ∨ ∃ m, n = m + 1 ∧ Text.StandsAt text.toList m ['\n']) ∧
    (∀ o, (ofText text).lineCol o = none ↔ Text.size text.toList < o) ∧
    (∀ o p, (ofText text).lineCol o = some p →
      (∃ start stop, (ofText text).lineStart p.line = some start ∧ (ofText text).lineEnd p.line = some stop ∧ start ≤ o ∧ o ≤ stop) ∧
        (ofText text).offset p = some o) ∧
    (∀ o o' p p', o < o' → (ofText text).lineCol o = some p → (ofText text).lineCol o' = some p' → p.Precedes p') ∧
    (∀ o, Text.IsPlace text.toList o →
      ∃ p start, (ofText text).lineColUnits o = some p ∧ (ofText text).lineStart p.line = some start ∧
        p.col = Text.units (Text.between start o text.toList) ∧ (ofText text).offsetUnits p = some o) ∧
    ∀ line units, line < (ofText text).lineCount →
      ∃ start stop pos, (ofText text).lineStart line = some start ∧ (ofText text).lineEnd line = some stop ∧
        (ofText text).offsetUnits ⟨line, units⟩ = some pos ∧ IsFirstPlace text.toList start stop units pos := by
  refine ⟨fun n => exists_lineStart_iff, fun o => lineCol_eq_none_iff, fun o p h => ⟨exists_line_of_lineCol h, offset_lineCol h⟩,
    fun o o' p p' => precedes_lineCol, fun o => exists_lineColUnits, fun line units hline => ?_⟩
  have hstart : (ofText text).lineStart line = some _ := List.getElem?_eq_getElem hline
  obtain ⟨stop, hstop, -⟩ := exists_lineEnd hstart
  obtain ⟨pos, hpos, hfirst⟩ := exists_offsetUnits units hstart hstop
  exact ⟨_, stop, pos, hstart, hstop, hpos, hfirst⟩

/-- Behind a character of four bytes and two units, and on the line behind the line feed after it. -/
theorem converts_back_emoji :
    (ofText "😀\nb").lineCol 4 = some ⟨0, 4⟩ ∧ (ofText "😀\nb").lineCol 6 = some ⟨1, 1⟩ ∧
      (ofText "😀\nb").offset ⟨0, 4⟩ = some 4 ∧ (⟨0, 4⟩ : LineCol).Precedes ⟨1, 1⟩ ∧
      (∃ p start, (ofText "😀\nb").lineColUnits 4 = some p ∧ (ofText "😀\nb").lineStart p.line = some start ∧
        p.col = Text.units (Text.between start 4 "😀\nb".toList) ∧ (ofText "😀\nb").offsetUnits p = some 4) ∧
      ∃ start stop pos, (ofText "😀\nb").lineStart 0 = some start ∧ (ofText "😀\nb").lineEnd 0 = some stop ∧
        (ofText "😀\nb").offsetUnits ⟨0, 1⟩ = some pos ∧ IsFirstPlace "😀\nb".toList start stop 1 pos := by
  obtain ⟨-, -, hback, horder, hunits, hfirst⟩ := converts_back "😀\nb"
  have h : (ofText "😀\nb").lineCol 4 = some ⟨0, 4⟩ := by decide
  have h' : (ofText "😀\nb").lineCol 6 = some ⟨1, 1⟩ := by decide
  exact ⟨h, h', (hback 4 _ h).2, horder 4 6 _ _ (by decide) h h', hunits 4 (by decide), hfirst 0 1 (by decide)⟩

end LineIndex

end TypedSfc
