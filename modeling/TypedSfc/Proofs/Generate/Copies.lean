import TypedSfc.Generate.Script
import TypedSfc.Proofs.Generate.Cuts

/-!
# Scripts are copied through

A script is copied in sections: between the edits that are made in it, or around the value that it exports. Into whatever sections it
falls, each character that no edit replaces is written once, in the order of the script, and mapped at its own offset.
-/

namespace TypedSfc

/-- The text at a span of a block is what the span reads. -/
theorem Block.textAt_of_reads {b : Block} {s : Span} {t : List Char} (h : s.Reads b.content.toList t) : b.textAt s = String.ofList t := by
  rw [Block.textAt, Span.slice, h.slice_eq]
  rfl

namespace Generate

/-! ## Edits -/

namespace Edit

/-- The pieces of the edits that start at byte `n`, in the order in which the edits are stated. -/
def startingAt (es : List Edit) (n : Nat) : List Piece := (es.filter (·.span.start = n)).flatMap (·.pieces)

/-- Whether an edit replaces the character at byte `n`. -/
def replaces (es : List Edit) (n : Nat) : Bool := es.any (·.span.contains n)

/-- The characters of a text that starts at byte `n`, those that are kept as `copy` writes them, each behind what is put at its place. -/
def weave (copy : Nat × Char → Piece) (put : Nat → List Piece) (keep : Nat → Bool) (n : Nat) : List Char → List Piece
  | [] => put n
  | c :: cs => put n ++ (if keep n then [copy (n, c)] else []) ++ weave copy put keep (n + c.utf8Size) cs

/-- A text that starts at byte `n`, with edits made in it: at each place the pieces of the edits that start there, then the character
as it stands, unless an edit replaces it. -/
def rewritten (copy : Nat × Char → Piece) (es : List Edit) (n : Nat) (cs : List Char) : List Piece :=
  weave copy (startingAt es) (fun n => !replaces es n) n cs

variable {copy : Nat × Char → Piece}

theorem weave_congr {put put' : Nat → List Piece} {keep keep' : Nat → Bool} {n : Nat} {cs : List Char}
    (hput : ∀ k, n ≤ k → put k = put' k) (hkeep : ∀ k, n ≤ k → keep k = keep' k) :
    weave copy put keep n cs = weave copy put' keep' n cs := by
  induction cs generalizing n with
  | nil => exact hput n (Nat.le_refl n)
  | cons c cs ih =>
    have hle : ∀ k, n + c.utf8Size ≤ k → n ≤ k := fun k => Nat.le_trans (Nat.le_add_right ..)
    rw [weave, weave, hput n (Nat.le_refl n), hkeep n (Nat.le_refl n),
      ih (fun k hk => hput k (hle k hk)) (fun k hk => hkeep k (hle k hk))]

/-- Where nothing is put, the characters that are kept follow each other. -/
theorem weave_append {put : Nat → List Piece} {keep : Nat → Bool} {n : Nat} {as : List Char} (bs : List Char)
    (hput : ∀ k, n ≤ k → k < n + Text.size as → put k = []) :
    weave copy put keep n (as ++ bs) =
      ((Text.placed n as).filter (fun x => keep x.1)).map copy ++ weave copy put keep (n + Text.size as) bs := by
  induction as generalizing n with
  | nil => rfl
  | cons a as ih =>
    have ha := a.utf8Size_pos
    have hsize : n + Text.size (a :: as) = n + a.utf8Size + Text.size as := by rw [Text.size_cons, Nat.add_assoc]
    rw [List.cons_append, weave, hput n (Nat.le_refl n) (by omega), ih (fun k hk hlt => hput k (by omega) (by omega)), hsize,
      Text.placed_cons, List.filter_cons]
    split <;> simp

/-- Sorting edits by their starts keeps the order of those that start at one place. -/
theorem startingAt_mergeSort (es : List Edit) :
    startingAt (es.mergeSort fun a b => decide (a.span.start ≤ b.span.start)) = startingAt es := by
  funext n
  have htrans : ∀ a b c : Edit, decide (a.span.start ≤ b.span.start) = true → decide (b.span.start ≤ c.span.start) = true →
      decide (a.span.start ≤ c.span.start) = true := by
    simp only [decide_eq_true_eq]
    exact fun _ _ _ => Nat.le_trans
  have htotal : ∀ a b : Edit, (decide (a.span.start ≤ b.span.start) || decide (b.span.start ≤ a.span.start)) = true := by
    intro a b
    simpa using Nat.le_total a.span.start b.span.start
  have hties : (es.filter (·.span.start = n)).Pairwise fun a b => decide (a.span.start ≤ b.span.start) = true := by
    refine List.pairwise_of_forall_mem_list fun a ha b hb => ?_
    have ha := of_decide_eq_true (List.mem_filter.1 ha).2
    have hb := of_decide_eq_true (List.mem_filter.1 hb).2
    exact decide_eq_true (by omega)
  have hsub := (List.sublist_mergeSort htrans htotal hties List.filter_sublist).filter (·.span.start = n)
  rw [List.filter_filter] at hsub
  simp only [Bool.and_self] at hsub
  have hlength := ((List.mergeSort_perm es fun a b => decide (a.span.start ≤ b.span.start)).filter (·.span.start = n)).length_eq
  exact congrArg (List.flatMap Edit.pieces) (hsub.eq_of_length hlength.symm).symm

theorem replaces_mergeSort (es : List Edit) :
    replaces (es.mergeSort fun a b => decide (a.span.start ≤ b.span.start)) = replaces es := by
  funext n
  exact (List.mergeSort_perm es _).any_eq

/-- The first of several edits puts its pieces first where it starts, and what it replaces is passed over from there on. -/
theorem weave_cons {e : Edit} {es : List Edit} {pos : Nat} (cs : List Char) :
    weave copy (startingAt (e :: es)) (fun k => decide (pos ≤ k) && !replaces (e :: es) k) e.span.start cs =
      e.pieces ++ weave copy (startingAt es) (fun k => decide (max pos e.span.stop ≤ k) && !replaces es k) e.span.start cs := by
  have hfirst : startingAt (e :: es) e.span.start = e.pieces ++ startingAt es e.span.start := by
    simp [startingAt]
  have hlater : ∀ k, e.span.start < k → startingAt (e :: es) k = startingAt es k := by
    intro k hk
    simp [startingAt, Nat.ne_of_lt hk]
  have hkeep : ∀ k, e.span.start ≤ k →
      (decide (pos ≤ k) && !replaces (e :: es) k) = (decide (max pos e.span.stop ≤ k) && !replaces es k) := by
    intro k hk
    have hcontains : e.span.contains k = !decide (e.span.stop ≤ k) := by
      rw [Span.contains, decide_eq_true hk, Bool.true_and, ← decide_not, decide_eq_decide]
      exact Nat.not_le.symm
    simp only [replaces, List.any_cons, hcontains, Nat.max_le, Bool.decide_and]
    cases decide (pos ≤ k) <;> simp
  cases cs with
  | nil => exact hfirst
  | cons c cs =>
    have hc := c.utf8Size_pos
    rw [weave, weave, hfirst, hkeep _ (Nat.le_refl _),
      weave_congr (fun k hk => hlater k (by omega)) (fun k hk => hkeep k (by omega))]
    simp only [List.append_assoc]

end Edit

/-! ## Parts of a script -/

section

variable {b : Block} (source : SourceId)

/-- A part of a script. -/
def Piece.part (b : Block) (source : SourceId) (s : Span) : Piece := .copied (b.textAt s) source s.start

theorem Piece.flatMap_chars_character (xs : List (Nat × Char)) :
    (xs.map (character source)).flatMap chars = xs.map (character source) := by
  rw [List.flatMap_map, List.map_eq_flatMap]
  refine List.flatMap_congr fun x _ => ?_
  simp [character, chars]

theorem Piece.chars_part {s : Span} {t : List Char} (h : s.Reads b.content.toList t) :
    (part b source s).chars = (Text.placed s.start t).map (character source) := by
  rw [part, Block.textAt_of_reads h, chars, String.toList_ofList]

variable {n pos : Nat}

/-- What is copied up to the end of `u` are the characters of `u` that have not been passed over. -/
theorem Edit.chars_gap {u more : List Char} (hn : Text.Rest b.content.toList n (u ++ more)) (hpos : Text.IsPlace b.content.toList pos)
    (hle : n ≤ pos) : (gap (Piece.part b source) pos (n + Text.size u)).flatMap Piece.chars =
      ((Text.placed n u).filter fun x => decide (pos ≤ x.1)).map (Piece.character source) := by
  unfold gap
  split
  · rename_i hlt
    obtain ⟨rest, hrest⟩ := hpos
    obtain ⟨mid, heq, rfl⟩ := hn.split hrest hle
    obtain ⟨v, rfl, rfl⟩ := Text.exists_append_of_size_le heq (by omega)
    have hreads : (⟨n + Text.size mid, n + Text.size (mid ++ v)⟩ : Span).Reads b.content.toList v :=
      ⟨hrest.standsAt, by rw [Text.size_append, Nat.add_assoc]⟩
    have hpassed : (Text.placed n mid).filter (fun x => decide (n + Text.size mid ≤ x.1)) = [] := by
      refine List.filter_eq_nil_iff.2 fun x hx => ?_
      have := Text.bounds_of_mem_placed hx
      simpa using this.2
    have hkept : (Text.placed (n + Text.size mid) v).filter (fun x => decide (n + Text.size mid ≤ x.1)) =
        Text.placed (n + Text.size mid) v :=
      List.filter_eq_self.2 fun x hx => decide_eq_true (Text.bounds_of_mem_placed hx).1
    rw [List.flatMap_singleton, Piece.chars_part source hreads, Text.placed_append, List.filter_append, hpassed, hkept, List.nil_append]
  · rename_i hge
    have hpassed : (Text.placed n u).filter (fun x => decide (pos ≤ x.1)) = [] := by
      refine List.filter_eq_nil_iff.2 fun x hx => ?_
      have := Text.bounds_of_mem_placed hx
      simp only [decide_eq_true_eq]
      omega
    rw [hpassed]
    rfl

/-- Edits in the order of their starts, made from byte `pos` on, put their pieces where they start and leave the characters that they do
not replace. The edits that start at one place may be met when what one of them replaces has been passed over, so `pos` may be behind
their start `n`. -/
theorem Edit.chars_applyAll {es : List Edit} {rest : List Char} (hn : Text.Rest b.content.toList n rest)
    (hpos : Text.IsPlace b.content.toList pos) (hle : n ≤ pos) (hsorted : es.Pairwise fun a b => a.span.start ≤ b.span.start)
    (hfits : ∀ e ∈ es, n ≤ e.span.start ∧ e.span.Fits b.content.toList) :
    (applyAll (Piece.part b source) (Text.size b.content.toList) pos es).flatMap Piece.chars =
      (weave (Piece.character source) (startingAt es) (fun k => decide (pos ≤ k) && !replaces es k) n rest).flatMap Piece.chars := by
  induction es generalizing n pos rest with
  | nil =>
    have hwhole : Text.Rest b.content.toList n (rest ++ []) := by rwa [List.append_nil]
    have hweave : weave (Piece.character source) (startingAt []) (fun k => decide (pos ≤ k) && !replaces [] k) n (rest ++ []) = _ :=
      weave_append [] fun _ _ _ => rfl
    rw [List.append_nil] at hweave
    rw [applyAll, ← hn.size_eq, chars_gap source hwhole hpos hle, hweave, List.flatMap_append, Piece.flatMap_chars_character]
    simp [weave, startingAt, replaces]
  | cons e es ih =>
    obtain ⟨hstarts, hsorted⟩ := List.pairwise_cons.1 hsorted
    obtain ⟨hle', hfit⟩ := hfits e List.mem_cons_self
    obtain ⟨rest', hrest'⟩ := hfit.start
    obtain ⟨u, rfl, hstart⟩ := hn.split hrest' hle'
    have hbefore : ∀ e' ∈ e :: es, n + Text.size u ≤ e'.span.start := by
      intro e' he'
      rw [← hstart]
      rcases List.mem_cons.1 he' with rfl | he'
      · exact Nat.le_refl _
      · exact hstarts e' he'
    have hput : ∀ k, n ≤ k → k < n + Text.size u → startingAt (e :: es) k = [] := by
      intro k _ hlt
      rw [startingAt, List.filter_eq_nil_iff.2, List.flatMap_nil]
      intro e' he'
      have := hbefore e' he'
      simp only [decide_eq_true_eq]
      omega
    have hkept : (Text.placed n u).filter (fun x => decide (pos ≤ x.1) && !replaces (e :: es) x.1) =
        (Text.placed n u).filter fun x => decide (pos ≤ x.1) := by
      refine List.filter_congr fun x hx => ?_
      have hnone : replaces (e :: es) x.1 = false := by
        rw [replaces, List.any_eq_false]
        intro e' he'
        have := hbefore e' he'
        have := (Text.bounds_of_mem_placed hx).2
        simp only [Span.contains, Bool.and_eq_true, decide_eq_true_eq]
        omega
      rw [hnone, Bool.not_false, Bool.and_true]
    have hrest := ih hrest' (hpos.max hfit.stop)
      (Nat.le_trans hfit.le (Nat.le_max_right ..)) hsorted
      fun e' he' => ⟨hstarts e' he', (hfits e' (List.mem_cons_of_mem _ he')).2⟩
    rw [applyAll, weave_append rest' hput, hkept, ← hstart, weave_cons, List.flatMap_append, List.flatMap_append, hrest, hstart,
      chars_gap source hn hpos hle]
    simp only [List.flatMap_append, Piece.flatMap_chars_character, List.append_assoc]

/-- A part of a script with edits made in it, behind the part before it, is the whole script with the edits made. -/
theorem Edit.chars_copyWith {es : List Edit} {start : Nat} (hstart : Text.IsPlace b.content.toList start)
    (hes : ∀ e ∈ es, start ≤ e.span.start ∧ e.span.Fits b.content.toList) :
    (Piece.part b source ⟨0, start⟩ :: copyWith (Piece.part b source) ⟨start, b.size⟩ es).flatMap Piece.chars =
      (rewritten (Piece.character source) es 0 b.content.toList).flatMap Piece.chars := by
  obtain ⟨rest, hrest⟩ := hstart
  obtain ⟨u, hu, rfl⟩ := (Text.rest_zero b.content.toList).split hrest (Nat.zero_le start)
  rw [Nat.zero_add] at hrest hes ⊢
  have hreads : (⟨0, Text.size u⟩ : Span).Reads b.content.toList u := by
    refine ⟨⟨rest, ?_⟩, (Nat.zero_add _).symm⟩
    rw [← hu]
    exact Text.rest_zero _
  have hput : ∀ k, 0 ≤ k → k < 0 + Text.size u → startingAt es k = [] := by
    intro k _ hlt
    rw [startingAt, List.filter_eq_nil_iff.2, List.flatMap_nil]
    intro e he
    have := (hes e he).1
    simp only [decide_eq_true_eq]
    omega
  have hkept : (Text.placed 0 u).filter (fun x => !replaces es x.1) = Text.placed 0 u := by
    refine List.filter_eq_self.2 fun x hx => ?_
    rw [Bool.not_eq_true', replaces, List.any_eq_false]
    intro e he
    have := (hes e he).1
    have := (Text.bounds_of_mem_placed hx).2
    simp only [Span.contains, Bool.and_eq_true, decide_eq_true_eq]
    omega
  have hsorted : (es.mergeSort fun a b => decide (a.span.start ≤ b.span.start)).Pairwise fun a b => a.span.start ≤ b.span.start := by
    refine (List.pairwise_mergeSort ?_ ?_ es).imp fun h => of_decide_eq_true h
    · simp only [decide_eq_true_eq]
      exact fun _ _ _ => Nat.le_trans
    · intro a b
      simpa using Nat.le_total a.span.start b.span.start
  have hbody := chars_applyAll source hrest hrest.isPlace (Nat.le_refl _) hsorted fun e he => hes e (List.mem_mergeSort.1 he)
  have hfrom : weave (Piece.character source) (startingAt es) (fun k => decide (Text.size u ≤ k) && !replaces es k) (Text.size u) rest =
      weave (Piece.character source) (startingAt es) (fun k => !replaces es k) (Text.size u) rest :=
    weave_congr (fun _ _ => rfl) fun k hk => by rw [decide_eq_true hk, Bool.true_and]
  rw [startingAt_mergeSort, replaces_mergeSort, hfrom] at hbody
  have hsize : b.size = Text.size b.content.toList := (Text.size_toList _).symm
  rw [List.flatMap_cons, copyWith, hsize, hbody, Piece.chars_part source hreads, rewritten, hu, weave_append rest hput, hkept,
    List.flatMap_append, Piece.flatMap_chars_character, Nat.zero_add]

end

/-! ## Scripts with a default export -/

/-- What a part of a script maps are the characters of the script from its start up to its end. -/
theorem placedIn_part (inner : Code) (source : SourceId) {b : Block} {s : Span} (h : s.Fits b.content.toList) :
    (Piece.part b source s).placedIn inner source = (Text.placed 0 b.content.toList).filter (s.contains ·.1) := by
  obtain ⟨t, ht⟩ := h.exists_reads
  obtain ⟨⟨more, before, hcontent, hstart⟩, hstop⟩ := id ht
  rw [Piece.part, Block.textAt_of_reads ht, Piece.placedIn, if_pos rfl, String.toList_ofList, hcontent, Text.placed_append,
    Text.placed_append, List.filter_append, List.filter_append, Nat.zero_add, hstart]
  have houter : ∀ (n : Nat) (cs : List Char), n + Text.size cs ≤ s.start ∨ s.stop ≤ n →
      (Text.placed n cs).filter (s.contains ·.1) = [] := by
    intro n cs hout
    refine List.filter_eq_nil_iff.2 fun x hx => ?_
    have := Text.bounds_of_mem_placed hx
    simp only [Span.contains, Bool.and_eq_true, decide_eq_true_eq]
    omega
  have hinner : (Text.placed s.start t).filter (s.contains ·.1) = Text.placed s.start t := by
    refine List.filter_eq_self.2 fun x hx => ?_
    have := Text.bounds_of_mem_placed hx
    simp only [Span.contains, Bool.and_eq_true, decide_eq_true_eq]
    omega
  rw [houter 0 before (.inl (by omega)), hinner, houter (s.start + Text.size t) more (.inr (by omega)), List.nil_append, List.append_nil]

namespace Scene

theorem placedIn_wrapped (s : Scene) (p : PlainScript) (d : Script.DefaultExport) (inner : Code) :
    (s.wrapped p d).flatMap (Piece.placedIn inner SourceId.script) =
      (Piece.part p.block SourceId.script (exportedValue d).1).placedIn inner SourceId.script := by
  rcases hvalue : exportedValue d with ⟨value, isObject⟩
  have hpart : p.part value = Piece.part p.block SourceId.script value := rfl
  unfold wrapped
  rw [hvalue]
  dsimp only
  repeat' split
  all_goals simp [Piece.placedIn, hpart]

/-- What a script with a default export maps: before `between` what stands before the end of the statement, without the value; behind it
the value, and then what stands behind the statement. -/
theorem placedIn_withExport (s : Scene) {p : PlainScript} {d : Script.DefaultExport} (key : String) (between : List Piece)
    (hrange : d.range.Fits p.block.content.toList) (hvalue : (exportedValue d).1.Fits p.block.content.toList)
    (hinside : d.range.encloses (exportedValue d).1) (inner : Code) :
    (s.withExport p d key between).flatMap (Piece.placedIn inner SourceId.script) =
      (Text.placed 0 p.block.content.toList).filter (fun x => decide (x.1 < d.range.stop) && !(exportedValue d).1.contains x.1) ++
      between.flatMap (Piece.placedIn inner SourceId.script) ++
      (Text.placed 0 p.block.content.toList).filter ((exportedValue d).1.contains ·.1) ++
      (Text.placed 0 p.block.content.toList).filter (fun x => decide (d.range.stop ≤ x.1)) := by
  have hwrapped := s.placedIn_wrapped p d inner
  generalize hv : (exportedValue d).1 = v at hvalue hinside hwrapped
  obtain ⟨-, hstop⟩ : d.range.start ≤ v.start ∧ v.stop ≤ d.range.stop := by simpa [Span.encloses] using hinside
  have hsize : p.block.size = Text.size p.block.content.toList := (Text.size_toList _).symm
  have hpart : ∀ {t : Span}, t.Fits p.block.content.toList →
      (p.part t).placedIn inner SourceId.script = (Text.placed 0 p.block.content.toList).filter (t.contains ·.1) :=
    fun ht => placedIn_part inner SourceId.script ht
  have hbefore := hpart (t := ⟨0, v.start⟩) ⟨Text.isPlace_zero _, hvalue.start, Nat.zero_le _⟩
  have hmiddle := hpart (t := ⟨v.stop, d.range.stop⟩) ⟨hvalue.stop, hrange.stop, hstop⟩
  have hbehind := hpart (t := ⟨d.range.stop, p.block.size⟩) ⟨hrange.stop, hsize ▸ Text.isPlace_size _, hsize ▸ hrange.stop.le_size⟩
  have hle := hvalue.le
  -- What stands outside the value falls into what stands before it and what stands behind it.
  have houtside := Text.filter_placed_append v.start (fun x => decide (x.1 < d.range.stop) && !v.contains x.1) 0 p.block.content.toList
  have hbeforeEq : (Text.placed 0 p.block.content.toList).filter
      (fun x => decide (x.1 < v.start) && (decide (x.1 < d.range.stop) && !v.contains x.1)) =
        (p.part ⟨0, v.start⟩).placedIn inner SourceId.script := by
    rw [hbefore]
    refine List.filter_congr fun x _ => ?_
    rw [Bool.eq_iff_iff]
    simp only [Span.contains, Bool.and_eq_true, Bool.not_eq_true', Bool.and_eq_false_iff, decide_eq_true_eq, decide_eq_false_iff_not]
    omega
  have hmiddleEq : (Text.placed 0 p.block.content.toList).filter
      (fun x => decide (v.start ≤ x.1) && (decide (x.1 < d.range.stop) && !v.contains x.1)) =
        (p.part ⟨v.stop, d.range.stop⟩).placedIn inner SourceId.script := by
    rw [hmiddle]
    refine List.filter_congr fun x _ => ?_
    rw [Bool.eq_iff_iff]
    simp only [Span.contains, Bool.and_eq_true, Bool.not_eq_true', Bool.and_eq_false_iff, decide_eq_true_eq, decide_eq_false_iff_not]
    omega
  have hbehindEq : (p.part ⟨d.range.stop, p.block.size⟩).placedIn inner SourceId.script =
      (Text.placed 0 p.block.content.toList).filter (fun x => decide (d.range.stop ≤ x.1)) := by
    rw [hbehind]
    refine List.filter_congr fun x hx => ?_
    have := (Text.bounds_of_mem_placed hx).2
    rw [Bool.eq_iff_iff]
    simp only [Span.contains, Bool.and_eq_true, decide_eq_true_eq]
    omega
  rw [← houtside, hbeforeEq, hmiddleEq, ← hbehindEq, ← placedIn_part inner SourceId.script hvalue, ← hwrapped]
  simp [withExport, hv, declaration, Piece.placedIn]

end Scene

/-! ## Scripts as a whole -/

/-- Scripts are copied through. The imports and the body of a setup script, with any edits made in the body, write what the script itself
does when at each place the pieces of the edits that start there are put, in the order in which the edits are stated, and each
character that no edit replaces is mapped to where it stands. A script with a default export maps each character outside the exported
value once, in order, and those of the value once, apart from what stands between its two halves. -/
theorem scripts_copied_through :
    (∀ (q : SetupScript) (es : List Edit), Text.IsPlace q.block.content.toList q.bodyStart →
      (∀ e ∈ es, q.bodyStart ≤ e.span.start ∧ e.span.Fits q.block.content.toList) → ∀ (inner : Code) (w : Written),
        ((Scene.imports q ++ Edit.copyWith q.part ⟨q.bodyStart, q.block.size⟩ es).foldl (Piece.write inner) w).chars =
          ((Edit.rewritten (Piece.character SourceId.scriptSetup) es 0 q.block.content.toList).foldl (Piece.write inner) w).chars) ∧
    (∀ (s : Scene) (p : PlainScript) (d : Script.DefaultExport) (key : String) (between : List Piece),
      d.range.Fits p.block.content.toList → (Scene.exportedValue d).1.Fits p.block.content.toList →
      d.range.encloses (Scene.exportedValue d).1 → ∃ front back : List (Nat × Char),
        (front ++ back).Perm (Text.placed 0 p.block.content.toList) ∧
        (front ++ back).filter (fun x => !(Scene.exportedValue d).1.contains x.1) =
          (Text.placed 0 p.block.content.toList).filter (fun x => !(Scene.exportedValue d).1.contains x.1) ∧
        (front ++ back).filter ((Scene.exportedValue d).1.contains ·.1) =
          (Text.placed 0 p.block.content.toList).filter ((Scene.exportedValue d).1.contains ·.1) ∧
        ∀ (inner : Code) (w : Written), ((s.withExport p d key between).foldl (Piece.write inner) w).code.placedIn SourceId.script =
          w.code.placedIn SourceId.script ++ front ++ between.flatMap (Piece.placedIn inner SourceId.script) ++ back) := by
  refine ⟨fun q es hstart hes inner w => ?_, fun s p d key between hrange hvalue hinside => ?_⟩
  · have hcut := Edit.chars_copyWith SourceId.scriptSetup hstart hes
    rw [← chars_foldl_flatMap_chars, ← chars_foldl_flatMap_chars inner (Edit.rewritten ..), ← hcut]
    rfl
  · have hplaced := fun inner => s.placedIn_withExport key between hrange hvalue hinside inner
    obtain ⟨-, hstop⟩ : d.range.start ≤ (Scene.exportedValue d).1.start ∧ (Scene.exportedValue d).1.stop ≤ d.range.stop := by
      simpa [Span.encloses] using hinside
    generalize (Scene.exportedValue d).1 = v at hplaced hstop ⊢
    obtain ⟨hperm, houtside, hvalue⟩ := Text.placed_around hstop p.block.content.toList
    refine ⟨_, _, hperm, houtside, hvalue, fun inner w => ?_⟩
    rw [placedIn_foldl, hplaced inner]
    simp only [List.append_assoc]

/-- A setup script with one import. -/
def importAndCall : SetupScript where
  block := ⟨"scriptSetup", "ts", ⟨0, 0⟩, ⟨0, 0⟩, [], "import a;\nf();\ng()"⟩
  setup := { (default : Script.Setup) with leadingEnd := 0, importsEnd := 9 }

/-- A call that is replaced, with something put behind it, and something before it that is stated last. -/
def editedCall : List Edit := [.insert 13 [.text "!"], ⟨⟨10, 13⟩, [.text "h"]⟩, .insert 10 [.text "v = "]]

/-- A plain script with an export and a constant behind it. -/
def exportAndConstant : PlainScript where
  block := ⟨"script", "ts", ⟨0, 0⟩, ⟨0, 0⟩, [], "export default {};\nconst a = 1"⟩
  bindings := default
  exported := none

/-- The export. -/
def emptyExport : Script.DefaultExport := ⟨⟨0, 18⟩, true, ⟨15, 17⟩, none⟩

/-- The edited call and the export are copied through. -/
theorem scripts_copied_through_call :
    (∀ (inner : Code) (w : Written), ((Scene.imports importAndCall ++
        Edit.copyWith importAndCall.part ⟨importAndCall.bodyStart, importAndCall.block.size⟩ editedCall).foldl (Piece.write inner) w).chars =
      ((Edit.rewritten (Piece.character SourceId.scriptSetup) editedCall 0 importAndCall.block.content.toList).foldl
        (Piece.write inner) w).chars) ∧
    ∃ front back : List (Nat × Char), (front ++ back).Perm (Text.placed 0 exportAndConstant.block.content.toList) ∧
      ∀ (inner : Code) (w : Written),
        (((default : Scene).withExport exportAndConstant emptyExport "export" []).foldl (Piece.write inner) w).code.placedIn SourceId.script =
          w.code.placedIn SourceId.script ++ front ++ back := by
  obtain ⟨hsetup, hplain⟩ := scripts_copied_through
  refine ⟨hsetup importAndCall editedCall (by decide +kernel) (by decide +kernel), ?_⟩
  obtain ⟨front, back, hperm, -, -, hplaced⟩ :=
    hplain default exportAndConstant emptyExport "export" [] (by decide +kernel) (by decide +kernel) (by decide +kernel)
  exact ⟨front, back, hperm, fun inner w => by simpa using hplaced inner w⟩

/-- What is stated first stands first: the call that replaces the old one before the variable that was stated behind it. -/
example : (Edit.rewritten (Piece.character SourceId.scriptSetup) editedCall 10 "f();".toList) =
    [.text "h", .text "v = ", .text "!", .copied ";" SourceId.scriptSetup 13] := by
  decide +kernel

end Generate

end TypedSfc
