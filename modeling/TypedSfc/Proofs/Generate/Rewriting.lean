import TypedSfc.Proofs.Generate.Uses

/-!
# Rewritten expressions

An expression is written with its free names read from the component. It is written as strands: those that are kept make up the text
again, and the others are what is inserted for its free names, each at its name.

A name that the text spells with an escape need not end where a character does: the text is then cut within a character.
-/

namespace TypedSfc

namespace Generate

open Script (Reference)

/-! ## Pieces -/

section

variable {p : Placement} {whole : List Char} {lo hi : Nat}

/-- A text of its own lies before or behind the mapped part, unless it is empty. -/
theorem traces_text {t : List Char} (h : (⟨lo, hi⟩ : Span).Reads whole t) (hlie : t ≠ [] → hi ≤ p.before ∨ p.before + p.length ≤ lo) :
    Traces p whole lo ((textSegments (String.ofList t)).map .kept) hi := by
  cases t with
  | nil =>
    obtain rfl : hi = lo := h.2
    exact .nil h.1.isPlace
  | cons c t =>
    have hsegment : textSegments (String.ofList (c :: t)) = [.text (String.ofList (c :: t))] :=
      if_neg (by simp)
    have hsize : (String.ofList (c :: t)).utf8ByteSize = Text.size (c :: t) := Text.size_ofList _
    have hhi : hi = lo + Text.size (c :: t) := h.2
    rw [hsegment]
    refine .kept ?_ ?_
    · rw [show (Segment.text (String.ofList (c :: t))).content = String.ofList (c :: t) from rfl, String.toList_ofList]
      exact h
    · show lo + (String.ofList (c :: t)).utf8ByteSize ≤ p.before ∨ _
      rw [hsize, ← hhi]
      exact hlie (List.cons_ne_nil c t)

/-- A text in the mapped part is at its place in the source. -/
theorem traces_mapped {t : List Char} (h : (⟨lo, hi⟩ : Span).Reads whole t) (hlo : p.before ≤ lo) (hhi : hi ≤ p.before + p.length) :
    Traces p whole lo [.kept (.mapped (String.ofList t) p.source (p.start + (lo - p.before)) p.info)] hi := by
  obtain ⟨hstands, hstop⟩ := h
  have hown : (Segment.mapped (String.ofList t) p.source (p.start + (lo - p.before)) p.info).content.toList = t := String.toList_ofList
  refine .kept ⟨?_, ?_⟩ ⟨rfl, rfl, ?_, hlo, ?_⟩
  · rwa [hown]
  · rwa [hown]
  · omega
  · rw [Text.size_ofList, ← hstop]
    exact hhi

/-- What is not behind the mapped part ends with the piece or with that part. -/
theorem innerEnd_eq (n : Nat) (hlo : lo ≤ p.before + p.length) : lo + p.innerEnd lo n = min (lo + n) (p.before + p.length) := by
  unfold Placement.innerEnd
  split <;> omega

/-- What is before the mapped part ends where the piece starts or where that part does. -/
theorem headEnd_eq {n : Nat} (hlo : lo ≤ p.before + p.length) (hhi : p.before ≤ lo + n) :
    lo + p.headEnd lo n = max lo p.before := by
  have hinner := innerEnd_eq n hlo
  unfold Placement.headEnd
  omega

/-- A piece keeps the text that stands there, if it is not all before the mapped part, and does not start behind it. -/
theorem traces_piece {t : List Char} (hbefore : Text.IsPlace whole p.before) (hbehind : Text.IsPlace whole (p.before + p.length))
    (h : (⟨lo, hi⟩ : Span).Reads whole t) (hlo : lo ≤ p.before + p.length) (hhi : p.before ≤ hi) (atEnd : Bool) :
    Traces p whole lo ((pieceSegments p t lo atEnd).map .kept) hi := by
  have hstop : hi = lo + Text.size t := h.2
  have hinner := innerEnd_eq (Text.size t) hlo
  have hhead : lo + p.headEnd lo (Text.size t) = max lo p.before := headEnd_eq hlo (by omega)
  have hcut : Text.IsPlace whole (lo + p.headEnd lo (Text.size t)) := by
    rw [hhead]
    exact h.1.isPlace.max hbefore
  have hcut' : Text.IsPlace whole (lo + p.innerEnd lo (Text.size t)) := by
    rw [hinner]
    exact h.1.isPlace_stop.min hbehind
  obtain ⟨u, v, w, rfl, hu, hv, hbetween, hbetween', hbetween''⟩ := h.1.exists_parts hcut hcut' (by omega) (by omega)
  rw [← hu] at hhead
  rw [← hv] at hinner
  rw [Text.size_append, Text.size_append] at hstop hinner
  have hstands : Text.StandsAt whole lo (u ++ (v ++ w)) := h.1
  have hfront : Traces p whole lo ((textSegments (String.ofList u)).map .kept) (lo + Text.size u) := by
    refine traces_text ⟨hstands.left, rfl⟩ fun hne => ?_
    have hpos := Text.size_pos hne
    omega
  have hback : Traces p whole (lo + Text.size u + Text.size v) ((textSegments (String.ofList w)).map .kept) hi := by
    refine traces_text ⟨hstands.right.right, by dsimp only; omega⟩ fun hne => ?_
    have hpos := Text.size_pos hne
    omega
  have hbody : Traces p whole (lo + Text.size u)
      [.kept (.mapped (String.ofList v) p.source (p.start + (lo + Text.size u - p.before)) p.info)] (lo + Text.size u + Text.size v) :=
    traces_mapped ⟨hstands.right.left, rfl⟩ (by omega) (by omega)
  rw [pieceSegments, hbetween, hbetween', hbetween'', ← hu, List.map_append, List.map_append]
  split
  · exact hfront.append (hbody.append hback)
  · rename_i hempty
    obtain rfl : v = [] := by
      cases v with
      | nil => rfl
      | cons c v => simp at hempty
    exact hfront.append hback

end

/-! ## What is kept, and what is inserted -/

/-- Free names of a text come in order and without overlap, lie in its mapped part, and stand where they are said to. -/
structure Refers (p : Placement) (whole : List Char) (ns : List Reference) : Prop where
  ordered : ns.Pairwise fun a b => stopOf a ≤ b.offset
  inside : ∀ n ∈ ns, p.before ≤ n.offset ∧ stopOf n ≤ p.before + p.length
  stand : ∀ n ∈ ns, Text.StandsAt whole n.offset n.name.toList

theorem Refers.sublist {p : Placement} {whole : List Char} {ns ms : List Reference} (h : Refers p whole ns) (hsub : ms.Sublist ns) :
    Refers p whole ms :=
  ⟨h.ordered.sublist hsub, fun n hn => h.inside n (hsub.mem hn), fun n hn => h.stand n (hsub.mem hn)⟩

section

variable {r : Setting} {p : Placement} {whole : List Char} {prev : Nat} {n : Reference}

/-- A piece of the mapped part is one segment; at an outer end it is left out if it is empty. -/
theorem pieceSegments_within {t : List Char} {pos : Nat} (hlo : p.before ≤ pos) (hhi : pos + Text.size t ≤ p.before + p.length)
    (atEnd : Bool) : pieceSegments p t pos atEnd =
      if !(t.isEmpty && atEnd) then [.mapped (String.ofList t) p.source (p.start + (pos - p.before)) p.info] else [] := by
  have hinner : p.innerEnd pos (Text.size t) = Text.size t := if_neg (by omega)
  have hhead : p.headEnd pos (Text.size t) = 0 := by
    rw [Placement.headEnd, Nat.sub_eq_zero_of_le hlo, Nat.zero_min]
  have hzero : Text.between 0 0 t = [] := (show Text.Rest t 0 ([] ++ t) from Text.rest_zero t).between_eq
  have hall : Text.between 0 (Text.size t) t = t := by
    have hbetween := (show Text.Rest t 0 (t ++ []) by rw [List.append_nil]; exact Text.rest_zero t).between_eq
    rwa [Nat.zero_add] at hbetween
  have hend : Text.between (Text.size t) (Text.size t) t = [] :=
    (show Text.Rest t (Text.size t) ([] ++ []) from Text.rest_size t).between_eq
  rw [pieceSegments, hinner, hhead, hzero, hall, hend]
  exact List.append_nil _

/-- A free name is one segment, and so is the mark before it. -/
theorem pieceSegments_inside {t : List Char} {pos : Nat} (hlo : p.before ≤ pos) (hhi : pos + Text.size t ≤ p.before + p.length) :
    pieceSegments p t pos false = [.mapped (String.ofList t) p.source (p.start + (pos - p.before)) p.info] := by
  rw [pieceSegments_within hlo hhi, Bool.and_false]
  rfl

/-- What is inserted for a free name reads it, behind a colon if the name was also a key. -/
theorem insertionsOf_eq (hlo : p.before ≤ n.offset) (hhi : stopOf n ≤ p.before + p.length) :
    insertionsOf r p n =
      if n.shorthand then (textSegments ": " ++ useSegments r p n).map (stopOf n, ·)
      else if r.setupRefs.contains n.name then (textSegments ".value").map (stopOf n, ·)
      else (textSegments (ownerOf r n)).map (n.offset, ·) := by
  have hname : pieceSegments p n.name.toList n.offset false = [nameSegment p n n.name] := by
    rw [pieceSegments_inside hlo (by rw [Text.size_toList]; exact hhi), String.ofList_toList]
    rfl
  have hanchor : pieceSegments p [] n.offset false = [nameSegment p n ""] := by
    have hempty : n.offset + Text.size [] ≤ p.before + p.length := Nat.le_trans (Nat.le_add_right ..) hhi
    exact pieceSegments_inside hlo hempty
  have howner : textSegments (ownerOf r n) = [.text (ownerOf r n)] := by
    refine if_neg ?_
    unfold ownerOf
    split <;> decide
  unfold insertionsOf useSegments
  rw [hname, hanchor, howner]
  split
  · split <;> rfl
  · split <;> rfl

/-- The strands of a free name keep the text up to its end, with the insertions of the name. -/
theorem nameStrands_traces (hbefore : Text.IsPlace whole p.before) (hbehind : Text.IsPlace whole (p.before + p.length))
    (hprev : Text.IsPlace whole prev) (hn : Text.StandsAt whole n.offset n.name.toList) (hle : prev ≤ n.offset)
    (hlo : p.before ≤ n.offset) (hhi : stopOf n ≤ p.before + p.length) :
    Traces p whole prev (nameStrands r p whole prev n) (stopOf n) ∧
      insertions prev (nameStrands r p whole prev n) = insertionsOf r p n := by
  have hstop : n.offset ≤ stopOf n := Nat.le_add_right ..
  have hname : (⟨n.offset, stopOf n⟩ : Span).Reads whole n.name.toList := ⟨hn, by rw [Text.size_toList]⟩
  have hplace : Text.IsPlace whole (stopOf n) := hname.fits.stop
  have hempty : (⟨n.offset, n.offset⟩ : Span).Reads whole [] := ⟨hn.beginning ⟨_, rfl⟩, rfl⟩
  -- What is cut out up to a place reads what stands there.
  have hcut : ∀ hi, Text.IsPlace whole hi → prev ≤ hi → (⟨prev, hi⟩ : Span).Reads whole (Text.between prev hi whole) := by
    intro hi hhi' hle'
    obtain ⟨t, hreads⟩ := Span.Fits.exists_reads (s := ⟨prev, hi⟩) ⟨hprev, hhi', hle'⟩
    rwa [← hreads.between_eq] at hreads
  have hread : Traces p whole n.offset ((pieceSegments p n.name.toList n.offset false).map .kept) (stopOf n) :=
    traces_piece hbefore hbehind hname (by omega) (by omega) false
  have hkeptSize : ∀ {lo hi : Nat} {ss : List Strand}, Traces p whole lo ss hi → lo + Text.size (keptText ss) = hi :=
    fun h => h.reads.2.symm
  rw [insertionsOf_eq hlo hhi]
  unfold nameStrands
  split
  · have hlead : Traces p whole prev ((pieceSegments p (Text.between prev (stopOf n) whole) prev false).map .kept) (stopOf n) :=
      traces_piece hbefore hbehind (hcut _ hplace (by omega)) (by omega) (by omega) false
    refine ⟨hlead.append (.inserted hplace _), ?_⟩
    rw [insertions_append, insertions_map_kept, hkeptSize hlead, insertions_map_inserted, List.nil_append]
  · have hlead : Traces p whole prev ((pieceSegments p (Text.between prev n.offset whole) prev (prev == 0)).map .kept) n.offset :=
      traces_piece hbefore hbehind (hcut _ hn.isPlace hle) (by omega) hlo _
    split
    · refine ⟨hlead.append (hread.append (.inserted hplace _)), ?_⟩
      rw [insertions_append, insertions_map_kept, hkeptSize hlead, insertions_append, insertions_map_kept, hkeptSize hread,
        insertions_map_inserted]
      rfl
    · have hanchor : Traces p whole n.offset ((pieceSegments p [] n.offset false).map .kept) n.offset :=
        traces_piece hbefore hbehind hempty (by omega) hlo false
      refine ⟨hlead.append (hanchor.append (.append (.inserted hn.isPlace _) hread)), ?_⟩
      rw [insertions_append, insertions_map_kept, hkeptSize hlead, insertions_append, insertions_map_kept, hkeptSize hanchor,
        insertions_append, insertions_map_inserted, insertions_map_kept, List.nil_append, List.nil_append, List.append_nil]

/-- The strands of a text keep it to its end, with the insertions of all its free names. -/
theorem strands_traces {ns : List Reference} (hbefore : Text.IsPlace whole p.before)
    (hbehind : Text.IsPlace whole (p.before + p.length)) (h : Refers p whole ns) (hprev : Text.IsPlace whole prev)
    (hin : prev ≤ p.before + p.length) (hle : ∀ n ∈ ns, prev ≤ n.offset) :
    Traces p whole prev (strands r p whole prev ns) (Text.size whole) ∧
      insertions prev (strands r p whole prev ns) = ns.flatMap (insertionsOf r p) := by
  induction ns generalizing prev with
  | nil =>
    obtain ⟨rest, hrest⟩ := hprev
    unfold strands
    split
    · refine ⟨?_, insertions_map_kept _ _⟩
      rw [hrest.after_eq]
      have hall : (⟨prev, Text.size whole⟩ : Span).Reads whole rest :=
        ⟨⟨[], by rw [List.append_nil]; exact hrest⟩, hrest.size_eq.symm⟩
      exact traces_piece hbefore hbehind hall hin hbefore.le_size true
    · have hsize := hrest.size_eq
      obtain rfl : prev = Text.size whole := by omega
      exact ⟨.nil hrest.isPlace, rfl⟩
  | cons n ns ih =>
    obtain ⟨hordered, hinside, hstand⟩ := h
    obtain ⟨hfirst, hordered⟩ := List.pairwise_cons.1 hordered
    obtain ⟨hlo, hhi⟩ := hinside n (List.mem_cons_self ..)
    have hn := hstand n (List.mem_cons_self ..)
    have hrefers : Refers p whole ns :=
      ⟨hordered, fun m hm => hinside m (List.mem_cons_of_mem n hm), fun m hm => hstand m (List.mem_cons_of_mem n hm)⟩
    have hstop : Text.IsPlace whole (stopOf n) := by
      have hplace := hn.isPlace_stop
      rwa [Text.size_toList] at hplace
    obtain ⟨hname, hinsert⟩ := nameStrands_traces hbefore hbehind hprev hn (hle n (List.mem_cons_self ..)) hlo hhi (r := r)
    obtain ⟨hrest, hinserts⟩ := ih hrefers hstop hhi hfirst
    refine ⟨hname.append hrest, ?_⟩
    have hsize : prev + Text.size (keptText (nameStrands r p whole prev n)) = stopOf n := hname.reads.2.symm
    rw [strands, insertions_append, hinsert, hsize, hinserts, List.flatMap_cons]

end

/-! ## Expressions -/

/-- Strands write an expression between two texts. What they keep, put together, is the two texts with the expression between them; what
they keep mapped is the expression, each strand at its place in the source, and none of it in the two texts; and what is inserted is
what the free names have inserted, each at its name. -/
structure Rewrites (r : Setting) (p : Placement) (front code back : String) (ns : List Reference) (ss : List Strand) : Prop where
  kept_eq : keptText ss = (front ++ code ++ back).toList
  mapped_eq : mappedText ss = code.toList
  lie : ∀ x ∈ placed 0 ss, x.2.Lies p x.1
  insertions_eq : insertions 0 ss = ns.flatMap (insertionsOf r p)

/-- Where an expression lands between two texts. -/
def placementOf (source : SourceId) (code : String) (start : Nat) (i : Info) (front : String) : Placement :=
  ⟨source, start, i, front.utf8ByteSize, code.utf8ByteSize⟩

/-- The strands of an expression write it. -/
theorem strands_rewrites (r : Setting) (source : SourceId) (code : String) (start : Nat) (i : Info) (front back : String)
    {ns : List Reference} (h : Refers (placementOf source code start i front) (front ++ code ++ back).toList ns) :
    Rewrites r (placementOf source code start i front) front code back ns
      (strands r (placementOf source code start i front) (front ++ code ++ back).toList 0 ns) := by
  have hwhole : (front ++ code ++ back).toList = front.toList ++ (code.toList ++ back.toList) := by
    rw [String.toList_append, String.toList_append, List.append_assoc]
  have hfront : Text.size front.toList = (placementOf source code start i front).before := Text.size_toList front
  have hcode : Text.size code.toList = (placementOf source code start i front).length := Text.size_toList code
  have hbefore : Text.Rest (front ++ code ++ back).toList (placementOf source code start i front).before
      (code.toList ++ back.toList) := ⟨front.toList, hwhole, hfront⟩
  have hbehind := hbefore.step
  rw [hcode] at hbehind
  obtain ⟨htraces, hinsertions⟩ :=
    strands_traces hbefore.isPlace hbehind.isPlace h (Text.isPlace_zero _) (Nat.zero_le _) (fun n _ => Nat.zero_le _) (r := r)
  obtain ⟨hreads, hlie⟩ := htraces
  refine ⟨hreads.eq_whole, ?_, hlie, hinsertions⟩
  rw [hwhole] at hreads hlie ⊢
  have hmapped := Traces.mappedText_eq hfront hcode ⟨hreads, hlie⟩
  rwa [Nat.zero_sub, (Text.rest_zero code.toList).after_eq] at hmapped

/-- A plain name is the one free name of itself. -/
theorem refers_namesIn {reader : Script.Reader} {source : SourceId} {code : String} {start : Nat} {i : Info} {front back : String}
    (h : Text.isPlainIdent code = false →
      Refers (placementOf source code start i front) (front ++ code ++ back).toList (reader.freeNames (front ++ code ++ back))) :
    Refers (placementOf source code start i front) (front ++ code ++ back).toList (namesIn reader front code back) := by
  unfold namesIn
  split
  · refine ⟨List.pairwise_singleton _ _, ?_, ?_⟩
    · intro n hn
      rw [List.mem_singleton.1 hn]
      exact ⟨Nat.le_refl _, Nat.le_refl _⟩
    · intro n hn
      rw [List.mem_singleton.1 hn]
      refine ⟨back.toList, front.toList, ?_, Text.size_toList front⟩
      rw [String.toList_append, String.toList_append, List.append_assoc]
  · rename_i hplain
    exact h (by rwa [Bool.not_eq_true] at hplain)

/-- An expression that is written keeps its text and its places, if the free names that the reader finds in it, unless it is a plain
name, are places of the text: it is written by strands of which those that are kept make up the whole text again, the mapped ones the
expression at its places in the source, and the others are what the free names that do not stay as they are have inserted. -/
theorem expressionIn_rewrites (r : Setting) (s : State) (source : SourceId) (code : String) (start : Nat) (i : Info)
    (front back : String)
    (h : Text.isPlainIdent code = false →
      Refers (placementOf source code start i front) (front ++ code ++ back).toList (r.reader.freeNames (front ++ code ++ back))) :
    ∃ ss : List Strand,
      ((expressionIn source code start i front back).after r s).2.code.segments = s.code.segments ++ ss.map Strand.segment ∧
        Rewrites r (placementOf source code start (s.code.resolve i) front) front code back
          ((namesIn r.reader front code back).filter fun n => !s.keeps n.name) ss := by
  have hwrites := writes_useNames (r := r) (e := s.code.effect) (placementOf source code start i front) (front ++ code ++ back).toList 0
    (namesIn r.reader front code back) s
  obtain ⟨hsegments, -, -⟩ := hwrites s rfl rfl
  have hused : ((namesIn r.reader front code back).filter fun n => !s.keeps n.name).Sublist (namesIn r.reader front code back) :=
    List.filter_sublist
  obtain ⟨hordered, hinside, hstand⟩ := (refers_namesIn h).sublist hused
  exact ⟨_, hsegments, strands_rewrites r source code start (s.code.resolve i) front back ⟨hordered, hinside, hstand⟩⟩

/-- A setting in which one variable of the setup script is read through its value, and nothing else is known. -/
def settingWithRef (name : String) : Setting where
  options := default
  reader := Script.Module.read
  source := []
  setupConsts := []
  setupRefs := [name]
  hasDefineSlots := false
  propsName := none
  slotsName := none
  componentName := ""
  inheritAttrs := false
  dollars := []
  roots := []

/-- An object with a shorthand and a pair. -/
def shorthandObject : String := "\x7b foo, bar: el \x7d"

/-- A shorthand for a member of the component and a reference of the setup script, between two texts: the hypothesis holds of what the
reader finds, and both names have something inserted. -/
theorem expressionIn_rewrites_shorthand :
    Refers (placementOf SourceId.template shorthandObject 20 Info.checked "(") ("(" ++ shorthandObject ++ ")").toList
        (Script.Reader.freeNames Script.Module.read ("(" ++ shorthandObject ++ ")")) ∧
      ∃ ss : List Strand,
        ((expressionIn SourceId.template shorthandObject 20 Info.checked "(" ")").after (settingWithRef "el") {}).2.code.segments =
            ss.map Strand.segment ∧
          Rewrites (settingWithRef "el") (placementOf SourceId.template shorthandObject 20 Info.checked "(") "("
            shorthandObject ")" [⟨"foo", 3, true⟩, ⟨"el", 13, false⟩] ss := by
  have hseen : (((Script.Module.read ("(" ++ shorthandObject ++ ")") "ts").items.getD []).foldl
      Script.Item.seen {}).free.reverse = [⟨"foo", 3, true⟩, ⟨"el", 13, false⟩] := by decide +kernel
  have hfree : Script.Reader.freeNames Script.Module.read ("(" ++ shorthandObject ++ ")") =
      [⟨"foo", 3, true⟩, ⟨"el", 13, false⟩] := by
    rw [Script.Reader.freeNames, Script.Module.free, hseen]
    exact List.mergeSort_of_pairwise (by decide)
  have hrefers : Refers (placementOf SourceId.template shorthandObject 20 Info.checked "(")
      ("(" ++ shorthandObject ++ ")").toList
      (Script.Reader.freeNames Script.Module.read ("(" ++ shorthandObject ++ ")")) := by
    rw [hfree]
    refine ⟨by decide, by decide, ?_⟩
    intro n hn
    rcases List.mem_cons.1 hn with rfl | hn
    · exact ⟨", bar: el \x7d)".toList, "(\x7b ".toList, by decide, by decide⟩
    · rw [List.mem_singleton.1 hn]
      exact ⟨" \x7d)".toList, "(\x7b foo, bar: ".toList, by decide, by decide⟩
  have hnames : (namesIn (settingWithRef "el").reader "(" shorthandObject ")").filter (fun n => !({} : State).keeps n.name) =
      [⟨"foo", 3, true⟩, ⟨"el", 13, false⟩] := by
    have hplain : Text.isPlainIdent shorthandObject = false := by decide
    rw [namesIn, hplain, if_neg Bool.false_ne_true]
    show ((Script.Reader.freeNames Script.Module.read ("(" ++ shorthandObject ++ ")")).filter _) = _
    rw [hfree]
    decide
  obtain ⟨ss, hsegments, hrewrites⟩ := expressionIn_rewrites (settingWithRef "el") {} SourceId.template shorthandObject 20
    Info.checked "(" ")" fun _ => hrefers
  rw [hnames] at hrewrites
  exact ⟨hrefers, ss, hsegments, hrewrites⟩

/-! ## Where an expression is cut -/

/-- Free names of a text come in order and without overlap, lie in its mapped part, and begin at places of it. They need not stand there:
a name that the text spells with an escape is shorter than its spelling. -/
structure Locates (p : Placement) (whole : List Char) (ns : List Reference) : Prop where
  ordered : ns.Pairwise fun a b => stopOf a ≤ b.offset
  inside : ∀ n ∈ ns, p.before ≤ n.offset ∧ stopOf n ≤ p.before + p.length
  isPlace : ∀ n ∈ ns, Text.IsPlace whole n.offset

theorem Refers.locates {p : Placement} {whole : List Char} {ns : List Reference} (h : Refers p whole ns) : Locates p whole ns :=
  ⟨h.ordered, h.inside, fun n hn => (h.stand n hn).isPlace⟩

section

variable {p : Placement} {whole : List Char} {lo hi : Nat}

theorem isNone_slice_eq_false {start stop : Nat} {cs : List Char} (hle : start ≤ stop) (hstart : Text.IsPlace cs start)
    (hstop : Text.IsPlace cs stop) : (Text.slice start stop cs).isNone = false := by
  rw [Option.isNone_eq_false_iff]
  exact Text.isSome_slice_iff.2 ⟨hle, hstart, hstop⟩

/-- What stands in a text can be cut at the ends of the mapped part, if these are places of the text. -/
theorem pieceCuts_of_standsAt {t : List Char} (hbefore : Text.IsPlace whole p.before) (hbehind : Text.IsPlace whole (p.before + p.length))
    (h : Text.StandsAt whole lo t) : pieceCuts p t lo = false := by
  have hle : p.innerEnd lo (Text.size t) ≤ Text.size t := by
    unfold Placement.innerEnd
    split <;> omega
  have hinner : Text.IsPlace t (p.innerEnd lo (Text.size t)) := by
    by_cases hlo : lo ≤ p.before + p.length
    · refine h.isPlace_of_add ?_ hle
      rw [innerEnd_eq _ hlo]
      exact h.isPlace_stop.min hbehind
    · have hzero : p.innerEnd lo (Text.size t) = 0 := by
        unfold Placement.innerEnd
        split <;> omega
      rw [hzero]
      exact Text.isPlace_zero t
  have hhead : Text.IsPlace t (p.headEnd lo (Text.size t)) := by
    by_cases hshort : p.before - lo ≤ p.innerEnd lo (Text.size t)
    · rw [Placement.headEnd, Nat.min_eq_left hshort]
      by_cases hlo : lo ≤ p.before
      · exact h.isPlace_of_add (by rwa [Nat.add_sub_cancel' hlo]) (Nat.le_trans hshort hle)
      · rw [Nat.sub_eq_zero_of_le (Nat.le_of_not_le hlo)]
        exact Text.isPlace_zero t
    · rwa [Placement.headEnd, Nat.min_eq_right (Nat.le_of_not_le hshort)]
  rw [pieceCuts, isNone_slice_eq_false (Nat.zero_le _) (Text.isPlace_zero t) hhead,
    isNone_slice_eq_false (Nat.zero_le _) (Text.isPlace_zero t) hinner]
  rfl

/-- A part of a text cannot be cut out, or cut, if and only if it does not begin or does not end at a place of the text. -/
theorem cutsOut_iff (hbefore : Text.IsPlace whole p.before) (hbehind : Text.IsPlace whole (p.before + p.length)) (hle : lo ≤ hi) :
    cutsOut p whole lo hi = true ↔ ¬Text.IsPlace whole lo ∨ ¬Text.IsPlace whole hi := by
  rw [← not_and_or]
  by_cases hplaces : Text.IsPlace whole lo ∧ Text.IsPlace whole hi
  · obtain ⟨t, hreads⟩ := Span.Fits.exists_reads (s := ⟨lo, hi⟩) ⟨hplaces.1, hplaces.2, hle⟩
    have hstands : Text.StandsAt whole lo t := hreads.1
    have hbetween : Text.between lo hi whole = t := hreads.between_eq
    rw [cutsOut, hbetween, pieceCuts_of_standsAt hbefore hbehind hstands, isNone_slice_eq_false hle hplaces.1 hplaces.2]
    simp [hplaces]
  · have hnone : (Text.slice lo hi whole).isNone = true := by
      rw [← Option.not_isSome, Bool.not_eq_true', Bool.eq_false_iff]
      exact fun h => hplaces (Text.isSome_slice_iff.1 h).2
    rw [cutsOut, hnone, Bool.or_true]
    exact iff_of_true rfl hplaces

/-- A name in the mapped part is written as one piece. -/
theorem pieceCuts_within {t : List Char} (hlo : p.before ≤ lo) (hhi : lo + Text.size t ≤ p.before + p.length) :
    pieceCuts p t lo = false := by
  have hinner : p.innerEnd lo (Text.size t) = Text.size t := if_neg (by omega)
  have hhead : p.headEnd lo (Text.size t) = 0 := by
    rw [Placement.headEnd, Nat.sub_eq_zero_of_le hlo, Nat.zero_min]
  rw [pieceCuts, hinner, hhead, isNone_slice_eq_false (Nat.le_refl 0) (Text.isPlace_zero t) (Text.isPlace_zero t),
    isNone_slice_eq_false (Nat.zero_le _) (Text.isPlace_zero t) (Text.isPlace_size t)]
  rfl

/-- From a position on, a text is cut within a character if and only if the position, or the end of one of the names, is none of its
places. The induction is on the names: what is behind one is written from its end on. -/
theorem namesCut_iff (hbefore : Text.IsPlace whole p.before) (hbehind : Text.IsPlace whole (p.before + p.length)) {ns : List Reference}
    (h : Locates p whole ns) {prev : Nat} (hprev : prev ≤ Text.size whole) (hle : ∀ n ∈ ns, prev ≤ n.offset) :
    namesCut p whole prev ns = true ↔ ¬Text.IsPlace whole prev ∨ ∃ n ∈ ns, ¬Text.IsPlace whole (stopOf n) := by
  induction ns generalizing prev with
  | nil =>
    have hend := Text.isPlace_size whole
    rw [namesCut, Bool.and_eq_true, decide_eq_true_iff, cutsOut_iff hbefore hbehind hprev]
    constructor
    · rintro ⟨-, hplace | hplace⟩
      · exact .inl hplace
      · exact absurd hend hplace
    · rintro (hplace | ⟨n, hn, -⟩)
      · exact ⟨Nat.lt_of_le_of_ne hprev fun heq => hplace (heq ▸ hend), .inl hplace⟩
      · cases hn
  | cons n ns ih =>
    obtain ⟨hordered, hinside, hplaces⟩ := h
    obtain ⟨hlo, hhi⟩ := hinside n List.mem_cons_self
    have hrest : Locates p whole ns := ⟨hordered.of_cons, fun m hm => hinside m (List.mem_cons_of_mem n hm),
      fun m hm => hplaces m (List.mem_cons_of_mem n hm)⟩
    have hname : pieceCuts p n.name.toList n.offset = false := pieceCuts_within hlo (by rwa [Text.size_toList])
    have hbegin : prev ≤ n.offset := hle n List.mem_cons_self
    have hlead : cutsOut p whole prev (if n.shorthand then stopOf n else n.offset) = true ↔
        ¬Text.IsPlace whole prev ∨ (n.shorthand = true ∧ ¬Text.IsPlace whole (stopOf n)) := by
      cases n.shorthand with
      | true =>
        rw [if_pos rfl, cutsOut_iff hbefore hbehind (Nat.le_trans hbegin (Nat.le_add_right ..))]
        simp
      | false =>
        rw [if_neg Bool.false_ne_true, cutsOut_iff hbefore hbehind hbegin]
        simp [hplaces n List.mem_cons_self]
    rw [namesCut, hname, Bool.false_or, Bool.or_eq_true, hlead,
      ih hrest (Nat.le_trans hhi hbehind.le_size) (fun _ => List.rel_of_pairwise_cons hordered), List.exists_mem_cons_iff]
    constructor
    · rintro (hbehind' | hplace | ⟨-, hstop⟩)
      · exact .inr hbehind'
      · exact .inl hplace
      · exact .inr (.inl hstop)
    · rintro (hplace | hbehind')
      · exact .inr (.inl hplace)
      · exact .inl hbehind'

end

/-- An expression is cut within a character if and only if one of the names that are read in it would end within one: a name that is
spelled with an escape, and ends elsewhere than its spelling does. -/
theorem expressionCut_iff (r : Setting) (scopes : List (List String)) (source : SourceId) (code : String) (start : Nat) (info : Info)
    (front back : String)
    (h : Locates (placementOf source code start info front) (front ++ code ++ back).toList (unresolved r scopes front code back)) :
    expressionCut r scopes source code start info front back = true ↔
      ∃ n ∈ unresolved r scopes front code back, ¬Text.IsPlace (front ++ code ++ back).toList (stopOf n) := by
  have hwhole : (front ++ code ++ back).toList = front.toList ++ (code.toList ++ back.toList) := by
    rw [String.toList_append, String.toList_append, List.append_assoc]
  have hbefore : Text.IsPlace (front ++ code ++ back).toList front.utf8ByteSize :=
    ⟨code.toList ++ back.toList, front.toList, hwhole, Text.size_toList front⟩
  have hbehind : Text.IsPlace (front ++ code ++ back).toList (front.utf8ByteSize + code.utf8ByteSize) :=
    ⟨back.toList, front.toList ++ code.toList, by rw [hwhole, List.append_assoc], by simp⟩
  show namesCut (placementOf source code start info front) _ 0 _ = true ↔ _
  rw [namesCut_iff hbefore hbehind h (Nat.zero_le _) fun _ _ => Nat.zero_le _]
  exact or_iff_right fun hzero => hzero (Text.isPlace_zero _)

end Generate

end TypedSfc
