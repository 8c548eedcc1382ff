import TypedSfc.Proofs.Generate.Senses

/-!
# What the parameters of slots map

The parameters of a slot are read as those of a function without a body, and written in a buffer of their own. Only the first segment
of it can have the bracket that was put before them, and only the last one what was put behind, so taking out both leaves segments
that lie in the parameters. Types become comments there, which cuts segments into parts.
-/

namespace TypedSfc

/-- What is at a place of a text that starts at an offset of the template may be mapped there, and the places of the text may be
marked. -/
def Permit.parameters (S : Sense) (content : List Char) (offset : Nat) : Permit where
  allows t source o := source = SourceId.template ∧
    ((t = "" ∧ o ≤ offset + Text.size content) ∨ ∃ j, o = offset + j ∧ S.has content j t.toList)
  stands _ _ _ := True
  listens _ := True
  binds _ := True

/-- The same texts stand and listen, but everything may be mapped. -/
def Permit.anywhere (P : Permit) : Permit := { P with allows := fun _ _ _ => True }

namespace Permit

variable {S : Sense} {content : List Char} {offset : Nat} {e : Option Effect}

theorem allows_parameters_part {t : String} {source : SourceId} {o k : Nat} {u : List Char}
    (h : (parameters S content offset).allows t source o) (hu : Text.StandsAt t.toList k u) :
    (parameters S content offset).allows (String.ofList u) source (o + k) := by
  obtain ⟨rfl, ⟨rfl, hle⟩ | ⟨j, rfl, hhas⟩⟩ := h
  · have hsize := hu.isPlace_stop.le_size
    have hnone : Text.size "".toList = 0 := rfl
    obtain rfl : u = [] := Text.size_eq_zero.1 (by omega)
    exact ⟨rfl, .inl ⟨rfl, by omega⟩⟩
  · refine ⟨rfl, .inr ⟨j + k, Nat.add_assoc .., ?_⟩⟩
    rw [String.toList_ofList]
    exact S.has_trans hhas (S.has_of_standsAt hu)

/-- What lies in the parameters covers nothing outside of them. -/
theorem covers_parameters {a : Segment} (h : (parameters S content offset).Admits e a) {start stop : Nat}
    (hout : start < offset ∨ offset + Text.size content < stop) : Code.covers SourceId.template start stop a = false := by
  cases a with
  | text t => rfl
  | mapped t source o i =>
    obtain ⟨⟨rfl, ⟨rfl, -⟩ | ⟨j, rfl, hhas⟩⟩, -⟩ := h
    · simp [Code.covers]
    · have hle := S.le_size hhas
      rw [Text.size_toList] at hle
      by_contra hcovers
      simp only [Code.covers, Bool.not_eq_false, Bool.and_eq_true, decide_eq_true_eq] at hcovers
      omega

/-- What is at a place of the parameters may be mapped from the place that it has there. -/
theorem Admits.ofParameters {texts : SourceId → List Char} {listens : String → Prop} {a : Segment}
    (h : (parameters S content offset).Admits e a) (hcontent : S.has (texts SourceId.template) offset content) :
    (ofSense S texts listens).Admits e a := by
  cases a with
  | text t => trivial
  | mapped t source o i =>
    obtain ⟨⟨rfl, ⟨rfl, hle⟩ | ⟨j, rfl, hhas⟩⟩, hpolicy⟩ := h
    · exact ⟨allows_of_marks (S.marks_mono (S.marks_of_has hcontent) hle), hpolicy⟩
    · exact ⟨.inr (.inl (S.has_trans hcontent hhas)), hpolicy⟩

end Permit

namespace Code

/-- A range that is taken out of the segment that covers it. -/
theorem replaceIn?_cons_empty (source : SourceId) (before : List Char) {own : List Char} (rest : List Char) (o : Nat) (i : Info)
    (ss : List Segment) (hown : own ≠ []) :
    replaceIn? source (o + Text.size before) (o + Text.size before + Text.size own) ""
        (.mapped (String.ofList (before ++ (own ++ rest))) source o i :: ss) =
      some ((if before.isEmpty then [] else [.mapped (String.ofList before) source o i]) ++
        (if rest.isEmpty then [] else [.mapped (String.ofList rest) source (o + (Text.size before + Text.size own)) i]) ++ ss) := by
  have htext : (String.ofList (before ++ (own ++ rest))).toList = before ++ (own ++ rest) := String.toList_ofList
  have hsize : (String.ofList (before ++ (own ++ rest))).utf8ByteSize = Text.size before + (Text.size own + Text.size rest) := by
    rw [Text.size_ofList, Text.size_append, Text.size_append]
  have hhead : o + Text.size before - o = Text.size before := Nat.add_sub_cancel_left ..
  have htail : o + Text.size before + Text.size own - o = Text.size before + Text.size own := by omega
  let x : Cut source (o + Text.size before) (o + Text.size before + Text.size own)
      (.mapped (String.ofList (before ++ (own ++ rest))) source o i :: ss) :=
    { front := [], text := String.ofList (before ++ (own ++ rest)), offset := o, info := i, back := ss, eq := rfl
      nonempty := fun hempty => by simp [hempty, hown] at htext
      offset_le := Nat.le_add_right .., le_offset := by omega, first := by simp
      head := before, tail := rest, size_head := hhead.symm, begins := ⟨own ++ rest, htext⟩, offset_le_stop := by omega
      ends := by
        rw [htext, htail]
        exact ⟨before ++ own, by rw [List.append_assoc], Text.size_append ..⟩ }
  rw [x.replaceIn?_eq, ← Nat.add_assoc]
  show some (Segment.part before source o i ++ ([] ++ Segment.part rest source (o + Text.size before + Text.size own) i) ++ ss) = _
  rw [List.nil_append]
  rfl

end Code

namespace Generate

open Script (Reference)

variable {S : Sense} {content : String} {offset : Nat} {r : Setting} {e : Option Effect}

/-! ## Buffers of their own -/

/-- A generator on a buffer of its own, of whose segments something is known. -/
theorem Gives.capturedWith {α β : Type} {P : Permit} {g : Gen α} {k : Code × α → Gen β} {Q : β → Prop} {R : List Segment → Prop}
    (hg : Puts P.anywhere r e g) (hR : ∀ s : State, s.code.effect = e → s.code.segments = [] → R (g.after r s).2.code.segments)
    (hk : ∀ c a, R c.segments → Gives P r e (k (c, a)) Q) : Gives P r e (Generate.captured g >>= k) Q := by
  intro s he hs
  have hanywhere : State.Noted P.anywhere s := ⟨hs.slots_stand, hs.refs_stand, hs.generics_stand⟩
  obtain ⟨hextends, hnoted, -⟩ := hg { s with code := s.code.continueFrom } he (hanywhere.ofCode _)
  have hsegments := hR { s with code := s.code.continueFrom } he rfl
  rw [after_captured_bind]
  generalize g.after r { s with code := s.code.continueFrom } = x at hextends hnoted hsegments
  have hnoted' : State.Noted P x.2 := ⟨hnoted.slots_stand, hnoted.refs_stand, hnoted.generics_stand⟩
  obtain ⟨hextends', hrest⟩ := hk x.2.code x.1 hsegments { x.2 with code := s.code.absorbTokens x.2.code } he (hnoted'.ofCode _)
  have habsorb : s.Extends P { x.2 with code := s.code.absorbTokens x.2.code } :=
    ⟨.same rfl rfl, hextends.frames_eq, hextends.pending_eq, hextends.nextExpectation_eq⟩
  exact ⟨habsorb.trans hextends', hrest⟩

/-- An expression makes steps within one node, wherever it is mapped to. -/
theorem puts_expression_anywhere {P : Permit} (code : String) (start : Nat) (front back : String) :
    Puts P.anywhere r e (expression code start front back) := by
  have hfit : ∀ whole prev ns, PiecesFit (fun _ _ => True) whole prev ns := fun _ _ _ =>
    ⟨fun _ _ _ _ => ⟨trivial, trivial⟩, fun _ _ => ⟨trivial, trivial⟩, fun _ _ => trivial⟩
  exact .andThen gives_read.puts fun _ => puts_useNames (fun pos t _ atEnd => puts_piece rfl trivial atEnd) (hfit _ _ _)

/-! ## Segments in brackets -/

/-- A segment that begins with the bracket before the parameters, or none. -/
def Opening (S : Sense) (e : Option Effect) (content : String) (offset : Nat) (ss : List Segment) : Prop :=
  ss = [] ∨ ∃ u i, ss = [.mapped (String.ofList ('(' :: u)) SourceId.template (offset - 1) i] ∧
    (Permit.parameters S content.toList offset).Admits e (.mapped (String.ofList u) SourceId.template offset i)

/-- A segment that ends in what stands behind the parameters, or none. -/
def Closing (S : Sense) (e : Option Effect) (content : String) (offset : Nat) (ss : List Segment) : Prop :=
  ss = [] ∨ ∃ v o i, ss = [.mapped (String.ofList (v ++ emptyBody.toList)) SourceId.template o i] ∧ offset ≤ o ∧
    o + Text.size v = offset + content.utf8ByteSize ∧
      (Permit.parameters S content.toList offset).Admits e (.mapped (String.ofList v) SourceId.template o i)

/-- The segments of parameters and what was put around them. -/
inductive Bracketed (S : Sense) (e : Option Effect) (content : String) (offset : Nat) (ss : List Segment) : Prop
  | whole (i : Info) (policy : ∃ p : Policy, p.isPlain = true ∧ i.policy = Effect.apply e p)
      (eq : ss = [.mapped (String.ofList ('(' :: (content.toList ++ emptyBody.toList))) SourceId.template (offset - 1) i])
  | parts (front mid back : List Segment) (opening : Opening S e content offset front)
      (middle : ∀ a ∈ mid, (Permit.parameters S content.toList offset).Admits e a) (closing : Closing S e content offset back)
      (eq : ss = front ++ (mid ++ back))

theorem emptyBody_ne_nil : emptyBody.toList ≠ [] := by decide

/-- Without the bracket before them, parameters are followed by what was put behind them. -/
theorem Bracketed.withoutOpening {ss : List Segment} (h : Bracketed S e content offset ss) (hoffset : 1 ≤ offset) :
    ∃ mid back, (Code.replaceIn? SourceId.template (offset - 1) (offset - 1 + 1) "" ss).getD ss = mid ++ back ∧
      (∀ a ∈ mid, (Permit.parameters S content.toList offset).Admits e a) ∧ Closing S e content offset back := by
  have hsucc : offset - 1 + 1 = offset := Nat.sub_add_cancel hoffset
  -- The bracket is taken out of the segment that begins with it.
  have htake : ∀ (u : List Char) (i : Info) (behind : List Segment),
      Code.replaceIn? SourceId.template (offset - 1) (offset - 1 + 1) ""
          (.mapped (String.ofList ('(' :: u)) SourceId.template (offset - 1) i :: behind) =
        some ((if u.isEmpty then [] else [.mapped (String.ofList u) SourceId.template offset i]) ++ behind) := by
    intro u i behind
    have hone : Text.size ['('] = 1 := rfl
    have hreplace := Code.replaceIn?_cons_empty SourceId.template [] u (offset - 1) i behind (List.cons_ne_nil '(' [])
    rw [hone, Text.size_nil, Nat.add_zero, Nat.zero_add, hsucc] at hreplace
    rw [hsucc]
    exact hreplace
  cases h with
  | whole i policy eq =>
    refine ⟨[], [.mapped (String.ofList (content.toList ++ emptyBody.toList)) SourceId.template offset i], ?_, by simp, ?_⟩
    · rw [eq, htake, if_neg (by simp [emptyBody])]
      rfl
    · refine .inr ⟨content.toList, offset, i, rfl, Nat.le_refl _, by rw [Text.size_toList], ⟨rfl, .inr ⟨0, rfl, ?_⟩⟩, policy⟩
      rw [String.toList_ofList]
      exact S.has_self _
  | parts front mid back opening middle closing eq =>
    rcases opening with rfl | ⟨u, i, rfl, hu⟩
    · refine ⟨mid, back, ?_, middle, closing⟩
      have hnone : Code.replaceIn? SourceId.template (offset - 1) (offset - 1 + 1) "" ss = none := by
        refine Code.replaceIn?_eq_none fun a ha => ?_
        rw [eq, List.nil_append] at ha
        rcases List.mem_append.1 ha with ha | ha
        · exact Permit.covers_parameters (middle a ha) (.inl (by omega))
        · rcases closing with rfl | ⟨v, o, i, rfl, hle, -⟩
          · cases ha
          · rw [List.mem_singleton.1 ha]
            have hlt : ¬o ≤ offset - 1 := by omega
            simp [Code.covers, hlt]
      rw [hnone, eq]
      rfl
    · refine ⟨(if u.isEmpty then [] else [.mapped (String.ofList u) SourceId.template offset i]) ++ mid, back, ?_, ?_, closing⟩
      · rw [eq, List.singleton_append, htake, List.append_assoc]
        rfl
      · intro a ha
        rcases List.mem_append.1 ha with ha | ha
        · split at ha
          · cases ha
          · rw [List.mem_singleton.1 ha]
            exact hu
        · exact middle a ha

/-- Without what was put behind them, only the parameters are left. -/
theorem Closing.withoutBody {mid back : List Segment} (hmid : ∀ a ∈ mid, (Permit.parameters S content.toList offset).Admits e a)
    (h : Closing S e content offset back) : ∀ a ∈ (Code.replaceIn? SourceId.template (offset + content.utf8ByteSize)
      (offset + content.utf8ByteSize + emptyBody.length) "" (mid ++ back)).getD (mid ++ back),
        (Permit.parameters S content.toList offset).Admits e a := by
  have hlength : Text.size emptyBody.toList = emptyBody.length := by decide
  have hmid' : ∀ a ∈ mid, Code.covers SourceId.template (offset + content.utf8ByteSize)
      (offset + content.utf8ByteSize + emptyBody.length) a = false := by
    intro a ha
    refine Permit.covers_parameters (hmid a ha) (.inr ?_)
    rw [Text.size_toList]
    exact Nat.lt_add_of_pos_right (by decide)
  rw [Code.replaceIn?_append hmid']
  rcases h with rfl | ⟨v, o, i, rfl, hle, hstop, hv⟩
  · simpa [Code.replaceIn?] using hmid
  · have hreplace := Code.replaceIn?_cons_empty SourceId.template v [] o i []
      emptyBody_ne_nil
    rw [List.append_nil, hlength, hstop] at hreplace
    rw [hreplace]
    intro a ha
    rw [Option.map_some, Option.getD_some] at ha
    rcases List.mem_append.1 ha with ha | ha
    · exact hmid a ha
    · simp only [List.isEmpty_nil, if_true, List.append_nil] at ha
      split at ha
      · cases ha
      · rw [List.mem_singleton.1 ha]
        exact hv

/-! ## Names in brackets -/

/-- The text of a function with some parameters and no body. -/
def bracketedText (content : String) : List Char := '(' :: (content.toList ++ emptyBody.toList)

theorem size_bracketedText (content : String) :
    Text.size (bracketedText content) = 1 + content.utf8ByteSize + Text.size emptyBody.toList := by
  rw [bracketedText, Text.size_cons, Text.size_append, Text.size_toList, Nat.add_assoc]
  rfl

section

variable {info : Info} (hoffset : 1 ≤ offset) (hpolicy : ∃ p : Policy, p.isPlain = true ∧ info.policy = Effect.apply e p)

/-- Where the text is mapped to. -/
def bracketedPlacement (content : String) (offset : Nat) (info : Info) : Placement :=
  ⟨SourceId.template, offset - 1, info, 0, Text.size (bracketedText content)⟩

include hoffset hpolicy

/-- What is between the brackets may be mapped. -/
theorem admits_parameters {t : List Char} {k : Nat} (h : S.has (bracketedText content) k t) (hlo : 1 ≤ k)
    (hhi : k + Text.size t ≤ 1 + content.utf8ByteSize) : (Permit.parameters S content.toList offset).Admits e
      (.mapped (String.ofList t) SourceId.template (offset - 1 + k) info) := by
  have hone : Text.size ['('] = 1 := rfl
  have hmiddle : S.has content.toList (k - Text.size ['(']) t := S.has_middle h (by omega) (by rw [Text.size_toList]; omega)
  rw [hone] at hmiddle
  refine ⟨⟨rfl, .inr ⟨k - 1, by omega, ?_⟩⟩, hpolicy⟩
  rwa [String.toList_ofList]

theorem middle_pieceSegments {t : List Char} {k : Nat} (h : S.has (bracketedText content) k t) (hlo : 1 ≤ k)
    (hhi : k + Text.size t ≤ 1 + content.utf8ByteSize) (atEnd : Bool) :
    ∀ a ∈ pieceSegments (bracketedPlacement content offset info) t k atEnd,
      (Permit.parameters S content.toList offset).Admits e a := by
  have hfit : k + Text.size t ≤ 0 + Text.size (bracketedText content) := by
    rw [size_bracketedText]
    omega
  intro a ha
  rw [pieceSegments_within (Nat.zero_le k) hfit] at ha
  split at ha
  · rw [List.mem_singleton.1 ha]
    exact admits_parameters hoffset hpolicy h hlo hhi
  · cases ha

omit hoffset hpolicy in
theorem middle_textSegments (t : String) : ∀ a ∈ textSegments t, (Permit.parameters S content.toList offset).Admits e a := by
  intro a ha
  unfold textSegments at ha
  split at ha
  · cases ha
  · rw [List.mem_singleton.1 ha]
    trivial

/-- A free name is read between the brackets. -/
theorem middle_useSegments {n : Reference} (hn : S.has (bracketedText content) n.offset n.name.toList) (hlo : 1 ≤ n.offset)
    (hhi : stopOf n ≤ 1 + content.utf8ByteSize) : ∀ a ∈ useSegments r (bracketedPlacement content offset info) n,
      (Permit.parameters S content.toList offset).Admits e a := by
  have hname := middle_pieceSegments hoffset hpolicy hn hlo (by rw [Text.size_toList]; exact hhi) false
  have hanchor := middle_pieceSegments hoffset hpolicy (S.has_start hn) hlo
    (by rw [Text.size_nil]; exact Nat.le_trans (Nat.le_add_right ..) hhi) false
  intro a ha
  unfold useSegments at ha
  split at ha
  · rcases List.mem_append.1 ha with ha | ha
    · exact hname a ha
    · exact middle_textSegments _ a ha
  · rcases List.mem_append.1 ha with ha | ha
    · exact hanchor a ha
    · rcases List.mem_append.1 ha with ha | ha
      · exact middle_textSegments _ a ha
      · exact hname a ha

omit hoffset hpolicy in
/-- The segments of a name: a piece up to it, or up to its end, and what reads it. -/
theorem exists_nameStrands (p : Placement) (whole : List Char) (prev : Nat) (n : Reference) :
    ∃ hi ts, (hi = n.offset ∨ hi = stopOf n) ∧ (nameStrands r p whole prev n).map Strand.segment =
      pieceSegments p (Text.between prev hi whole) prev (!n.shorthand && prev == 0) ++ (textSegments ts ++ useSegments r p n) := by
  rw [segment_nameStrands]
  cases n.shorthand with
  | true => exact ⟨stopOf n, ": ", .inr rfl, rfl⟩
  | false => exact ⟨n.offset, "", .inl rfl, rfl⟩

/-- Behind the first bracket there are parameters, and at last what stands behind them. -/
theorem strands_closing {ns : List Reference} {prev : Nat} (hprev : S.has (bracketedText content) prev []) (hlo : 1 ≤ prev)
    (hhi : prev ≤ 1 + content.utf8ByteSize)
    (hns : ∀ n ∈ ns, S.has (bracketedText content) n.offset n.name.toList ∧ 1 ≤ n.offset ∧ stopOf n ≤ 1 + content.utf8ByteSize) :
    ∃ mid back, (strands r (bracketedPlacement content offset info) (bracketedText content) prev ns).map Strand.segment = mid ++ back ∧
      (∀ a ∈ mid, (Permit.parameters S content.toList offset).Admits e a) ∧ Closing S e content offset back := by
  induction ns generalizing prev with
  | nil =>
    unfold strands
    split
    · rename_i hlt
      rw [segment_map_kept]
      rcases Text.after_eq_nil_or prev (bracketedText content) with hnil | hrest
      · have hfit : prev + Text.size [] ≤ 0 + Text.size (bracketedText content) := by
          rw [Text.size_nil]
          omega
        rw [hnil, pieceSegments_within (Nat.zero_le prev) hfit]
        exact ⟨[], [], rfl, by simp, .inl rfl⟩
      · -- What follows the last name goes on with what is behind the parameters.
        have hbody : Text.Rest (bracketedText content) (1 + content.utf8ByteSize) emptyBody.toList :=
          ⟨'(' :: content.toList, rfl, by rw [Text.size_cons, Text.size_toList]; rfl⟩
        obtain ⟨v, hv, hsize⟩ := hrest.split hbody hhi
        have hstands : Text.StandsAt (bracketedText content) prev v := ⟨emptyBody.toList, hv ▸ hrest⟩
        have hfit : prev + Text.size (v ++ emptyBody.toList) ≤ 0 + Text.size (bracketedText content) := by
          rw [Text.size_append, size_bracketedText]
          omega
        have hne : (v ++ emptyBody.toList).isEmpty = false := by simp [emptyBody]
        rw [hv, pieceSegments_within (Nat.zero_le prev) hfit, hne]
        refine ⟨[], _, rfl, by simp, .inr ⟨v, offset - 1 + prev, info, rfl, by omega, by omega, ?_⟩⟩
        exact admits_parameters hoffset hpolicy (S.has_of_standsAt hstands) hlo (by omega)
    · exact ⟨[], [], rfl, by simp, .inl rfl⟩
  | cons n ns ih =>
    obtain ⟨⟨hn, hnlo, hnhi⟩, hrest⟩ := List.forall_mem_cons.1 hns
    have hstop := S.has_stop hn
    rw [Text.size_toList] at hstop
    obtain ⟨mid, back, heq, hmid, hback⟩ := ih hstop (Nat.le_trans hnlo (Nat.le_add_right ..)) hnhi hrest
    obtain ⟨hi, ts, hbound, hname⟩ := exists_nameStrands (r := r) (bracketedPlacement content offset info) (bracketedText content) prev n
    have hle : n.offset ≤ stopOf n := Nat.le_add_right ..
    have hbetween : prev + Text.size (Text.between prev hi (bracketedText content)) ≤ 1 + content.utf8ByteSize := by
      rcases Text.between_eq_nil_or prev hi (bracketedText content) with hnil | ⟨-, hsize⟩
      · rw [hnil]
        exact hhi
      · rcases hbound with rfl | rfl <;> omega
    have hpiece := middle_pieceSegments hoffset hpolicy (S.has_between hprev hi) hlo hbetween (!n.shorthand && prev == 0)
    rw [strands, List.map_append, heq, hname]
    refine ⟨_ ++ mid, back, (List.append_assoc ..).symm, fun a ha => ?_, hback⟩
    rcases List.mem_append.1 ha with ha | ha
    · rcases List.mem_append.1 ha with ha | ha
      · exact hpiece a ha
      · rcases List.mem_append.1 ha with ha | ha
        · exact middle_textSegments _ a ha
        · exact middle_useSegments hoffset hpolicy hn hnlo hnhi a ha
    · exact hmid a ha

/-- The whole text is written in brackets. -/
theorem strands_bracketed {ns : List Reference}
    (hns : ∀ n ∈ ns, S.has (bracketedText content) n.offset n.name.toList ∧ 1 ≤ n.offset ∧ stopOf n ≤ 1 + content.utf8ByteSize) :
    Bracketed S e content offset
      ((strands r (bracketedPlacement content offset info) (bracketedText content) 0 ns).map Strand.segment) := by
  cases ns with
  | nil =>
    have hpos : 0 < Text.size (bracketedText content) := Text.size_pos (List.cons_ne_nil _ _)
    refine .whole info hpolicy ?_
    rw [strands, if_pos hpos, segment_map_kept, (Text.rest_zero (bracketedText content)).after_eq,
      pieceSegments_within (Nat.zero_le 0) (Nat.le_refl (0 + Text.size (bracketedText content)))]
    rfl
  | cons n ns =>
    obtain ⟨⟨hn, hnlo, hnhi⟩, hrest⟩ := List.forall_mem_cons.1 hns
    have hstop := S.has_stop hn
    rw [Text.size_toList] at hstop
    obtain ⟨mid, back, heq, hmid, hback⟩ := strands_closing (r := r) hoffset hpolicy hstop
      (Nat.le_trans hnlo (Nat.le_add_right ..)) hnhi hrest
    obtain ⟨hi, ts, hbound, hname⟩ := exists_nameStrands (r := r) (bracketedPlacement content offset info) (bracketedText content) 0 n
    have hle : n.offset ≤ stopOf n := Nat.le_add_right ..
    have hpos : 1 ≤ hi ∧ hi ≤ 1 + content.utf8ByteSize := by
      rcases hbound with rfl | rfl <;> omega
    have hmiddle : ∀ a ∈ textSegments ts ++ useSegments r (bracketedPlacement content offset info) n ++ mid,
        (Permit.parameters S content.toList offset).Admits e a := by
      intro a ha
      rcases List.mem_append.1 ha with ha | ha
      · rcases List.mem_append.1 ha with ha | ha
        · exact middle_textSegments _ a ha
        · exact middle_useSegments hoffset hpolicy hn hnlo hnhi a ha
      · exact hmid a ha
    rw [strands, List.map_append, heq, hname]
    rcases Text.between_eq_nil_or 0 hi (bracketedText content) with hnil | ⟨hstands, hsize⟩
    · -- The first piece is cut out of nothing, so it is at most a mark.
      refine .parts [] (_ ++ (textSegments ts ++ useSegments r (bracketedPlacement content offset info) n ++ mid)) back (.inl rfl) ?_
        hback (by simp only [List.nil_append, List.append_assoc]; rfl)
      intro a ha
      rcases List.mem_append.1 ha with ha | ha
      · rw [hnil, pieceSegments_within (Nat.zero_le 0) (Nat.zero_le _)] at ha
        split at ha
        · rw [List.mem_singleton.1 ha]
          exact ⟨⟨rfl, .inl ⟨rfl, by show offset - 1 + 0 ≤ _; omega⟩⟩, hpolicy⟩
        · cases ha
      · exact hmiddle a ha
    · -- The first piece begins with the bracket.
      obtain ⟨more, hmore⟩ := hstands
      have hwhole := hmore.unique (Text.rest_zero _)
      generalize Text.between 0 hi (bracketedText content) = t at hwhole hsize hmore
      cases t with
      | nil =>
        rw [Text.size_nil] at hsize
        omega
      | cons c u =>
        obtain ⟨rfl, hu⟩ := List.cons.inj (hwhole : c :: (u ++ more) = '(' :: (content.toList ++ emptyBody.toList))
        have hone : ('(' : Char).utf8Size = 1 := rfl
        rw [Text.size_cons, hone] at hsize
        have hstands : Text.StandsAt (bracketedText content) 1 u := ⟨more, ['('], congrArg ('(' :: ·) hu.symm, rfl⟩
        have hadmits := admits_parameters hoffset hpolicy (S.has_of_standsAt hstands) (Nat.le_refl 1) (by omega)
        rw [Nat.sub_add_cancel hoffset] at hadmits
        have hfit : 0 + Text.size ('(' :: u) ≤ 0 + Text.size (bracketedText content) := by
          rw [Text.size_cons, hone, size_bracketedText]
          omega
        refine .parts _ (textSegments ts ++ useSegments r (bracketedPlacement content offset info) n ++ mid) back
          (.inr ⟨u, info, ?_, hadmits⟩) hmiddle hback (by simp only [List.append_assoc]; rfl)
        rw [pieceSegments_within (Nat.zero_le 0) hfit]
        rfl

end

/-! ## Parameters -/

theorem bracketed_toList (content : String) : ("(" ++ content ++ emptyBody).toList = bracketedText content := by
  rw [String.toList_append, String.toList_append]
  rfl

/-- A buffer with parameters in brackets, once its segments lie in the parameters. -/
theorem Bracketed.admits_trimmed {c : Code} (h : Bracketed S e content offset c.segments) (hoffset : 1 ≤ offset) {start stop : Nat}
    (hstart : start = offset - 1) (hstop : stop = start + ("(" ++ content ++ emptyBody).utf8ByteSize) :
    ∀ a ∈ ((c.replaceRange SourceId.template start (start + 1) "").2.replaceRange SourceId.template (stop - emptyBody.length) stop
      "").2.segments, (Permit.parameters S content.toList offset).Admits e a := by
  have hsize : ("(" ++ content ++ emptyBody).utf8ByteSize = 1 + content.utf8ByteSize + emptyBody.length := by
    rw [String.utf8ByteSize_append, String.utf8ByteSize_append]
    rfl
  obtain ⟨mid, back, heq, hmid, hback⟩ := h.withoutOpening hoffset
  have hmiddle : (c.replaceRange SourceId.template start (start + 1) "").2.segments = mid ++ back := by
    rw [Code.segments_replaceRange, hstart, heq]
  have hbody : stop - emptyBody.length = offset + content.utf8ByteSize ∧ stop = offset + content.utf8ByteSize + emptyBody.length := by
    omega
  rw [Code.segments_replaceRange, hmiddle, hbody.1, hbody.2]
  exact hback.withoutBody hmid

/-- A type of the parameters may be mapped to its place. -/
theorem allows_type {texts : SourceId → List Char} {listens : String → Prop}
    (h : S.has (texts SourceId.template) offset content.toList) (hoffset : 1 ≤ offset) {t : Span}
    (ht : 1 ≤ t.start ∧ t.start ≤ t.stop ∧ t.stop ≤ 1 + content.utf8ByteSize) : (Permit.ofSense S texts listens).allows
      ((t.slice ("(" ++ content ++ emptyBody)).getD "") SourceId.template (offset - 1 + t.start) := by
  obtain ⟨hlo, hle, hhi⟩ := ht
  have hone : Text.size ['('] = 1 := rfl
  have hcontent : Text.size content.toList = content.utf8ByteSize := Text.size_toList content
  have hplace : offset - 1 + t.start = offset + (t.start - 1) := by omega
  unfold Span.slice
  rw [bracketed_toList, hplace]
  cases hslice : Text.slice t.start t.stop (bracketedText content) with
  | none => exact Permit.allows_of_marks (S.marks_within h (by omega))
  | some u =>
    obtain ⟨hstands, hstop⟩ := Text.standsAt_of_slice hslice
    have hmiddle : Text.StandsAt content.toList (t.start - Text.size ['(']) u :=
      hstands.middle (by omega) (by omega)
    exact Permit.allows_of_has (S.has_trans h (S.has_of_standsAt hmiddle))

/-- The parameters of a slot that stand somewhere may be written as if they stood there. -/
theorem puts_slotParameters_ofSense {texts : SourceId → List Char} {listens : String → Prop} (hr : S.Reads r.reader)
    {x : Markup.Expression} (h : S.has (texts SourceId.template) x.offset x.content.toList) (hoffset : 1 ≤ x.offset) (v : String) :
    Puts (.ofSense S texts listens) r e (slotParameters x v) := by
  refine .bind gives_read fun setting hsetting => ?_
  rw [hsetting]
  dsimp only
  split
  · exact puts_pure ()
  rename_i ps hps
  -- The names of the whole text are those of the parameters.
  have hplain : Text.isPlainIdent ("(" ++ x.content ++ emptyBody) = false := by
    unfold Text.isPlainIdent
    rw [bracketed_toList]
    rfl
  have hnames : ∀ n ∈ namesIn r.reader "" ("(" ++ x.content ++ emptyBody) "",
      S.has (bracketedText x.content) n.offset n.name.toList ∧ 1 ≤ n.offset ∧ stopOf n ≤ 1 + x.content.utf8ByteSize := by
    intro n hn
    rw [namesIn, hplain, if_neg Bool.false_ne_true, String.empty_append, String.append_empty] at hn
    obtain ⟨hhas, hlo, hhi⟩ := hr.free (by simp [Text.IsPunct, Text.isPunct, emptyBody]) n hn
    rw [bracketed_toList] at hhas hlo
    refine ⟨hhas, Nat.le_trans ?_ hlo, hhi⟩
    rw [bracketedText, List.takeWhile_cons_of_pos (by decide), Text.size_cons]
    exact Nat.le_add_right ..
  have hbracketed : ∀ s : State, s.code.effect = e → s.code.segments = [] → Bracketed S e x.content x.offset
      ((expression ("(" ++ x.content ++ emptyBody) (x.offset - 1) "" "").after r s).2.code.segments := by
    intro s he hs
    have hwrites := writes_useNames (r := r) (e := e) ⟨SourceId.template, x.offset - 1, Info.checked, 0,
      ("(" ++ x.content ++ emptyBody).utf8ByteSize⟩ (bracketedText x.content) 0 (namesIn r.reader "" ("(" ++ x.content ++ emptyBody) "") s
    obtain ⟨hsegments, -, -⟩ := hwrites s he rfl
    rw [hs, List.nil_append] at hsegments
    have hwhole : ("" ++ ("(" ++ x.content ++ emptyBody) ++ "").toList = bracketedText x.content := by
      rw [String.empty_append, String.append_empty, bracketed_toList]
    have hsize : ("(" ++ x.content ++ emptyBody).utf8ByteSize = Text.size (bracketedText x.content) := by
      rw [← bracketed_toList, Text.size_toList]
    rw [← hwhole] at hsegments
    refine hsegments ▸ ?_
    rw [hwhole, hsize]
    refine strands_bracketed hoffset ⟨.always, rfl, rfl⟩ fun n hn => ?_
    exact hnames n (List.mem_filter.1 hn).1
  refine .capturedWith (puts_expression_anywhere _ _ _ _) hbracketed fun c _ hc => ?_
  have hparameters := admits_commentTypes (fun _ _ _ _ => Permit.allows_parameters_part) (x.offset - 1) (ps.map typeOf?)
    (hc.admits_trimmed hoffset rfl rfl)
  refine .text (.andThen (puts_onCode fun c' hc' => ?_) fun _ => .text ?_)
  · exact Code.extends_append fun a ha => hc'.symm ▸ (hparameters a ha).ofParameters h
  · refine .ite (fun _ => ?_) fun _ => .text (puts_declare _)
    refine .text (.openAt (Permit.allows_of_has (S.has_start h)) rfl fun b hb => .text (.andThen (puts_forIn fun t ht _ => ?_) fun _ => ?_))
    · refine .andThen ?_ fun _ => puts_pure _
      cases t with
      | none => exact puts_text _
      | some t =>
        obtain ⟨q, hq, hqt⟩ := List.mem_map.1 ht
        exact .text (.andThen (puts_mapped (allows_type h hoffset (hr.types _ ps hps q hq t hqt)) rfl) fun _ => puts_text _)
    · have hclose := S.has_stop h
      rw [Text.size_toList] at hclose
      exact .text (.andThen (puts_close hb (Permit.allows_of_has hclose)) fun _ => .text (puts_declare _))

end Generate

end TypedSfc
