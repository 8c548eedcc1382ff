import TypedSfc.Proofs.Generate.ListenerNames

/-!
# Names in parts

A hyphenated name is written in camelCase part by part, so that each part keeps its own place. The parts are found by cutting the name at
its hyphens and not by the walk that puts a name into camelCase as a whole, so it has to be shown that no part is missed and that both
write the same. Several parts make one group, whose token is new: it is whole from its first part to its last, and the groups that were
there before are as they were.
-/

namespace TypedSfc

open Segment

namespace Segment

/-- Segments under one token that was not met before make a group of their own. -/
theorem grouped_append_iff {as bs : List Segment} {t : Nat} (hnew : rolesOf t as = []) (hwhole : Role.Whole t (rolesOf t bs))
    (hother : ∀ u, u ≠ t → rolesOf u bs = []) : Grouped (as ++ bs) ↔ Grouped as := by
  refine forall_congr' fun u => ?_
  rw [rolesOf_append]
  by_cases hu : u = t
  · subst hu
    simp [hnew, hwhole]
  · rw [hother u hu, List.append_nil]

/-- Segments in no group leave a stream as it was. -/
theorem grouped_append_iff_of_alone {as bs : List Segment} (h : ∀ t, rolesOf t bs = []) : Grouped (as ++ bs) ↔ Grouped as := by
  refine forall_congr' fun t => ?_
  rw [rolesOf_append, h, List.append_nil]

end Segment

namespace Code

/-! ## Which parts there are -/

/-- A part of a text, at its place: what stands between two hyphens, or between a hyphen and an end of the text, or all of a text without
hyphens, and is not empty. -/
structure IsPart (cs : List Char) (p : Nat × List Char) : Prop where
  ne_nil : p.2 ≠ []
  hyphen_notMem : '-' ∉ p.2
  exists_around : ∃ front back, cs = front ++ p.2 ++ back ∧ Text.size front = p.1 ∧
    (∀ c ∈ front.getLast?, c = '-') ∧ ∀ c ∈ back.head?, c = '-'

/-- The parts of a name, each at its place. -/
def nameParts (name : String) : List (Nat × List Char) := (hyphenParts 0 [] name.toList).filter (!·.2.isEmpty)

/-- A part as it is written: the one at the start of a name as it is, and any other one capitalized. -/
def partText (p : Nat × List Char) : String := if p.1 = 0 then String.ofList p.2 else Text.capitalize (String.ofList p.2)

theorem camelParts_eq (name : String) : camelParts name = (nameParts name).map fun p => (p.1, partText p) := rfl

/-- Cutting goes on behind a hyphen as it does at the start. -/
theorem exists_hyphenParts_behind (pos : Nat) (part front rest : List Char) :
    ∃ ps, hyphenParts pos part (front ++ '-' :: rest) = ps ++ hyphenParts (pos + Text.size front + 1) [] rest := by
  induction front generalizing pos part with
  | nil => exact ⟨[_], rfl⟩
  | cons c front ih =>
    rw [List.cons_append, hyphenParts, Text.size_cons, ← Nat.add_assoc]
    split
    · obtain ⟨ps, hps⟩ := ih (pos + c.utf8Size) []
      exact ⟨_ :: ps, by rw [hps]; rfl⟩
    · exact ih (pos + c.utf8Size) (c :: part)

/-- What is cut at its hyphens behind `front` is a part of the whole; `part` is what came since the last hyphen, last first. -/
theorem isPart_of_mem_hyphenParts {front part cs : List Char} (hfront : ∀ c ∈ front.getLast?, c = '-') (hpart : '-' ∉ part)
    {p : Nat × List Char} (hp : p ∈ hyphenParts (Text.size front + Text.size part) part cs) (hne : p.2 ≠ []) :
    IsPart (front ++ part.reverse ++ cs) p := by
  have hstart : Text.size front + Text.size part - Text.size part = Text.size front := Nat.add_sub_cancel ..
  have hreverse : '-' ∉ part.reverse := mt List.mem_reverse.1 hpart
  induction cs generalizing front part with
  | nil =>
    rw [hyphenParts, hstart, List.mem_singleton] at hp
    subst hp
    exact ⟨hne, hreverse, front, [], rfl, rfl, hfront, by simp⟩
  | cons c cs ih =>
    rw [hyphenParts] at hp
    split at hp
    · rename_i hc
      obtain rfl : c = '-' := by simpa using hc
      rcases List.mem_cons.1 hp with rfl | hp
      · exact ⟨hne, hreverse, front, '-' :: cs, rfl, hstart.symm, hfront, by simp⟩
      · have hsize : Text.size front + Text.size part + '-'.utf8Size = Text.size (front ++ part.reverse ++ ['-']) + Text.size [] := by
          simp only [Text.size_append, Text.size_reverse, Text.size_cons, Text.size_nil, Nat.add_zero]
        rw [hsize] at hp
        have hends : ∀ c ∈ (front ++ part.reverse ++ ['-']).getLast?, c = '-' := by simp
        simpa using ih hends List.not_mem_nil hp (by simp) (by simp)
    · rename_i hc
      have hsize : Text.size front + Text.size part + c.utf8Size = Text.size front + Text.size (c :: part) := by
        rw [Text.size_cons]
        omega
      rw [hsize] at hp
      have hmem : '-' ∉ c :: part := by simpa [hpart] using Ne.symm (by simpa using hc)
      simpa using ih hfront hmem hp (by simp) (mt List.mem_reverse.1 hmem)

/-- The parts of a name are those that it is cut into. -/
theorem mem_nameParts_iff (name : String) (p : Nat × List Char) : p ∈ nameParts name ↔ IsPart name.toList p := by
  constructor
  · intro hp
    obtain ⟨hp, hne⟩ := List.mem_filter.1 hp
    have hempty : ∀ c ∈ ([] : List Char).getLast?, c = '-' := by simp
    exact isPart_of_mem_hyphenParts hempty List.not_mem_nil hp (by simpa using hne)
  · rintro ⟨hne, hhyphen, front, back, hcs, hsize, hfront, hback⟩
    refine List.mem_filter.2 ⟨?_, by simpa using hne⟩
    -- A part that is cut off at some position is the first one from there on.
    have hfirst : ∀ pos, (pos, p.2) ∈ hyphenParts pos [] (p.2 ++ back) := by
      intro pos
      rw [hyphenParts_append hhyphen]
      cases back with
      | nil => simp [hyphenParts, Text.size_reverse]
      | cons c back => simp [hyphenParts, Text.size_reverse, hback c rfl]
    rcases List.eq_nil_or_concat front with rfl | ⟨front, c, rfl⟩
    · have hpos : p = (0, p.2) := Prod.ext hsize.symm rfl
      rw [hcs, hpos]
      exact hfirst 0
    · obtain rfl : c = '-' := hfront c (by simp)
      have hpos : p = (0 + Text.size front + 1, p.2) := by
        rw [List.concat_eq_append, Text.size_append] at hsize
        rw [Nat.zero_add]
        exact Prod.ext hsize.symm rfl
      obtain ⟨ps, hps⟩ := exists_hyphenParts_behind 0 [] front (p.2 ++ back)
      rw [hcs, List.concat_eq_append, List.append_assoc, List.append_assoc, List.singleton_append, hps, List.mem_append]
      exact .inr (hpos ▸ hfirst _)

theorem le_of_mem_hyphenParts {pos : Nat} {part cs : List Char} {p : Nat × List Char} (hp : p ∈ hyphenParts pos part cs) :
    pos - Text.size part ≤ p.1 := by
  induction cs generalizing pos part with
  | nil =>
    rw [hyphenParts, List.mem_singleton] at hp
    exact hp ▸ Nat.le_refl _
  | cons c cs ih =>
    rw [hyphenParts] at hp
    split at hp
    · rcases List.mem_cons.1 hp with rfl | hp
      · exact Nat.le_refl _
      · have h := ih hp
        rw [Text.size_nil] at h
        omega
    · have h := ih hp
      rw [Text.size_cons] at h
      omega

/-- The parts come in order. -/
theorem pairwise_hyphenParts (pos : Nat) (part cs : List Char) : (hyphenParts pos part cs).Pairwise fun p q => p.1 < q.1 := by
  induction cs generalizing pos part with
  | nil => exact List.pairwise_singleton ..
  | cons c cs ih =>
    rw [hyphenParts]
    split
    · rename_i hc
      obtain rfl : c = '-' := by simpa using hc
      refine List.pairwise_cons.2 ⟨fun q hq => ?_, ih _ _⟩
      have h : pos + 1 - Text.size [] ≤ q.1 := le_of_mem_hyphenParts hq
      rw [Text.size_nil] at h
      dsimp only
      omega
    · exact ih _ _

theorem pairwise_nameParts (name : String) : (nameParts name).Pairwise fun p q => p.1 < q.1 :=
  (pairwise_hyphenParts 0 [] name.toList).filter _

/-- A name that is not empty in camelCase has a part. -/
theorem nameParts_ne_nil {name : String} (h : camelSpelling name ≠ "") : nameParts name ≠ [] := by
  intro hnil
  rw [camelSpelling, camelParts_eq, hnil] at h
  exact h rfl

/-! ## What they are written as -/

/-- What the pieces of a name carry: what is given, if there is one piece; and else they make a group, the first one with the policy that
is given and the others without one. -/
def pieceInfos (i : Info) (token : Nat) : Nat → List Info
  | 0 => []
  | 1 => [i]
  | n + 2 =>
    i.withRole (.opens token) :: (List.replicate n (Info.silent.withRole (.joins token)) ++ [Info.silent.withRole (.closes token)])

/-- Parts as pieces of a source. -/
def pieces (source : SourceId) (offset : Nat) (ps : List (Nat × List Char)) (infos : List Info) : List Segment :=
  List.zipWith (fun p i => .mapped (partText p) source (offset + p.1) i) ps infos

variable {source : SourceId} {offset : Nat} {ps : List (Nat × List Char)}

theorem pieces_cons (p : Nat × List Char) (i : Info) (infos : List Info) :
    pieces source offset (p :: ps) (i :: infos) = .mapped (partText p) source (offset + p.1) i :: pieces source offset ps infos := rfl

theorem length_pieceInfos (i : Info) (token n : Nat) : (pieceInfos i token n).length = n := by
  match n with
  | 0 => rfl
  | 1 => rfl
  | n + 2 => simp [pieceInfos]

theorem segments_groupParts (c : Code) (source : SourceId) (offset token : Nat) {ps : List (Nat × List Char)} {n : Nat}
    (hn : ps.length = n + 1) :
    (c.groupParts source offset token (ps.map fun p => (p.1, partText p))).segments = c.segments ++ pieces source offset ps
      (List.replicate n (Info.silent.withRole (.joins token)) ++ [Info.silent.withRole (.closes token)]) := by
  induction ps generalizing c n with
  | nil => cases hn
  | cons p ps ih =>
    cases ps with
    | nil =>
      obtain rfl : n = 0 := (Nat.succ.inj hn).symm
      rfl
    | cons q ps =>
      obtain ⟨m, rfl⟩ : ∃ m, n = m + 1 := ⟨ps.length, (Nat.succ.inj hn).symm⟩
      have h := ih (c.add (.mapped (partText p) source (offset + p.1) (Info.silent.withRole (.joins token)))) (Nat.succ.inj hn)
      exact h.trans (List.append_assoc _ [_] _)

theorem nextToken_groupParts (c : Code) (source : SourceId) (offset token : Nat) (ps : List (Nat × String)) :
    (c.groupParts source offset token ps).nextToken = c.nextToken := by
  induction ps generalizing c with
  | nil => rfl
  | cons p ps ih =>
    cases ps with
    | nil => rfl
    | cons q ps => exact ih _

/-- The pieces that a name is written as. -/
theorem segments_camelized_eq (c : Code) (name : String) (source : SourceId) (offset : Nat) (i : Info) :
    (c.camelized name source offset i).segments = c.segments ++
      pieces source offset (nameParts name) (pieceInfos (c.resolve i) c.nextToken (nameParts name).length) := by
  unfold camelized
  rw [camelParts_eq]
  match nameParts name with
  | [] => exact (List.append_nil _).symm
  | [p] => rfl
  | p :: q :: ps =>
    have hrest : (q :: ps).length = ps.length + 1 := rfl
    exact (segments_groupParts _ source offset c.nextToken hrest).trans (List.append_assoc _ [_] _)

theorem nextToken_camelized (c : Code) (name : String) (source : SourceId) (offset : Nat) (i : Info) :
    (c.camelized name source offset i).nextToken = if 2 ≤ (nameParts name).length then c.nextToken + 1 else c.nextToken := by
  unfold camelized
  rw [camelParts_eq]
  match nameParts name with
  | [] => rfl
  | [p] => rfl
  | p :: q :: ps => exact (nextToken_groupParts ..).trans (if_pos (by simp)).symm

theorem camelizedIn_eq (c : Code) (b : Boundary) (name : String) (offset : Nat) : c.camelizedIn b name offset =
    c.extend (pieces b.source offset (nameParts name)
      (List.replicate (nameParts name).length (Info.silent.withRole (.joins b.token)))) := by
  unfold camelizedIn extend
  rw [camelParts_eq]
  generalize nameParts name = ps
  induction ps generalizing c with
  | nil => exact congrArg (Code.mk · c.nextToken c.effect) (List.append_nil _).symm
  | cons p ps ih =>
    rw [List.map_cons, List.foldl_cons, ih]
    exact congrArg (Code.mk · c.nextToken c.effect) (List.append_assoc _ [_] _)

/-- The text of pieces does not depend on what they carry. -/
theorem contents_pieces {infos : List Info} (h : infos.length = ps.length) :
    contents (pieces source offset ps infos) = String.join (ps.map partText) := by
  rw [contents_eq_join]
  induction ps generalizing infos with
  | nil => rfl
  | cons p ps ih =>
    obtain ⟨i, infos, rfl⟩ := List.exists_cons_of_length_eq_add_one h
    rw [pieces_cons, List.map_cons, List.map_cons, String.join_cons, String.join_cons]
    exact congrArg (partText p ++ ·) (ih (Nat.succ.inj h))

theorem toText_camelized (c : Code) (name : String) (source : SourceId) (offset : Nat) (i : Info) :
    (c.camelized name source offset i).toText = c.toText ++ camelSpelling name := by
  unfold toText
  rw [segments_camelized_eq, contents_append, contents_pieces (length_pieceInfos ..), camelSpelling, camelParts_eq, List.map_map]
  rfl

/-! ## Groups -/

theorem filterMap_role?_pieces {infos : List Info} (h : infos.length = ps.length) :
    (pieces source offset ps infos).filterMap role? = infos.filterMap (·.role) := by
  induction ps generalizing infos with
  | nil =>
    obtain rfl := List.length_eq_zero_iff.1 h
    rfl
  | cons p ps ih =>
    obtain ⟨i, infos, rfl⟩ := List.exists_cons_of_length_eq_add_one h
    have htail := ih (Nat.succ.inj h)
    rw [pieces_cons]
    cases hi : i.role with
    | none =>
      have hs : role? (.mapped (partText p) source (offset + p.1) i) = none := hi
      rw [List.filterMap_cons_none hs, List.filterMap_cons_none hi, htail]
    | some r =>
      have hs : role? (.mapped (partText p) source (offset + p.1) i) = some r := hi
      rw [List.filterMap_cons_some hs, List.filterMap_cons_some hi, htail]

/-- The roles of pieces are those that they carry. -/
theorem rolesOf_pieces {infos : List Info} (h : infos.length = ps.length) (t : Nat) :
    rolesOf t (pieces source offset ps infos) = (infos.filterMap (·.role)).filter fun r => r.token = t := by
  rw [rolesOf, filterMap_role?_pieces h]

theorem exists_of_mem_pieces {infos : List Info} {s : Segment} (hs : s ∈ pieces source offset ps infos) :
    ∃ p ∈ ps, ∃ i, s = .mapped (partText p) source (offset + p.1) i := by
  unfold pieces at hs
  obtain ⟨k, hk, rfl⟩ := List.getElem_of_mem hs
  rw [List.getElem_zipWith]
  exact ⟨_, List.getElem_mem _, _, rfl⟩

/-- Pieces name known sources just when their one source is known. -/
theorem known_pieces {infos : List Info} (h : infos.length = ps.length) (hne : ps ≠ []) {n : Nat} :
    Known n (pieces source offset ps infos) ↔ source < n := by
  have hsource : ∀ s ∈ pieces source offset ps infos, s.source? = some source := by
    intro s hs
    obtain ⟨p, -, i, rfl⟩ := exists_of_mem_pieces hs
    rfl
  refine ⟨fun hknown => ?_, fun hlt s hs source' hs' => ?_⟩
  · have hmem : (pieces source offset ps infos) ≠ [] := by
      intro hnil
      have hlength := congrArg List.length hnil
      rw [pieces, List.length_zipWith, h, Nat.min_self] at hlength
      exact hne (List.length_eq_zero_iff.1 hlength)
    obtain ⟨s, ss, hs⟩ := List.exists_cons_of_ne_nil hmem
    have hmem : s ∈ pieces source offset ps infos := by simp [hs]
    exact hknown s hmem source (hsource s hmem)
  · obtain rfl := Option.some.inj ((hsource s hs).symm.trans hs')
    exact hlt

/-- Several pieces have the roles of a whole group under their token, and none under any other one. -/
theorem filter_role_pieceInfos (i : Info) (token n t : Nat) :
    ((pieceInfos i token (n + 2)).filterMap (·.role)).filter (fun r => r.token = t) =
      if t = token then .opens token :: (List.replicate n (.joins token) ++ [.closes token]) else [] := by
  have hroles : (pieceInfos i token (n + 2)).filterMap (·.role) =
      .opens token :: (List.replicate n (.joins token) ++ [.closes token]) := by
    simp [pieceInfos, Info.withRole]
  rw [hroles]
  split
  · subst t
    exact List.filter_eq_self.2 fun r hr => by
      rcases List.mem_cons.1 hr with rfl | hr
      · simp [Role.token]
      · rcases List.mem_append.1 hr with hr | hr
        · simp [List.eq_of_mem_replicate hr, Role.token]
        · simp [List.mem_singleton.1 hr, Role.token]
  · rename_i ht
    simp [Role.token, Ne.symm ht]

/-- Whether the token that comes next, and any later one, is in no segment of a buffer. -/
def Ahead (c : Code) : Prop := ∀ t, c.nextToken ≤ t → rolesOf t c.segments = []

/-- Whether the builder answers for a buffer. -/
def Finishes (bases : List Nat) (c : Code) : Prop := ∃ r, ((Builder.new bases).pushAll c.segments).finish = .ok r

/-- A name in several parts is a group of its own, and a name in one part is in no group, unless it is told to be; so a map is made as
before. -/
theorem camelized_finishes (c : Code) {name : String} (hne : nameParts name ≠ []) (source : SourceId) (offset : Nat) {i : Info}
    (hi : i.role = none ∨ 2 ≤ (nameParts name).length) (hc : c.Ahead) :
    (c.camelized name source offset i).Ahead ∧
      ∀ bases, (c.camelized name source offset i).Finishes bases ↔ c.Finishes bases ∧ source < bases.length := by
  have hlength := length_pieceInfos (c.resolve i) c.nextToken (nameParts name).length
  have hsegments := segments_camelized_eq c name source offset i
  have hnext := nextToken_camelized c name source offset i
  have hknown : ∀ n, Known n (pieces source offset (nameParts name) _) ↔ source < n := fun n => known_pieces hlength hne
  have hroles := fun t => @rolesOf_pieces source offset _ _ hlength t
  generalize pieces source offset (nameParts name) _ = new at *
  have hfinishes : (Grouped (c.segments ++ new) ↔ Grouped c.segments) → ∀ bases,
      (c.camelized name source offset i).Finishes bases ↔ c.Finishes bases ∧ source < bases.length := by
    intro hgrouped bases
    unfold Finishes
    rw [Builder.exists_finish_iff, Builder.exists_finish_iff, hsegments, known_append, hknown, hgrouped]
    exact and_right_comm
  by_cases htwo : 2 ≤ (nameParts name).length
  · obtain ⟨n, hn⟩ := Nat.exists_eq_add_of_le' htwo
    rw [hn] at hroles
    rw [if_pos htwo] at hnext
    simp only [filter_role_pieceInfos] at hroles
    refine ⟨fun t ht => ?_, hfinishes (grouped_append_iff (hc _ (Nat.le_refl _)) ⟨n, ?_⟩ fun u hu => ?_)⟩
    · rw [hnext] at ht
      rw [hsegments, rolesOf_append, hc t (Nat.le_of_succ_le ht), hroles, if_neg (Nat.ne_of_gt ht)]
      rfl
    · rw [hroles, if_pos rfl]
    · rw [hroles, if_neg hu]
  · have hone : (nameParts name).length = 1 := by
      have hpos := List.length_pos_iff.2 hne
      omega
    have hnone : (c.resolve i).role = none := hi.resolve_right htwo
    have halone : ∀ t, rolesOf t new = [] := by
      intro t
      rw [hroles, hone, pieceInfos, List.filterMap_cons_none hnone]
      rfl
    rw [if_neg htwo] at hnext
    refine ⟨fun t ht => ?_, hfinishes (grouped_append_iff_of_alone halone)⟩
    rw [hsegments, rolesOf_append, halone, List.append_nil]
    exact hc t (hnext ▸ ht)

/-! ## The two ways -/

/-- A name that is a plain identifier in camelCase is written as it is in camelCase, in pieces that are all of its parts, each once, in
order and at its own place. In an open group the pieces join it. Without one they make a group of their own just when there are several:
the first piece opens it and gives it its policy, the last one closes it, and the others join it. Its token is new, so that a map is
made if one was made without it. -/
theorem camelized_agrees {name : String} (h : Text.isPlainIdent (Text.camelize name) = true) :
    ∃ ps, ps ≠ [] ∧ (ps.Pairwise fun p q => p.1 < q.1) ∧ (∀ p, p ∈ ps ↔ IsPart name.toList p) ∧
      (∀ (c : Code) (source : SourceId) (offset : Nat) (i : Info),
        (c.camelized name source offset i).toText = c.toText ++ Text.camelize name ∧
        (c.camelized name source offset i).segments =
          c.segments ++ pieces source offset ps (pieceInfos (c.resolve i) c.nextToken ps.length) ∧
        (c.camelized name source offset i).nextToken = (if 2 ≤ ps.length then c.nextToken + 1 else c.nextToken) ∧
        (i.role = none ∨ 2 ≤ ps.length → c.Ahead → (c.camelized name source offset i).Ahead ∧
          ∀ bases, (c.camelized name source offset i).Finishes bases ↔ c.Finishes bases ∧ source < bases.length)) ∧
      ∀ (c : Code) (b : Boundary) (offset : Nat),
        (c.camelizedIn b name offset).toText = c.toText ++ Text.camelize name ∧
        c.camelizedIn b name offset = c.extend (pieces b.source offset ps
          (List.replicate ps.length (Info.silent.withRole (.joins b.token)))) := by
  have hspelling : camelSpelling name = Text.camelize name :=
    (camelSpelling_eq_camelize_iff name).2 ((Text.hyphen_notMem_camelChars_iff _).1 (by
      simpa [Text.camelize] using Text.hyphen_notMem_of_isPlainIdent h))
  have hne : nameParts name ≠ [] := by
    refine nameParts_ne_nil fun hempty => ?_
    rw [← hspelling, hempty] at h
    cases h
  refine ⟨nameParts name, hne, pairwise_nameParts name, mem_nameParts_iff name, fun c source offset i => ?_, fun c b offset => ?_⟩
  · rw [toText_camelized, hspelling]
    exact ⟨rfl, segments_camelized_eq .., nextToken_camelized .., fun hi hc => camelized_finishes c hne source offset hi hc⟩
  · rw [toText_camelizedIn, hspelling]
    exact ⟨rfl, camelizedIn_eq ..⟩

/-- The parts of `foo-bar-baz` make one group, of which a map is made. -/
theorem camelized_agrees_three : Text.isPlainIdent (Text.camelize "foo-bar-baz") = true ∧
    (({} : Code).camelized "foo-bar-baz" SourceId.template 4 .checked).toText = "fooBarBaz" ∧
    (({} : Code).camelized "foo-bar-baz" SourceId.template 4 .checked).Finishes [0, 0] := by
  have h : Text.isPlainIdent (Text.camelize "foo-bar-baz") = true := by decide +kernel
  obtain ⟨ps, -, -, -, hwrites, -⟩ := camelized_agrees h
  obtain ⟨htext, -, -, hfinishes⟩ := hwrites {} SourceId.template 4 .checked
  have hahead : Ahead {} := fun _ _ => rfl
  obtain ⟨-, hiff⟩ := hfinishes (.inl rfl) hahead
  refine ⟨h, htext.trans ?_, (hiff [0, 0]).2 ⟨⟨_, rfl⟩, by decide⟩⟩
  have hcamel : Text.camelize "foo-bar-baz" = "fooBarBaz" := by decide +kernel
  rw [hcamel]
  rfl

end Code

end TypedSfc
