import Mathlib.Algebra.GroupWithZero.Nat
import Mathlib.Data.List.Basic
import TypedSfc.Mapping.Builder
import TypedSfc.Proofs.Mapping.Stream

/-!
# The map of a stream, said at once

What the builder makes segment by segment is said here of the stream as a whole: every mapped segment has a place in the generated
text, which is the size of all text before it; every segment that stands alone or opens a group heads an entry; and the links of an
entry are those of the segments of its group.
-/

namespace TypedSfc

/-- A mapped segment at its place in the generated text. -/
structure Placed where
  source : SourceId
  offset : Nat
  length : Nat
  generated : Nat
  info : Info
  deriving DecidableEq, Repr, Inhabited

namespace Placed

/-- The link of a segment; `bases` says where each source starts in the document. -/
def link (bases : List Nat) (p : Placed) : Link := ⟨bases.getD p.source 0 + p.offset, p.generated, p.length⟩

/-- Whether a segment begins an entry: it stands alone, or opens a group. -/
def isHead (p : Placed) : Bool :=
  match p.info.role with
  | none | some (.opens _) => true
  | some (.joins _) | some (.closes _) => false

/-- Whether a segment belongs to the group of a token. -/
def inGroup (t : Nat) (p : Placed) : Bool := p.info.role.any fun r => r.token = t

/-- The links of the entry that a segment heads, among the segments of its stream. -/
def links (bases : List Nat) (ps : List Placed) (p : Placed) : List Link :=
  match p.info.role with
  | none => [p.link bases]
  | some r => (ps.filter (·.inGroup r.token)).map (·.link bases)

/-- The entry that a segment heads. -/
def entry (bases : List Nat) (ps : List Placed) (p : Placed) : Entry := ⟨p.source, p.links bases ps, p.info.policy⟩

end Placed

namespace Segment

/-- The number of bytes of a stream. -/
def totalSize (ss : List Segment) : Nat := (ss.map size).sum

/-- A segment at a place, if it is mapped. -/
def placedAt (g : Nat) : Segment → Option Placed
  | text _ => none
  | mapped t s o i => some ⟨s, o, t.utf8ByteSize, g, i⟩

/-- The mapped segments of a stream, each behind the bytes of all segments before it. -/
def placed (ss : List Segment) : List Placed := ss.zipIdx.filterMap fun p => p.1.placedAt (totalSize (ss.take p.2))

/-- The segments that begin entries. -/
def heads (ss : List Segment) : List Placed := (placed ss).filter (·.isHead)

/-- The entries of a stream, each in the place of its first segment. -/
def entriesOf (bases : List Nat) (ss : List Segment) : List Entry := (heads ss).map (·.entry bases (placed ss))

/-! ## One segment more -/

theorem contents_snoc (ss : List Segment) (s : Segment) : contents (ss ++ [s]) = contents ss ++ s.content := by
  simp [contents, List.foldl_append]

theorem totalSize_snoc (ss : List Segment) (s : Segment) : totalSize (ss ++ [s]) = totalSize ss + s.size := by
  simp [totalSize]

/-- The size of the text of a stream is the sum of the sizes of its segments. -/
theorem utf8ByteSize_contents (ss : List Segment) : (contents ss).utf8ByteSize = totalSize ss := by
  induction ss using List.reverseRecOn with
  | nil => rfl
  | append_singleton ss s ih => rw [contents_snoc, String.utf8ByteSize_append, ih, totalSize_snoc, size]

theorem placed_snoc (ss : List Segment) (s : Segment) : placed (ss ++ [s]) = placed ss ++ (s.placedAt (totalSize ss)).toList := by
  unfold placed
  rw [List.zipIdx_append, List.filterMap_append]
  congr 1
  · apply List.filterMap_congr
    intro p hp
    have hlt : p.2 < ss.length := List.snd_lt_of_mem_zipIdx hp
    rw [List.take_append_of_le_length (Nat.le_of_lt hlt)]
  · cases h : s.placedAt (totalSize ss) <;> simp [h]

/-- The segment that is placed carries the role of the segment. -/
theorem role_of_placedAt {s : Segment} {g : Nat} {p : Placed} (h : s.placedAt g = some p) : p.info.role = s.role? := by
  cases s with
  | text t => simp [placedAt] at h
  | mapped t o b i => simp [placedAt] at h; simp [← h, role?]

/-- A place in a stream is that of one of its segments. -/
theorem exists_of_mem_placed {ss : List Segment} {p : Placed} (h : p ∈ placed ss) : ∃ s ∈ ss, ∃ g, s.placedAt g = some p := by
  simp only [placed, List.mem_filterMap] at h
  obtain ⟨q, hq, hp⟩ := h
  exact ⟨q.1, List.fst_mem_of_mem_zipIdx hq, _, hp⟩

/-- A role that is placed is under its token. -/
theorem role_mem_rolesOf {ss : List Segment} {p : Placed} {r : Role} (h : p ∈ placed ss) (hr : p.info.role = some r) :
    r ∈ rolesOf r.token ss := by
  obtain ⟨s, hs, g, hg⟩ := exists_of_mem_placed h
  exact mem_rolesOf.2 ⟨⟨s, hs, by rw [← role_of_placedAt hg, hr]⟩, rfl⟩

end Segment

/-! ## Adding links -/

namespace Builder

/-- Adding a link changes the links of one entry only. -/
theorem addLink_map {heads : List Placed} {f g : Placed → Entry} {n : Nat} {l : Link}
    (h : ∀ i p, heads[i]? = some p → g p = if i = n then { f p with links := (f p).links ++ [l] } else f p) :
    addLink n l (heads.map f) = heads.map g := by
  apply List.ext_getElem?
  intro i
  rw [addLink, List.getElem?_modify, List.getElem?_map, List.getElem?_map]
  cases hp : heads[i]? with
  | none => simp
  | some p =>
    by_cases hi : n = i
    · simp [h i p hp, hi]
    · simp [h i p hp, hi, Ne.symm hi]

/-- A link that is added to an entry is one more link of all. -/
theorem flatMap_addLink {n : Nat} {l : Link} {es : List Entry} (h : n < es.length) :
    ((addLink n l es).flatMap Entry.links).Perm (es.flatMap Entry.links ++ [l]) := by
  induction es generalizing n with
  | nil => simp at h
  | cons e es ih =>
    cases n with
    | zero =>
      simp only [addLink, List.modify_zero_cons, List.flatMap_cons, List.append_assoc]
      exact List.Perm.append_left _ List.perm_append_comm
    | succ n =>
      simp only [addLink, List.modify_succ_cons, List.flatMap_cons, List.append_assoc]
      exact List.Perm.append_left _ (ih (by simpa using h))

end Builder

open Segment

/-! ## The entries after one more segment -/

/-- The links of an entry after one more segment: those before, and the new one if it is of the group. -/
theorem Placed.links_snoc (bases : List Nat) (ps : List Placed) (p q : Placed) :
    q.links bases (ps ++ [p]) = q.links bases ps ++ match q.info.role with
      | some r => if p.inGroup r.token then [p.link bases] else []
      | none => [] := by
  unfold Placed.links
  cases q.info.role with
  | none => simp
  | some r => by_cases h : p.inGroup r.token <;> simp [h]

/-- The place of a segment behind others. -/
def Segment.behind (ss : List Segment) (t : String) (source : SourceId) (offset : Nat) (i : Info) : Placed :=
  ⟨source, offset, t.utf8ByteSize, totalSize ss, i⟩

theorem placed_mapped (ss : List Segment) (t : String) (source : SourceId) (offset : Nat) (i : Info) :
    placed (ss ++ [.mapped t source offset i]) = placed ss ++ [behind ss t source offset i] := by
  rw [placed_snoc]
  rfl

/-- The heads after one more segment: that segment is the last if it is one. -/
theorem heads_mapped (ss : List Segment) (t : String) (source : SourceId) (offset : Nat) (i : Info) :
    heads (ss ++ [.mapped t source offset i]) =
      heads ss ++ if (behind ss t source offset i).isHead then [behind ss t source offset i] else [] := by
  rw [heads, placed_mapped, List.filter_append]
  by_cases h : (behind ss t source offset i).isHead <;> simp [heads, h]

/-- No place of a stream is in the group of a token that was not met. -/
theorem not_inGroup_of_unmet {ss : List Segment} {t : Nat} (h : phase t ss = .unmet) : ∀ p ∈ placed ss, p.inGroup t = false := by
  intro p hp
  rw [phase_eq_unmet_iff] at h
  cases hr : p.info.role with
  | none => simp [Placed.inGroup, hr]
  | some r =>
    have hm := role_mem_rolesOf hp hr
    by_cases ht : r.token = t
    · rw [ht, h] at hm
      simp at hm
    · simp [Placed.inGroup, hr, ht]

/-- A head with a role opens the group of its token. -/
theorem role_of_isHead {p : Placed} {r : Role} (h : p.isHead = true) (hr : p.info.role = some r) : r = .opens r.token := by
  cases r with
  | opens t => rfl
  | joins t => simp [Placed.isHead, hr] at h
  | closes t => simp [Placed.isHead, hr] at h

theorem isHead_of_mem_heads {ss : List Segment} {p : Placed} (h : p ∈ heads ss) : p ∈ placed ss ∧ p.isHead = true := by
  simpa [heads] using h

/-- A new head changes no entry before it, when its group was not met. -/
theorem entriesOf_head {bases : List Nat} {ss : List Segment} {t : String} {source : SourceId} {offset : Nat} {i : Info}
    (hh : (behind ss t source offset i).isHead = true) (hu : ∀ r, i.role = some r → phase r.token ss = .unmet) :
    entriesOf bases (ss ++ [.mapped t source offset i]) =
      entriesOf bases ss ++ [⟨source, [(behind ss t source offset i).link bases], i.policy⟩] := by
  have hold : ∀ q ∈ heads ss, q.entry bases (placed ss ++ [behind ss t source offset i]) = q.entry bases (placed ss) := by
    intro q hq
    unfold Placed.entry
    rw [Placed.links_snoc]
    cases hr : q.info.role with
    | none => simp
    | some r =>
      have hout : (behind ss t source offset i).inGroup r.token = false := by
        cases hi : i.role with
        | none => simp [Placed.inGroup, behind, hi]
        | some r' =>
          by_cases ht : r'.token = r.token
          · have hin := not_inGroup_of_unmet (hu r' hi) q (isHead_of_mem_heads hq).1
            simp [Placed.inGroup, hr, ht] at hin
          · simp [Placed.inGroup, behind, hi, ht]
      simp [hout]
  have hnew : (behind ss t source offset i).links bases (placed ss ++ [behind ss t source offset i]) =
      [(behind ss t source offset i).link bases] := by
    cases hi : i.role with
    | none => simp [Placed.links, behind, hi]
    | some r =>
      have hin := not_inGroup_of_unmet (hu r hi)
      have hfilter : (placed ss).filter (·.inGroup r.token) = [] := by
        rw [List.filter_eq_nil_iff]
        intro p hp
        simp [hin p hp]
      have hself : (behind ss t source offset i).inGroup r.token = true := by simp [Placed.inGroup, behind, hi]
      have hrole : (behind ss t source offset i).info.role = some r := hi
      simp [Placed.links, hrole, List.filter_append, hfilter, hself]
  rw [entriesOf, heads_mapped, if_pos hh, placed_mapped, List.map_append]
  congr 1
  · exact List.map_congr_left hold
  · simp only [List.map_cons, List.map_nil, Placed.entry, hnew]
    rfl

/-- A segment of a running group changes the entry of its head only. -/
theorem entriesOf_inner {bases : List Nat} {ss : List Segment} {t : String} {source : SourceId} {offset n : Nat} {i : Info} {r : Role}
    {p : Placed} (hi : i.role = some r) (hh : (behind ss t source offset i).isHead = false) (hp : (heads ss)[n]? = some p)
    (ho : p.info.role = some (.opens r.token))
    (hu : (heads ss).Pairwise fun p q => ∀ t, p.info.role = some (.opens t) → q.info.role ≠ some (.opens t)) :
    entriesOf bases (ss ++ [.mapped t source offset i]) =
      Builder.addLink n ((behind ss t source offset i).link bases) (entriesOf bases ss) := by
  rw [entriesOf, heads_mapped, hh, placed_mapped]
  simp only [Bool.false_eq_true, if_false, List.append_nil]
  refine (Builder.addLink_map ?_).symm
  intro k q hq
  have hself : ∀ u, (behind ss t source offset i).inGroup u = decide (r.token = u) := by
    intro u
    simp [Placed.inGroup, behind, hi]
  rw [Placed.entry, Placed.links_snoc]
  by_cases hk : k = n
  · subst hk
    obtain rfl : p = q := Option.some.inj (hp.symm.trans hq)
    simp [Placed.entry, ho, hself, Role.token]
  · rw [if_neg hk, Placed.entry]
    cases hr : q.info.role with
    | none => simp
    | some r' =>
      have hr' := role_of_isHead (isHead_of_mem_heads (List.mem_of_getElem? hq)).2 hr
      have hne : r.token ≠ r'.token := by
        intro he
        rw [← he] at hr'
        rw [List.pairwise_iff_getElem] at hu
        obtain ⟨hn, rfl⟩ := List.getElem?_eq_some_iff.1 hp
        obtain ⟨hk', rfl⟩ := List.getElem?_eq_some_iff.1 hq
        rcases Nat.lt_or_gt_of_ne hk with hlt | hlt
        · exact hu k n hk' hn hlt r.token (hr.trans (congrArg some hr')) ho
        · exact hu n k hn hk' hlt r.token ho (hr.trans (congrArg some hr'))
      simp [hself, hne]

end TypedSfc
