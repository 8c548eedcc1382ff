import TypedSfc.Generate.Code
import TypedSfc.Proofs.Mapping.Placed
import TypedSfc.Proofs.Text.Places

/-!
# Replacing a range of a source

A range of a source is replaced in one segment, the first one that stands for text around it. What a buffer says is the list of its
bytes, each with the place that it stands for, and an edit is a cut of this list: `bytes_cons_mapped` says that the two parts of a
mapped text have the places that they have in the whole, so what is left of the segment is a beginning and an end of its bytes.
-/

namespace TypedSfc

/-- The place that a byte stands for, and what is said of it there. -/
structure Origin where
  source : SourceId
  offset : Nat
  info : Info
  deriving DecidableEq, Repr, Inhabited

namespace Text

/-- The bytes of a text. -/
def bytes (t : String) : List UInt8 := t.toByteArray.data.toList

@[simp] theorem length_bytes (t : String) : (bytes t).length = t.utf8ByteSize := by simp [bytes]

@[simp] theorem bytes_append (t u : String) : bytes (t ++ u) = bytes t ++ bytes u := by simp [bytes]

end Text

namespace Segment

/-- The bytes of a segment, each with the place that it stands for if it stands for one. -/
def bytes : Segment → List (UInt8 × Option Origin)
  | text t => (Text.bytes t).map fun b => (b, none)
  | mapped t source offset i => ((Text.bytes t).zipIdx offset).map fun b => (b.1, some ⟨source, b.2, i⟩)

@[simp] theorem length_bytes (s : Segment) : s.bytes.length = s.size := by
  cases s <;> simp [bytes, size, content]

theorem map_fst_bytes (s : Segment) : s.bytes.map Prod.fst = Text.bytes s.content := by
  cases s with
  | text t => simp [bytes, content, Function.comp_def]
  | mapped t source offset i =>
    rw [bytes, List.map_map]
    exact List.zipIdx_map_fst ..

/-- Both parts of a mapped text have the places that they have in the whole. -/
theorem bytes_mapped_append (t u : String) (source : SourceId) (offset : Nat) (i : Info) :
    (mapped (t ++ u) source offset i).bytes =
      (mapped t source offset i).bytes ++ (mapped u source (offset + t.utf8ByteSize) i).bytes := by
  simp [bytes, List.zipIdx_append]

theorem length_flatMap_bytes (ss : List Segment) : (ss.flatMap bytes).length = totalSize ss := by
  simp [totalSize, List.length_flatMap]

/-- The text of a stream is what its bytes say. -/
theorem bytes_contents (ss : List Segment) : Text.bytes (contents ss) = (ss.flatMap bytes).map Prod.fst := by
  induction ss using List.reverseRecOn with
  | nil => rfl
  | append_singleton ss s ih =>
    rw [contents_snoc, Text.bytes_append, ih, List.flatMap_append, List.flatMap_singleton, List.map_append, map_fst_bytes]

/-- A mapped text, if it is one. -/
def part (cs : List Char) (source : SourceId) (offset : Nat) (i : Info) : List Segment :=
  if cs.isEmpty then [] else [mapped (String.ofList cs) source offset i]

/-- A text of its own, if it is one. -/
def own (t : String) : List Segment := if t.isEmpty then [] else [text t]

theorem bytes_part (cs : List Char) (source : SourceId) (offset : Nat) (i : Info) :
    (part cs source offset i).flatMap bytes = (mapped (String.ofList cs) source offset i).bytes := by
  unfold part
  split
  · rename_i hempty
    obtain rfl := List.isEmpty_iff.1 hempty
    rfl
  · rw [List.flatMap_singleton]

theorem bytes_own (t : String) : (own t).flatMap bytes = (text t).bytes := by
  unfold own
  split
  · rename_i hempty
    obtain rfl := String.isEmpty_iff.1 hempty
    rfl
  · rw [List.flatMap_singleton]

theorem eq_of_mem_part {cs : List Char} {source : SourceId} {offset : Nat} {i : Info} {s : Segment}
    (h : s ∈ part cs source offset i) : s = mapped (String.ofList cs) source offset i ∧ cs ≠ [] := by
  unfold part at h
  split at h
  · cases h
  · rename_i hempty
    exact ⟨List.mem_singleton.1 h, fun hnil => hempty (List.isEmpty_iff.2 hnil)⟩

theorem eq_of_mem_own {t : String} {s : Segment} (h : s ∈ own t) : s = text t ∧ t ≠ "" := by
  unfold own at h
  split at h
  · cases h
  · rename_i hempty
    exact ⟨List.mem_singleton.1 h, fun hnil => hempty (String.isEmpty_iff.2 hnil)⟩

end Segment

namespace Code

open Segment

/-! ## The segment that is cut -/

/-- Where a range of a source is replaced in a stream: in the first segment that stands for text around the range, with what is in front
of the segment and behind it, and what is left of its text in front of the range and behind it. -/
structure Cut (source : SourceId) (start stop : Nat) (ss : List Segment) where
  front : List Segment
  text : String
  offset : Nat
  info : Info
  back : List Segment
  eq : ss = front ++ .mapped text source offset info :: back
  nonempty : text ≠ ""
  offset_le : offset ≤ start
  le_offset : stop ≤ offset + text.utf8ByteSize
  first : ∀ t o i, .mapped t source o i ∈ front → t ≠ "" → o ≤ start → o + t.utf8ByteSize < stop
  head : List Char
  tail : List Char
  size_head : Text.size head = start - offset
  begins : ∃ more, text.toList = head ++ more
  offset_le_stop : offset ≤ stop
  ends : Text.Rest text.toList (stop - offset) tail

variable {source : SourceId} {start stop : Nat} {new : String} {ss ss' : List Segment}

namespace Cut

/-- The segment that is cut. -/
def segment (x : Cut source start stop ss) : Segment := .mapped x.text source x.offset x.info

/-- What takes the place of the segment. -/
def pieces (x : Cut source start stop ss) (new : String) : List Segment :=
  part x.head source x.offset x.info ++ (own new ++ part x.tail source stop x.info)

/-- The stream with the range replaced. -/
def segments (x : Cut source start stop ss) (new : String) : List Segment := x.front ++ (x.pieces new ++ x.back)

theorem mem_pieces (x : Cut source start stop ss) {a : Segment} (h : a ∈ x.pieces new) :
    a = .mapped (String.ofList x.head) source x.offset x.info ∨ a = .text new ∨ a = .mapped (String.ofList x.tail) source stop x.info := by
  rcases List.mem_append.1 h with h | h
  · exact .inl (eq_of_mem_part h).1
  · rcases List.mem_append.1 h with h | h
    · exact .inr (.inl (eq_of_mem_own h).1)
    · exact .inr (.inr (eq_of_mem_part h).1)

theorem content_ne_empty (x : Cut source start stop ss) (new : String) : ∀ a ∈ x.pieces new, a.content ≠ "" := by
  have hpart : ∀ {cs : List Char}, cs ≠ [] → String.ofList cs ≠ "" := by
    intro cs hcs heq
    have hlist := congrArg String.toList heq
    rw [String.toList_ofList] at hlist
    exact hcs hlist
  intro a ha
  rcases List.mem_append.1 ha with ha | ha
  · obtain ⟨rfl, hne⟩ := eq_of_mem_part ha
    exact hpart hne
  · rcases List.mem_append.1 ha with ha | ha
    · obtain ⟨rfl, hne⟩ := eq_of_mem_own ha
      exact hne
    · obtain ⟨rfl, hne⟩ := eq_of_mem_part ha
      exact hpart hne

end Cut

theorem covers_mapped_iff {t : String} {s : SourceId} {o : Nat} {i : Info} : covers source start stop (.mapped t s o i) = true ↔
    s = source ∧ t ≠ "" ∧ o ≤ start ∧ stop ≤ o + t.utf8ByteSize := by
  simp [covers, and_assoc]

theorem replaceIn?_append {front ss : List Segment} (h : ∀ a ∈ front, covers source start stop a = false) :
    replaceIn? source start stop new (front ++ ss) = (replaceIn? source start stop new ss).map (front ++ ·) := by
  induction front with
  | nil => simp
  | cons a front ih =>
    obtain ⟨ha, hfront⟩ := List.forall_mem_cons.1 h
    rw [List.cons_append, replaceIn?.eq_def]
    dsimp only
    rw [if_neg (by rw [ha]; decide), ih hfront, Option.map_map]
    rfl

theorem replaceIn?_eq_none {ss : List Segment} (h : ∀ a ∈ ss, covers source start stop a = false) :
    replaceIn? source start stop new ss = none := by
  have happend : replaceIn? source start stop new (ss ++ []) = (replaceIn? source start stop new []).map (ss ++ ·) := replaceIn?_append h
  rwa [List.append_nil] at happend

theorem Cut.covers_front (x : Cut source start stop ss) : ∀ a ∈ x.front, covers source start stop a = false := by
  intro a ha
  cases a with
  | text t => rfl
  | mapped t s o i =>
    rw [Bool.eq_false_iff]
    intro hcovers
    obtain ⟨rfl, hne, hlo, hhi⟩ := covers_mapped_iff.1 hcovers
    exact absurd hhi (Nat.not_le.2 (x.first t o i ha hne hlo))

/-- What a replacement in a stream comes to. -/
theorem Cut.replaceIn?_eq (x : Cut source start stop ss) : replaceIn? source start stop new ss = some (x.segments new) := by
  have hcovers : covers source start stop (.mapped x.text source x.offset x.info) = true :=
    covers_mapped_iff.2 ⟨rfl, x.nonempty, x.offset_le, x.le_offset⟩
  obtain ⟨more, hmore⟩ := x.begins
  have hhead : Text.takeBytes (start - x.offset) x.text.toList = some x.head := by
    rw [hmore, ← x.size_head]
    exact Text.takeBytes_append ..
  have hstop : x.offset + (stop - x.offset) = stop := Nat.add_sub_cancel' x.offset_le_stop
  have hcut : replaceIn x.text source x.offset x.info (start - x.offset) (stop - x.offset) new = some (x.pieces new) := by
    rw [replaceIn, hhead, Option.bind_some, x.ends.dropBytes_eq, hstop]
    exact congrArg some (List.append_assoc ..)
  have hsegment : replaceIn? source start stop new (.mapped x.text source x.offset x.info :: x.back) = some (x.pieces new ++ x.back) := by
    rw [replaceIn?.eq_def]
    dsimp only
    rw [if_pos hcovers, if_neg (Nat.not_lt.2 x.offset_le_stop), hcut]
    rfl
  calc replaceIn? source start stop new ss
      = replaceIn? source start stop new (x.front ++ .mapped x.text source x.offset x.info :: x.back) :=
        congrArg _ x.eq
    _ = some (x.segments new) := by
        rw [replaceIn?_append x.covers_front, hsegment]
        rfl

/-- A range is replaced where its segment is cut. -/
theorem exists_cut_of_replaceIn? (h : replaceIn? source start stop new ss = some ss') :
    ∃ x : Cut source start stop ss, ss' = x.segments new := by
  suffices hcut : Nonempty (Cut source start stop ss) by
    obtain ⟨x⟩ := hcut
    exact ⟨x, Option.some.inj (h.symm.trans x.replaceIn?_eq)⟩
  induction ss generalizing ss' with
  | nil => cases h
  | cons s ss ih =>
    rw [replaceIn?.eq_def] at h
    dsimp only at h
    split at h
    · rename_i hcovers
      cases s with
      | text t => cases h
      | mapped t src o i =>
        obtain ⟨rfl, hne, hlo, hhi⟩ := covers_mapped_iff.1 hcovers
        obtain ⟨hstop, h⟩ := Option.ite_none_left_eq_some.1 h
        obtain ⟨as, has, -⟩ := Option.map_eq_some_iff.1 h
        obtain ⟨u, hu, has⟩ := Option.bind_eq_some_iff.1 has
        obtain ⟨v, hv, -⟩ := Option.map_eq_some_iff.1 has
        obtain ⟨more, hmore, hsize⟩ := Text.exists_of_takeBytes hu
        exact ⟨⟨[], t, o, i, ss, rfl, hne, hlo, hhi, fun _ _ _ h => absurd h List.not_mem_nil, u, v, hsize, ⟨more, hmore⟩,
          Nat.le_of_not_lt hstop, Text.rest_of_dropBytes hv⟩⟩
    · rename_i hs
      obtain ⟨rest, hrest, -⟩ := Option.map_eq_some_iff.1 h
      obtain ⟨x⟩ := ih hrest
      refine ⟨{ x with front := s :: x.front, eq := congrArg (s :: ·) x.eq, first := ?_ }⟩
      intro t o i h hne hlo
      rcases List.mem_cons.1 h with rfl | h
      · by_contra hhi
        exact hs (covers_mapped_iff.2 ⟨rfl, hne, hlo, Nat.le_of_not_lt hhi⟩)
      · exact x.first t o i h hne hlo

/-- The segments of a buffer in which a range is replaced. -/
theorem segments_replaceRange (c : Code) : (c.replaceRange source start stop new).2.segments =
    (replaceIn? source start stop new c.segments).getD c.segments := by
  unfold replaceRange
  split <;> rename_i h <;> rw [h] <;> rfl

theorem Cut.replaceRange_eq {c : Code} (x : Cut source start stop c.segments) (new : String) :
    c.replaceRange source start stop new = (true, { c with segments := x.segments new }) := by
  rw [replaceRange, x.replaceIn?_eq]

/-- A buffer whose segments cannot be cut stays as it is. -/
theorem replaceRange_of_not_nonempty {c : Code} (h : ¬Nonempty (Cut source start stop c.segments)) (new : String) :
    c.replaceRange source start stop new = (false, c) := by
  unfold replaceRange
  split
  · rename_i ss hss
    obtain ⟨x, -⟩ := exists_cut_of_replaceIn? hss
    exact absurd ⟨x⟩ h
  · rfl

/-- What holds of every text of its own, and of the parts of a mapped text of which it holds, still holds of all segments of a buffer
when a range is replaced. -/
theorem forall_replaceRange {P : Segment → Prop} {c : Code} (source : SourceId) (start stop : Nat) (new : String)
    (hown : ∀ t, P (.text t)) (hpart : ∀ t o i k u, P (.mapped t source o i) → Text.StandsAt t.toList k u →
      P (.mapped (String.ofList u) source (o + k) i))
    (hc : ∀ a ∈ c.segments, P a) : ∀ a ∈ (c.replaceRange source start stop new).2.segments, P a := by
  by_cases hcut : Nonempty (Cut source start stop c.segments)
  case neg =>
    rw [replaceRange_of_not_nonempty hcut]
    exact hc
  case pos =>
    obtain ⟨x⟩ := hcut
    rw [x.replaceRange_eq]
    rw [x.eq] at hc
    have hsegment : P (.mapped x.text source x.offset x.info) := hc _ (by simp)
    have hhead : P (.mapped (String.ofList x.head) source x.offset x.info) := by
      obtain ⟨more, hmore⟩ := x.begins
      exact hpart _ _ _ 0 _ hsegment ⟨more, hmore ▸ Text.rest_zero _⟩
    have htail : P (.mapped (String.ofList x.tail) source stop x.info) := by
      have hplace := hpart _ _ _ _ _ hsegment (show Text.StandsAt _ (stop - x.offset) x.tail from ⟨[], by rw [List.append_nil]; exact x.ends⟩)
      rwa [Nat.add_sub_cancel' x.offset_le_stop] at hplace
    intro a ha
    rcases List.mem_append.1 ha with ha | ha
    · exact hc a (by simp [ha])
    rcases List.mem_append.1 ha with ha | ha
    · rcases x.mem_pieces ha with rfl | rfl | rfl
      · exact hhead
      · exact hown new
      · exact htail
    · exact hc a (by simp [ha])

/-! ## The bytes of a buffer -/

namespace Cut

variable (x : Cut source start stop ss)

theorem bytes_segment_take : x.segment.bytes.take (start - x.offset) = (part x.head source x.offset x.info).flatMap bytes := by
  obtain ⟨more, hmore⟩ := x.begins
  have htext : x.text = String.ofList x.head ++ String.ofList more := by
    rw [← String.ofList_append, ← hmore, String.ofList_toList]
  have hlength : (Segment.mapped (String.ofList x.head) source x.offset x.info).bytes.length = start - x.offset := by
    rw [length_bytes, size, content, Text.size_ofList, x.size_head]
  rw [segment, htext, bytes_mapped_append, bytes_part, ← hlength, List.take_left]

theorem bytes_segment_drop : x.segment.bytes.drop (stop - x.offset) = (part x.tail source stop x.info).flatMap bytes := by
  obtain ⟨front, hfront, hsize⟩ := x.ends
  have htext : x.text = String.ofList front ++ String.ofList x.tail := by
    rw [← String.ofList_append, ← hfront, String.ofList_toList]
  have hlength : (Segment.mapped (String.ofList front) source x.offset x.info).bytes.length = stop - x.offset := by
    rw [length_bytes, size, content, Text.size_ofList, hsize]
  have hstop : x.offset + (String.ofList front).utf8ByteSize = stop := by
    rw [Text.size_ofList, hsize, Nat.add_sub_cancel' x.offset_le_stop]
  rw [segment, htext, bytes_mapped_append, hstop, bytes_part, ← hlength, List.drop_left]

/-- What takes the place of the segment: its bytes in front of the range and behind it as they were, and the new text between. -/
theorem bytes_pieces (new : String) : (x.pieces new).flatMap bytes =
    x.segment.bytes.take (start - x.offset) ++ (Segment.text new).bytes ++ x.segment.bytes.drop (stop - x.offset) := by
  rw [pieces, List.flatMap_append, List.flatMap_append, bytes_own, x.bytes_segment_take, x.bytes_segment_drop, List.append_assoc]

/-- A stream with the range replaced says what it said in front of the range and behind it, and the new text between. -/
theorem bytes_segments (new : String) : (x.segments new).flatMap bytes =
    (ss.flatMap bytes).take (totalSize x.front + (start - x.offset)) ++ (Segment.text new).bytes ++
      (ss.flatMap bytes).drop (totalSize x.front + (stop - x.offset)) := by
  have hss : ss.flatMap bytes = x.front.flatMap bytes ++ (x.segment.bytes ++ x.back.flatMap bytes) := by
    conv => lhs; rw [x.eq]
    rw [List.flatMap_append, List.flatMap_cons]
    rfl
  have hfront : totalSize x.front = (x.front.flatMap bytes).length := (length_flatMap_bytes x.front).symm
  have hlength : x.segment.bytes.length = x.text.utf8ByteSize := length_bytes _
  have htake : start - x.offset ≤ x.segment.bytes.length := by
    obtain ⟨more, hmore⟩ := x.begins
    rw [hlength, ← x.size_head, ← Text.size_toList, hmore, Text.size_append]
    exact Nat.le_add_right ..
  have hdrop : stop - x.offset ≤ x.segment.bytes.length := by
    have := x.le_offset
    omega
  rw [segments, List.flatMap_append, List.flatMap_append, x.bytes_pieces, hss, hfront, List.take_length_add_append,
    List.drop_length_add_append, List.take_append_of_le_length htake, List.drop_append_of_le_length hdrop]
  simp only [List.append_assoc]

end Cut

/-- A range of a source is replaced exactly. The edit goes to the first segment with text of the source around the range, and is made
if both ends of the range are places of that text; otherwise the buffer stays as it is. What is made changes that segment only, into
pieces that are not empty: the bytes of the segment in front of the range and behind it are the same as before, with the places that they
had, and between them is the new text. So the text of the buffer is the old one with the bytes of the range replaced. -/
theorem replaceRange_exact (c : Code) (source : SourceId) (start stop : Nat) (new : String) :
    ((c.replaceRange source start stop new).1 = true ↔ Nonempty (Cut source start stop c.segments)) ∧
    ((c.replaceRange source start stop new).1 = false → (c.replaceRange source start stop new).2 = c) ∧
    ∀ x : Cut source start stop c.segments, ∃ pieces,
      (c.replaceRange source start stop new).2 = { c with segments := x.front ++ (pieces ++ x.back) } ∧
      (∀ a ∈ pieces, a.content ≠ "") ∧
      pieces.flatMap bytes =
        x.segment.bytes.take (start - x.offset) ++ (Segment.text new).bytes ++ x.segment.bytes.drop (stop - x.offset) ∧
      Text.bytes (c.replaceRange source start stop new).2.toText =
        (Text.bytes c.toText).take (totalSize x.front + (start - x.offset)) ++ Text.bytes new ++
          (Text.bytes c.toText).drop (totalSize x.front + (stop - x.offset)) := by
  by_cases hcut : Nonempty (Cut source start stop c.segments)
  case neg =>
    rw [replaceRange_of_not_nonempty hcut]
    exact ⟨by simp [hcut], fun _ => rfl, fun x => absurd ⟨x⟩ hcut⟩
  case pos =>
    have hdone : (c.replaceRange source start stop new).1 = true := by rw [hcut.some.replaceRange_eq]
    refine ⟨by simp [hdone, hcut], by simp [hdone], fun x => ?_⟩
    rw [x.replaceRange_eq]
    refine ⟨x.pieces new, rfl, x.content_ne_empty new, x.bytes_pieces new, ?_⟩
    rw [toText, toText, bytes_contents, bytes_contents, x.bytes_segments, List.map_append, List.map_append, List.map_take,
      List.map_drop, map_fst_bytes, content]

end Code

end TypedSfc
