import TypedSfc.Generate.Expression
import TypedSfc.Proofs.Text.Places

/-!
# Strands of a rewritten text

A text that is written with something inserted is known by its strands: each segment is kept of the text or inserted into it. What is
kept, put together, has a place for every strand, the place in the text where it stands; so what is said of single strands comes to be
said of the whole text.
-/

namespace TypedSfc

namespace Generate

/-- A segment of a text that is rewritten. -/
inductive Strand where
  /-- A part of the text. -/
  | kept (s : Segment)
  /-- What is put between two parts. -/
  | inserted (s : Segment)
  deriving DecidableEq, Repr

namespace Strand

def segment : Strand → Segment
  | kept s | inserted s => s

/-- The text that a strand keeps. -/
def own : Strand → List Char
  | kept s => s.content.toList
  | inserted _ => []

/-- The text that a strand keeps at a place of a source. -/
def mappedOwn : Strand → List Char
  | kept (.mapped t _ _ _) => t.toList
  | kept (.text _) | inserted _ => []

/-- What is inserted at a place. -/
def insertion? : Nat × Strand → Option (Nat × Segment)
  | (pos, inserted s) => some (pos, s)
  | (_, kept _) => none

end Strand

/-- The text that strands keep. -/
def keptText (ss : List Strand) : List Char := ss.flatMap Strand.own

/-- The text that strands keep at places of a source. -/
def mappedText (ss : List Strand) : List Char := ss.flatMap Strand.mappedOwn

/-- Strands with their places, the first of them at byte `pos` of the text. -/
def placed (pos : Nat) : List Strand → List (Nat × Strand)
  | [] => []
  | s :: ss => (pos, s) :: placed (pos + Text.size s.own) ss

/-- What is inserted, and where. -/
def insertions (pos : Nat) (ss : List Strand) : List (Nat × Segment) := (placed pos ss).filterMap Strand.insertion?

@[simp] theorem keptText_nil : keptText [] = [] := rfl

@[simp] theorem keptText_cons (s : Strand) (ss : List Strand) : keptText (s :: ss) = s.own ++ keptText ss := rfl

@[simp] theorem keptText_append (as bs : List Strand) : keptText (as ++ bs) = keptText as ++ keptText bs := List.flatMap_append

theorem mappedText_cons (s : Strand) (ss : List Strand) : mappedText (s :: ss) = s.mappedOwn ++ mappedText ss := rfl

theorem placed_append (pos : Nat) (as bs : List Strand) :
    placed pos (as ++ bs) = placed pos as ++ placed (pos + Text.size (keptText as)) bs := by
  induction as generalizing pos with
  | nil => simp [placed]
  | cons a as ih =>
    rw [List.cons_append, placed, placed, ih, keptText_cons, Text.size_append, Nat.add_assoc]
    rfl

theorem insertions_append (pos : Nat) (as bs : List Strand) :
    insertions pos (as ++ bs) = insertions pos as ++ insertions (pos + Text.size (keptText as)) bs := by
  rw [insertions, placed_append, List.filterMap_append]
  rfl

/-! ## Segments that are all kept, or all inserted -/

/-- Where strands only keep, nothing is inserted. -/
@[simp] theorem insertions_map_kept (pos : Nat) (ss : List Segment) : insertions pos (ss.map .kept) = [] := by
  induction ss generalizing pos with
  | nil => rfl
  | cons s ss ih => exact ih _

/-- What is inserted in one go is inserted at one place. -/
@[simp] theorem insertions_map_inserted (pos : Nat) (ss : List Segment) : insertions pos (ss.map .inserted) = ss.map (pos, ·) := by
  induction ss with
  | nil => rfl
  | cons s ss ih => exact congrArg _ ih

@[simp] theorem keptText_map_inserted (ss : List Segment) : keptText (ss.map .inserted) = [] := by
  induction ss with
  | nil => rfl
  | cons s ss ih => exact ih

@[simp] theorem segment_map_kept (ss : List Segment) : (ss.map Strand.kept).map Strand.segment = ss := by
  rw [List.map_map]
  exact List.map_id ss

@[simp] theorem segment_map_inserted (ss : List Segment) : (ss.map Strand.inserted).map Strand.segment = ss := by
  rw [List.map_map]
  exact List.map_id ss

/-! ## Strands of a text with a mapped part -/

/-- A strand at byte `pos` of the text keeps to its part: what is mapped lies in the mapped part, at its place in the source, and what
is kept besides lies before or behind that part. -/
def Strand.Lies (p : Placement) (pos : Nat) : Strand → Prop
  | .kept (.mapped t source offset info) => source = p.source ∧ info = p.info ∧ offset + p.before = p.start + pos ∧
      p.before ≤ pos ∧ pos + t.utf8ByteSize ≤ p.before + p.length
  | .kept (.text t) => pos + t.utf8ByteSize ≤ p.before ∨ p.before + p.length ≤ pos
  | .inserted _ => True

/-- Strands keep the text from byte `lo` to byte `hi`, each where it lies. -/
structure Traces (p : Placement) (whole : List Char) (lo : Nat) (ss : List Strand) (hi : Nat) : Prop where
  reads : (⟨lo, hi⟩ : Span).Reads whole (keptText ss)
  lie : ∀ x ∈ placed lo ss, x.2.Lies p x.1

namespace Traces

variable {p : Placement} {whole : List Char} {lo mid hi : Nat} {as bs ss : List Strand}

theorem nil (h : Text.IsPlace whole lo) : Traces p whole lo [] lo := by
  obtain ⟨rest, hrest⟩ := h
  exact ⟨⟨⟨rest, hrest⟩, rfl⟩, by simp [placed]⟩

theorem append (ha : Traces p whole lo as mid) (hb : Traces p whole mid bs hi) : Traces p whole lo (as ++ bs) hi := by
  obtain ⟨⟨⟨rest, hrest⟩, hmid⟩, hliea⟩ := ha
  obtain ⟨⟨⟨more, hmore⟩, hhi⟩, hlieb⟩ := hb
  dsimp only at hrest hmid hmore hhi
  subst hmid
  have hsame : rest = keptText bs ++ more := hrest.step.unique hmore
  refine ⟨⟨⟨more, ?_⟩, ?_⟩, ?_⟩
  · rw [keptText_append, List.append_assoc, ← hsame]
    exact hrest
  · rw [keptText_append, Text.size_append]
    show hi = lo + (_ + _)
    omega
  · intro x hx
    rw [placed_append] at hx
    rcases List.mem_append.1 hx with hx | hx
    · exact hliea x hx
    · exact hlieb x hx

theorem inserted (h : Text.IsPlace whole lo) (ss : List Segment) : Traces p whole lo (ss.map .inserted) lo := by
  obtain ⟨rest, hrest⟩ := h
  have hlie : ∀ x ∈ placed lo (ss.map Strand.inserted), x.2.Lies p x.1 := by
    induction ss with
    | nil => simp [placed]
    | cons s ss ih =>
      intro x hx
      rcases List.mem_cons.1 hx with rfl | hx
      · trivial
      · exact ih x hx
  refine ⟨⟨⟨rest, ?_⟩, ?_⟩, hlie⟩
  · rw [keptText_map_inserted]
    exact hrest
  · rw [keptText_map_inserted]
    rfl

/-- One strand that keeps a text. -/
theorem kept {s : Segment} (hreads : (⟨lo, hi⟩ : Span).Reads whole s.content.toList) (hlie : (Strand.kept s).Lies p lo) :
    Traces p whole lo [.kept s] hi := by
  refine ⟨?_, ?_⟩
  · rw [keptText_cons, keptText_nil, List.append_nil]
    exact hreads
  · intro x hx
    rw [placed, placed, List.mem_singleton] at hx
    rw [hx]
    exact hlie

theorem tail {s : Strand} (h : Traces p whole lo (s :: ss) hi) : Traces p whole (lo + Text.size s.own) ss hi := by
  obtain ⟨⟨hstands, hhi⟩, hlie⟩ := h
  rw [keptText_cons] at hstands hhi
  refine ⟨⟨hstands.right, ?_⟩, fun x hx => hlie x (List.mem_cons_of_mem _ hx)⟩
  rw [Text.size_append] at hhi
  show hi = lo + _ + _
  rw [Nat.add_assoc]
  exact hhi

/-- A text that stands within a part of another is what the part has there, and the part goes on behind it. -/
theorem after_eq_append {front code back t : List Char} (h : Text.StandsAt (front ++ (code ++ back)) lo t) (hlo : Text.size front ≤ lo)
    (hhi : lo + Text.size t ≤ Text.size front + Text.size code) :
    Text.after (lo - Text.size front) code = t ++ Text.after (lo + Text.size t - Text.size front) code := by
  obtain ⟨more, hmore⟩ := h
  have hcode : Text.Rest (front ++ (code ++ back)) (Text.size front) (code ++ back) := ⟨front, rfl, rfl⟩
  obtain ⟨mid, hmid, rfl⟩ := hcode.split hmore hlo
  obtain ⟨last, hlast, -⟩ := hmore.step.split hcode.step hhi
  have hall : code ++ back = (mid ++ (t ++ last)) ++ back := by
    rw [hmid, hlast]
    simp
  have hparts : code = mid ++ (t ++ last) := List.append_cancel_right hall
  have hbefore : Text.Rest code (Text.size mid) (t ++ last) := ⟨mid, hparts, rfl⟩
  have hstart : Text.size front + Text.size mid - Text.size front = Text.size mid := Nat.add_sub_cancel_left ..
  have hstop : Text.size front + Text.size mid + Text.size t - Text.size front = Text.size mid + Text.size t := by omega
  rw [hstart, hstop, hbefore.after_eq, hbefore.step.after_eq]

/-- Of what strands keep up to the end of the text, that which is mapped is the mapped part, as far as it is not before them. -/
theorem mappedText_eq {front code back : List Char} (hfront : Text.size front = p.before) (hcode : Text.size code = p.length)
    (h : Traces p (front ++ (code ++ back)) lo ss (Text.size (front ++ (code ++ back)))) :
    mappedText ss = Text.after (lo - p.before) code := by
  induction ss generalizing lo with
  | nil =>
    have hlo : Text.size (front ++ (code ++ back)) = lo := h.reads.2
    rw [Text.size_append, Text.size_append] at hlo
    exact (Text.after_eq_nil (by omega)).symm
  | cons s ss ih =>
    have hlie : s.Lies p lo := h.lie (lo, s) (List.mem_cons_self ..)
    rw [mappedText_cons, ih h.tail]
    match s, hlie with
    | .inserted _, _ => rfl
    | .kept (.text t), hlie =>
      have hsize : Text.size (Strand.kept (.text t)).own = t.utf8ByteSize := Text.size_toList t
      rw [hsize]
      rcases hlie with hle | hle
      · -- Before the mapped part, all of that is still ahead.
        have hbefore : lo + t.utf8ByteSize - p.before = lo - p.before := by omega
        rw [hbefore]
        rfl
      · rw [Text.after_eq_nil (show Text.size code ≤ lo - p.before by omega), Text.after_eq_nil (by omega)]
        rfl
    | .kept (.mapped t _ _ _), hlie =>
      obtain ⟨-, -, -, hlo, hhi⟩ := hlie
      have hstands := h.reads.1
      rw [keptText_cons] at hstands
      rw [← hfront] at hlo hhi ⊢
      rw [← hcode, ← Text.size_toList] at hhi
      exact (after_eq_append hstands.left hlo hhi).symm

end Traces

end Generate

end TypedSfc
