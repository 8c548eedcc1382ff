import TypedSfc.Generate.Piece
import TypedSfc.Proofs.Mapping.Build
import TypedSfc.Proofs.Text.Places

/-!
# Code cut into characters

Sections of a script of different lengths are compared by cutting them into characters. Pieces and their characters write the same, but
for where it is cut; and what code maps to a source are characters with their positions there.
-/

namespace TypedSfc

/-! ## Characters with their places -/

namespace Text

/-- The characters of a text that starts at byte `n`, each with its position. -/
def placed (n : Nat) : List Char → List (Nat × Char)
  | [] => []
  | c :: cs => (n, c) :: placed (n + c.utf8Size) cs

@[simp] theorem placed_nil (n : Nat) : placed n [] = [] := rfl

@[simp] theorem placed_cons (n : Nat) (c : Char) (cs : List Char) : placed n (c :: cs) = (n, c) :: placed (n + c.utf8Size) cs := rfl

theorem placed_append (n : Nat) (as bs : List Char) : placed n (as ++ bs) = placed n as ++ placed (n + size as) bs := by
  induction as generalizing n with
  | nil => rfl
  | cons a as ih => rw [List.cons_append, placed_cons, ih, placed_cons, List.cons_append, size_cons, Nat.add_assoc]

theorem bounds_of_mem_placed {n : Nat} {cs : List Char} {x : Nat × Char} (h : x ∈ placed n cs) : n ≤ x.1 ∧ x.1 < n + size cs := by
  induction cs generalizing n with
  | nil => cases h
  | cons c cs ih =>
    have hc := c.utf8Size_pos
    rw [size_cons]
    rcases List.mem_cons.1 h with rfl | h
    · exact ⟨Nat.le_refl _, by dsimp only; omega⟩
    · have := ih h
      omega

/-- The characters before a position come before those behind it. -/
theorem filter_placed_append (a : Nat) (p : Nat × Char → Bool) (n : Nat) (cs : List Char) :
    (placed n cs).filter (fun x => decide (x.1 < a) && p x) ++ (placed n cs).filter (fun x => decide (a ≤ x.1) && p x) =
      (placed n cs).filter p := by
  induction cs generalizing n with
  | nil => rfl
  | cons c cs ih =>
    rcases Nat.lt_or_ge n a with hlt | hge
    · rw [placed_cons, List.filter_cons, List.filter_cons, List.filter_cons, ← ih]
      cases hp : p (n, c) <;> simp [hlt, Nat.not_le.2 hlt]
    · have hbounds : ∀ x ∈ placed n (c :: cs), a ≤ x.1 := fun x hx => Nat.le_trans hge (bounds_of_mem_placed hx).1
      have hnone : (placed n (c :: cs)).filter (fun x => decide (x.1 < a) && p x) = [] := by
        refine List.filter_eq_nil_iff.2 fun x hx => ?_
        simp [Nat.not_lt.2 (hbounds x hx)]
      have hall : (placed n (c :: cs)).filter (fun x => decide (a ≤ x.1) && p x) = (placed n (c :: cs)).filter p :=
        List.filter_congr fun x hx => by rw [decide_eq_true (hbounds x hx), Bool.true_and]
      rw [hnone, hall, List.nil_append]

/-- A text with a part of it taken out, and put behind a later place: each character is there once, and those that are taken out and the
others keep their order. -/
theorem placed_around {s : Span} {stop : Nat} (hstop : s.stop ≤ stop) (cs : List Char) :
    let front := (placed 0 cs).filter fun x => decide (x.1 < stop) && !s.contains x.1
    let back := (placed 0 cs).filter (s.contains ·.1) ++ (placed 0 cs).filter fun x => decide (stop ≤ x.1)
    (front ++ back).Perm (placed 0 cs) ∧
      (front ++ back).filter (fun x => !s.contains x.1) = (placed 0 cs).filter (fun x => !s.contains x.1) ∧
      (front ++ back).filter (s.contains ·.1) = (placed 0 cs).filter (s.contains ·.1) := by
  intro front back
  have hsplit := fun keep => filter_placed_append stop keep 0 cs
  have hinner : ∀ x : Nat × Char, s.contains x.1 = true → x.1 < stop := by
    intro x hx
    simp only [Span.contains, Bool.and_eq_true, decide_eq_true_eq] at hx
    omega
  refine ⟨?_, ?_, ?_⟩
  · have hall := hsplit fun _ => true
    simp only [Bool.and_true] at hall
    have hfront := List.filter_append_perm (fun x : Nat × Char => s.contains x.1) ((placed 0 cs).filter fun x => decide (x.1 < stop))
    have hown : ((placed 0 cs).filter fun x => decide (x.1 < stop)).filter (s.contains ·.1) = (placed 0 cs).filter (s.contains ·.1) := by
      rw [List.filter_filter]
      refine List.filter_congr fun x _ => ?_
      cases hx : s.contains x.1 with
      | false => rfl
      | true => rw [decide_eq_true (hinner x hx)]; rfl
    have hrest : ((placed 0 cs).filter fun x => !s.contains x.1 && decide (x.1 < stop)) = front :=
      List.filter_congr fun x _ => Bool.and_comm ..
    rw [hown, List.filter_filter, hrest] at hfront
    rw [← List.append_assoc]
    refine ((List.perm_append_comm.trans hfront).append_right _).trans (.of_eq ?_)
    rw [hall, List.filter_true]
  · rw [← hsplit fun x => !s.contains x.1]
    simp only [front, back, List.filter_append, List.filter_filter, Bool.not_and_self, List.filter_false, List.nil_append]
    congr 1
    · exact List.filter_congr fun x _ => by cases s.contains x.1 <;> simp
    · exact List.filter_congr fun x _ => Bool.and_comm ..
  · have hnone : front.filter (s.contains ·.1) = [] := by
      rw [List.filter_eq_nil_iff]
      intro x hx hs
      have := (List.mem_filter.1 hx).2
      rw [hs, Bool.not_true, Bool.and_false] at this
      cases this
    have hnone' : ((placed 0 cs).filter fun x => decide (stop ≤ x.1)).filter (s.contains ·.1) = [] := by
      rw [List.filter_eq_nil_iff]
      intro x hx hs
      have := of_decide_eq_true (List.mem_filter.1 hx).2
      have := hinner x hs
      omega
    rw [List.filter_append, List.filter_append, hnone, hnone', List.filter_filter, List.nil_append, List.append_nil]
    simp only [Bool.and_self]

end Text

namespace Segment

/-- A segment cut into its characters, each mapped at its own place. Text of its own, marks and parts of groups stay whole. -/
def chars : Segment → List Segment
  | text t => [text t]
  | mapped t source offset i =>
    if t.isEmpty || i.role.isSome then [mapped t source offset i]
    else (Text.placed offset t.toList).map fun x => mapped (String.singleton x.2) source x.1 i

/-- The characters that a segment maps to a source, with their positions. -/
def placedIn (source : SourceId) : Segment → List (Nat × Char)
  | text _ => []
  | mapped t source' offset _ => if source' = source then Text.placed offset t.toList else []

theorem chars_mapped (t : String) (source : SourceId) (offset : Nat) (i : Info) : (mapped t source offset i).chars =
    if t.isEmpty || i.role.isSome then [mapped t source offset i]
    else (Text.placed offset t.toList).map fun x => mapped (String.singleton x.2) source x.1 i := rfl

/-- Mapped characters have nothing left to cut. -/
theorem flatMap_chars_placed (source : SourceId) (i : Info) (xs : List (Nat × Char)) :
    (xs.map fun x => mapped (String.singleton x.2) source x.1 i).flatMap chars =
      xs.map fun x => mapped (String.singleton x.2) source x.1 i := by
  have hone : ∀ x : Nat × Char, (mapped (String.singleton x.2) source x.1 i).chars = [mapped (String.singleton x.2) source x.1 i] := by
    intro x
    rw [chars_mapped]
    split <;> simp
  rw [List.flatMap_map, List.map_eq_flatMap]
  exact List.flatMap_congr fun x _ => hone x

theorem contents_append (as bs : List Segment) : contents (as ++ bs) = contents as ++ contents bs := by
  rw [contents_eq_join, contents_eq_join, contents_eq_join, List.map_append, String.join_append]

@[simp] theorem contents_chars (s : Segment) : contents s.chars = s.content := by
  cases s with
  | text t => simp [chars, contents, content]
  | mapped t source offset i =>
    rw [chars_mapped]
    split
    · simp [contents, content]
    · rw [contents_eq_join, List.map_map]
      apply String.toList_inj.1
      have hall : ∀ (cs : List Char) (n : Nat), (String.join ((Text.placed n cs).map
          (content ∘ fun x => mapped (String.singleton x.2) source x.1 i))).toList = cs := by
        intro cs
        induction cs with
        | nil => exact fun _ => rfl
        | cons c cs ih => intro n; simp [content, String.join_cons, ih]
      exact hall t.toList offset

theorem contents_flatMap_chars (ss : List Segment) : contents (ss.flatMap chars) = contents ss := by
  induction ss with
  | nil => rfl
  | cons s ss ih => rw [List.flatMap_cons, contents_append, contents_chars, ih, ← List.singleton_append, contents_append]; simp [contents]

end Segment

namespace Code

/-- Whether a line starts depends on the text alone. -/
theorem atLineStart_iff (c : Code) : c.atLineStart = true ↔ c.toText = "" ∨ c.toText.toList.getLast? = some '\n' := by
  unfold atLineStart toText
  generalize c.segments = ss
  induction ss using List.reverseRecOn with
  | nil => simp [Segment.contents]
  | append_singleton ss s ih =>
    rw [List.reverse_append, List.reverse_singleton, List.singleton_append, List.find?_cons, Segment.contents_snoc]
    cases hs : s.isEmpty with
    | true =>
      have hcontent : s.content = "" := String.isEmpty_iff.1 hs
      simpa [hcontent] using ih
    | false =>
      have hne : s.content.toList ≠ [] := by
        intro hnil
        rw [Segment.isEmpty, String.toList_eq_nil_iff.1 hnil] at hs
        cases hs
      have hcontent : s.content ≠ "" := fun h => hne (by rw [h]; rfl)
      simp [List.getLast?_append, List.getLast?_eq_some_getLast hne, hcontent]

/-- A buffer with its segments cut into characters. -/
def chars (c : Code) : Code := { c with segments := c.segments.flatMap Segment.chars }

variable (c : Code)

@[simp] theorem atLineStart_chars : c.chars.atLineStart = c.atLineStart := by
  rw [Bool.eq_iff_iff, atLineStart_iff, atLineStart_iff, toText, chars, Segment.contents_flatMap_chars, toText]

theorem chars_add (s : Segment) : (c.add s).chars = c.chars.extend s.chars := by
  simp [chars, add, extend]

@[simp] theorem chars_text (t : String) : (c.text t).chars = c.chars.text t := by
  unfold text
  split
  · rfl
  · rw [chars_add]; rfl

@[simp] theorem chars_opened (source : SourceId) (start : Nat) (i : Info) :
    (c.opened source start i).2.chars = (c.chars.opened source start i).2 := by
  simp [opened, marker, mapped, chars, add, Segment.chars, resolve]

@[simp] theorem chars_closed (b : Boundary) (stop : Nat) : (c.closed b stop).chars = c.chars.closed b stop := by
  rw [closed, chars_add]; rfl

@[simp] theorem chars_joined (b : Boundary) (t : String) (offset : Nat) : (c.joined b t offset).chars = c.chars.joined b t offset := by
  rw [joined, chars_add, Segment.chars_mapped, if_pos (by simp [Info.withRole])]
  rfl

@[simp] theorem chars_bounded (source : SourceId) (start stop : Nat) (i : Info) (t : String) :
    (c.bounded source start stop i t).chars = c.chars.bounded source start stop i t := by
  unfold bounded
  dsimp only
  rw [chars_closed, chars_text, chars_opened]
  rfl

@[simp] theorem chars_spreadMerge (ts : List String) : (c.spreadMerge ts).chars = c.chars.spreadMerge ts := by
  have hall : ∀ (ts : List String) (c : Code), (ts.foldl (fun c t => c.text ("..." ++ t ++ ",\n")) c).chars =
      ts.foldl (fun c t => c.text ("..." ++ t ++ ",\n")) c.chars := by
    intro ts
    induction ts with
    | nil => exact fun _ => rfl
    | cons t ts ih => intro c; rw [List.foldl_cons, List.foldl_cons, ih, chars_text]
  match ts with
  | [] => rfl
  | [t] => exact chars_text c t
  | t :: t' :: ts =>
    unfold spreadMerge
    rw [chars_text, hall, chars_text]

@[simp] theorem chars_append (other : Code) : (c.append other).chars = c.chars.append other.chars := by
  simp [chars, append]

/-- The characters that a buffer maps to a source, with their positions. -/
def placedIn (source : SourceId) : List (Nat × Char) := c.segments.flatMap (Segment.placedIn source)

section

variable (source : SourceId)

@[simp] theorem placedIn_add (s : Segment) : (c.add s).placedIn source = c.placedIn source ++ s.placedIn source := by
  simp [placedIn, add]

@[simp] theorem placedIn_text (t : String) : (c.text t).placedIn source = c.placedIn source := by
  unfold text
  split <;> simp [Segment.placedIn]

@[simp] theorem placedIn_mapped (t : String) (source' : SourceId) (offset : Nat) (i : Info) : (c.mapped t source' offset i).placedIn source =
    c.placedIn source ++ if source' = source then Text.placed offset t.toList else [] :=
  placedIn_add c source _

@[simp] theorem placedIn_opened (source' : SourceId) (start : Nat) (i : Info) :
    (c.opened source' start i).2.placedIn source = c.placedIn source := by
  simp [opened, marker, placedIn, mapped, add, Segment.placedIn]

@[simp] theorem source_opened (source' : SourceId) (start : Nat) (i : Info) : (c.opened source' start i).1.source = source' := rfl

@[simp] theorem placedIn_closed (b : Boundary) (stop : Nat) : (c.closed b stop).placedIn source = c.placedIn source := by
  simp [closed, Segment.marker, Segment.placedIn]

@[simp] theorem placedIn_joined (b : Boundary) (t : String) (offset : Nat) : (c.joined b t offset).placedIn source =
    c.placedIn source ++ if b.source = source then Text.placed offset t.toList else [] :=
  placedIn_add c source _

@[simp] theorem placedIn_spreadMerge (ts : List String) : (c.spreadMerge ts).placedIn source = c.placedIn source := by
  have hall : ∀ (ts : List String) (c : Code), (ts.foldl (fun c t => c.text ("..." ++ t ++ ",\n")) c).placedIn source =
      c.placedIn source := by
    intro ts
    induction ts with
    | nil => exact fun _ => rfl
    | cons t ts ih => intro c; rw [List.foldl_cons, ih, placedIn_text]
  match ts with
  | [] => rfl
  | [t] => exact placedIn_text c source t
  | t :: t' :: ts =>
    unfold spreadMerge
    rw [placedIn_text, hall, placedIn_text]

end

theorem chars_mapped (t : String) (source : SourceId) (offset : Nat) (i : Info) :
    (c.mapped t source offset i).chars = c.chars.extend (Segment.mapped t source offset (c.chars.resolve i)).chars :=
  chars_add c _

end Code

namespace Generate

/-- A character of a script, copied to where it stands. -/
def Piece.character (source : SourceId) (x : Nat × Char) : Piece := .copied (String.singleton x.2) source x.1

/-- A piece cut into its characters, if it is copied from a script. -/
def Piece.chars : Piece → List Piece
  | .copied t source offset => (Text.placed offset t.toList).map (character source)
  | p => [p]

/-- What pieces make, cut into characters. -/
def Written.chars (w : Written) : Written := w.onCode Code.chars

theorem chars_writeQuoted (t : String) (source : SourceId) (span : Span) (c : Code) :
    (writeQuoted t source span c).chars = writeQuoted t source span c.chars := by
  simp only [writeQuoted, Code.chars_closed, Code.chars_text, Code.chars_joined, Code.chars_opened]
  rfl

/-- What a piece adds does not depend on how the code before it is cut. -/
theorem Piece.chars_write_congr (inner : Code) {w w' : Written} (h : w.chars = w'.chars) (p : Piece) :
    (p.write inner w).chars = (p.write inner w').chars := by
  have hcode : w.code.chars = w'.code.chars := congrArg Written.code h
  have htypes : w.types = w'.types := (congrArg Written.types h : w.chars.types = w'.chars.types)
  have hhelpers : w.helpers = w'.helpers := (congrArg Written.helpers h : w.chars.helpers = w'.chars.helpers)
  have honCode : ∀ f : Code → Code, (f w.code).chars = (f w'.code).chars → (w.onCode f).chars = (w'.onCode f).chars := by
    intro f hf
    simp only [Written.chars, Written.onCode, hf, htypes, hhelpers]
  have hmapped : ∀ (t : String) (source : SourceId) (offset : Nat) (i : Info),
      (w.code.mapped t source offset i).chars = (w'.code.mapped t source offset i).chars := by
    intro t source offset i
    rw [Code.chars_mapped, Code.chars_mapped, hcode]
  cases p with
  | text t => exact honCode _ (by rw [Code.chars_text, Code.chars_text, hcode])
  | mapped t source offset => exact honCode _ (hmapped ..)
  | copied t source offset =>
    unfold write
    dsimp only
    split
    · exact h
    · exact honCode _ (hmapped ..)
  | bounded t source span info => exact honCode _ (by rw [Code.chars_bounded, Code.chars_bounded, hcode])
  | quoted t source span => exact honCode _ (by rw [chars_writeQuoted, chars_writeQuoted, hcode])
  | merged operands => exact honCode _ (by rw [Code.chars_spreadMerge, Code.chars_spreadMerge, hcode])
  | freshLine =>
    refine honCode _ ?_
    have hstart : w.code.atLineStart = w'.code.atLineStart := by
      rw [← Code.atLineStart_chars, hcode, Code.atLineStart_chars]
    rw [hstart]
    split
    · exact hcode
    · rw [Code.chars_text, Code.chars_text, hcode]
  | template => exact honCode _ (by rw [Code.chars_append, Code.chars_append, hcode])
  | declares type => simp only [write, Written.chars, Written.onCode, hcode, htypes, hhelpers]
  | needs type => simp only [write, Written.chars, Written.onCode, hcode, htypes, hhelpers]

theorem chars_foldl_congr (inner : Code) (ps : List Piece) {w w' : Written} (h : w.chars = w'.chars) :
    (ps.foldl (Piece.write inner) w).chars = (ps.foldl (Piece.write inner) w').chars := by
  induction ps generalizing w w' with
  | nil => exact h
  | cons p ps ih => exact ih (p.chars_write_congr inner h)

/-- Copied characters are mapped one after another. -/
theorem foldl_copied (inner : Code) (source : SourceId) (cs : List Char) (offset : Nat) (w : Written) :
    ((Text.placed offset cs).map (Piece.character source)).foldl (Piece.write inner) w =
      w.onCode (·.extend ((Text.placed offset cs).map fun x =>
        .mapped (String.singleton x.2) source x.1 (w.code.resolve Info.checked))) := by
  induction cs generalizing offset w with
  | nil => simp [Written.onCode, Code.extend]
  | cons c cs ih =>
    have hne : (String.singleton c).isEmpty = false := by simp
    rw [Text.placed_cons, List.map_cons, List.foldl_cons, ih, List.map_cons, Piece.character, Piece.write, hne]
    simp [Written.onCode, Code.extend, Code.mapped, Code.add, Code.resolve]

/-- A piece and its characters write the same but for cuts. -/
theorem Piece.chars_foldl_chars (inner : Code) (w : Written) (p : Piece) :
    (p.chars.foldl (Piece.write inner) w).chars = (p.write inner w).chars := by
  cases p with
  | copied t source offset =>
    rw [chars, foldl_copied, write]
    split
    · rename_i hempty
      have hnil : t.toList = [] := String.toList_eq_nil_iff.2 (String.isEmpty_iff.1 hempty)
      simp [hnil, Written.onCode, Code.extend]
    · rename_i hempty
      have hsegment : (Segment.mapped t source offset (w.code.resolve Info.checked)).chars =
          (Text.placed offset t.toList).map fun x => .mapped (String.singleton x.2) source x.1 (w.code.resolve Info.checked) := by
        rw [Segment.chars_mapped, if_neg (by simpa [Code.resolve, Info.checked, Info.ofPolicy] using hempty)]
      simp only [Written.chars, Written.onCode, Code.chars, Code.extend, Code.mapped, Code.add, List.flatMap_append, hsegment,
        Segment.flatMap_chars_placed, List.flatMap_singleton]
  | _ => rfl

/-- Pieces and their characters write the same but for cuts. -/
theorem chars_foldl_flatMap_chars (inner : Code) (ps : List Piece) (w : Written) :
    ((ps.flatMap Piece.chars).foldl (Piece.write inner) w).chars = (ps.foldl (Piece.write inner) w).chars := by
  induction ps generalizing w with
  | nil => rfl
  | cons p ps ih =>
    rw [List.flatMap_cons, List.foldl_append, List.foldl_cons]
    exact (ih _).trans (chars_foldl_congr inner ps (p.chars_foldl_chars inner w))

/-! ## What is mapped to a source -/

/-- The characters that a piece maps to a source, with their positions. -/
def Piece.placedIn (inner : Code) (source : SourceId) : Piece → List (Nat × Char)
  | .mapped t source' offset | .copied t source' offset => if source' = source then Text.placed offset t.toList else []
  | .quoted t source' span => if source' = source then Text.placed span.start t.toList else []
  | .template => inner.placedIn source
  | .text _ | .bounded .. | .merged _ | .freshLine | .declares _ | .needs _ => []

theorem placedIn_write (inner : Code) (source : SourceId) (w : Written) (p : Piece) :
    (p.write inner w).code.placedIn source = w.code.placedIn source ++ p.placedIn inner source := by
  cases p with
  | text t => simp [Piece.write, Written.onCode, Piece.placedIn]
  | mapped t source' offset => simp [Piece.write, Written.onCode, Piece.placedIn]
  | copied t source' offset =>
    unfold Piece.write
    dsimp only
    split
    · rename_i hempty
      have hnil : t.toList = [] := String.toList_eq_nil_iff.2 (String.isEmpty_iff.1 hempty)
      simp [Piece.placedIn, hnil]
    · simp [Written.onCode, Piece.placedIn]
  | bounded t source' span info => simp [Piece.write, Written.onCode, Piece.placedIn, Code.bounded]
  | quoted t source' span =>
    simp [Piece.write, Written.onCode, Piece.placedIn, writeQuoted]
    rfl
  | merged operands => simp [Piece.write, Written.onCode, Piece.placedIn]
  | freshLine =>
    simp only [Piece.write, Written.onCode, Piece.placedIn, List.append_nil]
    split <;> simp
  | template => simp [Piece.write, Written.onCode, Piece.placedIn, Code.append, Code.placedIn]
  | declares type => simp [Piece.write, Piece.placedIn]
  | needs type => simp [Piece.write, Piece.placedIn]

theorem placedIn_foldl (inner : Code) (source : SourceId) (ps : List Piece) (w : Written) :
    (ps.foldl (Piece.write inner) w).code.placedIn source = w.code.placedIn source ++ ps.flatMap (Piece.placedIn inner source) := by
  induction ps generalizing w with
  | nil => simp
  | cons p ps ih => rw [List.foldl_cons, ih, placedIn_write, List.flatMap_cons, List.append_assoc]

end Generate

end TypedSfc
