import TypedSfc.Generate.Piece
import TypedSfc.Proofs.Generate.Groups

/-!
# What a step adds to a buffer

Each step of a generator adds segments at the end of its buffer. A step is said to add from a state that holds groups and a buffer, when
what it adds closes those groups, writes that buffer at most once, and brings whole groups besides. Steps that hold nothing can stand
before any other, which is how the steps are put together.
-/

namespace TypedSfc

open Segment

namespace Code

/-- What is added between two states of a buffer closes the groups `bs`, and writes the segments `kept` at most once. -/
def Adds (n : Nat) (bs : List Boundary) (kept : List Segment) (c c' : Code) : Prop :=
  Held n bs kept c.nextToken → ∃ ss, c'.segments = c.segments ++ ss ∧ Wrote n bs kept c.nextToken ss c'.nextToken

variable {n : Nat} {bs : List Boundary} {kept : List Segment} {c c' c'' : Code}

namespace Adds

/-- A step that leaves the segments as they are, and may pass over tokens. -/
theorem same (hs : c'.segments = c.segments) (hle : c.nextToken ≤ c'.nextToken) : Adds n [] kept c c' :=
  fun _ => ⟨[], by simp [hs], .stop kept hle⟩

theorem refl (c : Code) : Adds n [] kept c c := same rfl (Nat.le_refl _)

/-- A step that holds nothing, and then the rest. -/
theorem andThen (h : Adds n [] [] c c') (hrest : Adds n bs kept c' c'') : Adds n bs kept c c'' := by
  intro hheld
  obtain ⟨as, has, ha⟩ := h (.nil n _)
  obtain ⟨ss, hss, hw⟩ := hrest (hheld.mono ha.le)
  exact ⟨as ++ ss, by rw [hss, has, List.append_assoc], hw.append hheld ha⟩

/-- All that is to be done, and then a step that holds nothing. -/
theorem before (h : Adds n bs kept c c') (hrest : Adds n [] [] c' c'') : Adds n bs kept c c'' := by
  intro hheld
  obtain ⟨as, has, ha⟩ := h hheld
  obtain ⟨ss, hss, hw⟩ := hrest (.nil n _)
  exact ⟨as ++ ss, by rw [hss, has, List.append_assoc], hw.before ha hheld⟩

/-- Text that opens a group, and then what closes it. -/
theorem opens {t : String} {source : SourceId} (hs : source < n) {offset : Nat} {i : Info}
    (h : Adds n (⟨c.nextToken, source⟩ :: bs) kept
      ({ c with nextToken := c.nextToken + 1 }.mapped t source offset (i.withRole (.opens c.nextToken))) c') : Adds n bs kept c c' := by
  intro hheld
  obtain ⟨ss, hss, hw⟩ := h (hheld.push hs)
  refine ⟨.mapped t source offset (c.resolve (i.withRole (.opens c.nextToken))) :: ss, ?_, hw.opens hheld hs t offset rfl⟩
  simp [hss, mapped, add, resolve]

/-- A group is opened, and the rest closes it. -/
theorem opened {source : SourceId} (hs : source < n) {start : Nat} {i : Info}
    (h : Adds n ((c.opened source start i).1 :: bs) kept (c.opened source start i).2 c') : Adds n bs kept c c' := opens hs h

/-- Text that closes a group that is held, and then what holds it no more. -/
theorem closes {b : Boundary} {t : String} {offset : Nat}
    (h : Adds n bs kept (c.add (.mapped t b.source offset (Info.silent.withRole (.closes b.token)))) c') :
    Adds n (b :: bs) kept c c' := by
  intro hheld
  obtain ⟨ss, hss, hw⟩ := h hheld.pop
  refine ⟨.mapped t b.source offset (Info.silent.withRole (.closes b.token)) :: ss, ?_, hw.closes hheld t offset rfl⟩
  simp [hss, add]

/-- A group that is held is closed, and the rest holds it no more. -/
theorem closed {b : Boundary} {stop : Nat} (h : Adds n bs kept (c.closed b stop) c') : Adds n (b :: bs) kept c c' := closes h

/-- A group that is held is joined. -/
theorem joined {b : Boundary} (hb : b ∈ bs) {t : String} {offset : Nat} (h : Adds n bs kept (c.joined b t offset) c') :
    Adds n bs kept c c' := by
  intro hheld
  obtain ⟨ss, hss, hw⟩ := h hheld
  refine ⟨.mapped t b.source offset (Info.silent.withRole (.joins b.token)) :: ss, ?_, hw.joins hheld hb t offset rfl⟩
  simp [hss, Code.joined, add]

/-- The buffer that is held is written. -/
theorem append {other : Code} (h : Adds n bs [] (c.append other) c') : Adds n bs other.segments c c' := by
  intro hheld
  have hle : c.nextToken ≤ (c.append other).nextToken := Nat.le_max_left ..
  obtain ⟨ss, hss, hw⟩ := h (hheld.drop.mono hle)
  refine ⟨other.segments ++ ss, ?_, (hw.append hheld.drop (.stop [] hle)).spends hheld⟩
  simp [hss, Code.append]

/-- The buffer that is held is not written. -/
theorem drop (h : Adds n bs [] c c') : Adds n bs kept c c' := by
  intro hheld
  obtain ⟨ss, hss, hw⟩ := h hheld.drop
  exact ⟨ss, hss, hw.drop kept⟩

end Adds

/-! ## Steps without groups -/

/-- What is added between two states of a buffer is in no group, and no token is taken. -/
def AddsPlain (n : Nat) (c c' : Code) : Prop :=
  ∃ as, Ungrouped n as ∧ c'.segments = c.segments ++ as ∧ c'.nextToken = c.nextToken

theorem AddsPlain.same (hs : c'.segments = c.segments) (ht : c'.nextToken = c.nextToken) : AddsPlain n c c' :=
  ⟨[], .nil n, by simp [hs], ht⟩

theorem AddsPlain.trans (h : AddsPlain n c c') (h' : AddsPlain n c' c'') : AddsPlain n c c'' := by
  obtain ⟨as, ha, hs, ht⟩ := h
  obtain ⟨as', ha', hs', ht'⟩ := h'
  exact ⟨as ++ as', ha.append ha', by rw [hs', hs, List.append_assoc], ht'.trans ht⟩

/-- Segments in no group, before anything else. -/
theorem Adds.ungrouped {as : List Segment} (ha : Ungrouped n as) (hs : c'.segments = c.segments ++ as)
    (hle : c.nextToken ≤ c'.nextToken) : Adds n [] [] c c' := by
  intro _
  have hw := (Wrote.stop (n := n) [] hle).ungrouped ha
  exact ⟨as, hs, by simpa using hw⟩

theorem AddsPlain.adds (h : AddsPlain n c c') : Adds n [] [] c c' := by
  obtain ⟨as, ha, hs, ht⟩ := h
  exact .ungrouped ha hs (Nat.le_of_eq ht.symm)

theorem addsPlain_text (c : Code) (t : String) : AddsPlain n c (c.text t) := by
  unfold text
  by_cases h : t.isEmpty = true
  · rw [if_pos h]
    exact .same rfl rfl
  · rw [if_neg h]
    exact ⟨[.text t], ⟨by simp [Known, source?], by simp [role?]⟩, rfl, rfl⟩

theorem addsPlain_mapped (c : Code) (t : String) {source : SourceId} (hs : source < n) (offset : Nat) {i : Info}
    (hi : i.role = none) : AddsPlain n c (c.mapped t source offset i) :=
  ⟨[.mapped t source offset (c.resolve i)], ⟨by simpa [Known, source?] using hs, by simp [role?, resolve, hi]⟩, rfl, rfl⟩

/-! ## Steps with groups -/

theorem adds_text (c : Code) (t : String) : Adds n [] [] c (c.text t) := (addsPlain_text c t).adds

theorem adds_mapped (c : Code) (t : String) {source : SourceId} (hs : source < n) (offset : Nat) {i : Info} (hi : i.role = none) :
    Adds n [] [] c (c.mapped t source offset i) :=
  (addsPlain_mapped c t hs offset hi).adds

theorem adds_bounded (c : Code) {source : SourceId} (hs : source < n) (start stop : Nat) (i : Info) (t : String) :
    Adds n [] [] c (c.bounded source start stop i t) :=
  .opened hs (.andThen (adds_text _ t) (.closed (.refl _)))

theorem adds_quotedKeyAt (c : Code) (key : String) {source : SourceId} (hs : source < n) (offset : Nat) (i : Info) :
    Adds n [] [] c (c.quotedKeyAt key source offset i) :=
  .opened hs (.andThen (adds_text _ _) (.joined List.mem_cons_self (.andThen (adds_text _ _) (.closed (.refl _)))))

theorem adds_literal (c : Code) (t : String) {source : SourceId} (hs : source < n) (offset : Nat) {i : Info} (hi : i.role = none) :
    Adds n [] [] c (c.literal t source offset i) := by
  unfold literal
  split
  · exact adds_bounded c hs offset _ i _
  · exact adds_mapped c t hs offset hi

/-- Parts of a group that is held: all but the last join it, and the last one closes it. -/
theorem adds_groupParts {source : SourceId} {offset token : Nat} {ps : List (Nat × String)} (hne : ps ≠ []) (c : Code) :
    Adds n [⟨token, source⟩] [] c (c.groupParts source offset token ps) := by
  induction ps generalizing c with
  | nil => exact absurd rfl hne
  | cons p ps ih =>
    cases ps with
    | nil => exact .closes (b := ⟨token, source⟩) (.refl _)
    | cons q ps => exact .joined (b := ⟨token, source⟩) List.mem_cons_self (ih (List.cons_ne_nil q ps) _)

theorem adds_camelized (c : Code) (name : String) {source : SourceId} (hs : source < n) (offset : Nat) {i : Info} (hi : i.role = none) :
    Adds n [] [] c (c.camelized name source offset i) := by
  unfold camelized
  split
  · exact .refl c
  · exact adds_mapped c _ hs _ hi
  · rename_i p ps hne _
    exact .opens hs (adds_groupParts hne _)

/-- Every part of a hyphenated name joins the group. -/
theorem Adds.camelizedIn {b : Boundary} (hb : b ∈ bs) {name : String} {offset : Nat}
    (h : Adds n bs kept (c.camelizedIn b name offset) c') : Adds n bs kept c c' := by
  unfold Code.camelizedIn at h
  generalize camelParts name = ps at h
  induction ps generalizing c with
  | nil => exact h
  | cons p ps ih => exact .joined hb (ih h)

theorem adds_spreadMerge (c : Code) (ts : List String) : Adds n [] [] c (c.spreadMerge ts) := by
  have hfold : ∀ (ts : List String) (c : Code), Adds n [] [] c (ts.foldl (fun c t => c.text ("..." ++ t ++ ",\n")) c) := by
    intro ts
    induction ts with
    | nil => exact fun c => .refl c
    | cons t ts ih => exact fun c => .andThen (adds_text c _) (ih _)
  unfold spreadMerge
  split
  · exact .refl c
  · exact adds_text c _
  · exact .andThen (adds_text c _) (.andThen (hfold _ _) (adds_text _ _))

end Code

end TypedSfc
