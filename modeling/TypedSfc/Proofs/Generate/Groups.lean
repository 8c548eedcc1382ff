import TypedSfc.Generate.Code
import TypedSfc.Proofs.Mapping.Stream

/-!
# Groups that are written

A generator that is under way holds some groups open, and may have a buffer at hand whose groups are whole but not written yet. What it
writes from there on closes each group that it holds, writes the buffer once or not at all, and brings whole groups of new tokens. That
is said of a stream by the roles under each token, so that streams written one after another can be put together.
-/

namespace TypedSfc

open Segment

/-- What a generator holds: groups that are open, and a buffer to be written; all their tokens come before `lo`. -/
structure Held (n : Nat) (bs : List Boundary) (kept : List Segment) (lo : Nat) : Prop where
  nodup : (bs.map Boundary.token).Nodup
  below : ∀ b ∈ bs, b.token < lo
  known : ∀ b ∈ bs, b.source < n
  apart : ∀ b ∈ bs, rolesOf b.token kept = []
  keptKnown : Known n kept
  keptWhole : ∀ t, rolesOf t kept = [] ∨ t < lo ∧ Role.Whole t (rolesOf t kept)

/-- What a stream does when it is written from a state that holds groups and a buffer: the groups are closed, the buffer is written at
most once, and the tokens from `lo` up to `hi` are used for whole groups. -/
structure Wrote (n : Nat) (bs : List Boundary) (kept : List Segment) (lo : Nat) (ss : List Segment) (hi : Nat) : Prop where
  le : lo ≤ hi
  known : Known n ss
  own : ∀ t, lo ≤ t → rolesOf t ss = [] ∨ t < hi ∧ Role.Whole t (rolesOf t ss)
  closing : ∀ b ∈ bs, ∃ k, rolesOf b.token ss = List.replicate k (.joins b.token) ++ [.closes b.token]
  kept : ∀ t < lo, t ∉ bs.map Boundary.token → rolesOf t ss = [] ∨ rolesOf t ss = rolesOf t kept

/-! ## Streams -/

/-- Segments of known sources that are in no group. -/
def Ungrouped (n : Nat) (ss : List Segment) : Prop := Known n ss ∧ ∀ s ∈ ss, s.role? = none

namespace Segment

theorem rolesOf_cons_self {s : Segment} {r : Role} (h : s.role? = some r) (ss : List Segment) :
    rolesOf r.token (s :: ss) = r :: rolesOf r.token ss := by
  simp [rolesOf, h]

theorem rolesOf_cons_other {s : Segment} {r : Role} (h : s.role? = some r) (ss : List Segment) {t : Nat} (ht : t ≠ r.token) :
    rolesOf t (s :: ss) = rolesOf t ss := by
  simp [rolesOf, h, ht.symm]

end Segment

theorem known_nil (n : Nat) : Known n [] := by
  intro s hs
  simp at hs

theorem known_append {n : Nat} {as bs : List Segment} : Known n (as ++ bs) ↔ Known n as ∧ Known n bs := by
  simp [Known, or_imp, forall_and]

theorem known_cons {n : Nat} {s : Segment} {ss : List Segment} :
    Known n (s :: ss) ↔ (∀ source, s.source? = some source → source < n) ∧ Known n ss := by
  simp [Known]

theorem Ungrouped.nil (n : Nat) : Ungrouped n [] := ⟨known_nil n, by simp⟩

theorem Ungrouped.append {n : Nat} {as bs : List Segment} (ha : Ungrouped n as) (hb : Ungrouped n bs) : Ungrouped n (as ++ bs) := by
  refine ⟨known_append.2 ⟨ha.1, hb.1⟩, ?_⟩
  intro s hs
  rcases List.mem_append.1 hs with hs | hs
  · exact ha.2 s hs
  · exact hb.2 s hs

theorem Ungrouped.rolesOf {n : Nat} {ss : List Segment} (h : Ungrouped n ss) (t : Nat) : rolesOf t ss = [] := rolesOf_eq_nil h.2 t

/-- A token from before that is not held does not stand in what is written without a buffer. -/
theorem Wrote.rolesOf_old {n lo hi : Nat} {bs : List Boundary} {ss : List Segment} (h : Wrote n bs [] lo ss hi) {t : Nat} (ht : t < lo)
    (hb : t ∉ bs.map Boundary.token) : rolesOf t ss = [] := by
  rcases h.kept t ht hb with hr | hr
  · exact hr
  · exact hr

/-- A token of what follows does not stand in what is written. -/
theorem Wrote.rolesOf_later {n lo hi : Nat} {bs : List Boundary} {kept ss : List Segment} (h : Wrote n bs kept lo ss hi) {t : Nat}
    (hlo : lo ≤ t) (hhi : hi ≤ t) : rolesOf t ss = [] := by
  rcases h.own t hlo with hr | ⟨hlt, -⟩
  · exact hr
  · exact absurd hlt (Nat.not_lt_of_le hhi)

/-- A stream that is written by itself is grouped. -/
theorem Wrote.grouped {n : Nat} {ss : List Segment} {hi : Nat} (h : Wrote n [] [] 0 ss hi) : Grouped ss := by
  intro t
  rcases h.own t (Nat.zero_le t) with ht | ⟨-, ht⟩
  · exact .inl ht
  · exact .inr ht

/-! ## What is held -/

namespace Held

variable {n lo mid : Nat} {bs : List Boundary} {kept : List Segment}

theorem nil (n lo : Nat) : Held n [] [] lo where
  nodup := List.nodup_nil
  below := by simp
  known := by simp
  apart := by simp
  keptKnown := known_nil n
  keptWhole := fun _ => .inl rfl

/-- No group that is held has a new token. -/
theorem not_mem_tokens (h : Held n bs kept lo) {t : Nat} (ht : lo ≤ t) : t ∉ bs.map Boundary.token := by
  intro hmem
  obtain ⟨b, hb, rfl⟩ := List.mem_map.1 hmem
  exact Nat.not_lt_of_le ht (h.below b hb)

/-- The buffer has no new token. -/
theorem rolesOf_kept (h : Held n bs kept lo) {t : Nat} (ht : lo ≤ t) : rolesOf t kept = [] := by
  rcases h.keptWhole t with hr | ⟨hlt, -⟩
  · exact hr
  · exact absurd hlt (Nat.not_lt_of_le ht)

theorem mono (h : Held n bs kept lo) (hle : lo ≤ mid) : Held n bs kept mid where
  nodup := h.nodup
  below := fun b hb => Nat.lt_of_lt_of_le (h.below b hb) hle
  known := h.known
  apart := h.apart
  keptKnown := h.keptKnown
  keptWhole := by
    intro t
    rcases h.keptWhole t with ht | ⟨hlt, ht⟩
    · exact .inl ht
    · exact .inr ⟨Nat.lt_of_lt_of_le hlt hle, ht⟩

/-- Without the buffer. -/
theorem drop (h : Held n bs kept lo) : Held n bs [] lo where
  nodup := h.nodup
  below := h.below
  known := h.known
  apart := fun _ _ => rfl
  keptKnown := known_nil n
  keptWhole := fun _ => .inl rfl

/-- With one group more, of the next token. -/
theorem push (h : Held n bs kept lo) {source : SourceId} (hs : source < n) : Held n (⟨lo, source⟩ :: bs) kept (lo + 1) where
  nodup := List.nodup_cons.2 ⟨h.not_mem_tokens (Nat.le_refl lo), h.nodup⟩
  below := by
    intro b hb
    rcases List.mem_cons.1 hb with rfl | hb
    · exact Nat.lt_succ_self lo
    · exact Nat.lt_succ_of_lt (h.below b hb)
  known := by
    intro b hb
    rcases List.mem_cons.1 hb with rfl | hb
    · exact hs
    · exact h.known b hb
  apart := by
    intro b hb
    rcases List.mem_cons.1 hb with rfl | hb
    · exact h.rolesOf_kept (Nat.le_refl lo)
    · exact h.apart b hb
  keptKnown := h.keptKnown
  keptWhole := (h.mono (Nat.le_succ lo)).keptWhole

/-- With one group less. -/
theorem pop {b : Boundary} (h : Held n (b :: bs) kept lo) : Held n bs kept lo where
  nodup := (List.nodup_cons.1 h.nodup).2
  below := fun b' hb => h.below b' (by simp [hb])
  known := fun b' hb => h.known b' (by simp [hb])
  apart := fun b' hb => h.apart b' (by simp [hb])
  keptKnown := h.keptKnown
  keptWhole := h.keptWhole

/-- What was written into a buffer of its own is held from then on. -/
theorem keep (h : Held n bs [] lo) {ss : List Segment} {hi : Nat} (hw : Wrote n [] [] lo ss hi) : Held n bs ss hi where
  nodup := h.nodup
  below := fun b hb => Nat.lt_of_lt_of_le (h.below b hb) hw.le
  known := h.known
  apart := fun b hb => hw.rolesOf_old (h.below b hb) List.not_mem_nil
  keptKnown := hw.known
  keptWhole := by
    intro t
    rcases Nat.lt_or_ge t lo with hlt | hge
    · exact .inl (hw.rolesOf_old hlt List.not_mem_nil)
    · exact hw.own t hge

end Held

/-! ## What is written -/

namespace Wrote

variable {n lo mid hi : Nat} {bs : List Boundary} {kept ss : List Segment}

/-- Nothing is written, and some tokens may be passed over. -/
theorem stop (kept : List Segment) (h : lo ≤ hi) : Wrote n [] kept lo [] hi where
  le := h
  known := known_nil n
  own := fun _ _ => .inl rfl
  closing := by simp
  kept := fun _ _ _ => .inl rfl

/-- A buffer need not be written. -/
theorem drop (h : Wrote n bs [] lo ss hi) (kept : List Segment) : Wrote n bs kept lo ss hi where
  le := h.le
  known := h.known
  own := h.own
  closing := h.closing
  kept := fun _ ht hb => .inl (h.rolesOf_old ht hb)

/-- First segments without a group. -/
theorem ungrouped {as : List Segment} (h : Wrote n bs kept lo ss hi) (ha : Ungrouped n as) : Wrote n bs kept lo (as ++ ss) hi where
  le := h.le
  known := known_append.2 ⟨ha.1, h.known⟩
  own := by
    intro t ht
    rw [rolesOf_append, ha.rolesOf, List.nil_append]
    exact h.own t ht
  closing := by
    intro b hb
    rw [rolesOf_append, ha.rolesOf, List.nil_append]
    exact h.closing b hb
  kept := by
    intro t ht hb
    rw [rolesOf_append, ha.rolesOf, List.nil_append]
    exact h.kept t ht hb

/-- First what leaves all that is held as it is. -/
theorem append {as : List Segment} (h : Wrote n bs kept mid ss hi) (hheld : Held n bs kept lo) (ha : Wrote n [] [] lo as mid) :
    Wrote n bs kept lo (as ++ ss) hi where
  le := Nat.le_trans ha.le h.le
  known := known_append.2 ⟨ha.known, h.known⟩
  own := by
    intro t ht
    rw [rolesOf_append]
    rcases Nat.lt_or_ge t mid with hlt | hge
    · -- A token of the first part: neither a group that is held nor the buffer has it.
      have hs : rolesOf t ss = [] := by
        rcases h.kept t hlt (hheld.not_mem_tokens ht) with hs | hs
        · exact hs
        · rw [hs, hheld.rolesOf_kept ht]
      rw [hs, List.append_nil]
      rcases ha.own t ht with hr | ⟨-, hr⟩
      · exact .inl hr
      · exact .inr ⟨Nat.lt_of_lt_of_le hlt h.le, hr⟩
    · rw [ha.rolesOf_later ht hge, List.nil_append]
      exact h.own t hge
  closing := by
    intro b hb
    rw [rolesOf_append, ha.rolesOf_old (hheld.below b hb) List.not_mem_nil, List.nil_append]
    exact h.closing b hb
  kept := by
    intro t ht hb
    rw [rolesOf_append, ha.rolesOf_old ht List.not_mem_nil, List.nil_append]
    exact h.kept t (Nat.lt_of_lt_of_le ht ha.le) hb

/-- First all that is to be done, and then what leaves it so. -/
theorem before {as : List Segment} (h : Wrote n [] [] mid ss hi) (ha : Wrote n bs kept lo as mid) (hheld : Held n bs kept lo) :
    Wrote n bs kept lo (as ++ ss) hi := by
  have hearly : ∀ t < mid, rolesOf t ss = [] := fun t ht => h.rolesOf_old ht List.not_mem_nil
  constructor
  case le => exact Nat.le_trans ha.le h.le
  case known => exact known_append.2 ⟨ha.known, h.known⟩
  case own =>
    intro t ht
    rw [rolesOf_append]
    rcases Nat.lt_or_ge t mid with hlt | hge
    · rw [hearly t hlt, List.append_nil]
      rcases ha.own t ht with hr | ⟨-, hr⟩
      · exact .inl hr
      · exact .inr ⟨Nat.lt_of_lt_of_le hlt h.le, hr⟩
    · rw [ha.rolesOf_later ht hge, List.nil_append]
      exact h.own t hge
  case closing =>
    intro b hb
    rw [rolesOf_append, hearly b.token (Nat.lt_of_lt_of_le (hheld.below b hb) ha.le), List.append_nil]
    exact ha.closing b hb
  case kept =>
    intro t ht hb
    rw [rolesOf_append, hearly t (Nat.lt_of_lt_of_le ht ha.le), List.append_nil]
    exact ha.kept t ht hb

/-- First the segment that opens a group of the next token. -/
theorem opens (hheld : Held n bs kept lo) {source : SourceId} (hs : source < n) (t : String) (offset : Nat) {i : Info}
    (hi' : i.role = some (.opens lo)) (h : Wrote n (⟨lo, source⟩ :: bs) kept (lo + 1) ss hi) :
    Wrote n bs kept lo (.mapped t source offset i :: ss) hi := by
  have hself : rolesOf lo (.mapped t source offset i :: ss) = .opens lo :: rolesOf lo ss :=
    rolesOf_cons_self (s := .mapped t source offset i) hi' ss
  have hother : ∀ u, u ≠ lo → rolesOf u (.mapped t source offset i :: ss) = rolesOf u ss := fun u hu =>
    rolesOf_cons_other (s := .mapped t source offset i) hi' ss hu
  constructor
  case le => exact Nat.le_of_succ_le h.le
  case known => exact known_cons.2 ⟨by simpa [source?] using hs, h.known⟩
  case own =>
    intro u hu
    rcases Nat.eq_or_lt_of_le hu with rfl | hlt
    · obtain ⟨k, hk⟩ := h.closing ⟨lo, source⟩ (by simp)
      exact .inr ⟨h.le, k, by rw [hself, hk]⟩
    · rw [hother u (by omega)]
      exact h.own u hlt
  case closing =>
    intro b hb
    have := hheld.below b hb
    rw [hother b.token (by omega)]
    exact h.closing b (by simp [hb])
  case kept =>
    intro u hu hb
    rw [hother u (by omega)]
    refine h.kept u (by omega) ?_
    simp only [List.map_cons, List.mem_cons, not_or]
    exact ⟨by omega, hb⟩

/-- First a segment that joins a group that is held. -/
theorem joins (hheld : Held n bs kept lo) {b : Boundary} (hb : b ∈ bs) (t : String) (offset : Nat) {i : Info}
    (hi' : i.role = some (.joins b.token)) (h : Wrote n bs kept lo ss hi) :
    Wrote n bs kept lo (.mapped t b.source offset i :: ss) hi := by
  have hself : rolesOf b.token (.mapped t b.source offset i :: ss) = .joins b.token :: rolesOf b.token ss :=
    rolesOf_cons_self (s := .mapped t b.source offset i) hi' ss
  have hother : ∀ u, u ≠ b.token → rolesOf u (.mapped t b.source offset i :: ss) = rolesOf u ss := fun u hu =>
    rolesOf_cons_other (s := .mapped t b.source offset i) hi' ss hu
  constructor
  case le => exact h.le
  case known => exact known_cons.2 ⟨by simpa [source?] using hheld.known b hb, h.known⟩
  case own =>
    intro u hu
    have := hheld.below b hb
    rw [hother u (by omega)]
    exact h.own u hu
  case closing =>
    intro b' hb'
    obtain ⟨k, hk⟩ := h.closing b' hb'
    by_cases heq : b'.token = b.token
    · refine ⟨k + 1, ?_⟩
      rw [heq] at hk ⊢
      rw [hself, hk, List.replicate_succ, List.cons_append]
    · exact ⟨k, by rw [hother _ heq, hk]⟩
  case kept =>
    intro u hu hu'
    rw [hother u (fun heq => hu' (heq ▸ List.mem_map.2 ⟨b, hb, rfl⟩))]
    exact h.kept u hu hu'

/-- First the segment that closes a group that is held. -/
theorem closes {b : Boundary} (hheld : Held n (b :: bs) kept lo) (t : String) (offset : Nat) {i : Info}
    (hi' : i.role = some (.closes b.token)) (h : Wrote n bs kept lo ss hi) :
    Wrote n (b :: bs) kept lo (.mapped t b.source offset i :: ss) hi := by
  have hself : rolesOf b.token (.mapped t b.source offset i :: ss) = .closes b.token :: rolesOf b.token ss :=
    rolesOf_cons_self (s := .mapped t b.source offset i) hi' ss
  have hother : ∀ u, u ≠ b.token → rolesOf u (.mapped t b.source offset i :: ss) = rolesOf u ss := fun u hu =>
    rolesOf_cons_other (s := .mapped t b.source offset i) hi' ss hu
  have hnot : b.token ∉ bs.map Boundary.token := (List.nodup_cons.1 hheld.nodup).1
  constructor
  case le => exact h.le
  case known => exact known_cons.2 ⟨by simpa [source?] using hheld.known b (by simp), h.known⟩
  case own =>
    intro u hu
    have := hheld.below b (by simp)
    rw [hother u (by omega)]
    exact h.own u hu
  case closing =>
    intro b' hb'
    rcases List.mem_cons.1 hb' with rfl | hb'
    · refine ⟨0, ?_⟩
      have hrest : rolesOf b'.token ss = [] := by
        rcases h.kept b'.token (hheld.below b' (by simp)) hnot with hr | hr
        · exact hr
        · rw [hr, hheld.apart b' (by simp)]
      rw [hself, hrest, List.replicate_zero, List.nil_append]
    · rw [hother _ fun heq => hnot (heq ▸ List.mem_map.2 ⟨b', hb', rfl⟩)]
      exact h.closing b' hb'
  case kept =>
    intro u hu hu'
    simp only [List.map_cons, List.mem_cons, not_or] at hu'
    rw [hother u hu'.1]
    exact h.kept u hu hu'.2

/-- First the buffer that is held. -/
theorem spends (h : Wrote n bs [] lo ss hi) (hheld : Held n bs kept lo) : Wrote n bs kept lo (kept ++ ss) hi where
  le := h.le
  known := known_append.2 ⟨hheld.keptKnown, h.known⟩
  own := by
    intro t ht
    rw [rolesOf_append, hheld.rolesOf_kept ht, List.nil_append]
    exact h.own t ht
  closing := by
    intro b hb
    rw [rolesOf_append, hheld.apart b hb, List.nil_append]
    exact h.closing b hb
  kept := by
    intro t ht hb
    exact .inr (by rw [rolesOf_append, h.rolesOf_old ht hb, List.append_nil])

/-- The tokens of a buffer that was written meanwhile are new ones to what came before it. -/
theorem release {as : List Segment} (h : Wrote n bs as mid ss hi) (hheld : Held n bs [] lo) (ha : Wrote n [] [] lo as mid) :
    Wrote n bs [] lo ss hi where
  le := Nat.le_trans ha.le h.le
  known := h.known
  own := by
    intro t ht
    rcases Nat.lt_or_ge t mid with hlt | hge
    · rcases h.kept t hlt (hheld.not_mem_tokens ht) with hr | hr
      · exact .inl hr
      · rw [hr]
        rcases ha.own t ht with hr | ⟨-, hr⟩
        · exact .inl hr
        · exact .inr ⟨Nat.lt_of_lt_of_le hlt h.le, hr⟩
    · exact h.own t hge
  closing := h.closing
  kept := by
    intro t ht hb
    rcases h.kept t (Nat.lt_of_lt_of_le ht ha.le) hb with hr | hr
    · exact .inl hr
    · exact .inl (by rw [hr, ha.rolesOf_old ht List.not_mem_nil])

end Wrote

end TypedSfc
