import Mathlib.Data.Finset.Range
import Mathlib.Data.Finset.Dedup
import TypedSfc.Mapping.Diagnostic

/-!
# Settling the markers

A marker within another expectation counts for that one as long as its own frame met no error. The markers are gone through from the
largest frame number down. When every marker counts for a smaller number than its own, that computes the one solution of the rule; and
when none counts for its own number, the order of the markers has no say in it.
-/

namespace TypedSfc

namespace SourceMap

/-! ## One marker after another -/

/-- Lets one marker count for the frame around it, when its own frame is unmet. -/
def settleStep (met : List Nat) (k : Nat × Nat) : List Nat := if met.contains k.1 then met else k.2 :: met

/-- The markers in the order in which they are settled. -/
def inward (markers : List (Nat × Nat)) : List (Nat × Nat) := markers.mergeSort fun a b => decide (b.1 ≤ a.1)

theorem settle_eq (met : List Nat) (markers : List (Nat × Nat)) : settle met markers = (inward markers).foldl settleStep met := rfl

theorem mem_inward {markers : List (Nat × Nat)} {k : Nat × Nat} : k ∈ inward markers ↔ k ∈ markers := List.mem_mergeSort

theorem pairwise_inward (markers : List (Nat × Nat)) : (inward markers).Pairwise fun a b => b.1 ≤ a.1 := by
  refine (List.pairwise_mergeSort ?_ ?_ markers).imp fun h => by simpa using h
  · intro a b c hab hbc
    simp only [decide_eq_true_eq] at hab hbc ⊢
    omega
  · intro a b
    simp only [Bool.or_eq_true, decide_eq_true_eq]
    omega

theorem mem_settleStep {met : List Nat} {k : Nat × Nat} {frame : Nat} :
    frame ∈ settleStep met k ↔ frame ∈ met ∨ frame = k.2 ∧ k.1 ∉ met := by
  unfold settleStep
  by_cases h : k.1 ∈ met
  · simp [h]
  · simp [h, or_comm]

/-- A frame that no marker counts for keeps its state. -/
theorem mem_foldl_settleStep_of_forall_ne {met : List Nat} {l : List (Nat × Nat)} {frame : Nat} (h : ∀ k ∈ l, k.2 ≠ frame) :
    frame ∈ l.foldl settleStep met ↔ frame ∈ met := by
  induction l generalizing met with
  | nil => rfl
  | cons k l ih =>
    rw [List.foldl_cons, ih fun k' hk' => h k' (by simp [hk']), mem_settleStep]
    have hk : frame ≠ k.2 := (h k (by simp)).symm
    simp [hk]

/-! ## The rule -/

/-- From the largest number down, a frame is met in the end when it was met, or when a marker counts for it whose own frame is unmet in
the end. -/
theorem mem_foldl_settleStep {met : List Nat} {l : List (Nat × Nat)} (hsorted : l.Pairwise fun a b => b.1 ≤ a.1)
    (h : ∀ k ∈ l, k.2 < k.1) {frame : Nat} :
    frame ∈ l.foldl settleStep met ↔ frame ∈ met ∨ ∃ k ∈ l, k.2 = frame ∧ k.1 ∉ l.foldl settleStep met := by
  induction l generalizing met with
  | nil => simp
  | cons k l ih =>
    obtain ⟨hk, hl⟩ := List.pairwise_cons.1 hsorted
    have hlt : ∀ k' ∈ l, k'.2 < k'.1 := fun k' hk' => h k' (by simp [hk'])
    -- Neither this marker nor a later one counts for the frame of this one.
    have hself : k.1 ∈ (k :: l).foldl settleStep met ↔ k.1 ∈ met := by
      apply mem_foldl_settleStep_of_forall_ne
      intro k' hk'
      have hle : k'.1 ≤ k.1 := by
        rcases List.mem_cons.1 hk' with rfl | hk'
        · exact Nat.le_refl _
        · exact hk k' hk'
      have := h k' hk'
      omega
    rw [List.foldl_cons] at hself ⊢
    rw [ih hl hlt, mem_settleStep]
    constructor
    · rintro ((hm | ⟨rfl, hm⟩) | ⟨k', hk', he, hm⟩)
      · exact .inl hm
      · exact .inr ⟨k, by simp, rfl, fun hin => hm (hself.1 hin)⟩
      · exact .inr ⟨k', by simp [hk'], he, hm⟩
    · rintro (hm | ⟨k', hk', he, hm⟩)
      · exact .inl (.inl hm)
      · rcases List.mem_cons.1 hk' with rfl | hk'
        · exact .inl (.inr ⟨he.symm, fun hin => hm (hself.2 hin)⟩)
        · exact .inr ⟨k', hk', he, hm⟩

/-- The frames met in the end, when every marker counts for a smaller number than its own. -/
theorem mem_settle {met : List Nat} {markers : List (Nat × Nat)} (h : ∀ k ∈ markers, k.2 < k.1) {frame : Nat} :
    frame ∈ settle met markers ↔ frame ∈ met ∨ ∃ k ∈ markers, k.2 = frame ∧ k.1 ∉ settle met markers := by
  rw [settle_eq, mem_foldl_settleStep (pairwise_inward markers) fun k hk => h k (mem_inward.1 hk)]
  simp only [mem_inward]

/-- The rule has one solution: two solutions agree on a frame when they agree on all larger ones, and no marker is of a frame above
some number. -/
theorem settled_unique {met : Nat → Prop} {markers : List (Nat × Nat)} (h : ∀ k ∈ markers, k.2 < k.1) {used used' : Nat → Prop}
    (hused : ∀ o, used o ↔ met o ∨ ∃ f, (f, o) ∈ markers ∧ ¬used f) (hused' : ∀ o, used' o ↔ met o ∨ ∃ f, (f, o) ∈ markers ∧ ¬used' f) :
    used' = used := by
  obtain ⟨bound, hbound⟩ := (markers.map Prod.fst).toFinset.exists_nat_subset_range
  have hlt : ∀ f o, (f, o) ∈ markers → o < f ∧ f < bound := by
    intro f o hf
    have hmem : f ∈ (markers.map Prod.fst).toFinset := List.mem_toFinset.2 (List.mem_map.2 ⟨(f, o), hf, rfl⟩)
    exact ⟨h (f, o) hf, Finset.mem_range.1 (hbound hmem)⟩
  have hagree : ∀ k o, bound - o ≤ k → (used' o ↔ used o) := by
    intro k
    induction k with
    | zero =>
      intro o ho
      have hno : ∀ f, (f, o) ∉ markers := by
        intro f hf
        have := hlt f o hf
        omega
      rw [hused, hused']
      simp [hno]
    | succ k ih =>
      intro o ho
      rw [hused, hused']
      refine or_congr Iff.rfl (exists_congr fun f => and_congr_right fun hf => not_congr (ih f ?_))
      have := hlt f o hf
      omega
  funext o
  exact propext (hagree (bound - o) o (Nat.le_refl _))

/-! ## The order of the markers -/

/-- One marker, for the set of frames met. -/
def markOne (met : Finset Nat) (k : Nat × Nat) : Finset Nat := if k.1 ∈ met then met else insert k.2 met

theorem toFinset_foldl_settleStep (met : List Nat) (l : List (Nat × Nat)) :
    (l.foldl settleStep met).toFinset = l.foldl markOne met.toFinset := by
  induction l generalizing met with
  | nil => rfl
  | cons k l ih =>
    rw [List.foldl_cons, List.foldl_cons, ih]
    congr 1
    by_cases h : k.1 ∈ met <;> simp [settleStep, markOne, h]

/-- Two markers of one frame can be exchanged when neither counts for that frame. -/
theorem markOne_comm {met : Finset Nat} {a b : Nat × Nat} (hab : a.1 = b.1) (ha : a.2 ≠ a.1) (hb : b.2 ≠ b.1) :
    markOne (markOne met a) b = markOne (markOne met b) a := by
  by_cases h : b.1 ∈ met
  · simp [markOne, hab, h]
  · have hba : b.1 ≠ a.2 := by rw [← hab]; exact ha.symm
    simp [markOne, hab, h, hba, hb.symm, Finset.insert_comm]

/-- A marker can be taken to the front of others of its frame. -/
theorem foldl_markOne_of_forall_eq {met : Finset Nat} {a : Nat × Nat} (ha : a.2 ≠ a.1) {l : List (Nat × Nat)}
    (hl : ∀ k ∈ l, k.1 = a.1 ∧ k.2 ≠ k.1) : markOne (l.foldl markOne met) a = l.foldl markOne (markOne met a) := by
  induction l generalizing met with
  | nil => rfl
  | cons k l ih =>
    obtain ⟨hk, hne⟩ := hl k (by simp)
    rw [List.foldl_cons, List.foldl_cons, ih fun k' hk' => hl k' (by simp [hk']), markOne_comm hk hne ha]

/-- Two orders of the same markers, both from the largest number down, meet the same frames when no marker counts for its own. -/
theorem foldl_markOne_eq_of_perm {l₁ l₂ : List (Nat × Nat)} (h₁ : l₁.Pairwise fun a b => b.1 ≤ a.1)
    (h₂ : l₂.Pairwise fun a b => b.1 ≤ a.1) (hperm : l₁.Perm l₂) (h : ∀ k ∈ l₁, k.2 ≠ k.1) (met : Finset Nat) :
    l₁.foldl markOne met = l₂.foldl markOne met := by
  induction l₁ generalizing l₂ met with
  | nil => rw [List.nil_perm.1 hperm]
  | cons a l₁ ih =>
    obtain ⟨hfirst, hrest⟩ := List.pairwise_cons.1 h₁
    obtain ⟨p, q, rfl⟩ := List.append_of_mem (hperm.subset (List.mem_cons_self (a := a) (l := l₁)))
    have hperm' : l₁.Perm (p ++ q) := (List.perm_middle.symm.trans hperm.symm).symm.cons_inv
    obtain ⟨hp, hq, hpq⟩ := List.pairwise_append.1 h₂
    have hsame : ∀ k ∈ p, k.1 = a.1 ∧ k.2 ≠ k.1 := by
      intro k hk
      have hmem : k ∈ l₁ := hperm'.symm.subset (by simp [hk])
      have hle : k.1 ≤ a.1 := hfirst k hmem
      have hge : a.1 ≤ k.1 := hpq k hk a (by simp)
      exact ⟨by omega, h k (by simp [hmem])⟩
    have hsorted : (p ++ q).Pairwise fun a b => b.1 ≤ a.1 :=
      List.pairwise_append.2 ⟨hp, (List.pairwise_cons.1 hq).2, fun b hb c hc => hpq b hb c (by simp [hc])⟩
    rw [List.foldl_cons, ih hrest hsorted hperm' (fun k hk => h k (by simp [hk])), List.foldl_append, List.foldl_append, List.foldl_cons,
      foldl_markOne_of_forall_eq (h a (by simp)) hsame]

/-- The order of what was met and of the markers has no say in what is met in the end, when no marker counts for its own frame. -/
theorem mem_settle_of_perm {met₁ met₂ : List Nat} {markers₁ markers₂ : List (Nat × Nat)} (hmet : met₁.Perm met₂)
    (hmarkers : markers₁.Perm markers₂) (h : ∀ k ∈ markers₁, k.2 ≠ k.1) {frame : Nat} :
    frame ∈ settle met₁ markers₁ ↔ frame ∈ settle met₂ markers₂ := by
  have hsort : (inward markers₁).Perm (inward markers₂) :=
    (List.mergeSort_perm _ _).trans (hmarkers.trans (List.mergeSort_perm _ _).symm)
  have hset : (settle met₁ markers₁).toFinset = (settle met₂ markers₂).toFinset := by
    rw [settle_eq, settle_eq, toFinset_foldl_settleStep, toFinset_foldl_settleStep, List.toFinset_eq_of_perm _ _ hmet]
    exact foldl_markOne_eq_of_perm (pairwise_inward _) (pairwise_inward _) hsort (fun k hk => h k (mem_inward.1 hk)) _
  rw [← List.mem_toFinset, hset, List.mem_toFinset]

end SourceMap

end TypedSfc
