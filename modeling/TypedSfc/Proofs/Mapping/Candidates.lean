import Mathlib.Data.List.Basic
import TypedSfc.Mapping.Diagnostic

/-!
# The entries around a diagnostic

The candidates for a diagnostic are the entries that cover both of its ends, the one of the smallest extent first and a later entry
before an earlier one of the same extent. Here this order is said of entries by their numbers, without a list: `Covers` and `Ahead`. A
walk outward that stops at the first entry that accepts a code meets the entries that have no such entry ahead of them.
-/

namespace TypedSfc

/-! ## Lists in an order -/

/-- Sorting keeps the order that elements of the same rank had. -/
theorem pairwise_mergeSort_of_pairwise {α : Type} {le : α → α → Bool} {R : α → α → Prop} (trans : ∀ a b c, le a b → le b c → le a c)
    (total : ∀ a b, le a b || le b a) {l : List α} (h : l.Pairwise R) :
    (l.mergeSort le).Pairwise fun a b => le a b = true ∧ (le b a = true → R a b) := by
  induction l with
  | nil => simp
  | cons a l ih =>
    obtain ⟨hR, hl⟩ := List.pairwise_cons.1 h
    have hsorted := List.pairwise_mergeSort trans total (a :: l)
    obtain ⟨l₁, l₂, h₁, h₂, hlt⟩ := List.mergeSort_cons trans total a l
    have ih := ih hl
    have hmem : ∀ b ∈ l₁ ++ l₂, b ∈ l := by
      intro b hb
      rw [← h₂] at hb
      exact List.mem_mergeSort.1 hb
    rw [h₂, List.pairwise_append] at ih
    rw [h₁, List.pairwise_append] at hsorted
    rw [h₁, List.pairwise_append]
    refine ⟨ih.1, List.pairwise_cons.2 ⟨?_, ih.2.1⟩, ?_⟩
    · intro b hb
      exact ⟨(List.pairwise_cons.1 hsorted.2.1).1 b hb, fun _ => hR b (hmem b (by simp [hb]))⟩
    · intro b hb c hc
      rcases List.mem_cons.1 hc with rfl | hc
      · refine ⟨hsorted.2.2 b hb c (by simp), fun hcb => ?_⟩
        have hn := hlt b hb
        simp [hcb] at hn
      · exact ih.2.2 b hb c hc

/-- What is taken from the start of an ordered list as long as `p` holds: the elements that have no other behind `p` ahead of them. -/
theorem mem_takeWhile_of_pairwise {α : Type} {R : α → α → Prop} (asymm : ∀ a b, R a b → ¬R b a) {p : α → Bool} {l : List α}
    (h : l.Pairwise R) {x : α} : x ∈ l.takeWhile p ↔ x ∈ l ∧ p x = true ∧ ∀ y ∈ l, R y x → p y = true := by
  induction l with
  | nil => simp
  | cons a l ih =>
    obtain ⟨ha, hl⟩ := List.pairwise_cons.1 h
    rw [List.takeWhile_cons]
    by_cases hp : p a = true
    · rw [if_pos hp, List.mem_cons, ih hl]
      constructor
      · rintro (rfl | ⟨hx, hpx, hy⟩)
        · refine ⟨by simp, hp, ?_⟩
          intro y hy hyx
          rcases List.mem_cons.1 hy with rfl | hy
          · exact hp
          · exact absurd hyx (asymm _ _ (ha y hy))
        · refine ⟨by simp [hx], hpx, ?_⟩
          intro y hy' hyx
          rcases List.mem_cons.1 hy' with rfl | hy'
          · exact hp
          · exact hy y hy' hyx
      · rintro ⟨hx, hpx, hy⟩
        rcases List.mem_cons.1 hx with rfl | hx
        · exact .inl rfl
        · exact .inr ⟨hx, hpx, fun y hy' => hy y (by simp [hy'])⟩
    · rw [if_neg hp]
      simp only [List.not_mem_nil, false_iff]
      rintro ⟨hx, hpx, hy⟩
      rcases List.mem_cons.1 hx with rfl | hx
      · exact hp hpx
      · exact hp (hy a (by simp) (ha x hx))

/-- What is found first in an ordered list has no other that is sought ahead of it. -/
theorem find?_eq_some_of_pairwise {α : Type} {R : α → α → Prop} (asymm : ∀ a b, R a b → ¬R b a) {p : α → Bool} {l : List α}
    (h : l.Pairwise R) {x : α} : l.find? p = some x ↔ x ∈ l ∧ p x = true ∧ ∀ y ∈ l, p y = true → y = x ∨ R x y := by
  induction l with
  | nil => simp
  | cons a l ih =>
    obtain ⟨ha, hl⟩ := List.pairwise_cons.1 h
    by_cases hp : p a = true
    · rw [List.find?_cons_of_pos hp, Option.some.injEq]
      constructor
      · rintro rfl
        refine ⟨by simp, hp, ?_⟩
        intro y hy _
        rcases List.mem_cons.1 hy with rfl | hy
        · exact .inl rfl
        · exact .inr (ha y hy)
      · rintro ⟨hx, -, hy⟩
        rcases List.mem_cons.1 hx with rfl | hx
        · rfl
        · rcases hy a (by simp) hp with rfl | hxa
          · rfl
          · exact absurd hxa (asymm _ _ (ha x hx))
    · rw [List.find?_cons_of_neg hp, ih hl]
      constructor
      · rintro ⟨hx, hpx, hy⟩
        refine ⟨by simp [hx], hpx, ?_⟩
        intro y hy' hpy
        rcases List.mem_cons.1 hy' with rfl | hy'
        · exact absurd hpy hp
        · exact hy y hy' hpy
      · rintro ⟨hx, hpx, hy⟩
        rcases List.mem_cons.1 hx with rfl | hx
        · exact absurd hpx hp
        · exact ⟨hx, hpx, fun y hy' => hy y (by simp [hy'])⟩

namespace SourceMap

/-! ## Ranks -/

/-- The `n`-th entry covers both ends of a diagnostic, as the candidate says. -/
def Covers (m : SourceMap) (d : Diagnostic) (n : Nat) (c : Candidate) : Prop :=
  m.entries[n]? = some c.entry ∧ c.entry.documentRange d.start d.stop = some (c.span, c.extent)

/-- Whether a candidate comes before another: it has a smaller extent, or the same extent and a later entry. -/
def Ahead (a b : Candidate × Nat) : Prop := a.1.extent < b.1.extent ∨ a.1.extent = b.1.extent ∧ b.2 < a.2

theorem ahead_asymm (a b : Candidate × Nat) : Ahead a b → ¬Ahead b a := by
  unfold Ahead
  omega

/-- The candidates with the numbers of their entries. -/
def ranked (m : SourceMap) (start stop : Nat) : List (Candidate × Nat) :=
  (m.entries.zipIdx.reverse.filterMap fun e => (e.1.documentRange start stop).map fun r => (⟨e.1, r.1, r.2⟩, e.2)).mergeSort
    fun a b => decide (a.1.extent ≤ b.1.extent)

theorem mem_ranked {m : SourceMap} {d : Diagnostic} {n : Nat} {c : Candidate} :
    (c, n) ∈ m.ranked d.start d.stop ↔ m.Covers d n c := by
  obtain ⟨e, s, k⟩ := c
  simp only [ranked, List.mem_mergeSort, List.mem_filterMap, List.mem_reverse, Covers, Option.map_eq_some_iff]
  constructor
  · rintro ⟨⟨e', n'⟩, hmem, r, hr, heq⟩
    simp only [Prod.mk.injEq, Candidate.mk.injEq] at heq
    obtain ⟨⟨rfl, rfl, rfl⟩, rfl⟩ := heq
    exact ⟨List.mem_zipIdx_iff_getElem?.1 hmem, hr⟩
  · rintro ⟨hn, hr⟩
    exact ⟨(e, n), List.mem_zipIdx_iff_getElem?.2 hn, (s, k), hr, rfl⟩

/-- The candidates are the ranked ones. -/
theorem candidates_eq (m : SourceMap) (start stop : Nat) : m.candidates start stop = (m.ranked start stop).map Prod.fst := by
  rw [ranked, List.map_mergeSort (s := fun a b : Candidate => decide (a.extent ≤ b.extent)) (fun _ _ _ _ => rfl), candidates,
    List.map_filterMap]
  congr 1
  have hfst : m.entries.reverse = m.entries.zipIdx.reverse.map Prod.fst := by rw [List.map_reverse, List.zipIdx_map_fst]
  rw [hfst, List.filterMap_map]
  apply List.filterMap_congr
  intro e _
  cases h : e.1.documentRange start stop <;> simp [h]

/-- The ranked candidates stand in their order. -/
theorem pairwise_ranked (m : SourceMap) (start stop : Nat) : (m.ranked start stop).Pairwise Ahead := by
  have hidx : m.entries.zipIdx.Pairwise fun a b => a.2 < b.2 := by
    rw [List.pairwise_iff_getElem]
    intro i j hi hj hij
    simpa using hij
  have hlist : (m.entries.zipIdx.reverse.filterMap fun e =>
      (e.1.documentRange start stop).map fun r => ((⟨e.1, r.1, r.2⟩ : Candidate), e.2)).Pairwise fun a b => b.2 < a.2 := by
    refine List.Pairwise.filterMap _ ?_ (List.pairwise_reverse.2 hidx)
    intro a a' haa b hb b' hb'
    simp only [Option.map_eq_some_iff] at hb hb'
    obtain ⟨r, -, rfl⟩ := hb
    obtain ⟨r', -, rfl⟩ := hb'
    exact haa
  refine (pairwise_mergeSort_of_pairwise ?_ ?_ hlist).imp ?_
  · intro a b c hab hbc
    simp only [decide_eq_true_eq] at hab hbc ⊢
    omega
  · intro a b
    simp only [Bool.or_eq_true, decide_eq_true_eq]
    omega
  · intro a b hab
    simp only [decide_eq_true_eq] at hab
    unfold Ahead
    rcases Nat.lt_or_ge a.1.extent b.1.extent with hlt | hge
    · exact .inl hlt
    · exact .inr ⟨by omega, hab.2 hge⟩

/-! ## The walk outward -/

/-- A diagnostic meets a candidate on its way outward: neither the candidate nor one ahead of it accepts its code. -/
def Meets (m : SourceMap) (d : Diagnostic) (n : Nat) (c : Candidate) : Prop :=
  m.Covers d n c ∧ c.entry.policy.accepts d.code = false ∧
    ∀ n' c', m.Covers d n' c' → Ahead (c', n') (c, n) → c'.entry.policy.accepts d.code = false

/-- The candidates ahead of the first that accepts a code. -/
def walk (code : Nat) (cs : List Candidate) : List Candidate := cs.takeWhile fun c => !c.entry.policy.accepts code

/-- The candidates of a walk are those that the diagnostic meets. -/
theorem mem_walk {m : SourceMap} {d : Diagnostic} {c : Candidate} :
    c ∈ walk d.code (m.candidates d.start d.stop) ↔ ∃ n, m.Meets d n c := by
  rw [walk, candidates_eq, List.takeWhile_map, List.mem_map]
  have hmem := fun x => mem_takeWhile_of_pairwise (p := fun x : Candidate × Nat => !x.1.entry.policy.accepts d.code) (x := x) ahead_asymm
    (m.pairwise_ranked d.start d.stop)
  constructor
  · rintro ⟨⟨c', n⟩, hx, rfl⟩
    obtain ⟨hc, hp, hy⟩ := (hmem _).1 hx
    refine ⟨n, mem_ranked.1 hc, by simpa using hp, ?_⟩
    intro n' c' hc' ha
    simpa using hy (c', n') (mem_ranked.2 hc') ha
  · rintro ⟨n, hc, hp, hy⟩
    refine ⟨(c, n), (hmem _).2 ⟨mem_ranked.2 hc, by simpa using hp, ?_⟩, rfl⟩
    intro y hy' ha
    simpa using hy y.2 y.1 (mem_ranked.1 hy') ha

theorem walk_nil (code : Nat) : walk code [] = [] := rfl

theorem walk_cons_of_accepts {code : Nat} {c : Candidate} (h : c.entry.policy.accepts code = true) (cs : List Candidate) :
    walk code (c :: cs) = [] := by
  simp [walk, h]

theorem walk_cons_of_passes {code : Nat} {c : Candidate} (h : c.entry.policy.accepts code = false) (cs : List Candidate) :
    walk code (c :: cs) = c :: walk code cs := by
  simp [walk, h]

/-- The frames met are those of the expectations on the walk that count the code. -/
theorem mem_framesMet {code frame : Nat} {cs : List Candidate} :
    frame ∈ framesMet code cs ↔ ∃ c ∈ walk code cs, ∃ codes, c.entry.policy = .expected frame codes ∧ code ∉ codes := by
  induction cs with
  | nil => simp [framesMet, walk_nil]
  | cons c cs ih =>
    by_cases haccept : c.entry.policy.accepts code = true
    · rw [walk_cons_of_accepts haccept, framesMet]
      cases hp : c.entry.policy <;> simp_all [Policy.accepts]
    · have hpass : c.entry.policy.accepts code = false := by simpa using haccept
      rw [walk_cons_of_passes hpass, framesMet]
      cases hp : c.entry.policy with
      | expected f codes =>
        by_cases hc : code ∈ codes
        · simp [hp, hc, ih]
        · simp [hp, hc, ih, eq_comm]
      | always => simp [hp, Policy.accepts] at hpass
      | never => simp [hp, Policy.accepts, ih]
      | allBut codes => simp [hp, hp ▸ hpass, ih]
      | unused f o => simp [hp, Policy.accepts, ih]

/-- The markers met are those on the walk that stand within another expectation. -/
theorem mem_markersMet {code : Nat} {k : Nat × Nat} {cs : List Candidate} :
    k ∈ markersMet code cs ↔ ∃ c ∈ walk code cs, c.entry.policy = .unused k.1 (some k.2) := by
  induction cs with
  | nil => simp [markersMet, walk_nil]
  | cons c cs ih =>
    by_cases haccept : c.entry.policy.accepts code = true
    · rw [walk_cons_of_accepts haccept, markersMet]
      cases hp : c.entry.policy <;> simp_all [Policy.accepts]
    · have hpass : c.entry.policy.accepts code = false := by simpa using haccept
      rw [walk_cons_of_passes hpass, markersMet]
      cases hp : c.entry.policy with
      | unused f o =>
        cases o with
        | none => simp [hp, Policy.accepts, ih]
        | some o => simp [hp, ih, Prod.ext_iff, eq_comm]
      | always => simp [hp, Policy.accepts] at hpass
      | never => simp [hp, Policy.accepts, ih]
      | allBut codes => simp [hp, hp ▸ hpass, ih]
      | expected f codes => simp [hp, Policy.accepts, ih]

end SourceMap

end TypedSfc
