import Mathlib.Data.List.Induction
import TypedSfc.Mapping.Error
import TypedSfc.Mapping.Segment

/-!
# Groups in a stream of segments

The segments that carry one token, read in order, run through the phases of a group: unmet, running, done. A stream is grouped when
every token in it is opened by one segment, joined by any number of them and closed by one. The phases say the same by one step for
each segment, which is the form that the generators and the builder are compared with.

A segment is a defect when it names an unknown source, opens a group again, or joins or closes a group that does not run. Whether it is
one is said by the segments before it alone. A stream without defect is one that names known sources and breaks no group.
-/

namespace TypedSfc

/-- How far the group of a token has come. -/
inductive Phase where
  | unmet
  | running
  | done
  /-- Some segment did not fit the phase before it. -/
  | broken
  deriving DecidableEq, Repr, Inhabited

/-- The phase after one more segment of the group. -/
def Phase.next : Phase → Role → Phase
  | .unmet, .opens _ => .running
  | .running, .joins _ => .running
  | .running, .closes _ => .done
  | _, _ => .broken

/-- Whether roles are those of a group from its first segment to its last. -/
def Role.Whole (t : Nat) (rs : List Role) : Prop :=
  ∃ n, rs = .opens t :: (List.replicate n (.joins t) ++ [.closes t])

namespace Segment

/-- The role of a segment in a group, if it has one. -/
def role? : Segment → Option Role
  | text _ => none
  | mapped _ _ _ i => i.role

/-- The roles under a token, in order. -/
def rolesOf (t : Nat) (ss : List Segment) : List Role := (ss.filterMap role?).filter fun r => r.token = t

/-- How far the group of a token has come in a stream. -/
def phase (t : Nat) (ss : List Segment) : Phase := (rolesOf t ss).foldl Phase.next .unmet

/-- Whether every token of a stream is opened once, then joined, and closed once at the end. -/
def Grouped (ss : List Segment) : Prop := ∀ t, rolesOf t ss = [] ∨ Role.Whole t (rolesOf t ss)

/-- The source that a segment stands for, if it stands for one. -/
def source? : Segment → Option SourceId
  | text _ => none
  | mapped _ s _ _ => some s

/-! ## Roles under a token -/

theorem rolesOf_append (t : Nat) (as bs : List Segment) : rolesOf t (as ++ bs) = rolesOf t as ++ rolesOf t bs := by
  simp [rolesOf]

/-- The roles of one segment. -/
theorem rolesOf_singleton (t : Nat) (s : Segment) : rolesOf t [s] = s.role?.toList.filter fun r => r.token = t := by
  cases h : s.role? <;> simp [rolesOf, h]

theorem mem_rolesOf {t : Nat} {ss : List Segment} {r : Role} : r ∈ rolesOf t ss ↔ (∃ s ∈ ss, s.role? = some r) ∧ r.token = t := by
  simp [rolesOf, List.mem_filterMap]

theorem token_of_mem_rolesOf {t : Nat} {ss : List Segment} {r : Role} (h : r ∈ rolesOf t ss) : r.token = t :=
  (mem_rolesOf.1 h).2

/-- A stream in which no segment has a role has no role under any token. -/
theorem rolesOf_eq_nil {ss : List Segment} (h : ∀ s ∈ ss, s.role? = none) (t : Nat) : rolesOf t ss = [] := by
  have hn : ss.filterMap role? = [] := List.filterMap_eq_nil_iff.2 h
  simp [rolesOf, hn]

/-! ## Phases -/

theorem phase_nil (t : Nat) : phase t [] = .unmet := rfl

theorem phase_append (t : Nat) (as bs : List Segment) : phase t (as ++ bs) = (rolesOf t bs).foldl Phase.next (phase t as) := by
  simp [phase, rolesOf_append]

/-- A segment moves only the group of its own token. -/
theorem phase_snoc (t : Nat) (ss : List Segment) (s : Segment) :
    phase t (ss ++ [s]) = match s.role? with
      | some r => if r.token = t then (phase t ss).next r else phase t ss
      | none => phase t ss := by
  rw [phase_append, rolesOf_singleton]
  cases s.role? with
  | none => rfl
  | some r => by_cases h : r.token = t <;> simp [h]

end Segment

/-- A broken group stays broken. -/
theorem Phase.foldl_broken (rs : List Role) : rs.foldl Phase.next .broken = .broken := by
  induction rs with
  | nil => rfl
  | cons r rs ih => exact ih

/-- Every step of a group leaves the first phase. -/
theorem Phase.next_ne_unmet (p : Phase) (r : Role) : p.next r ≠ .unmet := by
  cases p <;> cases r <;> nofun

/-- What the roles of one token are, by the phase that they come to. -/
theorem Phase.roles_of_foldl {t : Nat} (rs : List Role) (h : ∀ r ∈ rs, r.token = t) :
    match rs.foldl Phase.next .unmet with
    | .unmet => rs = []
    | .running => ∃ n, rs = .opens t :: List.replicate n (.joins t)
    | .done => Role.Whole t rs
    | .broken => True := by
  induction rs using List.reverseRecOn with
  | nil => rfl
  | append_singleton rs r ih =>
    have hr : r.token = t := h r (by simp)
    have ih := ih fun q hq => h q (by simp [hq])
    rw [List.foldl_append, List.foldl_cons, List.foldl_nil]
    generalize rs.foldl Phase.next .unmet = p at ih
    cases p with
    | unmet =>
      subst ih
      cases r with
      | opens u => exact ⟨0, by simp [← hr, Role.token]⟩
      | joins u => trivial
      | closes u => trivial
    | running =>
      obtain ⟨n, rfl⟩ := ih
      cases r with
      | opens u => trivial
      | joins u => exact ⟨n + 1, by simp [← hr, Role.token, List.replicate_succ']⟩
      | closes u => exact ⟨n, by simp [← hr, Role.token]⟩
    | done => cases r <;> trivial
    | broken => cases r <;> trivial

theorem Phase.foldl_joins (t n : Nat) : (List.replicate n (Role.joins t)).foldl Phase.next .running = .running := by
  induction n with
  | zero => rfl
  | succ n ih => exact ih

namespace Segment

/-- What the roles under a token are, by the phase of its group. -/
theorem rolesOf_of_phase (t : Nat) (ss : List Segment) :
    match phase t ss with
    | .unmet => rolesOf t ss = []
    | .running => ∃ n, rolesOf t ss = .opens t :: List.replicate n (.joins t)
    | .done => Role.Whole t (rolesOf t ss)
    | .broken => True :=
  Phase.roles_of_foldl _ fun _ h => token_of_mem_rolesOf h

theorem phase_eq_unmet_iff {t : Nat} {ss : List Segment} : phase t ss = .unmet ↔ rolesOf t ss = [] := by
  refine ⟨fun h => ?_, fun h => by simp [phase, h]⟩
  have hr := rolesOf_of_phase t ss
  rwa [h] at hr

theorem phase_eq_done_iff {t : Nat} {ss : List Segment} : phase t ss = .done ↔ Role.Whole t (rolesOf t ss) := by
  constructor
  · intro h
    have hr := rolesOf_of_phase t ss
    rwa [h] at hr
  · rintro ⟨n, hn⟩
    have hj : (List.replicate n (Role.joins t)).foldl Phase.next .running = .running := Phase.foldl_joins t n
    simp [phase, hn, Phase.next, hj]

/-- A stream is grouped when no group of it is broken or still running. -/
theorem grouped_iff {ss : List Segment} : Grouped ss ↔ ∀ t, phase t ss = .unmet ∨ phase t ss = .done := by
  simp only [Grouped, phase_eq_unmet_iff, phase_eq_done_iff]

/-! ## Opened and closed -/

/-- Whether a segment of a stream opens the group of a token. -/
def Opened (t : Nat) (ss : List Segment) : Prop := ∃ s ∈ ss, s.role? = some (.opens t)

/-- Whether a segment of a stream closes the group of a token. -/
def Closed (t : Nat) (ss : List Segment) : Prop := ∃ s ∈ ss, s.role? = some (.closes t)

instance (t : Nat) (ss : List Segment) : Decidable (Opened t ss) :=
  inferInstanceAs (Decidable (∃ s ∈ ss, s.role? = some (.opens t)))

instance (t : Nat) (ss : List Segment) : Decidable (Closed t ss) :=
  inferInstanceAs (Decidable (∃ s ∈ ss, s.role? = some (.closes t)))

theorem opened_iff_mem {t : Nat} {ss : List Segment} : Opened t ss ↔ .opens t ∈ rolesOf t ss := by
  simp [Opened, mem_rolesOf, Role.token]

theorem closed_iff_mem {t : Nat} {ss : List Segment} : Closed t ss ↔ .closes t ∈ rolesOf t ss := by
  simp [Closed, mem_rolesOf, Role.token]

/-- In a group that is not broken, the opening segment is the one that leaves the first phase. -/
theorem opened_iff_phase {t : Nat} {ss : List Segment} (h : phase t ss ≠ .broken) : Opened t ss ↔ phase t ss ≠ .unmet := by
  have hr := rolesOf_of_phase t ss
  rw [opened_iff_mem]
  cases hp : phase t ss with
  | unmet => rw [hp] at hr; simp [hr]
  | running => rw [hp] at hr; obtain ⟨n, hn⟩ := hr; simp [hn]
  | done => rw [hp] at hr; obtain ⟨n, hn⟩ := hr; simp [hn]
  | broken => exact absurd hp h

/-- A group that is not broken is running when it was opened and not closed. -/
theorem running_iff {t : Nat} {ss : List Segment} (h : phase t ss ≠ .broken) : phase t ss = .running ↔ Opened t ss ∧ ¬Closed t ss := by
  have hr := rolesOf_of_phase t ss
  rw [opened_iff_mem, closed_iff_mem]
  cases hp : phase t ss with
  | unmet => rw [hp] at hr; simp [hr]
  | running => rw [hp] at hr; obtain ⟨n, hn⟩ := hr; simp [hn, List.mem_replicate]
  | done => rw [hp] at hr; obtain ⟨n, hn⟩ := hr; simp [hn]
  | broken => exact absurd hp h

end Segment

/-! ## Defects -/

open Segment

/-- What is wrong with a segment behind others, if anything is. -/
def defect (bases : List Nat) (before : List Segment) : Segment → Option MappingError
  | .text _ => none
  | .mapped _ source _ info =>
    if bases.length ≤ source then some (.unknownSource source)
    else
      match info.role with
      | none => none
      | some (.opens t) => if Opened t before then some (.reopenedGroup t) else none
      | some (.joins t) | some (.closes t) => if Opened t before ∧ ¬Closed t before then none else some (.unopenedGroup t)

/-- Whether no segment of a stream is a defect. -/
def Sound (bases : List Nat) (ss : List Segment) : Prop :=
  ∀ pre s post, ss = pre ++ s :: post → defect bases pre s = none

/-- Whether a defect is the first one of a stream. -/
def FirstDefect (bases : List Nat) (ss : List Segment) (e : MappingError) : Prop :=
  ∃ pre s post, ss = pre ++ s :: post ∧ defect bases pre s = some e ∧ Sound bases pre

/-- Whether every mapped segment of a stream names a source of the table. -/
def Known (n : Nat) (ss : List Segment) : Prop := ∀ s ∈ ss, ∀ source, s.source? = some source → source < n

theorem sound_nil (bases : List Nat) : Sound bases [] := by
  intro pre s post h
  simp at h

/-- A stream is sound when it is sound without its last segment, and that one is no defect. -/
theorem sound_snoc {bases : List Nat} {ss : List Segment} {s : Segment} :
    Sound bases (ss ++ [s]) ↔ Sound bases ss ∧ defect bases ss s = none := by
  constructor
  · intro h
    refine ⟨?_, h ss s [] rfl⟩
    intro pre q post hss
    exact h pre q (post ++ [s]) (by simp [hss])
  · rintro ⟨h, hs⟩ pre q post hss
    rcases List.eq_nil_or_concat post with hp | ⟨post', x, hp⟩
    · subst hp
      obtain ⟨rfl, hq⟩ := List.append_inj' hss rfl
      cases hq
      exact hs
    · rw [hp, List.concat_eq_append, ← List.cons_append, ← List.append_assoc] at hss
      obtain ⟨rfl, -⟩ := List.append_inj' hss rfl
      exact h pre q post' rfl

/-- A segment of a known source is no defect exactly when it breaks no group. -/
theorem phase_snoc_ne_broken {bases : List Nat} {ss : List Segment} {s : Segment} (hss : ∀ t, phase t ss ≠ .broken)
    (hk : ∀ source, s.source? = some source → source < bases.length) :
    defect bases ss s = none ↔ ∀ t, phase t (ss ++ [s]) ≠ .broken := by
  cases s with
  | text t => simpa [defect, phase_snoc, role?] using hss
  | mapped t source offset info =>
    have hlt : ¬bases.length ≤ source := Nat.not_le.2 (hk source rfl)
    cases hi : info.role with
    | none => simpa [defect, phase_snoc, role?, hi, hlt] using hss
    | some r =>
      have hr : (∀ u, phase u (ss ++ [.mapped t source offset info]) ≠ .broken) ↔ (phase r.token ss).next r ≠ .broken := by
        simp only [phase_snoc, role?, hi]
        constructor
        · intro h
          simpa using h r.token
        · intro h u
          by_cases hu : r.token = u
          · subst hu; simpa using h
          · simpa [hu] using hss u
      rw [hr]
      have ho := opened_iff_phase (hss r.token)
      have hg := running_iff (hss r.token)
      have hb := hss r.token
      cases r with
      | opens u =>
        simp only [Role.token] at ho hb
        cases hp : phase u ss <;> simp [defect, hi, hlt, ho, hp, Role.token, Phase.next]
      | joins u =>
        simp only [Role.token] at hg hb
        cases hp : phase u ss <;> simp [defect, hi, hlt, ← hg, hp, Role.token, Phase.next]
      | closes u =>
        simp only [Role.token] at hg hb
        cases hp : phase u ss <;> simp [defect, hi, hlt, ← hg, hp, Role.token, Phase.next]

/-- A segment that is no defect names a known source. -/
theorem source_lt_of_defect {bases : List Nat} {ss : List Segment} {s : Segment} (h : defect bases ss s = none) :
    ∀ source, s.source? = some source → source < bases.length := by
  intro source hs
  cases s with
  | text t => simp [source?] at hs
  | mapped t src offset info =>
    simp only [source?, Option.some.injEq] at hs
    subst hs
    by_contra hle
    simp [defect, Nat.not_lt.1 hle] at h

/-- A stream is sound exactly when it names known sources only and none of its groups is broken. -/
theorem sound_iff {bases : List Nat} {ss : List Segment} :
    Sound bases ss ↔ Known bases.length ss ∧ ∀ t, phase t ss ≠ .broken := by
  induction ss using List.reverseRecOn with
  | nil => simp [sound_nil, Known, phase_nil]
  | append_singleton ss s ih =>
    rw [sound_snoc, ih]
    have hk : Known bases.length (ss ++ [s]) ↔ Known bases.length ss ∧ ∀ source, s.source? = some source → source < bases.length := by
      simp [Known, or_imp, forall_and]
    constructor
    · rintro ⟨⟨hks, hps⟩, hd⟩
      have hs := source_lt_of_defect hd
      exact ⟨hk.2 ⟨hks, hs⟩, (phase_snoc_ne_broken hps hs).1 hd⟩
    · rintro ⟨hks, hps⟩
      obtain ⟨hks, hs⟩ := hk.1 hks
      have hpre : ∀ t, phase t ss ≠ .broken := by
        intro t ht
        apply hps t
        rw [phase_append, ht, Phase.foldl_broken]
      exact ⟨⟨hks, hpre⟩, (phase_snoc_ne_broken hpre hs).2 hps⟩

end TypedSfc
