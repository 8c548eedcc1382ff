import TypedSfc.Proofs.Generate.Groups
import TypedSfc.Proofs.Generate.Replacing
import TypedSfc.Proofs.Mapping.Build

/-!
# Groups in a buffer in which a range is replaced

What is left of a segment keeps its role. So a replaced range stands in the phases of a group like as many copies of the segment as there
are parts left of it, none, one or two, and `settled_replicate_iff` says how many a group bears: any number of segments that join it, but
one that opens it, and one that closes it.
-/

namespace TypedSfc

namespace Phase

/-- Whether a group may be in a phase at the end of a stream. -/
def Settled (p : Phase) : Prop := p = .unmet ∨ p = .done

theorem not_settled_broken (rs : List Role) : ¬(rs.foldl next .broken).Settled := by
  rw [foldl_broken]
  rintro (h | h) <;> cases h

/-- How many copies of a role may stand where one stands in a group: any number of those that join it, but only one of the others. -/
theorem settled_replicate_iff {p : Phase} {r : Role} {rs : List Role} (h : (rs.foldl next (p.next r)).Settled) (n : Nat) :
    (rs.foldl next ((List.replicate n r).foldl next p)).Settled ↔ (∃ t, r = .joins t) ∨ n = 1 := by
  have hnext : p.next r ≠ .broken := by
    intro hbroken
    rw [hbroken] at h
    exact not_settled_broken rs h
  cases r with
  | joins t =>
    cases p with
    | running =>
      rw [foldl_joins]
      exact iff_of_true h (.inl ⟨t, rfl⟩)
    | unmet => exact absurd rfl hnext
    | done => exact absurd rfl hnext
    | broken => exact absurd rfl hnext
  | opens t =>
    cases p with
    | unmet =>
      match n with
      | 0 =>
        refine iff_of_false ?_ (by simp)
        -- The group goes on to its end, which is no beginning.
        cases rs with
        | nil => rcases h with h | h <;> cases h
        | cons q rs =>
          cases q with
          | opens u => exact absurd h (not_settled_broken rs)
          | joins u => exact not_settled_broken rs
          | closes u => exact not_settled_broken rs
      | 1 => exact iff_of_true h (.inr rfl)
      | n + 2 =>
        refine iff_of_false ?_ (by simp)
        show ¬(rs.foldl next ((List.replicate n (.opens t)).foldl next .broken)).Settled
        rw [foldl_broken]
        exact not_settled_broken rs
    | running => exact absurd rfl hnext
    | done => exact absurd rfl hnext
    | broken => exact absurd rfl hnext
  | closes t =>
    cases p with
    | running =>
      match n with
      | 0 =>
        refine iff_of_false ?_ (by simp)
        -- Nothing comes behind the end of a group, so it stays open.
        cases rs with
        | nil => rintro (h | h) <;> cases h
        | cons q rs => exact absurd h (by cases q <;> exact not_settled_broken rs)
      | 1 => exact iff_of_true h (.inr rfl)
      | n + 2 =>
        refine iff_of_false ?_ (by simp)
        show ¬(rs.foldl next ((List.replicate n (.closes t)).foldl next .broken)).Settled
        rw [foldl_broken]
        exact not_settled_broken rs
    | unmet => exact absurd rfl hnext
    | done => exact absurd rfl hnext
    | broken => exact absurd rfl hnext

end Phase

namespace Segment

theorem rolesOf_replicate (t n : Nat) (s : Segment) :
    rolesOf t (List.replicate n s) = (s.role?.toList.filter fun r => r.token = t).flatMap fun r => List.replicate n r := by
  cases hs : s.role? with
  | none => simp [rolesOf, hs]
  | some r => by_cases hr : r.token = t <;> simp [rolesOf, hs, hr]

end Segment

namespace Code

open Segment

variable {source : SourceId} {start stop : Nat} {new : String} {ss : List Segment}

namespace Cut

/-- How many parts of the segment are left. -/
def left (x : Cut source start stop ss) : Nat := (if x.head = [] then 0 else 1) + if x.tail = [] then 0 else 1

/-- Nothing is left in front of the range when it begins where the segment does. -/
theorem head_eq_nil_iff (x : Cut source start stop ss) : x.head = [] ↔ x.offset = start := by
  have hsize := x.size_head
  have hle := x.offset_le
  rw [← Text.size_eq_zero]
  omega

/-- Nothing is left behind the range when it ends where the segment does. -/
theorem tail_eq_nil_iff (x : Cut source start stop ss) : x.tail = [] ↔ x.offset + x.text.utf8ByteSize = stop := by
  have hsize := x.ends.size_eq
  rw [Text.size_toList] at hsize
  have hle := x.offset_le_stop
  rw [← Text.size_eq_zero]
  omega

theorem left_eq_one_iff (x : Cut source start stop ss) : x.left = 1 ↔ (x.offset = start ↔ x.offset + x.text.utf8ByteSize ≠ stop) := by
  rw [← head_eq_nil_iff, ne_eq, ← tail_eq_nil_iff, left]
  by_cases hhead : x.head = [] <;> by_cases htail : x.tail = [] <;> simp [hhead, htail]

/-- For the groups, the pieces are copies of the segment. -/
theorem rolesOf_pieces (x : Cut source start stop ss) (new : String) (t : Nat) :
    rolesOf t (x.pieces new) = rolesOf t (List.replicate x.left x.segment) := by
  have hpart : ∀ (cs : List Char) (o : Nat), rolesOf t (part cs source o x.info) =
      rolesOf t (List.replicate (if cs = [] then 0 else 1) x.segment) := by
    intro cs o
    cases cs with
    | nil => rfl
    | cons c cs => rfl
  have hown : rolesOf t (own new) = [] := rolesOf_eq_nil (fun s hs => by rw [(eq_of_mem_own hs).1]; rfl) t
  rw [pieces, rolesOf_append, rolesOf_append, hown, hpart, hpart, List.nil_append, ← rolesOf_append, List.replicate_append_replicate]
  rfl

end Cut

/-- A stream that is grouped is grouped with a range replaced exactly when the segment that is cut is in no group, or joins one, or one
part of it is left. -/
theorem Cut.grouped_segments_iff (x : Cut source start stop ss) (hss : Grouped ss) (new : String) : Grouped (x.segments new) ↔
    x.info.role = none ∨ (∃ t, x.info.role = some (.joins t)) ∨ x.left = 1 := by
  have hbefore : ∀ t, phase t ss = (rolesOf t x.back).foldl Phase.next ((rolesOf t [x.segment]).foldl Phase.next (phase t x.front)) := by
    intro t
    have hss : ss = x.front ++ ([x.segment] ++ x.back) := x.eq
    conv => lhs; rw [hss]
    rw [phase_append, rolesOf_append, List.foldl_append]
  have hbehind : ∀ t, phase t (x.segments new) =
      (rolesOf t x.back).foldl Phase.next ((rolesOf t (List.replicate x.left x.segment)).foldl Phase.next (phase t x.front)) := by
    intro t
    rw [segments, phase_append, rolesOf_append, List.foldl_append, x.rolesOf_pieces]
  have hrole : x.segment.role? = x.info.role := rfl
  have hsettled : ∀ t, (phase t ss).Settled := grouped_iff.1 hss
  rw [grouped_iff]
  change (∀ t, (phase t (x.segments new)).Settled) ↔ _
  cases hr : x.info.role with
  | none =>
    refine iff_of_true (fun t => ?_) (.inl rfl)
    have h := hsettled t
    rw [hbefore, rolesOf_singleton, hrole, hr] at h
    rwa [hbehind, rolesOf_replicate, hrole, hr]
  | some r =>
    have hiff : (∀ t, (phase t (x.segments new)).Settled) ↔ (phase r.token (x.segments new)).Settled := by
      refine ⟨fun h => h _, fun h t => ?_⟩
      by_cases ht : r.token = t
      · rwa [← ht]
      · have h := hsettled t
        rw [hbefore, rolesOf_singleton, hrole, hr] at h
        rw [hbehind, rolesOf_replicate, hrole, hr]
        simpa [ht] using h
    have hown := hsettled r.token
    rw [hbefore, rolesOf_singleton, hrole, hr] at hown
    rw [hiff, hbehind, rolesOf_replicate, hrole, hr]
    have hcopies := Phase.settled_replicate_iff (show ((rolesOf r.token x.back).foldl Phase.next ((phase r.token x.front).next r)).Settled by
      simpa using hown) x.left
    simpa using hcopies

/-- A replaced range names no source that the buffer does not name. -/
theorem known_replaceRange {n : Nat} {c : Code} (hc : Known n c.segments) (source : SourceId) (start stop : Nat) (new : String) :
    Known n (c.replaceRange source start stop new).2.segments :=
  forall_replaceRange source start stop new (fun _ _ h => nomatch h) (fun _ _ _ _ _ h _ => h) hc

/-- When a buffer can still be finished with a range replaced. A buffer that has a text and a map has them with the range replaced exactly
when the segment that is cut is in no group, or joins one, or one part of it is left: the parts of a segment that opens a group open it
twice, and no part of it leaves the group unopened; the parts of one that closes a group close it twice, and no part leaves it open. -/
theorem finish_replaceRange_iff (bases : List Nat) (c : Code) (source : SourceId) (start stop : Nat) (new : String)
    (h : ∃ r, ((Builder.new bases).pushAll c.segments).finish = .ok r) :
    (∃ r, ((Builder.new bases).pushAll (c.replaceRange source start stop new).2.segments).finish = .ok r) ↔
      ∀ x : Cut source start stop c.segments, x.info.role = none ∨ (∃ t, x.info.role = some (.joins t)) ∨
        (x.offset = start ↔ x.offset + x.text.utf8ByteSize ≠ stop) := by
  obtain ⟨hknown, hgrouped⟩ := (Builder.exists_finish_iff bases _).1 h
  rw [Builder.exists_finish_iff]
  rw [and_iff_right (known_replaceRange hknown source start stop new)]
  by_cases hcut : Nonempty (Cut source start stop c.segments)
  case neg =>
    rw [replaceRange_of_not_nonempty hcut]
    exact iff_of_true hgrouped fun x => absurd ⟨x⟩ hcut
  case pos =>
    constructor
    · intro hstill x
      rw [x.replaceRange_eq, x.grouped_segments_iff hgrouped, x.left_eq_one_iff] at hstill
      exact hstill
    · intro hcuts
      obtain ⟨x⟩ := hcut
      rw [x.replaceRange_eq]
      refine (x.grouped_segments_iff hgrouped new).2 ?_
      rw [x.left_eq_one_iff]
      exact hcuts x

/-- A name in two parts is a group. -/
theorem finish_camelized :
    ((Builder.new [0, 0]).pushAll (camelized {} "foo-bar" SourceId.template 0 Info.checked).segments).finish =
      .ok ("fooBar", ⟨[⟨SourceId.template, [⟨0, 0, 3⟩, ⟨4, 3, 3⟩], .always⟩]⟩) := by decide +kernel

/-- For such a name one may ask at which place a comment can be put. -/
theorem finish_replaceRange_iff_camelized :
    (∃ r, ((Builder.new [0, 0]).pushAll (camelized {} "foo-bar" SourceId.template 0 Info.checked).segments).finish = .ok r) ∧
      ((∃ r, ((Builder.new [0, 0]).pushAll
          ((camelized {} "foo-bar" SourceId.template 0 Info.checked).replaceRange SourceId.template 1 1 "/* */").2.segments).finish =
            .ok r) ↔
        ∀ x : Cut SourceId.template 1 1 (camelized {} "foo-bar" SourceId.template 0 Info.checked).segments,
          x.info.role = none ∨ (∃ t, x.info.role = some (.joins t)) ∨ (x.offset = 1 ↔ x.offset + x.text.utf8ByteSize ≠ 1)) :=
  ⟨⟨_, finish_camelized⟩, finish_replaceRange_iff [0, 0] _ SourceId.template 1 1 "/* */" ⟨_, finish_camelized⟩⟩

/-- A comment within the first part of such a name leaves two parts of it, and each of them opens the group. -/
theorem finish_error_of_split_opening :
    (∃ r, ((Builder.new [0, 0]).pushAll (camelized {} "foo-bar" SourceId.template 0 Info.checked).segments).finish = .ok r) ∧
      ((Builder.new [0, 0]).pushAll
        ((camelized {} "foo-bar" SourceId.template 0 Info.checked).replaceRange SourceId.template 1 1 "/* */").2.segments).finish =
          .error (.reopenedGroup 0) :=
  ⟨⟨_, finish_camelized⟩, by decide +kernel⟩

end Code

end TypedSfc
