import TypedSfc.Proofs.Generate.Waiting

/-!
# Nodes that are to be ignored are silent

Where the frame of a node that is to be ignored is open, some effect is in force, and it keeps all policies from reporting: what is
plain becomes silent or expected, and the marker of an expectation inside counts for the frame outside it.
-/

namespace TypedSfc

/-- Whether a policy never reports a diagnostic by itself: it is silent, it expects errors, or it counts for a frame around its own. -/
def Policy.IsQuiet : Policy → Prop
  | .never | .expected _ _ | .unused _ (some _) => True
  | .always | .allBut _ | .unused _ none => False

/-- Whether a segment has such a policy; text of its own has none. -/
def Segment.IsQuiet : Segment → Prop
  | .text _ => True
  | .mapped _ _ _ i => i.policy.IsQuiet

namespace Generate

open Markup (Fragment Node)

variable {P : Permit} {r : Setting}

/-- The number of an effect that expects errors is that of a frame. -/
theorem mem_numbersOf_of_effectOf {fs : List Frame} {k : Nat} (h : effectOf fs = some (.expect k)) : k ∈ numbersOf fs := by
  obtain ⟨f, hf, heffect⟩ := List.exists_of_findSome?_eq_some h
  unfold Frame.effect? at heffect
  split at heffect
  · cases heffect
  · obtain ⟨x, hx, hk⟩ := Option.map_eq_some_iff.1 heffect
    refine List.mem_filterMap.2 ⟨f, hf, ?_⟩
    rw [hx, Option.map_some, Effect.expect.inj hk]

/-- Inside a frame that ignores, some effect is in force. -/
theorem exists_effectOf {f : Frame} (h : f.ignores = true) (inner fs : List Frame) : ∃ x, effectOf (inner ++ f :: fs) = some x := by
  refine Option.isSome_iff_exists.1 (List.findSome?_isSome_iff.2 ⟨f, by simp, ?_⟩)
  rw [Frame.effect?, if_pos h]
  rfl

/-- Whatever is written inside a frame that ignores is quiet. -/
theorem quiet_of_admitsIn {f : Frame} {fs : List Frame} {a : Segment} (hf : f.ignores = true) (h : P.AdmitsIn (f :: fs) a) :
    a.IsQuiet := by
  cases a with
  | text t => trivial
  | mapped t source offset i =>
    obtain ⟨-, inner, p, hp, hpolicy⟩ := h
    obtain ⟨x, hx⟩ := exists_effectOf hf inner fs
    show i.policy.IsQuiet
    rw [hpolicy, hx]
    rcases hp with hplain | ⟨n, rfl, hn⟩
    · cases x with
      | silence => cases p <;> trivial
      | expect k =>
        cases p with
        | never | always | allBut => trivial
        | expected | unused => cases hplain
    · cases x with
      | silence => trivial
      | expect k =>
        -- The marker has a number of its own, so it counts for the frame that is open.
        have hne : n ≠ k := fun heq => hn (heq ▸ mem_numbersOf_of_effectOf hx)
        rw [Effect.apply.eq_6, if_neg hne]
        trivial

/-- What a node comes to that is entered. -/
theorem after_node_of_entered {n : Node} {s t : State} (hn : comment? n = none) (h : enter.after r s = (true, t)) :
    (node n).after r s = leave.after r ((inside n).after r t).2 := by
  have hrun : (asNode (inside n)).after r s =
      ((if (enter.after r s).1 then inside n >>= fun _ => leave else pure () : Gen Unit)).after r (enter.after r s).2 := rfl
  rw [node_of_not_comment hn, hrun, h]
  rfl

/-- A node that is to be ignored cannot report: wherever in a template it is entered with a frame that ignores, all that is written
until its frame is closed is quiet; and once its frame is closed, before the marker of its own expectation is written, the frames that
are open and the effect in force are those before it was entered. -/
theorem Walked.quiet_of_ignores {code : Code} {f : Fragment} {led before after : List Node} {n : Node} {s t : State} {x : Frame}
    (h : Walked r code f led (before ++ n :: after) s) (visited : comment? n = none)
    (entered : enter.after r ((nodes before).after r s).2 = (true, t)) (frame : t.frames.head? = some x) (ignores : x.ignores = true) :
    let outside := ((nodes before).after r s).2
    let within := ((inside n).after r t).2
    let popped := within.popped outside.frames
    (∃ as, within.code.segments = t.code.segments ++ as ∧ ∀ a ∈ as, a.IsQuiet) ∧
      (node n).after r outside = (match x.expects with
        | none => ((), popped)
        | some y => (writeMarker y).after r popped) ∧
      popped.code.segments = within.code.segments ∧ popped.code.effect = outside.code.effect ∧ popped.frames = outside.frames ∧
      ((node n).after r outside).2.code.effect = outside.code.effect ∧ ((node n).after r outside).2.frames = outside.frames := by
  have hbefore := (grown_nodes_everything r before s (h.sound (by simp))).sound
  generalize ((nodes before).after r s).2 = outside at hbefore entered
  obtain ⟨hsound, -, -, hcase⟩ := hbefore.enter (r := r)
  rw [entered] at hsound hcase
  obtain ⟨hfalse, -⟩ | ⟨-, y, hframes⟩ := hcase
  · cases hfalse
  dsimp only at hsound hframes
  obtain rfl : y = x := by simpa [hframes] using frame
  have hinside := grown_inside_everything r n t hsound
  have hnode := grown_node_everything r n outside hbefore
  refine ⟨?_, ?_, rfl, hbefore.effect_eq.symm, rfl, hnode.effect_eq hbefore, hnode.frames_eq⟩
  · obtain ⟨as, has, hadmits⟩ := hinside.segments_eq
    rw [hframes] at hadmits
    exact ⟨as, has, fun a ha => quiet_of_admitsIn ignores (hadmits a ha)⟩
  · rw [after_node_of_entered visited entered]
    exact after_leave r (hinside.frames_eq.trans hframes)

/-- An interpolation behind a comment that says to ignore it. -/
def ignoredInterpolation : Fragment :=
  ⟨[.comment ⟨0, 20⟩ " @vue-ignore ", .interpolation ⟨20, 27⟩ ⟨"a", 23, false⟩], ⟨0, 27⟩⟩

theorem quiet_of_ignores_interpolation :
    ∃ s t, Walked bareSetting {} ignoredInterpolation []
        ([.comment ⟨0, 20⟩ " @vue-ignore "] ++ .interpolation ⟨20, 27⟩ ⟨"a", 23, false⟩ :: []) s ∧
      enter.after bareSetting ((nodes [.comment ⟨0, 20⟩ " @vue-ignore "]).after bareSetting s).2 = (true, t) ∧
      t.frames.head? = some { ignores := true } ∧
      ∃ as, ((interpolation ⟨"a", 23, false⟩).after bareSetting t).2.code.segments = t.code.segments ++ as ∧
        ∀ a ∈ as, a.IsQuiet := by
  obtain ⟨s, hs⟩ := exists_walked bareSetting {} rfl ignoredInterpolation
  have hpending : ((nodes [.comment ⟨0, 20⟩ " @vue-ignore "]).after bareSetting s).2.pending = [(⟨0, 20⟩, " @vue-ignore ")] := by
    rw [pending_nodes, hs.pending_eq (List.cons_ne_nil _ _)]
    rfl
  have hentered : ∃ t, enter.after bareSetting ((nodes [.comment ⟨0, 20⟩ " @vue-ignore "]).after bareSetting s).2 = (true, t) ∧
      t.frames.head? = some { ignores := true } := by
    have hcomment : directiveComment? " @vue-ignore " = some ("ignore", [' ']) := by decide +kernel
    rw [after_enter, hpending, frameOf, hcomment]
    exact ⟨_, rfl, rfl⟩
  obtain ⟨t, hentered, hframe⟩ := hentered
  obtain ⟨hquiet, -⟩ := Walked.quiet_of_ignores hs rfl hentered hframe rfl
  exact ⟨s, t, hs, hentered, hframe, hquiet⟩

end Generate

end TypedSfc
