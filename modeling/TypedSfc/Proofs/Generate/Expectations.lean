import TypedSfc.Proofs.Generate.Silence

/-!
# Expectations and their markers

The frames that expect errors are numbered in the order in which their comments are read, and the marker of a frame is written behind its
node, when the frame is closed. So the numbers that a stretch of code brings are from a range of their own: each is marked once at most,
behind all code whose errors count for it, and a marker that counts for a frame outside has a number above that of the frame.
-/

namespace TypedSfc

namespace Policy

/-- Whether a policy is that of the marker of a frame. -/
def Marks (n : Nat) : Policy → Prop
  | unused k _ => k = n
  | _ => False

/-- Whether errors under a policy count for a frame. -/
def Expects (n : Nat) : Policy → Prop
  | expected k _ => k = n
  | _ => False

variable {p : Policy} {n : Nat}

theorem not_marks_of_expects (h : p.Expects n) (k : Nat) : ¬p.Marks k := by
  cases p with
  | expected => exact id
  | never | always | allBut | unused => exact h.elim

end Policy

namespace Effect

variable {e : Option Effect} {p : Policy} {n : Nat}

/-- What is plain does not become a marker. -/
theorem not_marks_apply (h : p.isPlain = true) : ¬(Effect.apply e p).Marks n := by
  cases p with
  | never | always | allBut => rcases e with _ | _ | _ <;> exact id
  | expected | unused => cases h

/-- Errors in what is plain count for a frame only while that is in force. -/
theorem eq_of_expects_apply (h : p.isPlain = true) (hexpects : (Effect.apply e p).Expects n) : e = some (.expect n) := by
  cases p with
  | never =>
    rw [apply_never] at hexpects
    exact hexpects.elim
  | always | allBut =>
    rcases e with _ | _ | k
    · exact hexpects.elim
    · exact hexpects.elim
    · exact congrArg (some ∘ expect) hexpects
  | expected | unused => cases h

/-- A marker stays one, or becomes silent. -/
theorem not_expects_apply_unused (k : Nat) : ¬(Effect.apply e (.unused k none)).Expects n := by
  rcases e with _ | _ | f
  · exact id
  · exact id
  · rw [apply.eq_6]
    split <;> exact id

end Effect

/-- The policy of a segment that is mapped. -/
def Segment.policy? : Segment → Option Policy
  | .text _ => none
  | .mapped _ _ _ i => some i.policy

/-- The policies of the mapped segments of a stream. -/
def Segment.policies (ss : List Segment) : List Policy := ss.filterMap policy?

namespace Segment

variable {P : Permit} {e : Option Effect} {ss : List Segment}

theorem policies_append (as bs : List Segment) : policies (as ++ bs) = policies as ++ policies bs := List.filterMap_append

theorem mem_policies {p : Policy} : p ∈ policies ss ↔ ∃ t source offset i, .mapped t source offset i ∈ ss ∧ p = i.policy := by
  unfold policies
  rw [List.mem_filterMap]
  constructor
  · rintro ⟨s, hs, hp⟩
    cases s with
    | text t => cases hp
    | mapped t source offset i => exact ⟨t, source, offset, i, hs, (Option.some.inj hp).symm⟩
  · rintro ⟨t, source, offset, i, hs, rfl⟩
    exact ⟨_, hs, rfl⟩

/-- What a permit admits has plain policies that the effect has changed. -/
theorem exists_plain (h : ∀ a ∈ ss, P.Admits e a) : ∀ p ∈ policies ss, ∃ q : Policy, q.isPlain = true ∧ p = Effect.apply e q := by
  intro p hp
  obtain ⟨t, source, offset, i, hs, rfl⟩ := mem_policies.1 hp
  obtain ⟨-, q, hq, hpolicy⟩ := h _ hs
  exact ⟨q, hq, hpolicy⟩

end Segment

/-- Text of its own has no policy. -/
theorem Code.policies_text (c : Code) (t : String) : Segment.policies (c.text t).segments = Segment.policies c.segments := by
  unfold text
  split
  · rfl
  · exact (Segment.policies_append _ _).trans (List.append_nil _)

namespace Generate

open Markup (Branch Element Fragment LoopHead Node)

/-! ## The policies of a stretch of code -/

/-- The policies of code that is written where the frames `fs` are open, while the numbers from `lo` to `hi` are given out. `W` says of a
number and of what its marker counts for that the marker may be written. -/
structure Tally (W : Nat → Option Nat → Prop) (fs : List Frame) (lo hi : Nat) (ps : List Policy) : Prop where
  le : lo ≤ hi
  marked : ∀ n outer, .unused n outer ∈ ps → lo ≤ n ∧ n < hi ∧ W n outer
  expected : ∀ p ∈ ps, ∀ n, p.Expects n → n ∈ numbersOf fs ∨ lo ≤ n ∧ n < hi
  ordered : ps.Pairwise fun p q => ∀ n, p.Marks n → ¬q.Marks n ∧ ¬q.Expects n

namespace Tally

variable {W : Nat → Option Nat → Prop} {fs : List Frame} {lo lo' mid hi : Nat} {ps qs : List Policy}

theorem marks (h : Tally W fs lo hi ps) {p : Policy} {n : Nat} (hp : p ∈ ps) (hmarks : p.Marks n) : lo ≤ n ∧ n < hi := by
  cases p with
  | unused k outer =>
    obtain rfl : k = n := hmarks
    obtain ⟨hlo, hhi, -⟩ := h.marked k outer hp
    exact ⟨hlo, hhi⟩
  | never | always | allBut | expected => exact hmarks.elim

/-- Plain code brings no numbers, and its errors count for the frames that are open. -/
theorem plain (W : Nat → Option Nat → Prop) (n : Nat) (h : ∀ p ∈ ps, ∃ q : Policy, q.isPlain = true ∧ p = Effect.apply (effectOf fs) q) :
    Tally W fs n n ps := by
  have hmarks : ∀ p ∈ ps, ∀ n, ¬p.Marks n := by
    intro p hp n
    obtain ⟨q, hq, rfl⟩ := h p hp
    exact Effect.not_marks_apply hq
  refine ⟨Nat.le_refl n, fun k outer hp => absurd rfl (hmarks _ hp k), fun p hp k hk => ?_, ?_⟩
  · obtain ⟨q, hq, rfl⟩ := h p hp
    exact .inl (mem_numbersOf_of_effectOf (Effect.eq_of_expects_apply hq hk))
  · exact List.pairwise_of_forall_mem_list fun p hp q _ k hk => absurd hk (hmarks p hp k)

theorem nil : Tally W fs lo lo [] := plain W lo (by simp)

/-- One stretch of code behind another, where all frames that are open had their numbers before. -/
theorem append (h : Tally W fs lo mid ps) (h' : Tally W fs mid hi qs) (hfs : ∀ n ∈ numbersOf fs, n < lo) :
    Tally W fs lo hi (ps ++ qs) := by
  have hle := h.le
  have hle' := h'.le
  refine ⟨by omega, fun n outer hp => ?_, fun p hp n hn => ?_, List.pairwise_append.2 ⟨h.ordered, h'.ordered, ?_⟩⟩
  · rcases List.mem_append.1 hp with hp | hp
    · obtain ⟨hlo, hhi, hW⟩ := h.marked n outer hp
      exact ⟨hlo, by omega, hW⟩
    · obtain ⟨hlo, hhi, hW⟩ := h'.marked n outer hp
      exact ⟨by omega, hhi, hW⟩
  · rcases List.mem_append.1 hp with hp | hp
    · exact (h.expected p hp n hn).imp_right fun hrange => by omega
    · exact (h'.expected p hp n hn).imp_right fun hrange => by omega
  · intro p hp q hq n hn
    obtain ⟨hlo, hhi⟩ := h.marks hp hn
    refine ⟨fun hmarks => ?_, fun hexpects => ?_⟩
    · have := h'.marks hq hmarks
      omega
    · rcases h'.expected q hq n hexpects with hmem | hrange
      · have := hfs n hmem
        omega
      · omega

/-- Numbers that are given out before, and that nothing in the code uses. -/
theorem below (h : Tally W fs mid hi ps) (hle : lo ≤ mid) : Tally W fs lo hi ps := by
  have hmid := h.le
  refine ⟨by omega, fun n outer hp => ?_, fun p hp n hn => (h.expected p hp n hn).imp_right fun hrange => by omega, h.ordered⟩
  obtain ⟨hlo, hhi, hW⟩ := h.marked n outer hp
  exact ⟨by omega, hhi, hW⟩

theorem mono {W' : Nat → Option Nat → Prop} (h : Tally W fs lo hi ps) (hW : ∀ n outer, W n outer → W' n outer) :
    Tally W' fs lo hi ps := by
  refine ⟨h.le, fun n outer hp => ?_, h.expected, h.ordered⟩
  obtain ⟨hlo, hhi, hwritten⟩ := h.marked n outer hp
  exact ⟨hlo, hhi, hW n outer hwritten⟩

/-- What is written inside a frame that expects nothing. -/
theorem closed {f : Frame} (h : Tally W (f :: fs) lo hi ps) (hf : f.expects = none) : Tally W fs lo hi ps := by
  refine ⟨h.le, h.marked, fun p hp n hn => ?_, h.ordered⟩
  have hnumbers : numbersOf (f :: fs) = numbersOf fs := by rw [numbersOf, List.filterMap_cons, hf]; rfl
  exact hnumbers ▸ h.expected p hp n hn

/-- What is written inside a frame that expects errors, with its marker behind. -/
theorem settled {f : Frame} {x : Expectation} (h : Tally W (f :: fs) mid hi ps) (hf : f.expects = some x) (hlo : lo ≤ x.number)
    (hhi : x.number < mid) {e : Option Effect}
    (hW : ∀ n outer, Effect.apply e (.unused x.number none) = .unused n outer → n = x.number ∧ W n outer) :
    Tally W fs lo hi (ps ++ [Effect.apply e (.unused x.number none), .never]) := by
  have hmid := h.le
  have hnumbers : numbersOf (f :: fs) = x.number :: numbersOf fs := by rw [numbersOf, List.filterMap_cons, hf]; rfl
  refine ⟨by omega, fun n outer hp => ?_, fun p hp n hn => ?_, List.pairwise_append.2 ⟨h.ordered, ?_, ?_⟩⟩
  · rcases List.mem_append.1 hp with hp | hp
    · obtain ⟨hlo', hhi', hW'⟩ := h.marked n outer hp
      exact ⟨by omega, hhi', hW'⟩
    · rcases List.mem_pair.1 hp with hp | hp
      · obtain ⟨rfl, hW'⟩ := hW n outer hp.symm
        exact ⟨hlo, by omega, hW'⟩
      · cases hp
  · rcases List.mem_append.1 hp with hp | hp
    · rcases h.expected p hp n hn with hmem | hrange
      · rw [hnumbers] at hmem
        rcases List.mem_cons.1 hmem with rfl | hmem
        · exact .inr ⟨hlo, by omega⟩
        · exact .inl hmem
      · exact .inr ⟨by omega, hrange.2⟩
    · rcases List.mem_pair.1 hp with rfl | rfl
      · exact absurd hn (Effect.not_expects_apply_unused x.number)
      · exact hn.elim
  · exact List.pairwise_pair.2 fun n _ => ⟨id, id⟩
  · intro p hp q hq n hn
    have hrange := h.marks hp hn
    rcases List.mem_pair.1 hq with rfl | rfl
    · refine ⟨fun hmarks => ?_, Effect.not_expects_apply_unused x.number⟩
      cases hpolicy : Effect.apply e (.unused x.number none) with
      | unused k outer =>
        rw [hpolicy] at hmarks
        obtain rfl : k = n := hmarks
        have := (hW k outer hpolicy).1
        omega
      | never | always | allBut | expected =>
        rw [hpolicy] at hmarks
        exact hmarks.elim
    · exact ⟨id, id⟩

end Tally

/-! ## What a marker counts for -/

/-- Whether a frame has no say: it neither ignores nor expects errors. -/
def Frame.IsBare (f : Frame) : Prop := f.ignores = false ∧ f.expects = none

/-- What the marker of frame `n` counts for that is written where the frames `fs` are open: for itself, if they have no say; and else for
the innermost one that has, which expects errors and has a lower number. -/
inductive CountsFor (fs : List Frame) (n : Nat) : Option Nat → Prop
  | itself (bare : ∀ g ∈ fs, g.IsBare) : CountsFor fs n none
  | outer {inner rest : List Frame} {g : Frame} {y : Expectation} (split : fs = inner ++ g :: rest) (bare : ∀ f ∈ inner, f.IsBare)
      (counts : g.ignores = false) (expects : g.expects = some y) (lt : y.number < n) : CountsFor fs n (some y.number)

theorem Frame.isBare_iff {f : Frame} : f.IsBare ↔ f.effect? = none := by
  unfold IsBare effect?
  cases f.ignores <;> simp

/-- What the marker of a frame becomes where frames of lower numbers are open. -/
theorem countsFor_of_apply {fs : List Frame} {k n : Nat} {outer : Option Nat} (hfs : ∀ m ∈ numbersOf fs, m < k)
    (h : Effect.apply (effectOf fs) (.unused k none) = .unused n outer) : n = k ∧ CountsFor fs n outer := by
  cases heffect : effectOf fs with
  | none =>
    rw [heffect] at h
    cases h
    exact ⟨rfl, .itself fun g hg => Frame.isBare_iff.2 (List.findSome?_eq_none_iff.1 heffect g hg)⟩
  | some x =>
    rw [heffect] at h
    cases x with
    | silence => cases h
    | expect m =>
      obtain ⟨inner, g, rest, rfl, hg, hbare⟩ := List.findSome?_eq_some_iff.1 heffect
      have hlt := hfs m (mem_numbersOf_of_effectOf heffect)
      rw [Effect.apply.eq_6, if_neg (by omega)] at h
      cases h
      unfold Frame.effect? at hg
      split at hg
      · cases hg
      · rename_i hcounts
        obtain ⟨y, hy, hm⟩ := Option.map_eq_some_iff.1 hg
        obtain rfl : y.number = m := Effect.expect.inj hm
        exact ⟨rfl, .outer rfl (fun f hf => Frame.isBare_iff.2 (hbare f hf)) (by simpa using hcounts) hy hlt⟩

/-- In a walk over a template some node is entered with a frame that expects errors under the number `n`. Its marker is written behind
what is inside the node, where only the frames `fs` outside are open, and it counts for `outer` there. -/
def Settled (r : Setting) (code : Code) (f : Fragment) (n : Nat) (outer : Option Nat) : Prop :=
  ∃ (led before after : List Node) (m : Node) (s t : State) (frame : Frame) (fs : List Frame) (x : Expectation),
    Walked r code f led (before ++ m :: after) s ∧ comment? m = none ∧ enter.after r ((nodes before).after r s).2 = (true, t) ∧
      t.frames = frame :: fs ∧ frame.expects = some x ∧ x.number = n ∧
        (node m).after r ((nodes before).after r s).2 = (writeMarker x).after r (((inside m).after r t).2.popped fs) ∧ CountsFor fs n outer

/-! ## Steps -/

/-- What is done between two states of a generator adds code whose policies are tallied. -/
def State.Tallies (W : Nat → Option Nat → Prop) (s t : State) : Prop :=
  ∃ as, t.code.segments = s.code.segments ++ as ∧ Tally W s.frames s.nextExpectation t.nextExpectation (Segment.policies as)

section

variable {W : Nat → Option Nat → Prop} {r : Setting} {s t u : State}

/-- A step that leaves the code and the numbers as they are. -/
theorem State.Tallies.same (hcode : t.code.segments = s.code.segments) (hnext : t.nextExpectation = s.nextExpectation) :
    s.Tallies W t := by
  refine ⟨[], by rw [hcode, List.append_nil], ?_⟩
  rw [hnext]
  exact .nil

theorem State.Tallies.trans (h : s.Tallies W t) (h' : t.Tallies W u) (hs : s.Sound .everything) (hframes : t.frames = s.frames) :
    s.Tallies W u := by
  obtain ⟨as, has, htally⟩ := h
  obtain ⟨as', has', htally'⟩ := h'
  refine ⟨as ++ as', by rw [has', has, List.append_assoc], ?_⟩
  rw [Segment.policies_append]
  rw [hframes] at htally'
  exact htally.append htally' hs.numbers_lt

/-- A step within one node. -/
theorem State.Extends.tallies (h : s.Extends .everything t) (hs : s.Sound .everything) : s.Tallies W t := by
  obtain ⟨as, has, hadmits⟩ := h.code_extends.segments_eq
  refine ⟨as, has, ?_⟩
  rw [h.nextExpectation_eq]
  rw [hs.effect_eq] at hadmits
  exact .plain W _ (Segment.exists_plain hadmits)

theorem Puts.tallies {g : Gen Unit} (h : ∀ e, Puts .everything r e g) (hs : s.Sound .everything) : s.Tallies W (g.after r s).2 :=
  (h s.code.effect s rfl hs.noted).1.tallies hs

/-- A generator that is put around another one has it begin somewhere, and does what it does before and behind it. -/
theorem Surrounds.exists_behind {c : Gen Unit → Gen Unit} (hc : ∀ e, Surrounds .everything r e c) (s : State) :
    ∃ (t : State) (behind : State → State), Begins c r s t ∧ s.Extends .everything t ∧ (∀ u : State, u.Extends .everything (behind u)) ∧
      ∀ inner, ((c inner).after r s).2 = behind (inner.after r t).2 := by
  obtain ⟨t, behind, hextends, -, hbehind, heq⟩ := hc s.code.effect s rfl (noted_everything s)
  have hkept (u : State) := (hbehind u (noted_everything u)).1
  refine ⟨t, fun u => (behind u).2, ⟨fun u => (behind u).2, fun u => ?_, fun inner => by rw [heq]⟩, hextends, hkept,
    fun inner => by rw [heq]⟩
  obtain ⟨as, has, -⟩ := (hkept u).code_extends.segments_eq
  exact ⟨as, has.symm⟩

/-- A generator around one whose code is tallied. -/
theorem Surrounds.tallies {c : Gen Unit → Gen Unit} {inner : Gen Unit} (hc : ∀ e, Surrounds .everything r e c)
    (hinner : Grown .everything r inner) (hs : s.Sound .everything)
    (h : ∀ t, Begins c r s t → t.Tallies W (inner.after r t).2) : s.Tallies W ((c inner).after r s).2 := by
  obtain ⟨t, behind, hbegins, hextends, hbehind, heq⟩ := Surrounds.exists_behind hc s
  have hsound := hextends.sound hs (noted_everything t)
  have hgrows := hinner t hsound
  rw [heq]
  have hrest := (h t hbegins).trans ((hbehind _).tallies hgrows.sound) hsound hgrows.frames_eq
  exact (hextends.tallies hs).trans hrest hs hextends.frames_eq

/-! ## Entering and leaving -/

/-- A node that is entered has a frame of its own, whose expectation has a number that was not given out before. -/
theorem exists_of_enter (hs : s.Sound .everything) (h : enter.after r s = (true, t)) : ∃ f, t.frames = f :: s.frames ∧
    t.code.segments = s.code.segments ∧ s.nextExpectation ≤ t.nextExpectation ∧
      ∀ x ∈ f.expects, s.nextExpectation ≤ x.number ∧ x.number < t.nextExpectation := by
  obtain ⟨hle, hframe⟩ := frameOf_spec s.nextExpectation hs.pending_permitted (⟨by simp, by simp⟩ : Frame.Permitted .everything {})
  rw [after_enter] at h
  dsimp only at h
  cases hf : (frameOf s.nextExpectation {} s.pending).2 with
  | none =>
    rw [hf] at h
    cases h
  | some f =>
    rw [hf] at h
    cases h
    refine ⟨f, rfl, rfl, hle, fun x hx => ?_⟩
    obtain ⟨-, hnone | ⟨y, hy, hlo, hhi⟩⟩ := hframe f hf
    · rw [hnone] at hx
      cases hx
    · obtain rfl := Option.some.inj (hy.symm.trans hx)
      exact ⟨hlo, hhi⟩

/-- A node that is passed over takes numbers at most. -/
theorem tallies_of_passed (hs : s.Sound .everything) (h : (enter.after r s).1 = false) : s.Tallies W (enter.after r s).2 := by
  have hle := (frameOf_spec s.nextExpectation hs.pending_permitted (⟨by simp, by simp⟩ : Frame.Permitted .everything {})).1
  rw [after_enter] at h ⊢
  dsimp only at h ⊢
  cases hf : (frameOf s.nextExpectation {} s.pending).2 with
  | none => exact ⟨[], (List.append_nil _).symm, Tally.nil.below hle⟩
  | some f =>
    rw [hf] at h
    cases h

/-- What the marker of an expectation adds: a policy that the effect has changed, and a silent one at the end of the group. -/
theorem exists_writeMarker (r : Setting) (x : Expectation) (s : State) :
    ∃ as, ((writeMarker x).after r s).2.code.segments = s.code.segments ++ as ∧
      Segment.policies as = [Effect.apply s.code.effect (.unused x.number none), .never] := by
  have hcode : ((writeMarker x).after r s).2.code = (s.code.bounded SourceId.template x.span.start x.span.stop
      (Info.ofPolicy (.unused x.number none)) "// @ts-expect-error").text "\n;\n" := rfl
  have hcomment : "// @ts-expect-error".isEmpty = false := by decide
  have hend : "\n;\n".isEmpty = false := by decide
  refine ⟨[.marker SourceId.template x.span.start ⟨Effect.apply s.code.effect (.unused x.number none), some (.opens s.code.nextToken)⟩,
    .text "// @ts-expect-error", .marker SourceId.template x.span.stop (Info.silent.withRole (.closes s.code.nextToken)),
    .text "\n;\n"], ?_, rfl⟩
  rw [hcode]
  simp [Code.bounded, Code.opened, Code.text, Code.closed, Code.add, Code.marker, Code.mapped, Code.resolve, Segment.marker,
    Info.ofPolicy, Info.withRole, hcomment, hend]

/-- A node whose inside is tallied, with the marker of its frame. -/
theorem State.Tallies.node {n : Node} (hs : s.Sound .everything) (visited : comment? n = none)
    (inside_tallies : ∀ t, enter.after r s = (true, t) → t.Tallies W ((inside n).after r t).2)
    (settles : ∀ (t : State) (f : Frame) (x : Expectation) (outer : Option Nat), enter.after r s = (true, t) →
      t.frames = f :: s.frames → f.expects = some x →
        (Generate.node n).after r s = (writeMarker x).after r (((inside n).after r t).2.popped s.frames) →
          CountsFor s.frames x.number outer → W x.number outer) :
    s.Tallies W ((Generate.node n).after r s).2 := by
  cases hentered : (enter.after r s).1 with
  | false =>
    have hrun : (Generate.node n).after r s = ((), (enter.after r s).2) := by
      have hbind : (asNode (inside n)).after r s =
          ((if (enter.after r s).1 then inside n >>= fun _ => leave else pure () : Gen Unit)).after r (enter.after r s).2 := rfl
      rw [node_of_not_comment visited, hbind, hentered]
      rfl
    rw [hrun]
    exact tallies_of_passed hs hentered
  | true =>
    obtain ⟨t, ht⟩ : ∃ t, enter.after r s = (true, t) := ⟨_, Prod.ext hentered rfl⟩
    obtain ⟨f, hframes, hsegments, hle, hnumber⟩ := exists_of_enter hs ht
    have hsound := hs.enter (r := r).1
    rw [ht] at hsound
    obtain ⟨as, has, htally⟩ := inside_tallies t ht
    have hinside := (grown_inside_everything r n t hsound).frames_eq.trans hframes
    rw [hframes] at htally
    rw [hsegments] at has
    have hnode := after_node_of_entered visited ht
    rw [after_leave r hinside] at hnode
    cases hexpects : f.expects with
    | none =>
      rw [hexpects] at hnode
      rw [hnode]
      exact ⟨as, has, (htally.closed hexpects).below hle⟩
    | some x =>
      rw [hexpects] at hnode
      rw [hnode]
      obtain ⟨hlo, hhi⟩ := hnumber x hexpects
      obtain ⟨as', has', hpolicies⟩ := exists_writeMarker r x (((inside n).after r t).2.popped s.frames)
      refine ⟨as ++ as', ?_, ?_⟩
      · rw [← List.append_assoc, ← has]
        exact has'
      · rw [Segment.policies_append, hpolicies]
        refine htally.settled hexpects hlo hhi fun k outer hpolicy => ?_
        obtain ⟨rfl, hcounts⟩ := countsFor_of_apply (fun m hm => Nat.lt_of_lt_of_le (hs.numbers_lt m hm) hlo) hpolicy
        exact ⟨rfl, settles t f x outer ht hframes hexpects hnode hcounts⟩

end

/-! ## Nodes -/

section

variable {r : Setting} {code : Code} {f : Fragment}

theorem after_nodes_append (as bs : List Node) (s : State) :
    ((nodes (as ++ bs)).after r s).2 = ((nodes bs).after r ((nodes as).after r s).2).2 := by
  induction as generalizing s with
  | nil => rfl
  | cons n as ih => exact ih ((node n).after r s).2

theorem after_branches_append (as bs : List Branch) (s : State) :
    ((branches true (as ++ bs)).after r s).2 = ((branches as.isEmpty bs).after r ((branches true as).after r s).2).2 := by
  rw [branches_append, Bool.true_and]
  rfl

mutual

/-- Wherever nodes are walked, what they write is tallied. -/
theorem tallies_nodes {led : List Node} {s : State} (ns before : List Node) (h : Walked r code f led (before ++ ns) s) :
    State.Tallies (Settled r code f) ((nodes before).after r s).2 ((nodes (before ++ ns)).after r s).2 := by
  cases ns with
  | nil =>
    rw [List.append_nil]
    exact .same rfl rfl
  | cons n ns =>
    have hsound := (grown_nodes_everything r before s (h.sound (by simp))).sound
    have hnode := grown_node_everything r n _ hsound
    have hfirst : State.Tallies (Settled r code f) ((nodes before).after r s).2 ((node n).after r ((nodes before).after r s).2).2 := by
      cases hn : comment? n with
      | some c =>
        cases n with
        | comment span data => exact .same rfl rfl
        | text | interpolation | element | loop | chain => cases hn
      | none =>
        refine .node hsound hn (fun t ht => tallies_inside n h ht) fun t g x outer ht hframes hx hmarker hcounts => ?_
        exact ⟨led, before, ns, n, s, t, g, _, x, h, hn, ht, hframes, hx, rfl, hmarker, hcounts⟩
    have hwalked : Walked r code f led ((before ++ [n]) ++ ns) s := by rwa [List.append_assoc]
    have hrest := tallies_nodes ns (before ++ [n]) hwalked
    rw [after_nodes_append before [n], List.append_assoc] at hrest
    exact hfirst.trans hrest hsound hnode.frames_eq
termination_by structural ns

/-- So is what is written inside a node that is entered. -/
theorem tallies_inside (n : Node) {led before after : List Node} {s t : State} (h : Walked r code f led (before ++ n :: after) s)
    (entered : enter.after r ((nodes before).after r s).2 = (true, t)) :
    State.Tallies (Settled r code f) t ((inside n).after r t).2 := by
  have hsound : t.Sound .everything := by
    have hbefore := (grown_nodes_everything r before s (h.sound (by simp))).sound
    have hentered := (hbefore.enter (r := r)).1
    rwa [entered] at hentered
  cases n with
  | comment span data => exact .same rfl rfl
  | text span data => exact .same rfl rfl
  | interpolation span x => exact Puts.tallies (fun _ => puts_interpolation (Permit.lawful_everything r) trivial) hsound
  | element x children =>
    cases children with
    | nil =>
      exact Puts.tallies (fun _ => puts_element_leaf (Permit.lawful_everything r) (elementPermitted_everything r.source x)) hsound
    | cons c cs =>
      refine Surrounds.tallies (c := element x true)
        (fun _ => surrounds_element (Permit.lawful_everything r) (elementPermitted_everything r.source x))
        (grown_nodes_everything r (c :: cs)) hsound fun u hbegins => ?_
      exact tallies_nodes (c :: cs) [] (.within h entered (.element x (c :: cs)) hbegins)
  | loop span head children =>
    refine Surrounds.tallies (c := loop head)
      (fun _ => surrounds_loop (Permit.lawful_everything r) ⟨fun _ _ => trivial, fun _ _ => trivial⟩)
      (grown_nodes_everything r children) hsound fun u hbegins => ?_
    exact tallies_nodes children [] (.within h entered (.loop span head children) hbegins)
  | chain span bs => exact tallies_branches bs [] hsound h entered
termination_by structural n

/-- So are the branches of a chain that is entered, behind others of them. -/
theorem tallies_branches (bs front : List Branch) {span : Span} {led before after : List Node} {s t : State}
    (hsound : t.Sound .everything) (h : Walked r code f led (before ++ .chain span (front ++ bs) :: after) s)
    (entered : enter.after r ((nodes before).after r s).2 = (true, t)) :
    State.Tallies (Settled r code f) ((branches true front).after r t).2 ((branches true (front ++ bs)).after r t).2 := by
  cases bs with
  | nil =>
    rw [List.append_nil]
    exact .same rfl rfl
  | cons b bs =>
    obtain ⟨own, x, children⟩ := b
    have hfront := (grown_branches_everything r true front t hsound).sound
    have hfirst : State.Tallies (Settled r code f) ((branches true front).after r t).2
        ((branch front.isEmpty x (nodes children)).after r ((branches true front).after r t).2).2 := by
      refine Surrounds.tallies (fun e => surrounds_branch_everything e front.isEmpty x) (grown_nodes_everything r children) hfront
        fun u hbegins => ?_
      exact tallies_nodes children [] (.within h entered (.branch span own front x children bs) (hbegins.chainAround bs))
    have hwalked : Walked r code f led (before ++ .chain span ((front ++ [.mk own x children]) ++ bs) :: after) s := by
      rwa [List.append_assoc]
    have hrest := tallies_branches bs (front ++ [.mk own x children]) hsound hwalked entered
    rw [after_branches_append front [.mk own x children], List.append_assoc] at hrest
    have hbranch := Surrounds.grown (fun e => surrounds_branch_everything e front.isEmpty x) (grown_nodes_everything r children)
    exact hfirst.trans hrest hfront (hbranch _ hfront).frames_eq
termination_by structural bs

end

theorem sound_start (hcode : code.effect = none) : ({ code := code } : State).Sound .everything :=
  ⟨hcode, by simp [numbersOf], by simp [numbersOf], noted_everything _, by simp, by simp⟩

/-- What a template writes is tallied, from an empty tally on. -/
theorem tallies_template (hcode : code.effect = none) (f : Option Fragment) :
    State.Tallies (fun n outer => ∃ g ∈ f, Settled r code g n outer) { code := code } ((template f).after r { code := code }).2 := by
  have hstart := sound_start hcode
  cases f with
  | none =>
    rw [template_none]
    exact Puts.tallies (fun e => (surrounds_templateAround_everything e).puts (puts_pure ())) hstart
  | some f =>
    rw [template_eq]
    refine Surrounds.tallies surrounds_templateAround_everything (grown_nodes_everything r f.nodes) hstart fun t hbegins => ?_
    obtain ⟨as, has, htally⟩ := tallies_nodes f.nodes [] (.root hcode hbegins)
    exact ⟨as, has, htally.mono fun n outer h => ⟨f, rfl, h⟩⟩

/-- Behind a template no effect is in force. -/
theorem effect_template (hcode : code.effect = none) (f : Option Fragment) :
    ((template f).after r { code := code }).2.code.effect = none := by
  have hgrown := grown_template (Permit.lawful_everything r) (f := f) fun g _ => nodesPermitted_everything r.source g.nodes
  exact ((hgrown _ (sound_start hcode)).effect_eq (sound_start hcode)).trans hcode

end

end Generate

end TypedSfc
