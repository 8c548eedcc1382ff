import TypedSfc.Generate.Style
import TypedSfc.Proofs.Generate.PermittedElements

/-!
# What nodes map

Within a node the frames stay as they are; around it one frame is opened and closed. A segment that is written inside some nodes has the
policy that the frames open there make of it: a plain one, or that of the marker of an expectation whose frame was just closed. The
numbers of the frames that are open are told apart, so that no marker meets its own frame.
-/

namespace TypedSfc

open Generate (Frame effectOf)

/-- The numbers of the expectations of frames. -/
def Generate.numbersOf (fs : List Frame) : List Nat := fs.filterMap fun f => f.expects.map (·.number)

/-- A segment that may be written where the frames `fs` are open and perhaps others inside them. -/
def Permit.AdmitsIn (P : Permit) (fs : List Frame) : Segment → Prop
  | .text _ => True
  | .mapped t source offset i => P.allows t source offset ∧ ∃ (inner : List Frame) (p : Policy),
      (p.isPlain = true ∨ ∃ n, p = .unused n none ∧ n ∉ Generate.numbersOf (inner ++ fs)) ∧
        i.policy = Effect.apply (effectOf (inner ++ fs)) p

namespace Permit

variable {P : Permit} {fs : List Frame} {a : Segment}

theorem Admits.admitsIn (h : P.Admits (effectOf fs) a) : P.AdmitsIn fs a := by
  cases a with
  | text t => trivial
  | mapped t source offset i =>
    obtain ⟨hallows, p, hp, hpolicy⟩ := h
    exact ⟨hallows, [], p, .inl hp, hpolicy⟩

/-- What is written where one more frame is open is written where the others are. -/
theorem AdmitsIn.outer {f : Frame} (h : P.AdmitsIn (f :: fs) a) : P.AdmitsIn fs a := by
  cases a with
  | text t => trivial
  | mapped t source offset i =>
    obtain ⟨hallows, inner, p, hp, hpolicy⟩ := h
    refine ⟨hallows, inner ++ [f], p, ?_, ?_⟩
    · rwa [List.append_assoc, List.singleton_append]
    · rwa [List.append_assoc, List.singleton_append]

end Permit

namespace Generate

open Markup (Branch Element LoopHead Node)

variable {P : Permit} {r : Setting} {e : Option Effect}

/-! ## Directive comments -/

/-- A comment whose place may be marked, and whose type arguments stand in the template if it gives any. -/
structure CommentPermitted (P : Permit) (span : Span) (data : String) : Prop where
  allows_start : P.allows "" SourceId.template span.start
  allows_stop : P.allows "" SourceId.template span.stop
  generic_stands : ∀ name content, directiveComment? data = some (name, content) → ∀ g ∈ genericOf? span data content,
    P.stands SourceId.template g.content g.offset

/-- A frame whose expectation has a place that may be marked, and whose type arguments stand in the template. -/
structure Frame.Permitted (P : Permit) (f : Frame) : Prop where
  expects_allowed : ∀ x ∈ f.expects, P.allows "" SourceId.template x.span.start ∧ P.allows "" SourceId.template x.span.stop
  generic_stands : ∀ g ∈ f.generic, P.stands SourceId.template g.content g.offset

/-- What comments make of a frame: numbers are only counted up, and an expectation that is new has one of the new numbers. -/
theorem frameOf_spec (next : Nat) {cs : List (Span × String)} {f : Frame} (hcs : ∀ c ∈ cs, CommentPermitted P c.1 c.2)
    (hf : f.Permitted P) : next ≤ (frameOf next f cs).1 ∧ ∀ f' ∈ (frameOf next f cs).2, f'.Permitted P ∧
      (f'.expects = f.expects ∨ ∃ x, f'.expects = some x ∧ next ≤ x.number ∧ x.number < (frameOf next f cs).1) := by
  induction cs generalizing next f with
  | nil =>
    refine ⟨Nat.le_refl _, ?_⟩
    intro f' hf'
    obtain rfl := Option.some.inj hf'
    exact ⟨hf, .inl rfl⟩
  | cons c cs ih =>
    obtain ⟨span, data⟩ := c
    have hc := hcs _ List.mem_cons_self
    have hrest : ∀ c ∈ cs, CommentPermitted P c.1 c.2 := fun c hc => hcs c (List.mem_cons_of_mem _ hc)
    rw [frameOf.eq_2]
    split
    · exact ih next hrest hf
    · rename_i name content hcomment
      split
      · exact ⟨Nat.le_refl _, by simp⟩
      · exact ih next hrest ⟨hf.expects_allowed, hf.generic_stands⟩
      · have hnext : Frame.Permitted P { f with expects := some ⟨next, span⟩ } := by
          refine ⟨?_, hf.generic_stands⟩
          intro x hx
          obtain rfl := Option.some.inj hx
          exact ⟨hc.allows_start, hc.allows_stop⟩
        obtain ⟨hle, hframe⟩ := ih (next + 1) hrest hnext
        refine ⟨by omega, fun f' hf' => ?_⟩
        obtain ⟨hpermitted, hsame | ⟨x, hx, hlo, hhi⟩⟩ := hframe f' hf'
        · exact ⟨hpermitted, .inr ⟨_, hsame, Nat.le_refl _, hle⟩⟩
        · exact ⟨hpermitted, .inr ⟨x, hx, by omega, hhi⟩⟩
      · refine ih next hrest ⟨hf.expects_allowed, ?_⟩
        intro g hg
        rcases Option.or_eq_some_iff.1 hg with hg | ⟨-, hg⟩
        · exact hc.generic_stands _ _ hcomment g hg
        · exact hf.generic_stands g hg
      · exact ih next hrest hf

/-! ## Permitted nodes -/

/-- Where the text of an interpolation starts: before the blanks in front of its expression. -/
def interpolationStart (source : List Char) (x : Markup.Expression) : Nat := x.offset - blanks (Text.between 0 x.offset source).reverse

/-- The text of an interpolation, with the blanks around its expression. -/
def interpolationText (source : List Char) (x : Markup.Expression) : String :=
  String.ofList (Text.between (interpolationStart source x) (x.stop + blanks (Text.after x.stop source)) source)

/-- A loop whose source stands in the template, and whose names may be mapped as they are spelled there. -/
structure LoopPermitted (P : Permit) (source : List Char) (h : LoopHead) : Prop where
  source_stands : ∀ x ∈ h.source, P.stands SourceId.template x.content x.offset
  aliases_allowed : ∀ s ∈ h.aliasSpan, P.allows (String.ofList (Text.between s.start s.stop source)) SourceId.template s.start

/-- A node all of whose parts may be mapped. -/
inductive NodePermitted (P : Permit) (source : List Char) : Node → Prop
  | comment {span : Span} {data : String} (comment : CommentPermitted P span data) : NodePermitted P source (.comment span data)
  | text {span : Span} {data : String} : NodePermitted P source (.text span data)
  | interpolation {span : Span} {x : Markup.Expression}
      (stands : P.stands SourceId.template (interpolationText source x) (interpolationStart source x)) :
      NodePermitted P source (.interpolation span x)
  | element {x : Element} {children : List Node} (head : x.Permitted P source) (below : ∀ n ∈ children, NodePermitted P source n) :
      NodePermitted P source (.element x children)
  | loop {span : Span} {h : LoopHead} {children : List Node} (head : LoopPermitted P source h)
      (below : ∀ n ∈ children, NodePermitted P source n) : NodePermitted P source (.loop span h children)
  | chain {span : Span} {bs : List Branch}
      (conditions : ∀ b ∈ bs, ∀ x ∈ b.condition, P.stands SourceId.template x.content x.offset)
      (below : ∀ b ∈ bs, ∀ n ∈ b.children, NodePermitted P source n) : NodePermitted P source (.chain span bs)

/-! ## Sound states -/

/-- A state between nodes: the effect in force is that of the frames, whose expectations have numbers of their own below the next one,
and what is kept for later may be mapped then. -/
structure State.Sound (P : Permit) (s : State) : Prop where
  effect_eq : s.code.effect = effectOf s.frames
  nodup : (numbersOf s.frames).Nodup
  numbers_lt : ∀ n ∈ numbersOf s.frames, n < s.nextExpectation
  noted : s.Noted P
  frames_permitted : ∀ f ∈ s.frames, f.Permitted P
  pending_permitted : ∀ c ∈ s.pending, CommentPermitted P c.1 c.2

/-- What one node or several do: code is added inside the frames that are open, which are the same behind them. -/
structure State.Grows (P : Permit) (s t : State) : Prop where
  segments_eq : ∃ as, t.code.segments = s.code.segments ++ as ∧ ∀ a ∈ as, P.AdmitsIn s.frames a
  frames_eq : t.frames = s.frames
  sound : t.Sound P

namespace State

variable {s t u : State}

theorem Grows.refl (h : s.Sound P) : s.Grows P s := ⟨⟨[], by simp, by simp⟩, rfl, h⟩

theorem Grows.trans (h : s.Grows P t) (h' : t.Grows P u) : s.Grows P u := by
  obtain ⟨as, has, hadmits⟩ := h.segments_eq
  obtain ⟨as', has', hadmits'⟩ := h'.segments_eq
  rw [h.frames_eq] at hadmits'
  refine ⟨⟨as ++ as', by rw [has', has, List.append_assoc], ?_⟩, h'.frames_eq.trans h.frames_eq, h'.sound⟩
  intro a ha
  exact (List.mem_append.1 ha).elim (hadmits a) (hadmits' a)

theorem Grows.effect_eq (h : s.Grows P t) (hs : s.Sound P) : t.code.effect = s.code.effect := by
  rw [h.sound.effect_eq, hs.effect_eq, h.frames_eq]

/-- A step within one node is a step of nodes. -/
theorem Extends.grows (h : s.Extends P t) (hs : s.Sound P) (ht : t.Noted P) : s.Grows P t := by
  obtain ⟨as, has, hadmits⟩ := h.code_extends.segments_eq
  rw [hs.effect_eq] at hadmits
  refine ⟨⟨as, has, fun a ha => (hadmits a ha).admitsIn⟩, h.frames_eq, ?_⟩
  refine ⟨?_, h.frames_eq.symm ▸ hs.nodup, ?_, ht, h.frames_eq.symm ▸ hs.frames_permitted, h.pending_eq.symm ▸ hs.pending_permitted⟩
  · rw [h.effect_eq, h.frames_eq, hs.effect_eq]
  · rw [h.frames_eq, h.nextExpectation_eq]
    exact hs.numbers_lt

end State

/-- A generator of nodes. -/
def Grown (P : Permit) (r : Setting) (g : Gen Unit) : Prop := ∀ s : State, s.Sound P → s.Grows P (g.after r s).2

theorem grown_of_puts {g : Gen Unit} (h : ∀ e, Puts P r e g) : Grown P r g := by
  intro s hs
  obtain ⟨hextends, hnoted, -⟩ := h s.code.effect s rfl hs.noted
  exact hextends.grows hs hnoted

theorem Grown.bind {g : Gen Unit} {k : Unit → Gen Unit} (hg : Grown P r g) (hk : ∀ u, Grown P r (k u)) : Grown P r (g >>= k) := by
  intro s hs
  have hfirst := hg s hs
  exact hfirst.trans (hk _ (g.after r s).2 hfirst.sound)

/-- Nodes with a generator around them. -/
theorem Surrounds.grown {c : Gen Unit → Gen Unit} {inner : Gen Unit} (hc : ∀ e, Surrounds P r e c) (hinner : Grown P r inner) :
    Grown P r (c inner) := by
  intro s hs
  obtain ⟨s₁, behind, hextends, hnoted, hbehind, heq⟩ := hc s.code.effect s rfl hs.noted
  have hbefore := hextends.grows hs hnoted
  have hinside := hinner s₁ hbefore.sound
  obtain ⟨hextends', hnoted'⟩ := hbehind _ hinside.sound.noted
  rw [heq]
  exact hbefore.trans (hinside.trans (hextends'.grows hinside.sound hnoted'))

/-! ## Frames -/

theorem grown_keepComment {span : Span} {data : String} (h : CommentPermitted P span data) : Grown P r (keepComment span data) := by
  intro s hs
  refine ⟨⟨[], by simp [keepComment, Gen.after, modify, modifyGet, MonadStateOf.modifyGet]; rfl, by simp⟩, rfl, ?_⟩
  refine ⟨hs.effect_eq, hs.nodup, hs.numbers_lt, ⟨hs.noted.slots_stand, hs.noted.refs_stand, hs.noted.generics_stand⟩,
    hs.frames_permitted, ?_⟩
  intro c hc
  rcases List.mem_append.1 hc with hc | hc
  · exact hs.pending_permitted c hc
  · rw [List.mem_singleton.1 hc]
    exact h

/-- What entering a node comes to: it is passed over, or its frame is opened. -/
theorem after_enter (r : Setting) (s : State) :
    enter.after r s =
      let taken := frameOf s.nextExpectation {} s.pending
      let s' := { s with pending := [], nextExpectation := taken.1 }
      match taken.2 with
      | none => (false, s')
      | some f => (true, s'.withFrames (f :: s.frames)) := by
  rw [enter, after_get_bind]
  dsimp only
  cases (frameOf s.nextExpectation {} s.pending).2 <;> rfl

/-- A state behind a node, once the frame of the node is closed: only the frames around it are open. -/
def State.popped (s : State) (fs : List Frame) : State := { s with pending := [] }.withFrames fs

/-- Writes the marker of an expectation. -/
def writeMarker (x : Expectation) : Gen Unit := do
  bounded x.span.start x.span.stop (Info.ofPolicy (.unused x.number none)) "// @ts-expect-error"
  text "\n;\n"

/-- What leaving a node comes to: its frame is closed, and then the marker of its expectation is written. -/
theorem after_leave (r : Setting) {s : State} {f : Frame} {fs : List Frame} (h : s.frames = f :: fs) :
    leave.after r s = match f.expects with
      | none => ((), s.popped fs)
      | some x => (writeMarker x).after r (s.popped fs) := by
  have hpopped : ({ s with pending := [] }.withFrames s.frames.tail) = s.popped fs := by
    rw [h]
    rfl
  rw [leave, after_get_bind, hpopped, h]
  dsimp only [List.head?_cons, Option.bind_some]
  cases f.expects <;> rfl

/-- Entering a node opens its frame, or passes it over. -/
theorem State.Sound.enter {s : State} (hs : s.Sound P) :
    (enter.after r s).2.Sound P ∧ (enter.after r s).2.code.segments = s.code.segments ∧ (enter.after r s).2.pending = [] ∧
      (((enter.after r s).1 = false ∧ (enter.after r s).2.frames = s.frames) ∨
        ((enter.after r s).1 = true ∧ ∃ f, (enter.after r s).2.frames = f :: s.frames)) := by
  obtain ⟨hle, hframe⟩ := frameOf_spec s.nextExpectation hs.pending_permitted
    (⟨by simp, by simp⟩ : Frame.Permitted P {})
  have hlt : ∀ n ∈ numbersOf s.frames, n < (frameOf s.nextExpectation {} s.pending).1 := by
    intro n hn
    have := hs.numbers_lt n hn
    omega
  rw [after_enter]
  dsimp only
  cases hf : (frameOf s.nextExpectation {} s.pending).2 with
  | none =>
    refine ⟨⟨hs.effect_eq, hs.nodup, hlt, ⟨hs.noted.slots_stand, hs.noted.refs_stand, hs.noted.generics_stand⟩,
      hs.frames_permitted, by simp⟩, rfl, rfl, .inl ⟨rfl, rfl⟩⟩
  | some f =>
    obtain ⟨hpermitted, hnumber⟩ := hframe f hf
    refine ⟨⟨rfl, ?_, ?_, ⟨hs.noted.slots_stand, hs.noted.refs_stand, ?_⟩, ?_, by simp [State.withFrames]⟩, rfl, rfl,
      .inr ⟨rfl, f, rfl⟩⟩
    · show (numbersOf (f :: s.frames)).Nodup
      rcases hnumber with hnone | ⟨x, hx, hlo, -⟩
      · rw [numbersOf, List.filterMap_cons, hnone]
        exact hs.nodup
      · rw [numbersOf, List.filterMap_cons, hx]
        refine List.nodup_cons.2 ⟨fun hmem => ?_, hs.nodup⟩
        have hnumber : x.number < s.nextExpectation := hs.numbers_lt _ hmem
        omega
    · show ∀ n ∈ numbersOf (f :: s.frames), n < (frameOf s.nextExpectation {} s.pending).1
      rcases hnumber with hnone | ⟨x, hx, -, hhi⟩
      · rw [numbersOf, List.filterMap_cons, hnone]
        exact hlt
      · rw [numbersOf, List.filterMap_cons, hx]
        intro n hn
        rcases List.mem_cons.1 hn with rfl | hn
        · exact hhi
        · exact hlt n hn
    · intro f' hf' g hg
      rcases List.mem_cons.1 hf' with rfl | hf'
      · exact hpermitted.generic_stands g hg
      · exact hs.noted.generics_stand f' hf' g hg
    · intro f' hf'
      rcases List.mem_cons.1 hf' with rfl | hf'
      · exact hpermitted
      · exact hs.frames_permitted f' hf'

/-- The marker of an expectation that is told apart from those of the frames that are open. -/
theorem code_writeMarker {s : State} {fs : List Frame} {x : Expectation} (he : s.code.effect = effectOf fs)
    (hallows : P.allows "" SourceId.template x.span.start ∧ P.allows "" SourceId.template x.span.stop)
    (hfresh : x.number ∉ numbersOf fs) : ∃ c, ((writeMarker x).after r s).2 = { s with code := c } ∧ c.effect = s.code.effect ∧
      ∃ as, c.segments = s.code.segments ++ as ∧ ∀ a ∈ as, P.AdmitsIn fs a := by
  refine ⟨_, rfl, rfl, ?_⟩
  -- Only the segment that opens the marker has a policy that is not plain.
  have hopened : P.AdmitsIn fs (.marker SourceId.template x.span.start
      ⟨Effect.apply s.code.effect (.unused x.number none), some (.opens s.code.nextToken)⟩) := by
    refine ⟨hallows.1, [], .unused x.number none, .inr ⟨x.number, rfl, hfresh⟩, ?_⟩
    rw [he]
    rfl
  have hrest := (Code.extends_text (P := P) (s.code.opened SourceId.template x.span.start
    (Info.ofPolicy (.unused x.number none))).2 "// @ts-expect-error").trans
      ((Code.extends_closed (b := (s.code.opened SourceId.template x.span.start (Info.ofPolicy (.unused x.number none))).1)
        hallows.2).trans (Code.extends_text _ "\n;\n"))
  obtain ⟨as, has, hadmits⟩ := hrest.segments_eq
  refine ⟨_ :: as, has.trans (List.append_assoc ..), ?_⟩
  intro a ha
  rcases List.mem_cons.1 ha with rfl | ha
  · exact hopened
  · have hadmit := hadmits a ha
    rw [show (s.code.opened SourceId.template x.span.start (Info.ofPolicy (.unused x.number none))).2.effect = effectOf fs from he]
      at hadmit
    exact hadmit.admitsIn

/-- With its innermost frame closed a state stays sound, whatever its code. -/
theorem State.Sound.popped {s : State} (hs : s.Sound P) {f : Frame} {fs : List Frame} (hframes : s.frames = f :: fs) {c : Code}
    (hc : c.effect = effectOf fs) : State.Sound P { s.popped fs with code := c } := by
  have hnodup := hs.nodup
  have hlt := hs.numbers_lt
  rw [hframes] at hnodup hlt
  have hsub : (numbersOf fs).Sublist (numbersOf (f :: fs)) := (List.sublist_cons_self f fs).filterMap _
  have hmem : ∀ f' ∈ fs, f' ∈ s.frames := fun f' hf' => hframes ▸ List.mem_cons_of_mem _ hf'
  refine ⟨hc, hnodup.sublist hsub, fun n hn => hlt n (hsub.subset hn), ⟨hs.noted.slots_stand, hs.noted.refs_stand, ?_⟩, ?_, ?_⟩
  · exact fun f' hf' => hs.noted.generics_stand f' (hmem f' hf')
  · exact fun f' hf' => hs.frames_permitted f' (hmem f' hf')
  · exact fun c hc => absurd hc List.not_mem_nil

/-- Leaving a node closes its frame; the marker of its expectation is written where the frames around it are open. -/
theorem State.Sound.leave {s : State} (hs : s.Sound P) {f : Frame} {fs : List Frame} (hframes : s.frames = f :: fs) :
    (leave.after r s).2.Sound P ∧ (leave.after r s).2.frames = fs ∧ (leave.after r s).2.pending = [] ∧
      ∃ as, (leave.after r s).2.code.segments = s.code.segments ++ as ∧ ∀ a ∈ as, P.AdmitsIn fs a := by
  rw [after_leave r hframes]
  cases hx : f.expects with
  | none => exact ⟨hs.popped hframes rfl, rfl, rfl, [], (List.append_nil _).symm, by simp⟩
  | some x =>
    have hallows := (hs.frames_permitted f (by simp [hframes])).expects_allowed x hx
    have hfresh : x.number ∉ numbersOf fs := by
      have hnodup := hs.nodup
      rw [hframes, numbersOf, List.filterMap_cons, hx] at hnodup
      exact (List.nodup_cons.1 hnodup).1
    obtain ⟨c, hc, heffect, as, has, hadmits⟩ := code_writeMarker (r := r) (s := s.popped fs) rfl hallows hfresh
    dsimp only
    rw [hc]
    exact ⟨hs.popped hframes heffect, rfl, rfl, as, has, hadmits⟩

/-- A node grows by what is written inside it, and by the marker of its expectation. -/
theorem grown_asNode {g : Gen Unit} (hg : Grown P r g) : Grown P r (asNode g) := by
  intro s hs
  obtain ⟨hentered, hsegments, -, hcase⟩ := hs.enter (r := r)
  have hbind : (asNode g).after r s = ((if (enter.after r s).1 then g >>= fun _ => leave else pure () : Gen Unit)).after r
      (enter.after r s).2 := rfl
  rw [hbind]
  rcases hcase with ⟨hfalse, hframes⟩ | ⟨htrue, f, hframes⟩
  · rw [hfalse]
    exact ⟨⟨[], by rw [List.append_nil]; exact hsegments, by simp⟩, hframes, hentered⟩
  · rw [htrue]
    have hinside := hg _ hentered
    obtain ⟨as, has, hadmits⟩ := hinside.segments_eq
    obtain ⟨hleft, hleftFrames, -, as', has', hadmits'⟩ := hinside.sound.leave (r := r) (hinside.frames_eq.trans hframes)
    have hafter : ((if true = true then g >>= fun _ => leave else pure () : Gen Unit)).after r (enter.after r s).2 =
        leave.after r (g.after r (enter.after r s).2).2 := rfl
    rw [hafter]
    refine ⟨⟨as ++ as', ?_, ?_⟩, hleftFrames, hleft⟩
    · rw [has', has, hsegments, List.append_assoc]
    · intro a ha
      rcases List.mem_append.1 ha with ha | ha
      · have hadmit := hadmits a ha
        rw [hframes] at hadmit
        exact hadmit.outer
      · exact hadmits' a ha

/-! ## Nodes -/

section

variable (hP : P.Lawful r)

include hP

/-- An element with children is written around them. -/
theorem surrounds_element {x : Element} (hx : x.Permitted P r.source) : Surrounds P r e (element x true) := by
  unfold element
  cases x.kind with
  | slot => exact surrounds_outlet hP hx
  | native => exact surrounds_native hP hx
  | component => exact surrounds_component hP hx
  | template =>
    cases hslot : x.directive "slot" with
    | none => exact surrounds_group hP hx
    | some d =>
      refine .andThen gives_get.puts fun _ => .ite (fun _ => surrounds_group hP hx) fun _ => .andThen puts_contextVar fun v => ?_
      refine surrounds_slotContent hP ?_ v
      intro d' hd'
      obtain rfl := Option.some.inj hd'
      exact hx.directive hslot

/-- An element without children. -/
theorem puts_element_leaf {x : Element} (hx : x.Permitted P r.source) : Puts P r e (element x false (pure ())) := by
  by_cases hkind : x.kind = .component
  · unfold element
    rw [hkind]
    exact puts_component_leaf hP hx
  · have heq : element x false (pure ()) = element x true (pure ()) := by
      unfold element
      cases hk : x.kind with
      | component => exact absurd hk hkind
      | slot | native | template => rfl
    rw [heq]
    exact (surrounds_element hP hx).puts (puts_pure ())

theorem puts_interpolation {x : Markup.Expression}
    (h : P.stands SourceId.template (interpolationText r.source x) (interpolationStart r.source x)) : Puts P r e (interpolation x) := by
  refine .bind gives_read fun setting hsetting => ?_
  subst hsetting
  exact puts_expression hP h (by simp [Text.IsPunct, Text.isPunct])

/-- A condition is written into a buffer, because its text is needed besides. -/
theorem puts_condition {x : Markup.Expression} (h : P.stands SourceId.template x.content x.offset) : Puts P r e (condition x) := by
  refine .captured (puts_expression hP h (by simp [Text.IsPunct, Text.isPunct])) fun c _ hc _ => ?_
  refine .andThen (puts_of_same fun _ => ⟨rfl, rfl, rfl, rfl, rfl, rfl⟩) fun _ => .andThen (puts_onCode fun c' he => ?_) fun _ => puts_text _
  exact Code.extends_append (he.symm ▸ hc)

theorem surrounds_branch (isFirst : Bool) {x : Option Markup.Expression}
    (hx : ∀ y ∈ x, P.stands SourceId.template y.content y.offset) : Surrounds P r e (branch isFirst x) := by
  have hbody : Surrounds P r e fun inner : Gen Unit => (do
      text "\x7b\n"
      inner
      text "\x7d\n"
      if x.isSome then modify fun s => { s with guards := negateLast s.guards }) := by
    refine .text (.before surrounds_inner fun _ _ => .text (.ite (fun _ => ?_) fun _ => puts_pure ()))
    exact puts_of_same fun _ => ⟨rfl, rfl, rfl, rfl, rfl, rfl⟩
  refine .text ?_
  cases x with
  | none => exact hbody
  | some y => exact .andThen (puts_condition hP (hx y rfl)) fun _ => hbody

theorem surrounds_loop {h : LoopHead} (hh : LoopPermitted P r.source h) : Surrounds P r e (loop h) := by
  have hbody : Surrounds P r e fun inner : Gen Unit => (do
      text ") \x7b\n"
      asLoopBody inner
      text "\x7d\n") := by
    refine .text (.before (.andThen gives_get.puts fun _ => ?_) fun _ _ => puts_text _)
    refine .andThen (puts_of_same fun _ => ⟨rfl, rfl, rfl, rfl, rfl, rfl⟩) fun _ => ?_
    exact .before surrounds_inner fun _ _ => puts_of_same fun _ => ⟨rfl, rfl, rfl, rfl, rfl, rfl⟩
  have hnames : Puts P r e (loopNames h) := by
    unfold loopNames
    split
    · exact puts_pure ()
    · rename_i span hspan
      refine .bind gives_read fun setting hsetting => ?_
      subst hsetting
      exact .andThen (puts_declare _) fun _ => puts_mapped (hh.aliases_allowed span hspan) rfl
  refine surrounds_inScope (.text (.andThen hnames fun _ => .text ?_))
  cases hx : h.source with
  | none => exact .text hbody
  | some y =>
    refine .text (.andThen (puts_expression hP (hh.source_stands y hx) (by simp [Text.IsPunct, Text.isPunct])) fun _ => ?_)
    exact .text hbody

omit hP in
theorem surrounds_keepingGuards : Surrounds P r e keepingGuards :=
  .andThen gives_get.puts fun _ => .before surrounds_inner fun _ _ => puts_of_same fun _ => ⟨rfl, rfl, rfl, rfl, rfl, rfl⟩

end

/-- The comment that a node is. -/
def comment? : Node → Option (Span × String)
  | .comment span data => some (span, data)
  | _ => none

/-- What is written where the frame of a node is open. -/
def inside : Node → Gen Unit
  | .comment _ _ | .text _ _ => pure ()
  | .interpolation _ x => interpolation x
  | .element x children => element x (!children.isEmpty) (nodes children)
  | .loop _ h children => loop h (nodes children)
  | .chain _ bs => keepingGuards (branches true bs)

theorem node_of_not_comment {n : Node} (h : comment? n = none) : node n = asNode (inside n) := by
  cases n with
  | comment span data => cases h
  | text | interpolation | element | loop | chain => rfl

/-- A node is a step of nodes if what is written inside it is. -/
theorem Grown.node {n : Node} (hn : NodePermitted P r.source n) (h : Grown P r (inside n)) : Grown P r (node n) := by
  cases n with
  | comment span data =>
    cases hn with
    | comment hcomment => exact grown_keepComment hcomment
  | text | interpolation | element | loop | chain => exact grown_asNode h

mutual

/-- A node all of whose parts may be mapped maps them inside its frame. -/
theorem grown_inside (hP : P.Lawful r) (n : Node) (h : NodePermitted P r.source n) : Grown P r (inside n) := by
  cases n with
  | comment | text => exact grown_of_puts fun _ => puts_pure ()
  | interpolation span x =>
    cases h with
    | interpolation hstands => exact grown_of_puts fun _ => puts_interpolation hP hstands
  | element x children =>
    cases h with
    | element head below =>
      cases children with
      | nil => exact grown_of_puts fun _ => puts_element_leaf hP head
      | cons n ns => exact Surrounds.grown (fun _ => surrounds_element hP head) (grown_nodes hP (n :: ns) below)
  | loop span head children =>
    cases h with
    | loop hhead below => exact Surrounds.grown (fun _ => surrounds_loop hP hhead) (grown_nodes hP children below)
  | chain span bs =>
    cases h with
    | chain conditions below =>
      exact Surrounds.grown (fun _ => surrounds_keepingGuards) (grown_branches hP true bs conditions below)

theorem grown_nodes (hP : P.Lawful r) (ns : List Node) (h : ∀ n ∈ ns, NodePermitted P r.source n) : Grown P r (nodes ns) := by
  cases ns with
  | nil => exact fun s hs => .refl hs
  | cons n ns =>
    have hfirst := h n List.mem_cons_self
    exact .bind (.node hfirst (grown_inside hP n hfirst)) fun _ => grown_nodes hP ns fun n hn => h n (List.mem_cons_of_mem _ hn)

theorem grown_branches (hP : P.Lawful r) (isFirst : Bool) (bs : List Branch)
    (hconditions : ∀ b ∈ bs, ∀ x ∈ b.condition, P.stands SourceId.template x.content x.offset)
    (hbelow : ∀ b ∈ bs, ∀ n ∈ b.children, NodePermitted P r.source n) : Grown P r (branches isFirst bs) := by
  cases bs with
  | nil => exact fun s hs => .refl hs
  | cons b bs =>
    obtain ⟨span, x, children⟩ := b
    have hcondition := hconditions _ List.mem_cons_self
    have hchildren := grown_nodes hP children (hbelow _ List.mem_cons_self)
    refine .bind (Surrounds.grown (fun _ => surrounds_branch hP isFirst hcondition) hchildren) fun _ => ?_
    exact grown_branches hP false bs (fun b hb => hconditions b (List.mem_cons_of_mem _ hb))
      fun b hb => hbelow b (List.mem_cons_of_mem _ hb)

end

end Generate

end TypedSfc
