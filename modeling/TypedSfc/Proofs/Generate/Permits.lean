import TypedSfc.Generate.Context
import TypedSfc.Proofs.Generate.Closes

/-!
# What a generator may map

Generators map texts to places, under policies that the effect in force has changed. A permit says which texts may be mapped to which
places, and which texts are taken to stand at a place, so that they may be read from there. What one step of a generator does is said
once for all permits: it adds segments that its permit admits, leaves the effect and the frames as they are, and notes only what stands
somewhere. A generator may also be put around another one; then it does so before the inner one begins, and behind it.
-/

namespace TypedSfc

/-- Whether a policy is one for code as such, before an effect has changed it. -/
def Policy.isPlain : Policy → Bool
  | never | always | allBut _ => true
  | expected _ _ | unused _ _ => false

@[simp] theorem Effect.apply_never (e : Option Effect) : Effect.apply e .never = .never := by cases e <;> rfl

/-- What may be mapped to which place. -/
structure Permit where
  /-- Whether a text may be mapped to an offset of a source. -/
  allows : String → SourceId → Nat → Prop
  /-- Whether a text is taken to stand in a source at an offset. -/
  stands : SourceId → String → Nat → Prop
  /-- Whether a name may be that of a listener, which is capitalized. -/
  listens : String → Prop
  /-- Whether an expression may bind the parameters of a slot at an offset of the template. -/
  binds : Nat → Prop

namespace Permit

/-- A segment that may be written under an effect: text, or what may be mapped to its place, with a plain policy that the effect has
changed. -/
def Admits (P : Permit) (e : Option Effect) : Segment → Prop
  | .text _ => True
  | .mapped t source offset i => P.allows t source offset ∧ ∃ p : Policy, p.isPlain = true ∧ i.policy = Effect.apply e p

variable {P : Permit} {e : Option Effect}

theorem admits_text (t : String) : P.Admits e (.text t) := trivial

/-- What is mapped for navigation only has the same policy under any effect. -/
theorem admits_silent {t : String} {source : SourceId} {offset : Nat} (h : P.allows t source offset) (role : Role) :
    P.Admits e (.mapped t source offset (Info.silent.withRole role)) := ⟨h, .never, rfl, (Effect.apply_never e).symm⟩

end Permit

/-! ## Buffers -/

namespace Code

/-- What is added between two states of a buffer may be written under its effect, which stays in force. -/
structure Extends (P : Permit) (c c' : Code) : Prop where
  segments_eq : ∃ as, c'.segments = c.segments ++ as ∧ ∀ a ∈ as, P.Admits c.effect a
  effect_eq : c'.effect = c.effect

variable {P : Permit} {c c' c'' : Code}

namespace Extends

theorem same (hs : c'.segments = c.segments) (he : c'.effect = c.effect) : Extends P c c' := ⟨⟨[], by simp [hs], by simp⟩, he⟩

theorem refl (c : Code) : Extends P c c := same rfl rfl

theorem trans (h : Extends P c c') (h' : Extends P c' c'') : Extends P c c'' := by
  obtain ⟨as, has, hadmits⟩ := h.segments_eq
  obtain ⟨as', has', hadmits'⟩ := h'.segments_eq
  rw [h.effect_eq] at hadmits'
  refine ⟨⟨as ++ as', by rw [has', has, List.append_assoc], ?_⟩, h'.effect_eq.trans h.effect_eq⟩
  intro a ha
  exact (List.mem_append.1 ha).elim (hadmits a) (hadmits' a)

end Extends

theorem extends_add {s : Segment} (h : P.Admits c.effect s) : Extends P c (c.add s) := by
  refine ⟨⟨[s], rfl, ?_⟩, rfl⟩
  intro a ha
  rw [List.mem_singleton.1 ha]
  exact h

theorem extends_text (c : Code) (t : String) : Extends P c (c.text t) := by
  unfold text
  split
  · exact .refl c
  · exact extends_add (Permit.admits_text t)

theorem extends_mapped {t : String} {source : SourceId} {offset : Nat} {i : Info} (h : P.allows t source offset)
    (hi : i.policy.isPlain = true) : Extends P c (c.mapped t source offset i) := extends_add ⟨h, i.policy, hi, rfl⟩

theorem extends_opened {source : SourceId} {start : Nat} {i : Info} (h : P.allows "" source start) (hi : i.policy.isPlain = true) :
    Extends P c (c.opened source start i).2 := by
  have hopened : Extends P c { c with nextToken := c.nextToken + 1 } := .same rfl rfl
  exact hopened.trans (extends_mapped h hi)

theorem extends_closed {b : Boundary} {stop : Nat} (h : P.allows "" b.source stop) : Extends P c (c.closed b stop) :=
  extends_add (Permit.admits_silent h _)

theorem extends_joined {b : Boundary} {t : String} {offset : Nat} (h : P.allows t b.source offset) :
    Extends P c (c.joined b t offset) := extends_add (Permit.admits_silent h _)

theorem extends_bounded {source : SourceId} {start stop : Nat} {i : Info} (t : String) (hstart : P.allows "" source start)
    (hstop : P.allows "" source stop) (hi : i.policy.isPlain = true) : Extends P c (c.bounded source start stop i t) :=
  (extends_opened hstart hi).trans ((extends_text _ t).trans (extends_closed hstop))

theorem extends_quotedKeyAt {key : String} {source : SourceId} {offset : Nat} {i : Info} (hkey : P.allows key source offset)
    (hstart : P.allows "" source offset) (hstop : P.allows "" source (offset + key.utf8ByteSize)) (hi : i.policy.isPlain = true) :
    Extends P c (c.quotedKeyAt key source offset i) :=
  (extends_opened hstart hi).trans
    ((extends_text _ _).trans ((extends_joined hkey).trans ((extends_text _ _).trans (extends_closed hstop))))

theorem extends_literal {t : String} {source : SourceId} {offset : Nat} {i : Info} (h : P.allows t source offset)
    (hstart : P.allows "" source offset) (hstop : P.allows "" source (offset + t.utf8ByteSize)) (hi : i.policy.isPlain = true) :
    Extends P c (c.literal t source offset i) := by
  unfold literal
  split
  · exact extends_bounded _ hstart hstop hi
  · exact extends_mapped h hi

/-- The parts of a name may be mapped, each to its own place. -/
def PartsAllowed (P : Permit) (name : String) (source : SourceId) (offset : Nat) : Prop :=
  ∀ p ∈ camelParts name, P.allows p.2 source (offset + p.1)

theorem extends_groupParts {source : SourceId} {offset token : Nat} {ps : List (Nat × String)}
    (h : ∀ p ∈ ps, P.allows p.2 source (offset + p.1)) (c : Code) : Extends P c (c.groupParts source offset token ps) := by
  induction ps generalizing c with
  | nil => exact .refl c
  | cons p ps ih =>
    have hp := h p List.mem_cons_self
    cases ps with
    | nil => exact extends_add (Permit.admits_silent hp _)
    | cons q ps =>
      exact (extends_add (Permit.admits_silent hp _)).trans (ih (fun q' hq' => h q' (List.mem_cons_of_mem _ hq')) _)

theorem extends_camelized {name : String} {source : SourceId} {offset : Nat} {i : Info} (h : PartsAllowed P name source offset)
    (hi : i.policy.isPlain = true) : Extends P c (c.camelized name source offset i) := by
  unfold PartsAllowed at h
  unfold camelized
  split
  · exact .refl c
  · rename_i p hp
    exact extends_mapped (h p (by simp [hp])) hi
  · rename_i p ps _ hps
    have hfirst : Extends P { c with nextToken := c.nextToken + 1 }
        ({ c with nextToken := c.nextToken + 1 }.mapped p.2 source (offset + p.1) (i.withRole (.opens c.nextToken))) :=
      extends_mapped (h p (by simp [hps])) hi
    have hrest : ∀ q ∈ ps, P.allows q.2 source (offset + q.1) := fun q hq => h q (by simp [hps, hq])
    have hopened : Extends P c { c with nextToken := c.nextToken + 1 } := .same rfl rfl
    exact hopened.trans (hfirst.trans (extends_groupParts hrest _))

theorem extends_camelizedIn {b : Boundary} {name : String} {offset : Nat} (h : PartsAllowed P name b.source offset) :
    Extends P c (c.camelizedIn b name offset) := by
  unfold PartsAllowed at h
  unfold camelizedIn
  generalize camelParts name = ps at h
  induction ps generalizing c with
  | nil => exact .refl c
  | cons p ps ih =>
    exact (extends_joined (h p List.mem_cons_self)).trans (ih fun q hq => h q (List.mem_cons_of_mem _ hq))

/-- A buffer that was written under the same effect, behind this one. -/
theorem extends_append {other : Code} (h : ∀ a ∈ other.segments, P.Admits c.effect a) : Extends P c (c.append other) :=
  ⟨⟨other.segments, rfl, h⟩, rfl⟩

end Code

namespace Generate

open Markup (Element)

/-! ## States -/

/-- What is noted beside the code stands in the template: the names of outlets and references, and type arguments. -/
structure State.Noted (P : Permit) (s : State) : Prop where
  slots_stand : ∀ o ∈ s.slots, ∀ offset ∈ o.offset, P.stands SourceId.template o.name offset
  refs_stand : ∀ r ∈ s.refs, ∀ t ∈ r.2, P.stands SourceId.template r.1 t.offset
  generics_stand : ∀ f ∈ s.frames, ∀ g ∈ f.generic, P.stands SourceId.template g.content g.offset

/-- A step within one node: code is added that a permit admits, and the frames and the comments stay as they are. -/
structure State.Extends (P : Permit) (s t : State) : Prop where
  code_extends : Code.Extends P s.code t.code
  frames_eq : t.frames = s.frames
  pending_eq : t.pending = s.pending
  nextExpectation_eq : t.nextExpectation = s.nextExpectation

section

variable {P : Permit} {s t u : State}

theorem State.Extends.refl (s : State) : s.Extends P s := ⟨.refl _, rfl, rfl, rfl⟩

theorem State.Extends.trans (h : s.Extends P t) (h' : t.Extends P u) : s.Extends P u :=
  ⟨h.code_extends.trans h'.code_extends, h'.frames_eq.trans h.frames_eq, h'.pending_eq.trans h.pending_eq,
    h'.nextExpectation_eq.trans h.nextExpectation_eq⟩

theorem State.Extends.effect_eq (h : s.Extends P t) : t.code.effect = s.code.effect := h.code_extends.effect_eq

/-- A change of the code alone. -/
theorem State.Extends.ofCode {c : Code} (h : Code.Extends P s.code c) : s.Extends P { s with code := c } := ⟨h, rfl, rfl, rfl⟩

theorem State.Noted.ofCode (h : s.Noted P) (c : Code) : State.Noted P { s with code := c } :=
  ⟨h.slots_stand, h.refs_stand, h.generics_stand⟩

end

/-! ## Generators -/

/-- A generator under the effect `e` makes steps within one node, and answers what has the property `Q`. -/
def Gives {α : Type} (P : Permit) (r : Setting) (e : Option Effect) (g : Gen α) (Q : α → Prop) : Prop :=
  ∀ s : State, s.code.effect = e → s.Noted P → s.Extends P (g.after r s).2 ∧ (g.after r s).2.Noted P ∧ Q (g.after r s).1

/-- A generator of which only the steps matter. -/
abbrev Puts {α : Type} (P : Permit) (r : Setting) (e : Option Effect) (g : Gen α) : Prop := Gives P r e g fun _ => True

section

variable {α β : Type} {P : Permit} {r : Setting} {e : Option Effect} {Q : α → Prop} {Q' : β → Prop}

/-! ### Sequences -/

theorem gives_pure {a : α} (h : Q a) : Gives P r e (pure a : Gen α) Q := fun s _ hs => ⟨.refl s, hs, h⟩

theorem puts_pure (a : α) : Puts P r e (pure a : Gen α) := gives_pure trivial

theorem Gives.bind {g : Gen α} {k : α → Gen β} (hg : Gives P r e g Q) (hk : ∀ a, Q a → Gives P r e (k a) Q') :
    Gives P r e (g >>= k) Q' := by
  intro s he hs
  obtain ⟨hextends, hnoted, hanswer⟩ := hg s he hs
  obtain ⟨hextends', hnoted', hanswer'⟩ := hk _ hanswer (g.after r s).2 (hextends.effect_eq.trans he) hnoted
  exact ⟨hextends.trans hextends', hnoted', hanswer'⟩

/-- A generator whose answer says nothing, and then the rest. -/
theorem Gives.andThen {g : Gen α} {k : α → Gen β} (hg : Puts P r e g) (hk : ∀ a, Gives P r e (k a) Q') : Gives P r e (g >>= k) Q' :=
  .bind hg fun a _ => hk a

theorem Gives.weaken {R : α → Prop} {g : Gen α} (h : Gives P r e g Q) (hQ : ∀ a, Q a → R a) : Gives P r e g R := by
  intro s he hs
  obtain ⟨hextends, hnoted, hanswer⟩ := h s he hs
  exact ⟨hextends, hnoted, hQ _ hanswer⟩

theorem Gives.puts {g : Gen α} (h : Gives P r e g Q) : Puts P r e g := h.weaken fun _ _ => trivial

theorem Gives.ite {c : Prop} [Decidable c] {g g' : Gen α} (h : c → Gives P r e g Q) (h' : ¬c → Gives P r e g' Q) :
    Gives P r e (if c then g else g') Q := by
  by_cases hc : c
  · rw [if_pos hc]
    exact h hc
  · rw [if_neg hc]
    exact h' hc

/-- A generator that only runs on a condition, and the rest behind it. -/
theorem Puts.whenever {c : Prop} [Decidable c] {g : Gen Unit} {k : Unit → Gen β} (hg : Puts P r e g) (hk : Puts P r e (k ())) :
    Puts P r e (if c then g >>= k else k ()) :=
  .ite (fun _ => .andThen hg fun _ => hk) fun _ => hk

theorem puts_forIn {l : List α} {init : β} {f : α → β → Gen (ForInStep β)} (h : ∀ a ∈ l, ∀ b, Puts P r e (f a b)) :
    Puts P r e (forIn l init f) := by
  induction l generalizing init with
  | nil => exact puts_pure init
  | cons a l ih =>
    rw [List.forIn_cons]
    refine .andThen (h a (by simp) init) fun step => ?_
    cases step with
    | done b => exact puts_pure b
    | yield b => exact ih fun a' ha' => h a' (by simp [ha'])

theorem puts_forM {l : List α} {f : α → Gen PUnit} (h : ∀ a ∈ l, Puts P r e (f a)) : Puts P r e (l.forM f) := by
  induction l with
  | nil => exact puts_pure _
  | cons a l ih => exact .andThen (h a (by simp)) fun _ => ih fun a' ha' => h a' (by simp [ha'])

/-! ### The state -/

theorem gives_read : Gives P r e (read : Gen Setting) (· = r) := fun s _ hs => ⟨.refl s, hs, rfl⟩

/-- What the state has noted is known of the state that is asked for. -/
theorem gives_get : Gives P r e (get : Gen State) (State.Noted P) := fun s _ hs => ⟨.refl s, hs, hs⟩

/-- A generator that changes at most what no permit speaks of. -/
theorem puts_of_same {g : Gen α} (h : ∀ s, (g.after r s).2.code = s.code ∧ (g.after r s).2.frames = s.frames ∧
    (g.after r s).2.pending = s.pending ∧ (g.after r s).2.nextExpectation = s.nextExpectation ∧ (g.after r s).2.slots = s.slots ∧
    (g.after r s).2.refs = s.refs) : Puts P r e g := by
  intro s _ hs
  obtain ⟨hcode, hframes, hpending, hnext, hslots, hrefs⟩ := h s
  refine ⟨⟨.same (congrArg _ hcode) (congrArg _ hcode), hframes, hpending, hnext⟩, ⟨?_, ?_, ?_⟩, trivial⟩
  · exact hslots.symm ▸ hs.slots_stand
  · exact hrefs.symm ▸ hs.refs_stand
  · exact hframes.symm ▸ hs.generics_stand

/-! ### Writing -/

theorem puts_onCode {f : Code → Code} (h : ∀ c : Code, c.effect = e → Code.Extends P c (f c)) : Puts P r e (onCode f) :=
  fun s he hs => ⟨.ofCode (h s.code he), hs.ofCode _, trivial⟩

theorem puts_text (t : String) : Puts P r e (text t) := puts_onCode fun c _ => Code.extends_text c t

theorem puts_mapped {t : String} {source : SourceId} {offset : Nat} {i : Info} (h : P.allows t source offset)
    (hi : i.policy.isPlain = true) : Puts P r e (mapped t source offset i) := puts_onCode fun _ _ => Code.extends_mapped h hi

theorem puts_bounded {start stop : Nat} {i : Info} (t : String) (hstart : P.allows "" SourceId.template start)
    (hstop : P.allows "" SourceId.template stop) (hi : i.policy.isPlain = true) : Puts P r e (bounded start stop i t) :=
  puts_onCode fun _ _ => Code.extends_bounded t hstart hstop hi

theorem puts_camelized {name : String} {offset : Nat} {i : Info} (h : Code.PartsAllowed P name SourceId.template offset)
    (hi : i.policy.isPlain = true) : Puts P r e (camelized name offset i) := puts_onCode fun _ _ => Code.extends_camelized h hi

/-- Text, and then the rest. -/
theorem Gives.text {t : String} {k : Unit → Gen β} (hk : Gives P r e (k ()) Q') : Gives P r e (Generate.text t >>= k) Q' :=
  .andThen (puts_text t) fun _ => hk

/-- A group is opened in the template, and then the rest. -/
theorem Gives.openAt {start : Nat} {i : Info} {k : Boundary → Gen β} (hstart : P.allows "" SourceId.template start)
    (hi : i.policy.isPlain = true) (hk : ∀ b, b.source = SourceId.template → Gives P r e (k b) Q') :
    Gives P r e (Generate.openAt start i >>= k) Q' :=
  .bind (Q := fun b => b.source = SourceId.template)
    (fun _ _ hs => ⟨.ofCode (Code.extends_opened hstart hi), hs.ofCode _, rfl⟩) hk

theorem puts_close {b : Boundary} {stop : Nat} (hb : b.source = SourceId.template) (h : P.allows "" SourceId.template stop) :
    Puts P r e (close b stop) := puts_onCode fun _ _ => Code.extends_closed (hb.symm ▸ h)

/-- A generator on a buffer of its own, whose segments are handed on with its answer. -/
theorem Gives.captured {g : Gen α} {k : Code × α → Gen β} (hg : Gives P r e g Q)
    (hk : ∀ c a, (∀ x ∈ c.segments, P.Admits e x) → Q a → Gives P r e (k (c, a)) Q') : Gives P r e (Generate.captured g >>= k) Q' := by
  intro s he hs
  obtain ⟨hextends, hnoted, hanswer⟩ := hg { s with code := s.code.continueFrom } he (hs.ofCode _)
  rw [after_captured_bind]
  generalize g.after r { s with code := s.code.continueFrom } = x at hextends hnoted hanswer
  obtain ⟨as, has, hadmits⟩ := hextends.code_extends.segments_eq
  have hinner : x.2.code.segments = as := by simpa [Code.continueFrom] using has
  have hcode : ∀ a ∈ x.2.code.segments, P.Admits e a := by
    intro a ha
    rw [← he]
    exact hadmits a (hinner ▸ ha)
  obtain ⟨hextends', hrest⟩ := hk x.2.code x.1 hcode hanswer { x.2 with code := s.code.absorbTokens x.2.code } he (hnoted.ofCode _)
  have habsorb : s.Extends P { x.2 with code := s.code.absorbTokens x.2.code } :=
    ⟨.same rfl rfl, hextends.frames_eq, hextends.pending_eq, hextends.nextExpectation_eq⟩
  exact ⟨habsorb.trans hextends', hrest⟩

end

/-! ## Generators around others -/

/-- A generator around another one: it makes steps before the inner one begins and behind it, whatever the inner one does. -/
def Surrounds {α : Type} (P : Permit) (r : Setting) (e : Option Effect) (c : Gen Unit → Gen α) : Prop :=
  ∀ s : State, s.code.effect = e → s.Noted P → ∃ (s₁ : State) (behind : State → α × State),
    s.Extends P s₁ ∧ s₁.Noted P ∧ (∀ t, t.Noted P → t.Extends P (behind t).2 ∧ (behind t).2.Noted P) ∧
    ∀ inner : Gen Unit, (c inner).after r s = behind (inner.after r s₁).2

section

variable {α β : Type} {P : Permit} {r : Setting} {e : Option Effect} {Q : α → Prop}

theorem surrounds_inner : Surrounds P r e fun inner => inner :=
  fun s _ hs => ⟨s, fun t => ((), t), .refl s, hs, fun t ht => ⟨.refl t, ht⟩, fun _ => rfl⟩

/-- A generator before the one around. -/
theorem Surrounds.bind {g : Gen α} {c : α → Gen Unit → Gen β} (hg : Gives P r e g Q) (hc : ∀ a, Q a → Surrounds P r e (c a)) :
    Surrounds P r e fun inner => g >>= fun a => c a inner := by
  intro s he hs
  obtain ⟨hextends, hnoted, hanswer⟩ := hg s he hs
  obtain ⟨s₁, behind, hextends₁, hnoted₁, hbehind, heq⟩ := hc _ hanswer (g.after r s).2 (hextends.effect_eq.trans he) hnoted
  exact ⟨s₁, behind, hextends.trans hextends₁, hnoted₁, hbehind, heq⟩

theorem Surrounds.andThen {g : Gen α} {c : α → Gen Unit → Gen β} (hg : Puts P r e g) (hc : ∀ a, Surrounds P r e (c a)) :
    Surrounds P r e fun inner => g >>= fun a => c a inner := .bind hg fun a _ => hc a

/-- A generator behind the one around. -/
theorem Surrounds.before {c : Gen Unit → Gen α} {k : α → Gen β} (hc : Surrounds P r e c) (hk : ∀ a e, Puts P r e (k a)) :
    Surrounds P r e fun inner => c inner >>= k := by
  intro s he hs
  obtain ⟨s₁, behind, hextends, hnoted, hbehind, heq⟩ := hc s he hs
  refine ⟨s₁, fun t => (k (behind t).1).after r (behind t).2, hextends, hnoted, fun t ht => ?_, fun inner => ?_⟩
  · obtain ⟨hextends', hnoted'⟩ := hbehind t ht
    obtain ⟨hextends'', hnoted'', -⟩ := hk (behind t).1 _ (behind t).2 rfl hnoted'
    exact ⟨hextends'.trans hextends'', hnoted''⟩
  · show (k ((c inner).after r s).1).after r ((c inner).after r s).2 = _
    rw [heq inner]

theorem Surrounds.ite {p : Prop} [Decidable p] {c c' : Gen Unit → Gen α} (h : p → Surrounds P r e c) (h' : ¬p → Surrounds P r e c') :
    Surrounds P r e fun inner => if p then c inner else c' inner := by
  by_cases hp : p
  · simp only [if_pos hp]
    exact h hp
  · simp only [if_neg hp]
    exact h' hp

/-- A generator that only runs on a condition, before the one around. -/
theorem Surrounds.whenever {p : Prop} [Decidable p] {g : Gen Unit} {c : Gen Unit → Gen α} (hg : Puts P r e g)
    (hc : Surrounds P r e c) : Surrounds P r e fun inner => if p then g >>= fun _ => c inner else c inner :=
  .ite (fun _ => .andThen hg fun _ => hc) fun _ => hc

theorem Surrounds.text {t : String} {c : Gen Unit → Gen β} (hc : Surrounds P r e c) :
    Surrounds P r e fun inner => Generate.text t >>= fun _ => c inner := .andThen (puts_text t) fun _ => hc

/-- A generator on a buffer of its own, before the one around. -/
theorem Surrounds.captured {g : Gen α} {c : Code × α → Gen Unit → Gen β} (hg : Gives P r e g Q)
    (hc : ∀ b a, (∀ x ∈ b.segments, P.Admits e x) → Q a → Surrounds P r e (c (b, a))) :
    Surrounds P r e fun inner => Generate.captured g >>= fun x => c x inner := by
  refine .bind (Q := fun x => (∀ y ∈ x.1.segments, P.Admits e y) ∧ Q x.2) ?_ fun x hx => hc x.1 x.2 hx.1 hx.2
  have hcaptured := Gives.captured (k := pure) hg fun b a hb ha =>
    gives_pure (Q := fun x : Code × α => (∀ y ∈ x.1.segments, P.Admits e y) ∧ Q x.2) ⟨hb, ha⟩
  rwa [bind_pure] at hcaptured

/-- A generator around a generator that is around another one. -/
theorem Surrounds.comp {c : Gen Unit → Gen α} {c' : Gen Unit → Gen Unit} (hc : Surrounds P r e c) (hc' : Surrounds P r e c') :
    Surrounds P r e fun inner => c (c' inner) := by
  intro s he hs
  obtain ⟨s₁, behind, hextends, hnoted, hbehind, heq⟩ := hc s he hs
  obtain ⟨s₂, behind', hextends', hnoted', hbehind', heq'⟩ := hc' s₁ (hextends.effect_eq.trans he) hnoted
  refine ⟨s₂, fun t => behind (behind' t).2, hextends.trans hextends', hnoted', fun t ht => ?_, fun inner => ?_⟩
  · obtain ⟨hfirst, hnoted₁⟩ := hbehind' t ht
    obtain ⟨hsecond, hnoted₂⟩ := hbehind (behind' t).2 hnoted₁
    exact ⟨hfirst.trans hsecond, hnoted₂⟩
  · rw [heq, heq']

/-- With an inner generator that makes steps within one node, the whole does. -/
theorem Surrounds.puts {c : Gen Unit → Gen α} {inner : Gen Unit} (hc : Surrounds P r e c) (hinner : Puts P r e inner) :
    Puts P r e (c inner) := by
  intro s he hs
  obtain ⟨s₁, behind, hextends, hnoted, hbehind, heq⟩ := hc s he hs
  obtain ⟨hextends', hnoted', -⟩ := hinner s₁ (hextends.effect_eq.trans he) hnoted
  obtain ⟨hextends'', hnoted''⟩ := hbehind _ hnoted'
  rw [heq inner]
  exact ⟨hextends.trans (hextends'.trans hextends''), hnoted'', trivial⟩

end

end Generate

end TypedSfc
