import TypedSfc.Generate.Context
import TypedSfc.Proofs.Generate.Buffers

/-!
# What a generator closes

A generator closes some groups when, from any state in which they are held, what it writes closes them and brings whole groups besides.
One that closes none can stand before any other. There is one rule for each way in which generators are put together, and the rules for
what opens, joins and closes a group are stated for a generator with the rest behind it, so that they follow the code from its start.
-/

namespace TypedSfc

namespace Generate

/-- What a generator answers, and the state behind it. -/
def Gen.after {α : Type} (g : Gen α) (r : Setting) (s : State) : α × State := (g.run r).run s

/-- A generator for a document with `n` styles closes the groups `bs`, and writes the segments `kept` at most once. -/
def Closes {α : Type} (n : Nat) (bs : List Boundary) (kept : List Segment) (g : Gen α) : Prop :=
  ∀ r s, Code.Adds (4 + n) bs kept s.code (g.after r s).2.code

/-- A generator that leaves open groups as they are. -/
abbrev Keeps {α : Type} (n : Nat) (g : Gen α) : Prop := Closes n [] [] g

section

variable {α β : Type} {n : Nat} {bs : List Boundary} {kept : List Segment}

/-! ## Sequences -/

theorem closes_pure (a : α) : Closes n [] kept (pure a : Gen α) := fun _ s => .refl s.code

/-- A generator that leaves open groups as they are, and then the rest. -/
theorem Closes.bind {g : Gen α} {k : α → Gen β} (hg : Keeps n g) (hk : ∀ a, Closes n bs kept (k a)) : Closes n bs kept (g >>= k) :=
  fun r s => .andThen (hg r s) (hk (g.after r s).1 r (g.after r s).2)

/-- A generator that does all that is to be done, and then one that leaves it so. -/
theorem Closes.before {g : Gen α} {k : α → Gen β} (hg : Closes n bs kept g) (hk : ∀ a, Keeps n (k a)) :
    Closes n bs kept (g >>= k) :=
  fun r s => .before (hg r s) (hk (g.after r s).1 r (g.after r s).2)

theorem Closes.ite {c : Prop} [Decidable c] {g g' : Gen α} (h : c → Closes n bs kept g) (h' : ¬c → Closes n bs kept g') :
    Closes n bs kept (if c then g else g') := by
  by_cases hc : c
  · rw [if_pos hc]
    exact h hc
  · rw [if_neg hc]
    exact h' hc

/-- A generator that only runs on a condition, and the rest behind it. -/
theorem Closes.whenever {c : Prop} [Decidable c] {g : Gen Unit} {k : Unit → Gen β} (hg : Keeps n g)
    (hk : Closes n bs kept (k ())) : Closes n bs kept (if c then g >>= k else k ()) :=
  .ite (fun _ => .bind hg fun _ => hk) fun _ => hk

theorem keeps_forIn {l : List α} {init : β} {f : α → β → Gen (ForInStep β)} (h : ∀ a ∈ l, ∀ b, Keeps n (f a b)) :
    Keeps n (forIn l init f) := by
  induction l generalizing init with
  | nil => exact closes_pure init
  | cons a l ih =>
    rw [List.forIn_cons]
    refine .bind (h a (by simp) init) fun step => ?_
    cases step with
    | done b => exact closes_pure b
    | yield b => exact ih fun a' ha' => h a' (by simp [ha'])

theorem keeps_forM {l : List α} {f : α → Gen PUnit} (h : ∀ a ∈ l, Keeps n (f a)) : Keeps n (l.forM f) := by
  induction l with
  | nil => exact closes_pure _
  | cons a l ih =>
    exact .bind (h a (by simp)) fun _ => ih fun a' ha' => h a' (by simp [ha'])

/-! ## The state -/

theorem keeps_read : Keeps n (read : Gen Setting) := fun _ s => .refl s.code

theorem keeps_get : Keeps n (get : Gen State) := fun _ s => .refl s.code

/-- A generator that first asks for the state is the rest at the state. -/
theorem after_get_bind (k : State → Gen α) (r : Setting) (s : State) : (get >>= k).after r s = (k s).after r s := rfl

theorem after_modify (f : State → State) (r : Setting) (s : State) : (modify f : Gen Unit).after r s = ((), f s) := rfl

/-- Outside any scope nothing is declared. -/
theorem after_declare_nil (names : List String) (r : Setting) {s : State} (h : s.scopes = []) :
    (declare names).after r s = ((), s) := by
  rw [declare, after_modify, h]

theorem after_declare_cons (names : List String) (r : Setting) {s : State} {scope : List String} {outer : List (List String)}
    (h : s.scopes = scope :: outer) : (declare names).after r s = ((), { s with scopes := (names ++ scope) :: outer }) := by
  rw [declare, after_modify, h]

/-- A change of what is noted, and not of the code. -/
theorem keeps_modify {f : State → State} (h : ∀ s, (f s).code = s.code) : Keeps n (modify f : Gen PUnit) := by
  intro r s
  have hs : ((modify f : Gen PUnit).after r s).2.code = s.code := h s
  rw [hs]
  exact .refl s.code

/-- A generator that answers from the state, and does not write. -/
theorem keeps_of_same {g : Gen α} (h : ∀ r s, (g.after r s).2.code = s.code) : Keeps n g := by
  intro r s
  rw [h r s]
  exact .refl s.code

/-! ## Writing -/

theorem keeps_onCode {f : Code → Code} (h : ∀ c, Code.Adds (4 + n) [] [] c (f c)) : Keeps n (onCode f) := fun _ s => h s.code

theorem template_lt (n : Nat) : SourceId.template < 4 + n := Nat.lt_of_lt_of_le (by decide : 1 < 4) (Nat.le_add_right 4 n)

theorem keeps_text (t : String) : Keeps n (text t) := keeps_onCode fun c => Code.adds_text c t

theorem keeps_mapped (t : String) {source : SourceId} (hs : source < 4 + n) (offset : Nat) {i : Info} (hi : i.role = none) :
    Keeps n (mapped t source offset i) :=
  keeps_onCode fun c => Code.adds_mapped c t hs offset hi

theorem keeps_bounded (start stop : Nat) (i : Info) (t : String) : Keeps n (bounded start stop i t) :=
  keeps_onCode fun c => Code.adds_bounded c (template_lt n) start stop i t

theorem keeps_camelized (name : String) (offset : Nat) {i : Info} (hi : i.role = none) : Keeps n (camelized name offset i) :=
  keeps_onCode fun c => Code.adds_camelized c name (template_lt n) offset hi

theorem keeps_quotedKey (key : String) (offset : Nat) (i : Info) : Keeps n (quotedKey key offset i) :=
  keeps_onCode fun c => Code.adds_quotedKeyAt c key (template_lt n) offset i

/-- Text, and then the rest. -/
theorem Closes.text {t : String} {k : Unit → Gen β} (hk : Closes n bs kept (k ())) : Closes n bs kept (Generate.text t >>= k) :=
  .bind (keeps_text t) fun _ => hk

/-! ## Groups -/

/-- A group is opened, and the rest closes it. -/
theorem Closes.openAt {start : Nat} {i : Info} {k : Boundary → Gen β} (hk : ∀ b, Closes n (b :: bs) kept (k b)) :
    Closes n bs kept (Generate.openAt start i >>= k) :=
  fun r s => .opened (template_lt n) (hk _ r { s with code := (s.code.opened SourceId.template start i).2 })

/-- A group is closed, and the rest does not hold it. -/
theorem Closes.close {b : Boundary} {stop : Nat} {k : Unit → Gen β} (hk : Closes n bs kept (k ())) :
    Closes n (b :: bs) kept (Generate.close b stop >>= k) :=
  fun r s => .closed (hk r { s with code := s.code.closed b stop })

theorem closes_close (b : Boundary) (stop : Nat) : Closes n [b] [] (close b stop) := fun _ s => .closed (.refl (s.code.closed b stop))

/-- Text that joins a group, and then the rest. -/
theorem Closes.joined {b : Boundary} (hb : b ∈ bs) {t : String} {offset : Nat} {k : Unit → Gen β} (hk : Closes n bs kept (k ())) :
    Closes n bs kept (onCode (·.joined b t offset) >>= k) :=
  fun r s => .joined hb (hk r { s with code := s.code.joined b t offset })

/-- A name whose parts join a group, and then the rest. -/
theorem Closes.camelizedIn {b : Boundary} (hb : b ∈ bs) {name : String} {offset : Nat} {k : Unit → Gen β}
    (hk : Closes n bs kept (k ())) : Closes n bs kept (onCode (·.camelizedIn b name offset) >>= k) :=
  fun r s => .camelizedIn hb (hk r { s with code := s.code.camelizedIn b name offset })

/-! ## Buffers -/

/-- The code that is held is written, and then the rest. -/
theorem Closes.append {c : Code} {k : Unit → Gen β} (hk : Closes n bs [] (k ())) :
    Closes n bs c.segments (onCode (·.append c) >>= k) :=
  fun r s => .append (hk r { s with code := s.code.append c })

/-- A generator on a buffer of its own, and what runs behind it. -/
theorem after_captured_bind (g : Gen α) (k : Code × α → Gen β) (r : Setting) (s : State) :
    (captured g >>= k).after r s =
      let x := g.after r { s with code := s.code.continueFrom }
      (k (x.2.code, x.1)).after r { x.2 with code := s.code.absorbTokens x.2.code } := rfl

/-- What a generator writes into a buffer of its own is held by the rest. -/
theorem Closes.captured {g : Gen α} {k : Code × α → Gen β} (hg : Keeps n g) (hk : ∀ c a, Closes n bs c.segments (k (c, a))) :
    Closes n bs [] (Generate.captured g >>= k) := by
  intro r s hheld
  obtain ⟨as, has, ha⟩ := hg r { s with code := s.code.continueFrom } (.nil _ _)
  rw [after_captured_bind]
  generalize g.after r { s with code := s.code.continueFrom } = x at has ha
  have hinner : x.2.code.segments = as := by simpa [Code.continueFrom] using has
  have hnext : (s.code.absorbTokens x.2.code).nextToken = x.2.code.nextToken := Nat.max_eq_right ha.le
  have hrest := hk x.2.code x.1 r { x.2 with code := s.code.absorbTokens x.2.code }
  unfold Code.Adds at hrest
  simp only [hnext, hinner] at hrest
  obtain ⟨ss, hss, hw⟩ := hrest (hheld.keep ha)
  exact ⟨ss, hss, hw.release hheld ha⟩

/-! ## Generators without groups -/

/-- A generator writes segments of known sources that are in no group, and takes no token. -/
def Plain (n : Nat) (g : Gen α) : Prop := ∀ r s, Code.AddsPlain (4 + n) s.code (g.after r s).2.code

theorem Plain.keeps {g : Gen α} (h : Plain n g) : Keeps n g := fun r s => (h r s).adds

theorem plain_pure (a : α) : Plain n (pure a : Gen α) := fun _ _ => .same rfl rfl

theorem plain_read : Plain n (read : Gen Setting) := fun _ _ => .same rfl rfl

theorem plain_get : Plain n (get : Gen State) := fun _ _ => .same rfl rfl

theorem plain_checkCut (start stop : Nat) (cs : List Char) : Plain n (checkCut start stop cs) := fun _ _ => .same rfl rfl

theorem plain_access (name : String) : Plain n (access name) := fun _ _ => .same rfl rfl

theorem plain_text (t : String) : Plain n (text t) := fun _ s => Code.addsPlain_text s.code t

theorem plain_mapped (t : String) {source : SourceId} (hs : source < 4 + n) (offset : Nat) {i : Info} (hi : i.role = none) :
    Plain n (mapped t source offset i) :=
  fun _ s => Code.addsPlain_mapped s.code t hs offset hi

theorem Plain.bind {g : Gen α} {k : α → Gen β} (hg : Plain n g) (hk : ∀ a, Plain n (k a)) : Plain n (g >>= k) :=
  fun r s => (hg r s).trans (hk (g.after r s).1 r (g.after r s).2)

theorem Plain.ite {c : Prop} [Decidable c] {g g' : Gen α} (h : Plain n g) (h' : Plain n g') : Plain n (if c then g else g') := by
  by_cases hc : c
  · rw [if_pos hc]
    exact h
  · rw [if_neg hc]
    exact h'

/-- What a generator without groups writes into a buffer of its own is in no group. -/
theorem Closes.capturedPlain {g : Gen α} {k : Code × α → Gen β} (hg : Plain n g)
    (hk : ∀ c a, Ungrouped (4 + n) c.segments → Closes n bs [] (k (c, a))) : Closes n bs [] (Generate.captured g >>= k) := by
  intro r s
  obtain ⟨as, ha, has, ht⟩ := hg r { s with code := s.code.continueFrom }
  rw [after_captured_bind]
  generalize g.after r { s with code := s.code.continueFrom } = x at has ht
  have hinner : x.2.code.segments = as := by simpa [Code.continueFrom] using has
  have hrest := hk x.2.code x.1 (hinner ▸ ha) r { x.2 with code := s.code.absorbTokens x.2.code }
  have habsorb : Code.Adds (4 + n) [] [] s.code (s.code.absorbTokens x.2.code) := .same rfl (Nat.le_max_left ..)
  exact habsorb.andThen hrest

end

end Generate

end TypedSfc
