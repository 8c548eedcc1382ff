import TypedSfc.Proofs.Generate.Uses

/-!
# How uses are written

A generator leads from one point of a template to another when it writes some uses on its way, each as it is resolved in its own scopes,
and notes the members that they read. The scopes of the state are those of the point, so that what is pushed and popped in the state is
what is passed down in the tree. What is written into a buffer of its own is noted at once and held until the buffer is written.
-/

namespace TypedSfc

namespace Generate

/-! ## Woven uses -/

section

variable {r : Setting} {us vs : List Use} {as ss : List Segment}

theorem Woven.behind (h : Woven r us ss) (as : List Segment) : Woven r us (as ++ ss) := by
  induction as with
  | nil => exact h
  | cons a as ih => exact .own a ih

theorem woven_nil (ss : List Segment) : Woven r [] ss := by
  have h := (Woven.nil (r := r)).behind ss
  rwa [List.append_nil] at h

theorem Woven.append (h : Woven r us as) (h' : Woven r vs ss) : Woven r (us ++ vs) (as ++ ss) := by
  induction h with
  | nil => exact h'
  | own a _ ih => exact .own a ih
  | use hmakes _ ih =>
    rw [List.append_assoc]
    exact .use hmakes ih

theorem Woven.single {u : Use} (h : u.Makes r ss) : Woven r [u] ss := by
  have hsingle := Woven.use h .nil
  rwa [List.append_nil] at hsingle

/-- Each of some uses that are woven into segments is written among them. -/
theorem Woven.exists_makes (h : Woven r us ss) {u : Use} (hu : u ∈ us) : ∃ as, u.Makes r as ∧ as <:+: ss := by
  induction h with
  | nil => cases hu
  | own a _ ih =>
    obtain ⟨as, hmakes, hinfix⟩ := ih hu
    exact ⟨as, hmakes, hinfix.trans (List.suffix_cons a _).isInfix⟩
  | @use v bs vs ts hmakes _ ih =>
    rcases List.mem_cons.1 hu with rfl | hu
    · exact ⟨bs, hmakes, (List.prefix_append bs ts).isInfix⟩
    · obtain ⟨as, hmakes', hinfix⟩ := ih hu
      exact ⟨as, hmakes', hinfix.trans (List.suffix_append bs ts).isInfix⟩

theorem addReads_append (names ms ns : List String) : addReads names (ms ++ ns) = addReads (addReads names ms) ns := List.foldl_append

end

/-! ## Notes -/

/-- A generator that runs in some scopes leaves scopes, components and waiting comments as they are, and notes some members, and whether
a text is cut where no character starts. -/
def Notes {α : Type} (r : Setting) (scopes : List (List String)) (g : Gen α) (names : List String) (cuts : Bool) : Prop :=
  ∀ s : State, s.scopes = scopes → (g.after r s).2.scopes = scopes ∧ (g.after r s).2.components.length = s.components.length ∧
    (g.after r s).2.pending = s.pending ∧ (g.after r s).2.accessed = addReads s.accessed names ∧ (g.after r s).2.isCut = (cuts || s.isCut)

/-- A generator that reads nothing: it writes code of its own, and changes nothing that the uses depend on. -/
def Quiet {α : Type} (r : Setting) (g : Gen α) : Prop :=
  (∀ scopes, Notes r scopes g [] false) ∧ ∀ s : State, s.code.segments <+: (g.after r s).2.code.segments

section

variable {α β : Type} {r : Setting} {scopes : List (List String)} {names more : List String} {cuts cuts' : Bool}

theorem Notes.bind {g : Gen α} {k : α → Gen β} (hg : Notes r scopes g names cuts) (hk : ∀ a, Notes r scopes (k a) more cuts') :
    Notes r scopes (g >>= k) (names ++ more) (cuts' || cuts) := by
  intro s hs
  obtain ⟨hscopes, hcomponents, hpending, haccessed, hcuts⟩ := hg s hs
  obtain ⟨hscopes', hcomponents', hpending', haccessed', hcuts'⟩ := hk (g.after r s).1 (g.after r s).2 hscopes
  refine ⟨hscopes', hcomponents'.trans hcomponents, hpending'.trans hpending, ?_, ?_⟩
  · rw [addReads_append, ← haccessed]
    exact haccessed'
  · rw [Bool.or_assoc, ← hcuts]
    exact hcuts'

/-- A generator that reads nothing, and then the rest. -/
theorem Notes.quiet {g : Gen α} {k : α → Gen β} (hg : Quiet r g) (hk : ∀ a, Notes r scopes (k a) names cuts) :
    Notes r scopes (g >>= k) names cuts := by
  have hbind := (hg.1 scopes).bind hk
  rwa [Bool.or_false] at hbind

theorem Notes.read {k : Setting → Gen β} (hk : Notes r scopes (k r) names cuts) : Notes r scopes (read >>= k) names cuts := hk

theorem Notes.get {k : State → Gen β} (hk : ∀ s : State, s.scopes = scopes → Notes r scopes (k s) names cuts) :
    Notes r scopes (get >>= k) names cuts := fun s hs => hk s hs s hs

theorem notes_access (name : String) : Notes r scopes (access name) [name] false := fun _ hs => ⟨hs, rfl, rfl, rfl, rfl⟩

theorem notes_checkCut (start stop : Nat) (cs : List Char) :
    Notes r scopes (checkCut start stop cs) [] (Text.slice start stop cs).isNone := fun _ hs => ⟨hs, rfl, rfl, rfl, rfl⟩

/-! ### Generators that read nothing -/

theorem quiet_pure (a : α) : Quiet r (pure a : Gen α) := ⟨fun _ _ hs => ⟨hs, rfl, rfl, rfl, rfl⟩, fun _ => List.prefix_refl _⟩

theorem Quiet.bind {g : Gen α} {k : α → Gen β} (hg : Quiet r g) (hk : ∀ a, Quiet r (k a)) : Quiet r (g >>= k) :=
  ⟨fun scopes => .quiet hg fun a => (hk a).1 scopes, fun s => (hg.2 s).trans ((hk (g.after r s).1).2 (g.after r s).2)⟩

theorem Quiet.ite {c : Prop} [Decidable c] {g g' : Gen α} (h : Quiet r g) (h' : Quiet r g') : Quiet r (if c then g else g') := by
  split
  · exact h
  · exact h'

/-- A generator that only runs on a condition, and the rest behind it. -/
theorem Quiet.whenever {c : Prop} [Decidable c] {g : Gen Unit} {k : Unit → Gen β} (hg : Quiet r g) (hk : Quiet r (k ())) :
    Quiet r (if c then g >>= k else k ()) := .ite (.bind hg fun _ => hk) hk

theorem quiet_forIn {l : List α} {init : β} {f : α → β → Gen (ForInStep β)} (h : ∀ a ∈ l, ∀ b, Quiet r (f a b)) :
    Quiet r (forIn l init f) := by
  induction l generalizing init with
  | nil => exact quiet_pure init
  | cons a l ih =>
    rw [List.forIn_cons]
    refine .bind (h a List.mem_cons_self init) fun step => ?_
    cases step with
    | done b => exact quiet_pure b
    | yield b => exact ih fun a' ha' => h a' (List.mem_cons_of_mem _ ha')

theorem quiet_forM {l : List α} {f : α → Gen PUnit} (h : ∀ a ∈ l, Quiet r (f a)) : Quiet r (l.forM f) := by
  induction l with
  | nil => exact quiet_pure _
  | cons a l ih => exact .bind (h a List.mem_cons_self) fun _ => ih fun a' ha' => h a' (List.mem_cons_of_mem a ha')

/-- A change of the code that adds to it. -/
theorem quiet_onCode {f : Code → Code} (h : ∀ c : Code, c.segments <+: (f c).segments) : Quiet r (onCode f) :=
  ⟨fun _ _ hs => ⟨hs, rfl, rfl, rfl, rfl⟩, fun s => h s.code⟩

/-- A change of what is noted that no use depends on. -/
theorem quiet_of_same {g : Gen α} (h : ∀ s : State, (g.after r s).2.scopes = s.scopes ∧ (g.after r s).2.components.length =
      s.components.length ∧ (g.after r s).2.pending = s.pending ∧ (g.after r s).2.accessed = s.accessed ∧
      (g.after r s).2.isCut = s.isCut ∧ (g.after r s).2.code = s.code) : Quiet r g := by
  refine ⟨fun _ s hs => ?_, fun s => ?_⟩
  · obtain ⟨hscopes, hcomponents, hpending, haccessed, hcuts, -⟩ := h s
    exact ⟨hscopes.trans hs, hcomponents, hpending, haccessed, hcuts⟩
  · exact ⟨[], by rw [(h s).2.2.2.2.2, List.append_nil]⟩

theorem quiet_read : Quiet r (read : Gen Setting) := quiet_of_same fun _ => ⟨rfl, rfl, rfl, rfl, rfl, rfl⟩

theorem quiet_get : Quiet r (get : Gen State) := quiet_of_same fun _ => ⟨rfl, rfl, rfl, rfl, rfl, rfl⟩

end

/-! ### Code of its own -/

end Generate

namespace Code

variable (c : Code)

theorem prefix_add (s : Segment) : c.segments <+: (c.add s).segments := List.prefix_append _ _

theorem prefix_text (t : String) : c.segments <+: (c.text t).segments := by
  unfold text
  split
  · exact List.prefix_refl _
  · exact c.prefix_add _

theorem prefix_mapped (t : String) (source : SourceId) (offset : Nat) (i : Info) :
    c.segments <+: (c.mapped t source offset i).segments := c.prefix_add _

theorem prefix_opened (source : SourceId) (start : Nat) (i : Info) : c.segments <+: (c.opened source start i).2.segments :=
  prefix_mapped { c with nextToken := c.nextToken + 1 } _ _ _ _

theorem prefix_closed (b : Boundary) (stop : Nat) : c.segments <+: (c.closed b stop).segments := c.prefix_add _

theorem prefix_joined (b : Boundary) (t : String) (offset : Nat) : c.segments <+: (c.joined b t offset).segments := c.prefix_add _

theorem prefix_bounded (source : SourceId) (start stop : Nat) (i : Info) (t : String) :
    c.segments <+: (c.bounded source start stop i t).segments :=
  (c.prefix_opened source start i).trans ((prefix_text _ t).trans (prefix_closed _ _ stop))

theorem prefix_quotedKeyAt (key : String) (source : SourceId) (offset : Nat) (i : Info) :
    c.segments <+: (c.quotedKeyAt key source offset i).segments :=
  (c.prefix_opened source offset i).trans
    ((prefix_text _ _).trans ((prefix_joined _ _ _ _).trans ((prefix_text _ _).trans (prefix_closed _ _ _))))

theorem prefix_literal (t : String) (source : SourceId) (offset : Nat) (i : Info) :
    c.segments <+: (c.literal t source offset i).segments := by
  unfold literal
  split
  · exact c.prefix_bounded _ _ _ _ _
  · exact c.prefix_mapped _ _ _ _

theorem prefix_groupParts (source : SourceId) (offset token : Nat) (ps : List (Nat × String)) :
    c.segments <+: (c.groupParts source offset token ps).segments := by
  induction ps generalizing c with
  | nil => exact List.prefix_refl _
  | cons p ps ih =>
    cases ps with
    | nil => exact c.prefix_add _
    | cons q ps => exact (c.prefix_add _).trans (ih _)

theorem prefix_camelized (name : String) (source : SourceId) (offset : Nat) (i : Info) :
    c.segments <+: (c.camelized name source offset i).segments := by
  unfold camelized
  split
  · exact List.prefix_refl _
  · exact c.prefix_mapped _ _ _ _
  · extract_lets token
    exact (prefix_mapped { c with nextToken := token + 1 } _ _ _ _).trans (prefix_groupParts _ _ _ _ _)

theorem prefix_camelizedIn (b : Boundary) (name : String) (offset : Nat) : c.segments <+: (c.camelizedIn b name offset).segments := by
  unfold camelizedIn
  generalize camelParts name = ps
  induction ps generalizing c with
  | nil => exact List.prefix_refl _
  | cons p ps ih => exact (c.prefix_joined _ _ _).trans (ih _)

end Code

namespace Generate

open Script (Reference)

section

variable {r : Setting}

theorem quiet_text (t : String) : Quiet r (text t) := quiet_onCode fun c => c.prefix_text t

theorem quiet_mapped (t : String) (source : SourceId) (offset : Nat) (i : Info) : Quiet r (mapped t source offset i) :=
  quiet_onCode fun _ => List.prefix_append _ _

theorem quiet_openAt (start : Nat) (i : Info) : Quiet r (openAt start i) :=
  ⟨fun _ _ hs => ⟨hs, rfl, rfl, rfl, rfl⟩, fun _ => List.prefix_append _ _⟩

theorem quiet_close (b : Boundary) (stop : Nat) : Quiet r (close b stop) := quiet_onCode fun _ => List.prefix_append _ _

theorem quiet_bounded (start stop : Nat) (i : Info) (t : String) : Quiet r (bounded start stop i t) :=
  quiet_onCode fun c => c.prefix_bounded _ _ _ _ _

theorem quiet_camelized (name : String) (offset : Nat) (i : Info) : Quiet r (camelized name offset i) :=
  quiet_onCode fun c => c.prefix_camelized _ _ _ _

theorem quiet_quotedKey (key : String) (offset : Nat) (i : Info) : Quiet r (quotedKey key offset i) :=
  quiet_onCode fun c => c.prefix_quotedKeyAt _ _ _ _

theorem quiet_joined (b : Boundary) (t : String) (offset : Nat) : Quiet r (onCode (·.joined b t offset)) :=
  quiet_onCode fun _ => List.prefix_append _ _

theorem quiet_camelizedIn (b : Boundary) (name : String) (offset : Nat) : Quiet r (onCode (·.camelizedIn b name offset)) :=
  quiet_onCode fun c => c.prefix_camelizedIn _ _ _

theorem quiet_fresh : Quiet r fresh := quiet_of_same fun _ => ⟨rfl, rfl, rfl, rfl, rfl, rfl⟩

theorem quiet_hoist (name : String) : Quiet r (hoist name) := by
  refine .bind quiet_get fun s => ?_
  split
  · exact quiet_pure _
  · exact .bind quiet_fresh fun _ => .bind (quiet_of_same fun _ => ⟨rfl, rfl, rfl, rfl, rfl, rfl⟩) fun _ => quiet_pure _

theorem quiet_noteRef (name type : String) (offset : Nat) : Quiet r (noteRef name type offset) :=
  quiet_of_same fun _ => ⟨rfl, rfl, rfl, rfl, rfl, rfl⟩

theorem quiet_noteType (name : String) : Quiet r (noteType name) := quiet_of_same fun _ => ⟨rfl, rfl, rfl, rfl, rfl, rfl⟩

theorem quiet_writeGuards : Quiet r writeGuards :=
  .bind quiet_get fun _ => .bind (quiet_forIn fun _ _ _ => .bind (quiet_text _) fun _ => quiet_pure _) fun _ => quiet_pure _

/-- Marking the innermost component leaves as many components open. -/
theorem quiet_ofComponent (mark : ComponentScope → ComponentScope) (f : ComponentScope → String) : Quiet r (ofComponent mark f) := by
  refine quiet_of_same fun s => ?_
  rw [ofComponent, after_get_bind]
  split
  · exact ⟨rfl, rfl, rfl, rfl, rfl, rfl⟩
  · rename_i hcomponents
    exact ⟨rfl, by rw [hcomponents]; rfl, rfl, rfl, rfl, rfl⟩

theorem quiet_currentGeneric : Quiet r currentGeneric := quiet_of_same fun _ => ⟨rfl, rfl, rfl, rfl, rfl, rfl⟩

end

/-! ## Points -/

/-- A point of the run over a template: the site, and the comments that wait for the next node if they are known. -/
structure Point where
  site : Site
  waiting : Option (List (Span × String))

/-- Whether a state is at a point. -/
def State.At (s : State) (a : Point) : Prop :=
  s.scopes = a.site.scopes ∧ s.components.length = a.site.depth ∧ ∀ cs ∈ a.waiting, s.pending = cs

/-- Between two states the uses that are held and then those of its own are written; the members that the latter read are noted. -/
structure Told (r : Setting) (held us : List Use) (s t : State) : Prop where
  accessed_eq : t.accessed = addReads s.accessed (us.flatMap (·.reads r))
  isCut_eq : t.isCut = (us.any (·.isCut r) || s.isCut)
  woven : ∃ ss, t.code.segments = s.code.segments ++ ss ∧ Woven r (held ++ us) ss

/-- A generator leads from one point to another, writes the uses that are held and then some of its own, and answers what `Q` holds
of. -/
def Leads {α : Type} (r : Setting) (a : Point) (held : List Use) (g : Gen α) (us : List Use) (b : Point) (Q : α → Prop) : Prop :=
  ∀ s : State, s.At a → (g.after r s).2.At b ∧ Told r held us s (g.after r s).2 ∧ Q (g.after r s).1

/-- A generator that makes some uses at a point leads back to it. -/
abbrev Resolves {α : Type} (r : Setting) (a : Point) (g : Gen α) (us : List Use) : Prop := Leads r a [] g us a fun _ => True

theorem after_bind {α β : Type} (g : Gen α) (k : α → Gen β) (r : Setting) (s : State) :
    (g >>= k).after r s = (k (g.after r s).1).after r (g.after r s).2 := rfl

theorem after_read_bind {β : Type} (k : Setting → Gen β) (r : Setting) (s : State) : (read >>= k).after r s = (k r).after r s := rfl

theorem after_modify_bind {β : Type} (f : State → State) (k : Unit → Gen β) (r : Setting) (s : State) :
    ((modify f : Gen Unit) >>= k).after r s = (k ()).after r (f s) := rfl

section

variable {α β : Type} {r : Setting} {a b c : Point} {held us vs : List Use} {Q : α → Prop} {Q' : β → Prop}

theorem Told.trans {s t u : State} (h : Told r held us s t) (h' : Told r [] vs t u) : Told r held (us ++ vs) s u := by
  obtain ⟨ss, hss, hwoven⟩ := h.woven
  obtain ⟨ss', hss', hwoven'⟩ := h'.woven
  refine ⟨?_, ?_, ss ++ ss', ?_, ?_⟩
  · rw [h'.accessed_eq, h.accessed_eq, List.flatMap_append, addReads_append]
  · rw [h'.isCut_eq, h.isCut_eq, List.any_append, ← Bool.or_assoc, Bool.or_comm (vs.any _)]
  · rw [hss', hss, List.append_assoc]
  · rw [← List.append_assoc]
    exact hwoven.append hwoven'

/-- What is held, and some uses, and then the rest. -/
theorem Leads.bind {g : Gen α} {k : α → Gen β} (hg : Leads r a held g us b Q) (hk : ∀ x, Q x → Leads r b [] (k x) vs c Q') :
    Leads r a held (g >>= k) (us ++ vs) c Q' := by
  intro s hs
  obtain ⟨hb, htold, hq⟩ := hg s hs
  obtain ⟨hc, htold', hq'⟩ := hk (g.after r s).1 hq (g.after r s).2 hb
  exact ⟨hc, htold.trans htold', hq'⟩

theorem Notes.at {g : Gen α} {names : List String} {cuts : Bool} (hg : Notes r a.site.scopes g names cuts) {s : State} (hs : s.At a) :
    (g.after r s).2.At a ∧ (g.after r s).2.accessed = addReads s.accessed names ∧ (g.after r s).2.isCut = (cuts || s.isCut) := by
  obtain ⟨hscopes, hdepth, hwaiting⟩ := hs
  obtain ⟨hscopes', hcomponents, hpending, haccessed, hcuts⟩ := hg s hscopes
  exact ⟨⟨hscopes', hcomponents.trans hdepth, fun cs hcs => hpending.trans (hwaiting cs hcs)⟩, haccessed, hcuts⟩

theorem Quiet.at {g : Gen α} (hg : Quiet r g) {s : State} (hs : s.At a) : (g.after r s).2.At a := ((hg.1 _).at hs).1

theorem Quiet.told {g : Gen α} (hg : Quiet r g) (s : State) : Told r [] [] s (g.after r s).2 := by
  obtain ⟨-, -, -, haccessed, hcuts⟩ := hg.1 s.scopes s rfl
  obtain ⟨ss, hss⟩ := hg.2 s
  exact ⟨haccessed, hcuts, ss, hss.symm, woven_nil ss⟩

theorem Quiet.resolves {g : Gen α} (hg : Quiet r g) : Resolves r a g [] := fun s hs => ⟨hg.at hs, hg.told s, trivial⟩

/-- A generator that reads nothing, and then the rest. -/
theorem Leads.quiet {g : Gen α} {k : α → Gen β} (hg : Quiet r g) (hk : ∀ x, Leads r a held (k x) us b Q') :
    Leads r a held (g >>= k) us b Q' := by
  intro s hs
  obtain ⟨hb, htold, hq⟩ := hk (g.after r s).1 (g.after r s).2 (hg.at hs)
  obtain ⟨ss, hss, hwoven⟩ := htold.woven
  obtain ⟨as, has, -⟩ := (hg.told s).woven
  refine ⟨hb, ⟨?_, ?_, as ++ ss, ?_, hwoven.behind as⟩, hq⟩
  · exact htold.accessed_eq.trans (congrArg (addReads · _) (hg.told s).accessed_eq)
  · exact htold.isCut_eq.trans (congrArg (_ || ·) (hg.told s).isCut_eq)
  · exact hss.trans (by rw [has, List.append_assoc])

/-- Some uses, and then a generator that makes none. -/
theorem Leads.ending {g : Gen α} {k : α → Gen β} (hg : Leads r a held g us b Q) (hk : ∀ x, Q x → Leads r b [] (k x) [] c Q') :
    Leads r a held (g >>= k) us c Q' := by
  have hbind := hg.bind hk
  rwa [List.append_nil] at hbind

/-- A generator that makes no uses, and then the rest. -/
theorem Leads.idle {g : Gen α} {k : α → Gen β} (hg : Leads r a held g [] b Q) (hk : ∀ x, Q x → Leads r b [] (k x) us c Q') :
    Leads r a held (g >>= k) us c Q' := hg.bind hk

/-- Some uses, and then a generator that reads nothing. -/
theorem Leads.before {g : Gen α} {k : α → Gen β} (hg : Leads r a held g us b Q) (hk : ∀ x, Quiet r (k x)) :
    Leads r a held (g >>= k) us b fun _ => True := hg.ending fun x _ => (hk x).resolves

/-- What is answered is changed. -/
theorem Leads.answer {g : Gen α} {f : α → β} (hg : Leads r a held g us b Q) (h : ∀ x, Q x → Q' (f x)) :
    Leads r a held (g >>= fun x => pure (f x)) us b Q' := by
  intro s hs
  obtain ⟨hb, htold, hq⟩ := hg s hs
  exact ⟨hb, htold, h _ hq⟩

theorem leads_pure {x : α} (hx : Q x) : Leads r a [] (pure x : Gen α) [] a Q :=
  fun s hs => ⟨hs, (quiet_pure x).told s, hx⟩

theorem Leads.ite {p : Prop} [Decidable p] {g g' : Gen α} (h : p → Leads r a held g us b Q) (h' : ¬p → Leads r a held g' vs b Q) :
    Leads r a held (if p then g else g') (if p then us else vs) b Q := by
  split
  · exact h ‹_›
  · exact h' ‹_›

/-- A generator that only runs on a condition, and the rest behind it. -/
theorem Leads.whenever {p : Prop} [Decidable p] {g : Gen Unit} {k : Unit → Gen β} (hg : p → Resolves r a g us)
    (hk : Leads r a [] (k ()) vs b Q') : Leads r a [] (if p then g >>= k else k ()) ((if p then us else []) ++ vs) b Q' := by
  split
  · exact (hg ‹_›).bind fun _ _ => hk
  · exact hk

/-- A generator that reads nothing and only runs on a condition, and the rest behind it. -/
theorem Leads.quietly {p : Prop} [Decidable p] {g : Gen Unit} {k : Unit → Gen β} (hg : Quiet r g) (hk : Leads r a held (k ()) us b Q') :
    Leads r a held (if p then g >>= k else k ()) us b Q' := by
  split
  · exact .quiet hg fun _ => hk
  · exact hk

/-- A generator that runs for each element of a list. -/
theorem resolves_forIn {l : List α} {f : α → PUnit → Gen (ForInStep PUnit)} {uses : α → List Use}
    (h : ∀ x ∈ l, ∀ u, Leads r a [] (f x u) (uses x) a fun step => step = .yield ⟨⟩) :
    Resolves r a (forIn l PUnit.unit f) (l.flatMap uses) := by
  induction l with
  | nil => exact leads_pure trivial
  | cons x l ih =>
    rw [List.forIn_cons, List.flatMap_cons]
    refine (h x List.mem_cons_self _).bind fun step hstep => ?_
    subst hstep
    exact ih fun y hy => h y (List.mem_cons_of_mem _ hy)

theorem resolves_forM {l : List α} {f : α → Gen PUnit} {uses : α → List Use} (h : ∀ x ∈ l, Resolves r a (f x) (uses x)) :
    Resolves r a (l.forM f) (l.flatMap uses) := by
  induction l with
  | nil => exact leads_pure trivial
  | cons x l ih =>
    rw [List.flatMap_cons]
    exact (h x List.mem_cons_self).bind fun _ _ => ih fun y hy => h y (List.mem_cons_of_mem x hy)

theorem Leads.read {k : Setting → Gen β} (hk : Leads r a held (k r) us b Q') : Leads r a held (read >>= k) us b Q' := hk

theorem Leads.get {k : State → Gen β} (hk : ∀ s : State, s.At a → Leads r a held (k s) us b Q') :
    Leads r a held (get >>= k) us b Q' := fun s hs => hk s hs s hs

theorem Leads.text {t : String} {k : Unit → Gen β} (hk : Leads r a held (k ()) us b Q') : Leads r a held (Generate.text t >>= k) us b Q' :=
  .quiet (quiet_text t) fun _ => hk

theorem Leads.weaken {g : Gen α} (h : Leads r a held g us b Q) : Leads r a held g us b fun _ => True :=
  fun s hs => ⟨(h s hs).1, (h s hs).2.1, trivial⟩

/-! ### Waiting comments -/

/-- It need not be known which comments wait. -/
theorem Leads.unsettled {w : Site} {cs : Option (List (Span × String))} {g : Gen α} (h : Leads r a held g us ⟨w, cs⟩ Q) :
    Leads r a held g us ⟨w, none⟩ Q := by
  intro s hs
  obtain ⟨⟨hscopes, hdepth, -⟩, hrest⟩ := h s hs
  exact ⟨⟨hscopes, hdepth, fun _ hcs => (by cases hcs)⟩, hrest⟩

/-- The comments that wait are told otherwise. -/
theorem Leads.settled {w : Site} {cs : List (Span × String)} {g : Gen α} (h : Leads r a held g us ⟨w, none⟩ Q)
    (hpending : ∀ s : State, s.At a → (g.after r s).2.pending = cs) : Leads r a held g us ⟨w, some cs⟩ Q := by
  intro s hs
  obtain ⟨⟨hscopes, hdepth, -⟩, hrest⟩ := h s hs
  refine ⟨⟨hscopes, hdepth, fun cs' hcs => ?_⟩, hrest⟩
  cases hcs
  exact hpending s hs

/-! ### Buffers -/

/-- A generator that begins with an empty buffer writes what `P` holds of, notes what some uses read, and answers what `Q` holds of. -/
def Catches (r : Setting) (a : Point) (g : Gen α) (us : List Use) (P : Code → Prop) (Q : α → Prop) : Prop :=
  ∀ s : State, s.At a → s.code.segments = [] → (g.after r s).2.At a ∧
    (g.after r s).2.accessed = addReads s.accessed (us.flatMap (·.reads r)) ∧
      (g.after r s).2.isCut = (us.any (·.isCut r) || s.isCut) ∧ P (g.after r s).2.code ∧ Q (g.after r s).1

/-- What is written in an empty buffer is the uses that are made. -/
theorem Leads.catches {g : Gen α} (h : Leads r a [] g us a Q) : Catches r a g us (fun c => Woven r us c.segments) Q := by
  intro s hs hempty
  obtain ⟨ha, ⟨haccessed, hcuts, ss, hss, hwoven⟩, hq⟩ := h s hs
  refine ⟨ha, haccessed, hcuts, ?_, hq⟩
  show Woven r us (g.after r s).2.code.segments
  rwa [hss, hempty]

/-- What a generator notes on a buffer of its own is noted, and what it writes there is held by the rest. -/
theorem Leads.captured {g : Gen α} {k : Code × α → Gen β} {P : Code → Prop} (hg : Catches r a g us P Q)
    (hk : ∀ code x, P code → Q x → Leads r a us (k (code, x)) vs b Q') : Leads r a [] (Generate.captured g >>= k) (us ++ vs) b Q' := by
  intro s hs
  obtain ⟨ha, haccessed, hcuts, hp, hq⟩ := hg { s with code := s.code.continueFrom } hs rfl
  rw [after_captured_bind]
  generalize g.after r { s with code := s.code.continueFrom } = x at ha haccessed hcuts hp hq
  obtain ⟨hb, htold, hq'⟩ := hk x.2.code x.1 hp hq { x.2 with code := s.code.absorbTokens x.2.code } ha
  refine ⟨hb, ⟨?_, ?_, htold.woven⟩, hq'⟩
  · rw [htold.accessed_eq, List.flatMap_append, addReads_append]
    exact congrArg (addReads · _) haccessed
  · rw [htold.isCut_eq, List.any_append, Bool.or_comm (us.any _), Bool.or_assoc]
    exact congrArg (_ || ·) hcuts

/-- What a generator writes on a buffer of its own is held by the rest, which makes no uses. -/
theorem Leads.capturedOnly {g : Gen α} {k : Code × α → Gen β} {P : Code → Prop} (hg : Catches r a g us P Q)
    (hk : ∀ code x, P code → Q x → Leads r a us (k (code, x)) [] b Q') : Leads r a [] (Generate.captured g >>= k) us b Q' := by
  have hcaptured := Leads.captured hg hk
  rwa [List.append_nil] at hcaptured

/-- What is held is written, and then the rest. -/
theorem Leads.append {code : Code} (hcode : Woven r held code.segments) {k : Unit → Gen β} (hk : Leads r a [] (k ()) us b Q') :
    Leads r a held (onCode (·.append code) >>= k) us b Q' := by
  intro s hs
  obtain ⟨hb, htold, hq⟩ := hk { s with code := s.code.append code } hs
  obtain ⟨ss, hss, hwoven⟩ := htold.woven
  refine ⟨hb, ⟨htold.accessed_eq, htold.isCut_eq, code.segments ++ ss, ?_, hcode.append hwoven⟩, hq⟩
  rw [← List.append_assoc]
  exact hss

end

/-! ### Scopes and components -/

section

variable {r : Setting} {w : Site} {cs cs' : Option (List (Span × String))} {us : List Use} {g : Gen Unit} {Q : Unit → Prop}

/-- Names are declared in a scope in which there is none yet. -/
theorem leads_declare (names : List String) :
    Leads r ⟨w.within [], cs⟩ [] (declare names) [] ⟨w.within names, cs⟩ fun _ => True := by
  rintro s ⟨hscopes, hdepth, hwaiting⟩
  have hafter : ((declare names).after r s).2 = { s with scopes := names :: w.scopes } := by
    rw [after_declare_cons names r hscopes, List.append_nil]
  rw [hafter]
  exact ⟨⟨rfl, hdepth, hwaiting⟩, ⟨rfl, rfl, [], (List.append_nil _).symm, .nil⟩, trivial⟩

/-- Names are declared in a scope of their own, and then the rest. -/
theorem Leads.declared {names : List String} {k : Unit → Gen Unit} {b : Point}
    (hk : Leads r ⟨w.within names, cs⟩ [] (k ()) us b Q) : Leads r ⟨w.within [], cs⟩ [] (declare names >>= k) us b Q :=
  .idle (leads_declare names) fun _ _ => hk

/-- A scope is put around a generator that declares names in it. -/
theorem Leads.inScope {names : List String} (h : Leads r ⟨w.within [], cs⟩ [] g us ⟨w.within names, cs'⟩ Q) :
    Leads r ⟨w, cs⟩ [] (Generate.inScope g) us ⟨w, cs'⟩ fun _ => True := by
  rintro s ⟨hscopes, hdepth, hwaiting⟩
  obtain ⟨⟨hscopes', hdepth', hwaiting'⟩, htold, -⟩ := h { s with scopes := [] :: s.scopes } ⟨congrArg _ hscopes, hdepth, hwaiting⟩
  exact ⟨⟨congrArg List.tail hscopes', hdepth', hwaiting'⟩, ⟨htold.accessed_eq, htold.isCut_eq, htold.woven⟩, trivial⟩

/-- A component is put around a generator, and it is closed behind it. -/
theorem Leads.inComponent {ctx props : String} (h : Leads r ⟨w.inComponent, cs⟩ [] g us ⟨w.inComponent, cs'⟩ Q) :
    Leads r ⟨w, cs⟩ [] (Generate.inComponent ctx props g) us ⟨w, cs'⟩ fun _ => True := by
  rintro s ⟨hscopes, hdepth, hwaiting⟩
  obtain ⟨⟨hscopes', hdepth', hwaiting'⟩, htold, -⟩ :=
    h { s with components := { contextVar := ctx, propsVar := props } :: s.components } ⟨hscopes, congrArg (· + 1) hdepth, hwaiting⟩
  unfold Generate.inComponent
  rw [after_modify_bind, after_bind, after_get_bind]
  generalize g.after r _ = x at hscopes' hdepth' hwaiting' htold
  cases hcomponents : x.2.components with
  | nil =>
    rw [hcomponents] at hdepth'
    cases hdepth'
  | cons c outer =>
    rw [hcomponents] at hdepth'
    exact ⟨⟨hscopes', Nat.succ.inj hdepth', hwaiting'⟩, ⟨htold.accessed_eq, htold.isCut_eq, htold.woven⟩, trivial⟩

end

/-! ## Expressions -/

section

variable {r : Setting} {scopes : List (List String)}

theorem membersOf_cons (n : Reference) (ns : List Reference) : membersOf r (n :: ns) = membersOf r [n] ++ membersOf r ns := by
  simp [membersOf]

theorem notes_piece (p : Placement) (t : List Char) (pos : Nat) (atEnd : Bool) :
    Notes r scopes (piece p t pos atEnd) [] (pieceCuts p t pos) := by
  rw [piece_eq]
  have hwritten : Quiet r (do
      text (String.ofList (Text.between 0 (p.headEnd pos (Text.size t)) t))
      if !((Text.between (p.headEnd pos (Text.size t)) (p.innerEnd pos (Text.size t)) t).isEmpty && atEnd) then
        mapped (String.ofList (Text.between (p.headEnd pos (Text.size t)) (p.innerEnd pos (Text.size t)) t)) p.source
          (p.start + (pos + p.headEnd pos (Text.size t) - p.before)) p.info
      text (String.ofList (Text.between (p.innerEnd pos (Text.size t)) (Text.size t) t))) :=
    .bind (quiet_text _) fun _ => .whenever (quiet_mapped _ _ _ _) (quiet_text _)
  exact (notes_checkCut _ _ _).bind fun _ => (notes_checkCut _ _ _).bind fun _ => hwritten.1 _

theorem notes_cutPiece (p : Placement) (whole : List Char) (start stop : Nat) (atEnd : Bool) :
    Notes r scopes (cutPiece p whole start stop atEnd) [] (cutsOut p whole start stop) :=
  (notes_checkCut _ _ _).bind fun _ => notes_piece p _ _ _

/-- An empty piece is cut nowhere. -/
theorem pieceCuts_nil (p : Placement) (pos : Nat) : pieceCuts p [] pos = false := by
  have hinner : p.innerEnd pos (Text.size []) = 0 := by simp [Placement.innerEnd]
  have hhead : p.headEnd pos (Text.size []) = 0 := by rw [Placement.headEnd, hinner, Nat.min_zero]
  rw [pieceCuts, hinner, hhead]
  rfl

/-- A free name that does not stay as it is reads a member, unless it is a reference of the setup script or a member with a `$`. -/
theorem notes_useName (p : Placement) (whole : List Char) (prev : Nat) (n : Reference) :
    Notes r scopes (useName p whole prev n) (membersOf r [n])
      (pieceCuts p n.name.toList n.offset || cutsOut p whole prev (if n.shorthand then stopOf n else n.offset)) := by
  unfold useName
  extract_lets stop name last rest
  have hlast : ∀ u, Notes r scopes (last u) [] (pieceCuts p name n.offset) := fun _ => notes_piece p _ _ _
  have hrest : ∀ u, Notes r scopes (rest u) (membersOf r [n]) (pieceCuts p name n.offset) := by
    intro u
    refine .read ?_
    rw [membersOf, List.flatMap_singleton]
    by_cases hrefs : r.setupRefs.contains n.name = true
    · rw [if_pos hrefs, if_pos (by rw [hrefs, Bool.true_or])]
      exact (notes_piece p _ _ _).bind fun _ => (quiet_text _).1 _
    · rw [if_neg hrefs, Bool.eq_false_iff.2 hrefs, Bool.false_or]
      have hanchor : Notes r scopes (piece p [] n.offset false) [] (pieceCuts p [] n.offset) := notes_piece p _ _ _
      rw [pieceCuts_nil] at hanchor
      rw [← Bool.or_false (pieceCuts p name n.offset)]
      by_cases hdollars : r.dollars.contains n.name = true
      · rw [if_pos hdollars, if_pos hdollars]
        exact hanchor.bind fun _ => .quiet (quiet_text _) fun _ => hlast ()
      · rw [if_neg hdollars, if_neg hdollars]
        have hnoted : Notes r scopes (access n.name) [n.name] false := notes_access n.name
        have haccess := hnoted.bind fun _ => Notes.quiet (quiet_text (Names.ofKey "ctx" ++ ".")) hlast
        rw [Bool.or_false] at haccess
        exact hanchor.bind fun _ => haccess
  split
  · exact (notes_cutPiece p _ _ _ _).bind fun _ => .quiet (quiet_text _) hrest
  · exact (notes_cutPiece p _ _ _ _).bind hrest

theorem notes_useNames (p : Placement) (whole : List Char) (prev : Nat) (ns : List Reference) :
    let used := ns.filter fun n => !keptIn scopes n.name
    Notes r scopes (useNames p whole prev ns) (membersOf r used) (namesCut p whole prev used) := by
  intro used
  induction ns generalizing prev with
  | nil =>
    unfold useNames
    split
    · rename_i hlt
      have hend : namesCut p whole prev [] = cutsOut p whole prev (Text.size whole) := by
        rw [namesCut, decide_eq_true hlt, Bool.true_and]
      show Notes r scopes (cutPiece p whole prev (Text.size whole) true) [] (namesCut p whole prev [])
      rw [hend]
      exact notes_cutPiece p _ _ _ _
    · rename_i hlt
      have hend : namesCut p whole prev [] = false := by rw [namesCut, decide_eq_false hlt, Bool.false_and]
      show Notes r scopes (pure ()) [] (namesCut p whole prev [])
      rw [hend]
      exact (quiet_pure ()).1 _
  | cons n ns ih =>
    unfold useNames
    refine .get fun s hs => ?_
    have hkeeps : s.keeps n.name = keptIn scopes n.name := by rw [← hs]; rfl
    rw [hkeeps]
    split
    · rename_i hkept
      rw [show used = ns.filter fun n => !keptIn scopes n.name from List.filter_cons_of_neg (by simp [hkept])]
      exact ih prev
    · rename_i hkept
      rw [show used = n :: ns.filter fun n => !keptIn scopes n.name from List.filter_cons_of_pos (by simp [hkept]), membersOf_cons,
        namesCut]
      exact (notes_useName p whole prev n).bind fun _ => ih _

end

section

variable {r : Setting} {w : Site} {cs : Option (List (Span × String))}

theorem notes_expressionIn (scopes : List (List String)) (source : SourceId) (code : String) (start : Nat) (i : Info)
    (front back : String) : Notes r scopes (expressionIn source code start i front back)
      (membersOf r (unresolved r scopes front code back)) (expressionCut r scopes source code start i front back) :=
  .read (notes_useNames _ _ _ _)

theorem writes_expressionIn (e : Option Effect) (scopes : List (List String)) (source : SourceId) (code : String) (start : Nat) (i : Info)
    (front back : String) : Writes r e scopes (expressionIn source code start i front back)
      (expressionSegments r e scopes source code start i front back) :=
  .read (writes_useNames _ _ _ _ { scopes := scopes })

/-- What notes and writes a use makes it. -/
theorem resolves_of_writes {g : Gen Unit} {u : Use} (hn : Notes r w.scopes g (u.reads r) (u.isCut r))
    (hw : ∀ e : Option Effect, ∃ ss, Writes r e w.scopes g ss ∧ u.Makes r ss) : Resolves r ⟨w, cs⟩ g [u] := by
  intro s hs
  obtain ⟨hat, haccessed, hcuts⟩ := hn.at hs
  obtain ⟨ss, hwrites, hmakes⟩ := hw s.code.effect
  obtain ⟨hsegments, -, -⟩ := hwrites s rfl hs.1
  refine ⟨hat, ⟨?_, ?_, ss, hsegments, .single hmakes⟩, trivial⟩
  · rwa [List.flatMap_singleton]
  · rwa [List.any_cons, List.any_nil, Bool.or_false]

/-- An expression is written as it is resolved in the scopes of the site. -/
theorem resolves_expressionIn (source : SourceId) (code : String) (start : Nat) (i : Info) (front back : String) :
    Resolves r ⟨w, cs⟩ (expressionIn source code start i front back) [⟨.expression source code start i front back, w.scopes⟩] :=
  resolves_of_writes (notes_expressionIn _ _ _ _ _ _ _) fun e => ⟨_, writes_expressionIn e _ _ _ _ _ _ _, e, rfl⟩

theorem resolves_expression (code : String) (start : Nat) (front back : String) :
    Resolves r ⟨w, cs⟩ (expression code start front back) [w.expression code start front back] :=
  resolves_expressionIn SourceId.template code start Info.checked front back

/-- A member that is read as such is noted, whatever is declared. -/
theorem resolves_access (name : String) : Resolves r ⟨w, cs⟩ (access name) [w.member name] :=
  resolves_of_writes (notes_access name) fun _ => ⟨[], writes_access name, rfl⟩

end

end Generate

end TypedSfc
