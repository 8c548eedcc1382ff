import TypedSfc.Proofs.Generate.ResolvedElements

/-!
# What is read of the component

A name of the component is read by a text of its own before it. In the code of a template and the styles that text stands before the
free names of expressions and before the names of bindings without a value, and nowhere else, and each name that it stands before is
noted. A generator accounts for its reads when this is true of what it writes, with what is noted at its end; what is noted is never
taken back, so that generators account for their reads one after another.

The parameters of a slot are written like an expression, into a buffer of their own, and cut up afterwards: there it is the buffer that
counts.
-/

namespace TypedSfc

namespace Generate

open Markup (Attribute Directive Element Property)
open Script (Reference)

/-- The text that makes a name one of the component. -/
def ownerText : String := Names.ofKey "ctx" ++ "."

/-- A text that ends in the one that makes a name one of the component. -/
def EndsInOwner (t : String) : Prop := ownerText.toList <:+ t.toList

instance (t : String) : Decidable (EndsInOwner t) := inferInstanceAs (Decidable (_ <:+ _))

/-- A segment that does not make what is behind it a name of the component: it is mapped, or its text does not end so. -/
def IsOwn : Segment → Prop
  | .text t => ¬EndsInOwner t
  | .mapped _ _ _ _ => True

/-- The names that are written as the setup script and the options give them: the variable that holds the slots, and the properties that
models are bound to. -/
def Setting.givenNames (r : Setting) : List String := r.slotsName.toList ++ r.options.modelNames.entries.map Prod.fst

/-- Segments in which names are read of the component only as free names of expressions and as names of bindings without a value, and
only names of which `P` holds. -/
inductive ReadsOnly (r : Setting) (P : String → Prop) : List Segment → Prop
  | nil : ReadsOnly r P []
  /-- What does not end in the text before a name. -/
  | own {a : Segment} {ss : List Segment} : IsOwn a → ReadsOnly r P ss → ReadsOnly r P (a :: ss)
  /-- A name that is given, whatever it is. -/
  | given {t : String} {ss : List Segment} : t ∈ r.givenNames → ReadsOnly r P ss → ReadsOnly r P (.text t :: ss)
  /-- A free name that is not read of the component: a reference of the setup script, or a member with a `$`. -/
  | otherwise (p : Placement) {n : Reference} {ss : List Segment} :
      r.setupRefs.contains n.name = true ∨ r.dollars.contains n.name = true → ReadsOnly r P ss →
        ReadsOnly r P (pieceSegments p n.name.toList n.offset false ++ ss)
  /-- A free name that is read of the component. -/
  | member (p : Placement) {n : Reference} {ss : List Segment} : P n.name → ReadsOnly r P ss →
      ReadsOnly r P (.text ownerText :: (pieceSegments p n.name.toList n.offset false ++ ss))
  /-- The argument of a binding without a value, in camelCase. -/
  | shorthand (arg : Markup.Expression) {c : Code} {ss : List Segment} : c.segments = [] → P (Text.camelize arg.content) →
      ReadsOnly r P ss →
        ReadsOnly r P (.text ownerText :: ((c.camelized arg.content SourceId.template arg.offset Info.checked).segments ++ ss))
  /-- The parameters of a slot, which are cut out of what was written for them. -/
  | parameters (x : Markup.Expression) (ps : List Script.Pat) {c : Code} {ss : List Segment} : ReadsOnly r P c.segments →
      ReadsOnly r P ss → ReadsOnly r P ((parametersCode x ps c).segments ++ ss)

section

variable {r : Setting} {P Q : String → Prop} {as ss : List Segment}

theorem ReadsOnly.mono (h : ReadsOnly r P ss) (hPQ : ∀ x, P x → Q x) : ReadsOnly r Q ss := by
  induction h with
  | nil => exact .nil
  | own ha _ ih => exact .own ha ih
  | given ht _ ih => exact .given ht ih
  | otherwise p hn _ ih => exact .otherwise p hn ih
  | member p hn _ ih => exact .member p (hPQ _ hn) ih
  | shorthand arg hc hn _ ih => exact .shorthand arg hc (hPQ _ hn) ih
  | parameters x ps _ _ ihc ih => exact .parameters x ps ihc ih

theorem ReadsOnly.append (h : ReadsOnly r P as) (h' : ReadsOnly r P ss) : ReadsOnly r P (as ++ ss) := by
  induction h with
  | nil => exact h'
  | own ha _ ih => exact .own ha ih
  | given ht _ ih => exact .given ht ih
  | otherwise p hn _ ih =>
    rw [List.append_assoc]
    exact .otherwise p hn ih
  | member p hn _ ih =>
    rw [List.cons_append, List.append_assoc]
    exact .member p hn ih
  | shorthand arg hc hn _ ih =>
    rw [List.cons_append, List.append_assoc]
    exact .shorthand arg hc hn ih
  | parameters x ps hc _ _ ih =>
    rw [List.append_assoc]
    exact .parameters x ps hc ih

/-- Segments of which none ends in the text before a name read nothing. -/
theorem readsOnly_of_own (h : ∀ a ∈ ss, IsOwn a) : ReadsOnly r P ss := by
  induction ss with
  | nil => exact .nil
  | cons a ss ih =>
    obtain ⟨ha, hss⟩ := List.forall_mem_cons.1 h
    exact .own ha (ih hss)

end

/-! ## Texts of their own -/

/-- Whether a text ends in a dot; none if it is empty. -/
def endsInDot (t : String) : Option Bool := t.toList.getLast?.map (· == '.')

theorem endsInDot_append (t : String) {u : String} {b : Bool} (h : endsInDot u = some b) : endsInDot (t ++ u) = some b := by
  obtain ⟨c, hc, hb⟩ := Option.map_eq_some_iff.1 h
  rw [endsInDot, String.toList_append, List.getLast?_append, hc, ← hb]
  rfl

theorem not_endsInOwner_of_notMem {t : String} (h : '.' ∉ t.toList) : ¬EndsInOwner t :=
  fun hends => h (hends.subset (by decide))

/-- A text that does not end in a dot does not end in the text before a name. -/
theorem not_endsInOwner_of_ends {t : String} (h : endsInDot t = some false) : ¬EndsInOwner t := by
  rintro ⟨front, hfront⟩
  rw [endsInDot, ← hfront, List.getLast?_append] at h
  cases h

end Generate

namespace Code

open Generate (EndsInOwner IsOwn)

/-- A change of a buffer that adds to it, but nothing that ends in the text before a name. -/
def AddsOwn (c c' : Code) : Prop := ∃ ss, c'.segments = c.segments ++ ss ∧ ∀ a ∈ ss, IsOwn a

variable {c c' c'' : Code}

theorem AddsOwn.same (h : c'.segments = c.segments) : c.AddsOwn c' := ⟨[], by rw [h, List.append_nil], by simp⟩

theorem AddsOwn.trans (h : c.AddsOwn c') (h' : c'.AddsOwn c'') : c.AddsOwn c'' := by
  obtain ⟨as, has, howna⟩ := h
  obtain ⟨bs, hbs, hownb⟩ := h'
  refine ⟨as ++ bs, by rw [hbs, has, List.append_assoc], fun a ha => ?_⟩
  rcases List.mem_append.1 ha with ha | ha
  · exact howna a ha
  · exact hownb a ha

variable (c)

theorem addsOwn_add {a : Segment} (ha : IsOwn a) : c.AddsOwn (c.add a) := ⟨[a], rfl, by simpa using ha⟩

theorem addsOwn_text {t : String} (ht : ¬EndsInOwner t) : c.AddsOwn (c.text t) := by
  unfold text
  split
  · exact .same rfl
  · exact c.addsOwn_add ht

theorem addsOwn_mapped (t : String) (source : SourceId) (offset : Nat) (i : Info) : c.AddsOwn (c.mapped t source offset i) :=
  c.addsOwn_add trivial

theorem addsOwn_opened (source : SourceId) (start : Nat) (i : Info) : c.AddsOwn (c.opened source start i).2 :=
  .trans (.same rfl) (addsOwn_mapped { c with nextToken := c.nextToken + 1 } _ _ _ _)

theorem addsOwn_closed (b : Boundary) (stop : Nat) : c.AddsOwn (c.closed b stop) := c.addsOwn_add trivial

theorem addsOwn_joined (b : Boundary) (t : String) (offset : Nat) : c.AddsOwn (c.joined b t offset) :=
  c.addsOwn_add trivial

theorem addsOwn_bounded (source : SourceId) (start stop : Nat) (i : Info) {t : String} (ht : ¬EndsInOwner t) :
    c.AddsOwn (c.bounded source start stop i t) :=
  (c.addsOwn_opened source start i).trans ((addsOwn_text _ ht).trans (addsOwn_closed _ _ stop))

theorem addsOwn_quotedKeyAt (key : String) (source : SourceId) (offset : Nat) (i : Info) :
    c.AddsOwn (c.quotedKeyAt key source offset i) := by
  have hquote : ¬EndsInOwner "\"" := Generate.not_endsInOwner_of_ends rfl
  exact (c.addsOwn_opened source offset i).trans
    ((addsOwn_text _ hquote).trans ((addsOwn_joined _ _ _ _).trans ((addsOwn_text _ hquote).trans (addsOwn_closed _ _ _))))

/-- Escapes have no dots. -/
theorem not_endsInOwner_unicodeEscapes (t : String) : ¬EndsInOwner (Text.unicodeEscapes t) := by
  refine Generate.not_endsInOwner_of_notMem ?_
  have hdigit : ∀ n < 16, Text.hexDigit n ≠ '.' := by decide
  have hunit : ∀ n, '.' ∉ Text.unitEscape n := by
    intro n hmem
    simp only [Text.unitEscape, List.mem_cons, List.not_mem_nil, or_false] at hmem
    have hlt : ∀ m, m % 16 < 16 := fun m => Nat.mod_lt m (by decide)
    rcases hmem with hc | hc | hc | hc | hc | hc
    · exact absurd hc (by decide)
    · exact absurd hc (by decide)
    all_goals exact hdigit _ (hlt _) hc.symm
  rw [Text.unicodeEscapes, String.toList_ofList]
  intro hmem
  obtain ⟨ch, -, hch⟩ := List.mem_flatMap.1 hmem
  obtain ⟨n, -, hn⟩ := List.mem_flatMap.1 hch
  exact hunit n hn

theorem addsOwn_literal (t : String) (source : SourceId) (offset : Nat) (i : Info) : c.AddsOwn (c.literal t source offset i) := by
  unfold literal
  split
  · exact c.addsOwn_bounded _ _ _ _ (not_endsInOwner_unicodeEscapes t)
  · exact c.addsOwn_mapped _ _ _ _

theorem addsOwn_groupParts (source : SourceId) (offset token : Nat) (ps : List (Nat × String)) :
    c.AddsOwn (c.groupParts source offset token ps) := by
  induction ps generalizing c with
  | nil => exact .same rfl
  | cons p ps ih =>
    cases ps with
    | nil => exact c.addsOwn_add trivial
    | cons q ps =>
      have hfirst : c.AddsOwn (c.add (.mapped p.2 source (offset + p.1) (Info.silent.withRole (.joins token)))) := c.addsOwn_add trivial
      exact hfirst.trans (ih _)

theorem addsOwn_camelized (name : String) (source : SourceId) (offset : Nat) (i : Info) :
    c.AddsOwn (c.camelized name source offset i) := by
  unfold camelized
  split
  · exact .same rfl
  · exact c.addsOwn_mapped _ _ _ _
  · extract_lets token
    exact (AddsOwn.same rfl).trans ((addsOwn_mapped { c with nextToken := token + 1 } _ _ _ _).trans (addsOwn_groupParts _ _ _ _ _))

theorem addsOwn_camelizedIn (b : Boundary) (name : String) (offset : Nat) : c.AddsOwn (c.camelizedIn b name offset) := by
  unfold camelizedIn
  generalize camelParts name = ps
  induction ps generalizing c with
  | nil => exact .same rfl
  | cons p ps ih => exact (c.addsOwn_joined _ _ _).trans (ih _)

end Code

namespace Generate

open Markup (Attribute Directive Element Property)
open Script (Reference)

/-! ## Generators that account for their reads -/

/-- Once some names are noted, a generator notes more and takes none back, writes segments in which only noted names are read of the
component, and answers what `Q` holds of. -/
def Answers {α : Type} (r : Setting) (known : List String) (g : Gen α) (Q : α → Prop) : Prop :=
  ∀ s : State, known ⊆ s.accessed → s.accessed ⊆ (g.after r s).2.accessed ∧
    (∃ ss, (g.after r s).2.code.segments = s.code.segments ++ ss ∧ ReadsOnly r (· ∈ (g.after r s).2.accessed) ss) ∧ Q (g.after r s).1

/-- A generator that accounts for its reads. -/
abbrev Accounts {α : Type} (r : Setting) (known : List String) (g : Gen α) : Prop := Answers r known g fun _ => True

section

variable {α β : Type} {r : Setting} {known names : List String} {Q : α → Prop} {Q' : β → Prop}

theorem answers_pure {x : α} (hx : Q x) : Answers r known (pure x : Gen α) Q :=
  fun _ _ => ⟨List.Subset.refl _, ⟨[], (List.append_nil _).symm, .nil⟩, hx⟩

theorem accounts_pure (x : α) : Accounts r known (pure x : Gen α) := answers_pure trivial

theorem Answers.bind {g : Gen α} {k : α → Gen β} (hg : Answers r known g Q) (hk : ∀ x, Q x → Answers r known (k x) Q') :
    Answers r known (g >>= k) Q' := by
  intro s hs
  obtain ⟨hmore, ⟨as, has, hreads⟩, hq⟩ := hg s hs
  obtain ⟨hmore', ⟨bs, hbs, hreads'⟩, hq'⟩ := hk (g.after r s).1 hq (g.after r s).2 (List.Subset.trans hs hmore)
  refine ⟨List.Subset.trans hmore hmore', ⟨as ++ bs, ?_, (hreads.mono fun _ hx => hmore' hx).append hreads'⟩, hq'⟩
  exact hbs.trans (by rw [has, List.append_assoc])

/-- A generator that accounts for its reads, and then the rest. -/
theorem Answers.then {g : Gen α} {k : α → Gen β} (hg : Accounts r known g) (hk : ∀ x, Answers r known (k x) Q') :
    Answers r known (g >>= k) Q' := hg.bind fun x _ => hk x

theorem Answers.weaken {g : Gen α} (hg : Answers r known g Q) : Accounts r known g :=
  fun s hs => ⟨(hg s hs).1, (hg s hs).2.1, trivial⟩

theorem Answers.ite {c : Prop} [Decidable c] {g g' : Gen α} (h : Answers r known g Q) (h' : Answers r known g' Q) :
    Answers r known (if c then g else g') Q := by
  split
  · exact h
  · exact h'

/-- A generator that only runs on a condition, and the rest behind it. -/
theorem Answers.whenever {c : Prop} [Decidable c] {g : Gen Unit} {k : Unit → Gen β} (hg : Accounts r known g)
    (hk : Answers r known (k ()) Q') : Answers r known (if c then g >>= k else k ()) Q' := .ite (.then hg fun _ => hk) hk

theorem accounts_forIn {l : List α} {init : β} {f : α → β → Gen (ForInStep β)} (h : ∀ a ∈ l, ∀ b, Accounts r known (f a b)) :
    Accounts r known (forIn l init f) := by
  induction l generalizing init with
  | nil => exact accounts_pure init
  | cons a l ih =>
    rw [List.forIn_cons]
    refine .then (h a List.mem_cons_self init) fun step => ?_
    cases step with
    | done b => exact accounts_pure b
    | yield b => exact ih fun a' ha' => h a' (List.mem_cons_of_mem _ ha')

theorem accounts_forM {l : List α} {f : α → Gen PUnit} (h : ∀ a ∈ l, Accounts r known (f a)) : Accounts r known (l.forM f) := by
  induction l with
  | nil => exact accounts_pure _
  | cons a l ih => exact .then (h a List.mem_cons_self) fun _ => ih fun a' ha' => h a' (List.mem_cons_of_mem _ ha')

/-- A generator that writes nothing and takes no name back. -/
theorem accounts_of_same {g : Gen α} (h : ∀ s, (g.after r s).2.code.segments = s.code.segments ∧ s.accessed ⊆ (g.after r s).2.accessed) :
    Accounts r known g := fun s _ => ⟨(h s).2, ⟨[], by rw [(h s).1, List.append_nil], .nil⟩, trivial⟩

theorem accounts_read : Accounts r known (read : Gen Setting) := accounts_of_same fun _ => ⟨rfl, List.Subset.refl _⟩

theorem Answers.read {k : Setting → Gen β} (hk : Answers r known (k r) Q') : Answers r known (read >>= k) Q' := hk

theorem accounts_get : Accounts r known (get : Gen State) := accounts_of_same fun _ => ⟨rfl, List.Subset.refl _⟩

/-- A change of the code that adds to it. -/
theorem accounts_onCode {f : Code → Code} (h : ∀ c : Code, c.AddsOwn (f c)) : Accounts r known (onCode f) := by
  intro s _
  obtain ⟨ss, hss, hown⟩ := h s.code
  exact ⟨List.Subset.refl _, ⟨ss, hss, readsOnly_of_own hown⟩, trivial⟩

theorem accounts_textOf {t : String} (ht : ¬EndsInOwner t) : Accounts r known (text t) := accounts_onCode fun c => c.addsOwn_text ht

theorem accounts_text {t : String} (ht : endsInDot t = some false) : Accounts r known (text t) :=
  accounts_textOf (not_endsInOwner_of_ends ht)

/-- Text of its own, and then the rest. -/
theorem Answers.text {t : String} {k : Unit → Gen β} (ht : endsInDot t = some false) (hk : Answers r known (k ()) Q') :
    Answers r known (Generate.text t >>= k) Q' := .then (accounts_text ht) fun _ => hk

theorem accounts_mapped (t : String) (source : SourceId) (offset : Nat) (i : Info) : Accounts r known (mapped t source offset i) :=
  accounts_onCode fun c => c.addsOwn_mapped _ _ _ _

theorem accounts_openAt (start : Nat) (i : Info) : Accounts r known (openAt start i) := by
  intro s _
  obtain ⟨ss, hss, hown⟩ := s.code.addsOwn_opened SourceId.template start i
  exact ⟨List.Subset.refl _, ⟨ss, hss, readsOnly_of_own hown⟩, trivial⟩

theorem accounts_close (b : Boundary) (stop : Nat) : Accounts r known (close b stop) := accounts_onCode fun c => c.addsOwn_closed _ _

theorem accounts_bounded (start stop : Nat) (i : Info) {t : String} (ht : ¬EndsInOwner t) : Accounts r known (bounded start stop i t) :=
  accounts_onCode fun c => c.addsOwn_bounded _ _ _ _ ht

theorem readsOnly_given {P : String → Prop} {t : String} (ht : t ∈ r.givenNames) {ss : List Segment} (h : ReadsOnly r P ss) :
    ReadsOnly r P (textSegments t ++ ss) := by
  unfold textSegments
  split
  · exact h
  · exact .given ht h

theorem accounts_textGiven {t : String} (ht : t ∈ r.givenNames) : Accounts r known (text t) := by
  intro s _
  obtain ⟨hsegments, -, -⟩ := writes_text (r := r) t s rfl rfl
  refine ⟨List.Subset.refl _, ⟨textSegments t ++ [], ?_, readsOnly_given ht .nil⟩, trivial⟩
  rw [List.append_nil]
  exact hsegments

theorem accounts_boundedGiven (start stop : Nat) (i : Info) {t : String} (ht : t ∈ r.givenNames) :
    Accounts r known (bounded start stop i t) := by
  show Accounts r known (openAt start i >>= fun b => Generate.text t >>= fun _ => close b stop)
  exact .then (accounts_openAt _ _) fun b => .then (accounts_textGiven ht) fun _ => accounts_close _ _

theorem accounts_camelized (name : String) (offset : Nat) (i : Info) : Accounts r known (camelized name offset i) :=
  accounts_onCode fun c => c.addsOwn_camelized _ _ _ _

theorem accounts_camelizedIn (b : Boundary) (name : String) (offset : Nat) : Accounts r known (onCode (·.camelizedIn b name offset)) :=
  accounts_onCode fun c => c.addsOwn_camelizedIn _ _ _

theorem accounts_quotedKey (key : String) (offset : Nat) (i : Info) : Accounts r known (quotedKey key offset i) :=
  accounts_onCode fun c => c.addsOwn_quotedKeyAt _ _ _ _

theorem subset_addNew (name : String) (names : List String) : names ⊆ addNew name names := fun _ h => mem_addNew_iff.2 (.inr h)

theorem mem_addNew_self (name : String) (names : List String) : name ∈ addNew name names := mem_addNew_iff.2 (.inl rfl)

theorem accounts_access (name : String) : Accounts r known (access name) := accounts_of_same fun _ => ⟨rfl, subset_addNew _ _⟩

/-! ### Buffers -/

/-- What a generator writes on a buffer of its own reads what is noted then, and the rest goes on from there. -/
theorem Answers.captured {g : Gen α} {k : Code × α → Gen β} (hg : Answers r known g Q)
    (hk : ∀ names code x, known ⊆ names → ReadsOnly r (· ∈ names) code.segments → Q x → Answers r names (k (code, x)) Q') :
    Answers r known (Generate.captured g >>= k) Q' := by
  intro s hs
  obtain ⟨hmore, ⟨ss, hss, hreads⟩, hq⟩ := hg { s with code := s.code.continueFrom } hs
  rw [after_captured_bind]
  generalize g.after r { s with code := s.code.continueFrom } = x at hmore hss hreads hq
  have hcode : x.2.code.segments = ss := hss
  obtain ⟨hmore', hrest, hq'⟩ := hk x.2.accessed x.2.code x.1 (List.Subset.trans hs hmore) (hcode ▸ hreads) hq
    { x.2 with code := s.code.absorbTokens x.2.code } (List.Subset.refl _)
  exact ⟨List.Subset.trans hmore hmore', hrest, hq'⟩

/-- A buffer that reads what is noted is written, and then the rest. -/
theorem accounts_append {code : Code} (hcode : ReadsOnly r (· ∈ known) code.segments) :
    Accounts r known (onCode (·.append code)) :=
  fun _ hs => ⟨List.Subset.refl _, ⟨code.segments, rfl, hcode.mono fun _ hx => hs hx⟩, trivial⟩

end

/-! ## Expressions -/

section

variable {r : Setting} {P : String → Prop} {p : Placement} {whole front code back : List Char}

theorem notMem_of_standsAt {cs t : List Char} {n : Nat} {c : Char} (h : Text.StandsAt cs n t) (hc : c ∉ cs) : c ∉ t := by
  obtain ⟨more, before, rfl, -⟩ := h
  exact fun hmem => hc (List.mem_append_right _ (List.mem_append_left _ hmem))

theorem textSegments_own {t : List Char} (h : '.' ∉ t) : ∀ a ∈ textSegments (String.ofList t), IsOwn a := by
  intro a ha
  unfold textSegments at ha
  split at ha
  · cases ha
  · rw [List.mem_singleton.1 ha]
    refine not_endsInOwner_of_notMem ?_
    rwa [String.toList_ofList]

/-- A piece has texts of its own only before and behind its mapped part. -/
theorem pieceSegments_own {t : List Char} {pos : Nat} (hhead : '.' ∉ Text.between 0 (p.headEnd pos (Text.size t)) t)
    (htail : '.' ∉ Text.between (p.innerEnd pos (Text.size t)) (Text.size t) t) (atEnd : Bool) :
    ∀ a ∈ pieceSegments p t pos atEnd, IsOwn a := by
  intro a ha
  rw [pieceSegments] at ha
  rcases List.mem_append.1 ha with ha | ha
  · exact textSegments_own hhead a ha
  · rcases List.mem_append.1 ha with ha | ha
    · split at ha
      · rw [List.mem_singleton.1 ha]
        exact trivial
      · cases ha
    · exact textSegments_own htail a ha

theorem notMem_between {cs : List Char} {c : Char} (hc : c ∉ cs) (lo hi : Nat) : c ∉ Text.between lo hi cs := by
  rcases Text.between_eq_nil_or lo hi cs with hnil | ⟨hstands, -⟩
  · simp [hnil]
  · exact notMem_of_standsAt hstands hc

/-- What a piece of a text has before its mapped part is from before that of the text. -/
theorem notMem_head (hwhole : whole = front ++ (code ++ back)) (hbefore : p.before = Text.size front) (hfront : '.' ∉ front)
    {t : List Char} {pos : Nat} (ht : Text.StandsAt whole pos t) : '.' ∉ Text.between 0 (p.headEnd pos (Text.size t)) t := by
  rcases Text.between_eq_nil_or 0 (p.headEnd pos (Text.size t)) t with hnil | ⟨hu, hsize⟩
  · simp [hnil]
  generalize Text.between 0 (p.headEnd pos (Text.size t)) t = u at hu hsize
  by_cases hnil : u = []
  · simp [hnil]
  have hpos := Text.size_pos hnil
  have hle : p.headEnd pos (Text.size t) ≤ p.before - pos := Nat.min_le_left _ _
  have hmiddle : Text.StandsAt ([] ++ (front ++ (code ++ back))) pos u := hwhole ▸ ht.trans hu
  refine notMem_of_standsAt (hmiddle.middle (Nat.zero_le _) ?_) hfront
  rw [Text.size_nil]
  omega

/-- What a piece of a text has behind its mapped part is from behind that of the text. -/
theorem notMem_tail (hwhole : whole = front ++ (code ++ back)) (hbefore : p.before = Text.size front)
    (hlength : p.length = Text.size code) (hback : '.' ∉ back) {t : List Char} {pos : Nat} (ht : Text.StandsAt whole pos t) :
    '.' ∉ Text.between (p.innerEnd pos (Text.size t)) (Text.size t) t := by
  rcases Text.between_eq_nil_or (p.innerEnd pos (Text.size t)) (Text.size t) t with hnil | ⟨hw, hsize⟩
  · simp [hnil]
  generalize Text.between (p.innerEnd pos (Text.size t)) (Text.size t) t = w at hw hsize
  by_cases hnil : w = []
  · simp [hnil]
  have hpos := Text.size_pos hnil
  have hlast := ht.isPlace_stop.le_size
  have hbehind : p.before + p.length ≤ pos + p.innerEnd pos (Text.size t) := by
    unfold Placement.innerEnd at hsize ⊢
    split at hsize <;> split <;> omega
  have hstands := ht.trans hw
  have hsplit : whole = (front ++ code) ++ (back ++ []) := by rw [hwhole, List.append_nil, List.append_assoc]
  rw [hwhole, Text.size_append, Text.size_append] at hlast
  rw [hsplit] at hstands
  have hsizes : Text.size (front ++ code) = Text.size front + Text.size code := Text.size_append _ _
  exact notMem_of_standsAt (hstands.middle (by omega) (by omega)) hback

/-- A piece of a text between two others that have no dots. -/
theorem pieceSegments_own_between (hwhole : whole = front ++ (code ++ back)) (hbefore : p.before = Text.size front)
    (hlength : p.length = Text.size code) (hfront : '.' ∉ front) (hback : '.' ∉ back) {t : List Char} {pos : Nat}
    (ht : t = [] ∨ Text.StandsAt whole pos t) (atEnd : Bool) : ∀ a ∈ pieceSegments p t pos atEnd, IsOwn a := by
  rcases ht with rfl | ht
  · exact pieceSegments_own (notMem_between List.not_mem_nil _ _) (notMem_between List.not_mem_nil _ _) atEnd
  · exact pieceSegments_own (notMem_head hwhole hbefore hfront ht) (notMem_tail hwhole hbefore hlength hback ht) atEnd

/-- A piece that is cut out of a text stands where it is cut. -/
theorem between_stands (lo hi : Nat) (whole : List Char) :
    Text.between lo hi whole = [] ∨ Text.StandsAt whole lo (Text.between lo hi whole) :=
  (Text.between_eq_nil_or lo hi whole).imp_right And.left

/-- A free name is read of the component, or otherwise. -/
theorem readsOnly_useSegments (p : Placement) {n : Reference} (hn : ∀ x ∈ membersOf r [n], P x) :
    ReadsOnly r P (useSegments r p n) := by
  have hanchor : ∀ a ∈ pieceSegments p [] n.offset false, IsOwn a :=
    pieceSegments_own (notMem_between List.not_mem_nil _ _) (notMem_between List.not_mem_nil _ _) false
  unfold useSegments
  by_cases href : r.setupRefs.contains n.name = true
  · rw [if_pos href]
    exact .otherwise p (.inl href) (.own (not_endsInOwner_of_ends rfl) .nil)
  · rw [if_neg href]
    refine (readsOnly_of_own hanchor).append ?_
    by_cases hdollar : r.dollars.contains n.name = true
    · have howner : ownerOf r n = Names.ofKey "dollars" ++ "." := if_pos hdollar
      rw [howner]
      have hread := ReadsOnly.otherwise (P := P) p (.inr hdollar) .nil
      rw [List.append_nil] at hread
      exact .own (by decide : ¬EndsInOwner (Names.ofKey "dollars" ++ ".")) hread
    · have howner : ownerOf r n = ownerText := if_neg hdollar
      have hname : n.name ∈ membersOf r [n] := by
        rw [membersOf, List.flatMap_singleton, Bool.eq_false_iff.2 href, Bool.eq_false_iff.2 hdollar]
        exact List.mem_singleton.2 rfl
      rw [howner]
      have hread := ReadsOnly.member (r := r) p (hn _ hname) .nil
      rw [List.append_nil] at hread
      exact hread

/-- A text between two that have no dots reads the members that its free names are. -/
theorem readsOnly_strands (hwhole : whole = front ++ (code ++ back)) (hbefore : p.before = Text.size front)
    (hlength : p.length = Text.size code) (hfront : '.' ∉ front) (hback : '.' ∉ back) {ns : List Reference} (prev : Nat)
    (hns : ∀ x ∈ membersOf r ns, P x) : ReadsOnly r P ((strands r p whole prev ns).map Strand.segment) := by
  have hpiece : ∀ {t : List Char} {pos : Nat} {atEnd : Bool}, t = [] ∨ Text.StandsAt whole pos t →
      ReadsOnly r P (pieceSegments p t pos atEnd) := fun ht =>
    readsOnly_of_own (pieceSegments_own_between hwhole hbefore hlength hfront hback ht _)
  -- Each free name stands behind a piece of the text, which goes on from the name before it.
  induction ns generalizing prev with
  | nil =>
    unfold strands
    split
    · rw [segment_map_kept]
      refine hpiece ((Text.after_eq_nil_or prev whole).imp_right fun hrest => ⟨[], ?_⟩)
      rwa [List.append_nil]
    · exact .nil
  | cons n ns ih =>
    rw [membersOf_cons] at hns
    have huse : ReadsOnly r P (useSegments r p n) := readsOnly_useSegments p fun x hx => hns x (List.mem_append_left _ hx)
    have hrest := ih (stopOf n) fun x hx => hns x (List.mem_append_right _ hx)
    rw [strands, List.map_append, segment_nameStrands]
    refine .append ?_ hrest
    split
    · refine (hpiece (between_stands _ _ _)).append (.append ?_ huse)
      exact .own (not_endsInOwner_of_ends rfl) .nil
    · exact (hpiece (between_stands _ _ _)).append huse

end

section

variable {r : Setting} {known : List String}

theorem subset_addReads (names more : List String) : names ⊆ addReads names more := by
  induction more generalizing names with
  | nil => exact List.Subset.refl _
  | cons x more ih => exact List.Subset.trans (subset_addNew x names) (ih _)

theorem mem_addReads {names more : List String} {x : String} (hx : x ∈ more) : x ∈ addReads names more := by
  induction more generalizing names with
  | nil => cases hx
  | cons y more ih =>
    rcases List.mem_cons.1 hx with rfl | hx
    · exact subset_addReads _ more (mem_addNew_self x names)
    · exact ih hx

/-- An expression between two texts without dots accounts for its reads. -/
theorem accounts_expressionIn (source : SourceId) (code : String) (start : Nat) (i : Info) {front back : String}
    (hfront : '.' ∉ front.toList) (hback : '.' ∉ back.toList) : Accounts r known (expressionIn source code start i front back) := by
  intro s _
  obtain ⟨-, -, -, haccessed, -⟩ := notes_expressionIn (r := r) s.scopes source code start i front back s rfl
  obtain ⟨hsegments, -, -⟩ := writes_expressionIn s.code.effect s.scopes source code start i front back s rfl rfl
  refine ⟨haccessed ▸ subset_addReads _ _, ⟨_, hsegments, ?_⟩, trivial⟩
  have hwhole : (front ++ code ++ back).toList = front.toList ++ (code.toList ++ back.toList) := by
    rw [String.toList_append, String.toList_append, List.append_assoc]
  refine readsOnly_strands hwhole (Text.size_toList front).symm (Text.size_toList code).symm hfront hback 0 fun x hx => ?_
  rw [haccessed]
  exact mem_addReads hx

theorem accounts_expression (code : String) (start : Nat) {front back : String} (hfront : '.' ∉ front.toList)
    (hback : '.' ∉ back.toList) : Accounts r known (expression code start front back) :=
  accounts_expressionIn _ _ _ _ hfront hback

end

end Generate

end TypedSfc
