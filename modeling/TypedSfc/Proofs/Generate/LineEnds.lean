import TypedSfc.Generate.Style
import TypedSfc.Proofs.Generate.LineStarts
import TypedSfc.Proofs.Generate.Senses

/-!
# Code that ends its lines

The code of a template is made of statements, each with a line feed behind it, so that whatever is written next begins a line. Most
generators say so by the last text that they write. An interpolation ends with what is put behind its expression, which is written as
text so long as the names that are found in the expression are found where they are.
-/

namespace TypedSfc

namespace Generate

open Markup (Branch Directive Element Fragment LoopHead Node Property)
open Script (Reference)

/-! ## Starts of lines -/

/-- A generator behind which a line starts if one starts before it. -/
def StaysAtLine {α : Type} (r : Setting) (g : Gen α) : Prop :=
  ∀ s : State, s.code.atLineStart = true → (g.after r s).2.code.atLineStart = true

/-- A generator behind which a line starts. -/
def ReachesLine {α : Type} (r : Setting) (g : Gen α) : Prop := ∀ s : State, (g.after r s).2.code.atLineStart = true

section

variable {α β : Type} {r : Setting}

theorem ReachesLine.stays {g : Gen α} (h : ReachesLine r g) : StaysAtLine r g := fun s _ => h s

theorem stays_pure (a : α) : StaysAtLine r (pure a : Gen α) := fun _ h => h

theorem StaysAtLine.bind {g : Gen α} {k : α → Gen β} (hg : StaysAtLine r g) (hk : ∀ a, StaysAtLine r (k a)) : StaysAtLine r (g >>= k) :=
  fun s h => hk (g.after r s).1 (g.after r s).2 (hg s h)

/-- A generator behind which a line starts, and then the rest. -/
theorem ReachesLine.bind {g : Gen α} {k : α → Gen β} (hg : ReachesLine r g) (hk : ∀ a, StaysAtLine r (k a)) : ReachesLine r (g >>= k) :=
  fun s => hk (g.after r s).1 (g.after r s).2 (hg s)

/-- Any generator, and then one behind which a line starts. -/
theorem ReachesLine.behind {g : Gen α} {k : α → Gen β} (hk : ∀ a, ReachesLine r (k a)) : ReachesLine r (g >>= k) :=
  fun s => hk (g.after r s).1 (g.after r s).2

theorem ReachesLine.read {k : Setting → Gen α} (hk : ReachesLine r (k r)) : ReachesLine r (read >>= k) := hk

theorem StaysAtLine.ite {c : Prop} [Decidable c] {g g' : Gen α} (h : StaysAtLine r g) (h' : StaysAtLine r g') :
    StaysAtLine r (if c then g else g') := by
  split
  · exact h
  · exact h'

theorem ReachesLine.ite {c : Prop} [Decidable c] {g g' : Gen α} (h : ReachesLine r g) (h' : ReachesLine r g') :
    ReachesLine r (if c then g else g') := by
  split
  · exact h
  · exact h'

/-- A generator that only runs on a condition, and the rest behind it. -/
theorem StaysAtLine.whenever {c : Prop} [Decidable c] {g : Gen Unit} {k : Unit → Gen β} (hg : StaysAtLine r g)
    (hk : StaysAtLine r (k ())) : StaysAtLine r (if c then g >>= k else k ()) :=
  .ite (.bind hg fun _ => hk) hk

theorem stays_forM {l : List α} {f : α → Gen PUnit} (h : ∀ a ∈ l, StaysAtLine r (f a)) : StaysAtLine r (l.forM f) := by
  induction l with
  | nil => exact stays_pure _
  | cons a l ih => exact .bind (h a List.mem_cons_self) fun _ => ih fun a' ha' => h a' (List.mem_cons_of_mem _ ha')

/-- A generator that does not write. -/
theorem stays_of_same {g : Gen α} (h : ∀ s, (g.after r s).2.code.segments = s.code.segments) : StaysAtLine r g := by
  intro s hs
  rw [Code.atLineStart_iff, Code.toText] at hs ⊢
  rwa [h s]

theorem stays_read : StaysAtLine r (read : Gen Setting) := stays_of_same fun _ => rfl

theorem stays_get : StaysAtLine r (get : Gen State) := stays_of_same fun _ => rfl

theorem reaches_text {t : String} (ht : t.toList.getLast? = some '\n') : ReachesLine r (text t) := fun s => s.code.atLineStart_text ht

/-- Text that ends with a literal line feed. -/
theorem reaches_line (t : String) {u : String} (hu : u.toList.getLast? = some '\n') : ReachesLine r (text (t ++ u)) :=
  reaches_text (Text.getLast?_toList_append t hu)

end

section

variable {r : Setting}

/-! ## What is noted beside the code -/

theorem stays_declare (names : List String) : StaysAtLine r (declare names) := by
  refine stays_of_same fun s => ?_
  cases hs : s.scopes with
  | nil => rw [after_declare_nil names r hs]
  | cons scope outer => rw [after_declare_cons names r hs]

theorem stays_inScope {g : Gen Unit} (hg : StaysAtLine r g) : StaysAtLine r (inScope g) :=
  .bind (stays_of_same fun _ => rfl) fun _ => .bind hg fun _ => stays_of_same fun _ => rfl

theorem reaches_inScope {g : Gen Unit} (hg : ReachesLine r g) : ReachesLine r (inScope g) :=
  .behind fun _ => .bind hg fun _ => stays_of_same fun _ => rfl

theorem stays_noteType (name : String) : StaysAtLine r (noteType name) := stays_of_same fun _ => rfl

theorem stays_fresh : StaysAtLine r fresh := stays_of_same fun _ => rfl

theorem stays_hoist (name : String) : StaysAtLine r (hoist name) := by
  refine .bind stays_get fun s => ?_
  split
  · exact stays_pure _
  · exact .bind stays_fresh fun _ => .bind (stays_of_same fun _ => rfl) fun _ => stays_pure _

theorem stays_noteRef (name type : String) (offset : Nat) : StaysAtLine r (noteRef name type offset) := stays_of_same fun _ => rfl

theorem stays_ofComponent (mark : ComponentScope → ComponentScope) (f : ComponentScope → String) :
    StaysAtLine r (ofComponent mark f) := by
  refine stays_of_same fun s => ?_
  rw [ofComponent, after_get_bind]
  split <;> rfl

theorem stays_inComponent (ctx props : String) {g : Gen Unit} (hg : StaysAtLine r g) : StaysAtLine r (inComponent ctx props g) := by
  refine .bind (stays_of_same fun _ => rfl) fun _ => .bind hg fun _ => stays_of_same fun s => ?_
  rw [after_get_bind]
  split <;> rfl

theorem stays_enter : StaysAtLine r enter := by
  refine stays_of_same fun s => ?_
  rw [enter, after_get_bind]
  split
  dsimp only
  split <;> rfl

/-- The marker of an expectation is a line of its own. -/
theorem stays_leave : StaysAtLine r leave := by
  intro s hs
  rw [leave, after_get_bind]
  split
  · exact Code.atLineStart_text _ (t := "\n;\n") rfl
  · rw [Code.atLineStart_iff] at hs ⊢
    exact hs

theorem stays_asNode {g : Gen Unit} (hg : StaysAtLine r g) : StaysAtLine r (asNode g) :=
  .bind stays_enter fun _ => .ite (.bind hg fun _ => stays_leave) (stays_pure _)

/-! ## Listeners, properties and directives -/

theorem stays_writeLoose (ls : List Loose) : StaysAtLine r (writeLoose ls) := by
  induction ls with
  | nil => exact stays_pure ()
  | cons l ls ih => exact (ReachesLine.behind fun _ => .bind (reaches_text rfl) fun _ => ih).stays

theorem reaches_checkListener (eventsVar : String) (d : Directive) : ReachesLine r (checkListener eventsVar d) := by
  refine .behind fun _ => .behind fun _ => .behind fun _ => .ite ?_ ?_
  · exact .behind fun _ => .behind fun _ => .behind fun _ => reaches_text rfl
  · exact .behind fun _ => .behind fun _ => reaches_text rfl

theorem stays_checkListeners (componentVar : String) (eventsVar : Option String) (ds : List Directive) :
    StaysAtLine r (checkListeners componentVar eventsVar ds) := by
  induction ds generalizing eventsVar with
  | nil => exact stays_pure ()
  | cons d ds ih =>
    have hrest := fun name => (ReachesLine.bind (reaches_checkListener (r := r) name d) fun _ => ih (some name))
    cases eventsVar with
    | some name => exact (ReachesLine.behind hrest).stays
    | none => exact (ReachesLine.behind hrest).stays

theorem stays_componentListeners (e : Element) (componentVar : String) : StaysAtLine r (componentListeners e componentVar) :=
  .bind stays_read fun _ => stays_checkListeners componentVar none _

theorem reaches_checkDirective (d : Directive) : ReachesLine r (checkDirective d) := by
  refine .behind fun _ => .behind fun _ => .behind fun _ => .behind fun _ => .behind fun _ => ?_
  exact .behind fun _ => .behind fun _ => .behind fun _ => .behind fun _ => .behind fun _ => reaches_text rfl

theorem stays_checkDirectives (ps : List Property) : StaysAtLine r (checkDirectives ps) := by
  induction ps with
  | nil => exact stays_pure ()
  | cons p ps ih =>
    cases p with
    | plain a => exact ih
    | directive d => exact .whenever (reaches_checkDirective d).stays ih

theorem reaches_propertiesCall (e : Element) : ReachesLine r (propertiesCall e) := by
  refine .behind fun _ => .behind fun _ => .behind fun _ => .behind fun _ => .behind fun _ => .behind fun _ => ?_
  exact .bind (reaches_text rfl) fun _ => stays_pure _

/-! ## Slots -/

theorem stays_noteOutlet (name : String) (offset : Option Nat) (variable' : String) : StaysAtLine r (noteOutlet name offset variable') :=
  .bind (stays_hoist _) fun _ => stays_of_same fun _ => rfl

theorem reaches_declaredOutlet (e : Element) (slots : String) : ReachesLine r (declaredOutlet e slots) := by
  refine .behind fun _ => .behind fun _ => .behind fun _ => .behind fun _ => .behind fun _ => ?_
  exact .behind fun _ => .behind fun _ => .behind fun _ => reaches_text rfl

theorem reaches_dynamicOutlet (name : Markup.Expression) (variable' : String) : ReachesLine r (dynamicOutlet name variable') := by
  refine .behind fun _ => .behind fun _ => .behind fun _ => .bind (reaches_text rfl) fun _ => ?_
  exact .bind (stays_hoist _) fun _ => .bind (stays_hoist _) fun _ => stays_of_same fun _ => rfl

theorem reaches_inferredOutlet (e : Element) (variable' : String) : ReachesLine r (inferredOutlet e variable') := by
  refine .behind fun _ => .behind fun _ => .behind fun _ => .bind (reaches_text rfl) fun _ => ?_
  split
  · split
    · exact stays_noteOutlet _ _ _
    · exact stays_noteOutlet _ _ _
  · split
    · exact (reaches_dynamicOutlet _ _).stays
    · exact stays_noteOutlet _ _ _
  · exact stays_noteOutlet _ _ _

theorem reaches_outlet (e : Element) {inner : Gen Unit} (hinner : StaysAtLine r inner) : ReachesLine r (outlet e inner) := by
  refine .behind fun _ => .behind fun _ => .ite ?_ ?_
  · exact .bind (reaches_declaredOutlet e _) fun _ => hinner
  · exact .bind (reaches_inferredOutlet e _) fun _ => hinner

theorem stays_slotContent (d : Option Directive) (componentVar : String) {inner : Gen Unit} (hinner : StaysAtLine r inner) :
    StaysAtLine r (slotContent d componentVar inner) := by
  refine .bind stays_fresh fun slotVar => ?_
  cases d with
  | none => exact (ReachesLine.behind fun _ => .bind (reaches_line _ rfl) fun _ => stays_inScope hinner).stays
  | some d => exact (ReachesLine.behind fun _ => .behind fun _ => .behind fun _ => .behind fun _ => reaches_text rfl).stays

/-! ## Elements -/

theorem stays_elementRef (e : Element) : StaysAtLine r (elementRef e) := by
  unfold elementRef
  split
  · exact stays_pure _
  · exact .bind stays_read fun _ => .whenever (stays_of_same fun _ => rfl) (stays_pure _)

theorem stays_inheritsAttributes (e : Element) : StaysAtLine r (inheritsAttributes e) := stays_of_same fun _ => rfl

theorem reaches_native (e : Element) {inner : Gen Unit} (hinner : StaysAtLine r inner) : ReachesLine r (native e inner) := by
  refine .behind fun setting => ?_
  extract_lets intrinsics type inherited rooted referred called
  have hrooted : ∀ u, StaysAtLine r (rooted u) := fun _ =>
    .bind (stays_inheritsAttributes e) fun _ => .whenever (stays_of_same fun _ => rfl) hinner
  have hreferred : ∀ u, StaysAtLine r (referred u) := fun _ =>
    .bind (stays_of_same fun _ => rfl) fun _ => .whenever (stays_of_same fun _ => rfl) (hrooted ())
  have hcalled : ∀ u, ReachesLine r (called u) := by
    intro _
    refine .behind fun _ => .bind (reaches_propertiesCall e) fun _ => .bind (stays_writeLoose _) fun _ => ?_
    refine .bind (stays_checkDirectives _) fun _ => .bind (stays_elementRef e) fun ref => ?_
    split
    · exact .bind (stays_of_same fun _ => rfl) fun _ => .bind (stays_noteRef _ _ _) hreferred
    · exact hreferred ()
  refine .behind fun _ => .behind fun _ => ?_
  split
  · exact .behind fun _ => .behind hcalled
  · exact hcalled ()

theorem stays_group (e : Element) {inner : Gen Unit} (hinner : StaysAtLine r inner) : StaysAtLine r (group e inner) := by
  refine .ite ?_ hinner
  exact (ReachesLine.behind fun _ => .behind fun _ => .bind (reaches_propertiesCall e) fun _ => hinner).stays

theorem reaches_componentCall (e : Element) (c : Callee) (v : ComponentVars) (props : Code) :
    ReachesLine r (componentCall e c v props) := by
  unfold componentCall
  extract_lets call
  have hcall : ∀ u, ReachesLine r (call u) := fun _ =>
    .behind fun _ => .behind fun _ => .behind fun _ => .behind fun _ => .behind fun _ => .behind fun _ => reaches_line _ rfl
  refine .behind fun _ => .behind fun _ => .behind fun _ => .behind fun _ => .behind fun _ => .behind fun _ => .behind fun g => ?_
  split
  · exact .behind hcall
  · exact hcall ()

theorem stays_componentInstance (e : Element) (c : Callee) : StaysAtLine r (componentInstance e c) := by
  refine .bind (stays_elementRef e) fun ref => .bind stays_read fun _ => .bind (stays_of_same fun _ => rfl) fun _ => .ite ?_ (stays_pure ())
  refine (ReachesLine.behind fun _ => .behind fun _ => .behind fun _ => .bind (reaches_line _ rfl) fun _ => ?_).stays
  extract_lets rooted
  have hrooted : ∀ u, StaysAtLine r (rooted u) := fun _ => .ite (stays_of_same fun _ => rfl) (stays_pure ())
  split
  · exact .bind (stays_hoist _) fun _ => .bind (stays_noteRef _ _ _) hrooted
  · exact hrooted ()

theorem stays_component (e : Element) (hasChildren : Bool) {inner : Gen Unit} (hinner : StaysAtLine r inner) :
    StaysAtLine r (component e hasChildren inner) := by
  unfold component
  extract_lets slot contents
  have hcontents : ∀ u, StaysAtLine r (contents u) := fun _ =>
    .ite (.bind (stays_ofComponent _ _) fun _ => stays_slotContent _ _ hinner) (stays_pure ())
  refine .bind stays_read fun setting => .bind stays_fresh fun _ => .bind stays_fresh fun _ => .bind stays_fresh fun _ => ?_
  refine .bind stays_fresh fun ctx => .bind stays_fresh fun props => .bind (stays_inComponent ctx props ?_) fun used => ?_
  · refine (ReachesLine.behind fun _ => .behind fun _ => .bind (reaches_componentCall e _ _ _) fun _ => ?_).stays
    refine .bind (stays_writeLoose _) fun _ => .bind (stays_componentListeners e _) fun _ => .bind (stays_checkDirectives _) fun _ => ?_
    refine .bind (stays_componentInstance e _) fun _ => .bind (stays_inheritsAttributes e) fun _ => .ite ?_ (hcontents ())
    exact .bind (stays_ofComponent _ _) fun _ => .bind (stays_of_same fun _ => rfl) hcontents
  · have htypes : ∀ t u, ReachesLine r (text (t ++ (u ++ ">;\n"))) := fun t u =>
      reaches_text (Text.getLast?_toList_append t (Text.getLast?_toList_append u rfl))
    exact .whenever (htypes _ _).stays (.ite (htypes _ _).stays (stays_pure ()))

/-! ## Nodes -/

theorem reaches_branch (isFirst : Bool) (x : Option Markup.Expression) (inner : Gen Unit) : ReachesLine r (branch isFirst x inner) := by
  unfold branch
  extract_lets body
  have hbody : ∀ u, ReachesLine r (body u) := fun _ =>
    .behind fun _ => .behind fun _ => .bind (reaches_text rfl) fun _ => .ite (stays_of_same fun _ => rfl) (stays_pure _)
  refine .behind fun _ => ?_
  cases x with
  | some x => exact .behind hbody
  | none => exact hbody ()

theorem stays_keepingGuards {g : Gen Unit} (hg : StaysAtLine r g) : StaysAtLine r (keepingGuards g) :=
  .bind stays_get fun _ => .bind hg fun _ => stays_of_same fun _ => rfl

theorem reaches_loop (h : LoopHead) (inner : Gen Unit) : ReachesLine r (loop h inner) := by
  refine reaches_inScope (.behind fun _ => .behind fun _ => .behind fun _ => ?_)
  have hbody : ReachesLine r (text ") \x7b\n" >>= fun _ => asLoopBody inner >>= fun _ => text "\x7d\n") :=
    .behind fun _ => .behind fun _ => reaches_text rfl
  split
  · exact .behind fun _ => .behind fun _ => .behind fun _ => hbody
  · exact .behind fun _ => hbody

theorem stays_element (e : Element) (hasChildren : Bool) {inner : Gen Unit} (hinner : StaysAtLine r inner) :
    StaysAtLine r (element e hasChildren inner) := by
  unfold element
  split
  · exact (reaches_outlet e hinner).stays
  · exact (reaches_native e hinner).stays
  · exact stays_component e hasChildren hinner
  · split
    · exact stays_group e hinner
    · refine .bind stays_get fun _ => .ite (stays_group e hinner) ?_
      exact .bind (stays_ofComponent _ _) fun _ => stays_slotContent _ _ hinner

end

/-! ## Interpolations -/

section

variable {r : Setting} {p : Placement} {whole front : List Char} {back : String}

/-- A piece that goes on behind the mapped part ends with what stands there. -/
theorem reaches_piece (hends : back.toList.getLast? = some '\n') {t : List Char} {pos : Nat}
    (hpos : pos + Text.size t = p.before + p.length) (atEnd : Bool) : ReachesLine r (piece p (t ++ back.toList) pos atEnd) := by
  have hinner : p.innerEnd pos (Text.size (t ++ back.toList)) = Text.size t := by
    have hmin : pos + p.innerEnd pos (Text.size (t ++ back.toList)) = min _ _ := innerEnd_eq _ (by omega)
    rw [Text.size_append] at hmin ⊢
    omega
  have hback : Text.between (Text.size t) (Text.size (t ++ back.toList)) (t ++ back.toList) = back.toList := by
    have hrest : Text.Rest (t ++ back.toList) (Text.size t) (back.toList ++ []) := ⟨t, by rw [List.append_nil], rfl⟩
    rw [Text.size_append]
    exact hrest.between_eq
  have hlast : ReachesLine r (text (String.ofList (Text.between (p.innerEnd pos (Text.size (t ++ back.toList)))
      (Text.size (t ++ back.toList)) (t ++ back.toList)))) := by
    rw [hinner, hback, String.ofList_toList]
    exact reaches_text hends
  rw [piece_eq]
  exact .behind fun _ => .behind fun _ => .behind fun _ => .ite (.behind fun _ => hlast) hlast

/-- What stands behind the mapped part is written last, if no free name reaches into it. -/
theorem reaches_useNames (hends : back.toList.getLast? = some '\n') (hwhole : whole = front ++ back.toList)
    (hfront : Text.size front = p.before + p.length) {prev : Nat} (hprev : Text.IsPlace whole prev ∧ prev ≤ p.before + p.length)
    {ns : List Reference} (hns : ∀ n ∈ ns, Text.IsPlace whole (stopOf n) ∧ stopOf n ≤ p.before + p.length) :
    ReachesLine r (useNames p whole prev ns) := by
  induction ns generalizing prev with
  | nil =>
    obtain ⟨⟨rest, hrest⟩, hle⟩ := hprev
    have hbehind : Text.Rest whole (Text.size front) back.toList := ⟨front, hwhole, rfl⟩
    obtain ⟨t, rfl, hsize⟩ := hrest.split hbehind (by omega)
    have hpos : 0 < Text.size back.toList := Text.size_pos fun hnil => by rw [hnil] at hends; cases hends
    have hlt : prev < Text.size whole := by
      rw [hwhole, Text.size_append]
      omega
    rw [useNames, if_pos hlt, cutPiece, Text.between_size (Nat.le_of_lt hlt), hrest.after_eq]
    exact .behind fun _ => reaches_piece hends (by omega) true
  | cons n ns ih =>
    have hrest : ∀ m ∈ ns, Text.IsPlace whole (stopOf m) ∧ stopOf m ≤ p.before + p.length := fun m hm => hns m (List.mem_cons_of_mem n hm)
    unfold useNames
    exact .behind fun _ => .ite (ih hprev hrest) (.behind fun _ => ih (hns n List.mem_cons_self) hrest)

/-- An expression ends with what is put behind it, if the names in it are found where they are. -/
theorem reaches_expression (hr : Sense.verbatim.Reads r.reader) (code : String) (start : Nat) (front : String)
    (hpunct : Text.IsPunct back) (hends : back.toList.getLast? = some '\n') : ReachesLine r (expression code start front back) := by
  refine .read ?_
  have hwhole : (front ++ code ++ back).toList = (front ++ code).toList ++ back.toList := String.toList_append
  have hfront : Text.size (front ++ code).toList = front.utf8ByteSize + code.utf8ByteSize := by
    rw [Text.size_toList, String.utf8ByteSize_append]
  refine reaches_useNames hends hwhole hfront ⟨Text.isPlace_zero _, Nat.zero_le _⟩ ?_
  unfold namesIn
  split
  · intro n hn
    rw [List.mem_singleton.1 hn]
    exact ⟨⟨back.toList, _, hwhole, hfront⟩, Nat.le_refl _⟩
  · intro n hn
    obtain ⟨hstands, -, hstop⟩ := hr.free hpunct n hn
    have hplace : Text.IsPlace (front ++ code ++ back).toList (n.offset + Text.size n.name.toList) := hstands.isPlace_stop
    rw [Text.size_toList] at hplace
    exact ⟨hplace, hstop⟩

theorem reaches_interpolation (hr : Sense.verbatim.Reads r.reader) (x : Markup.Expression) : ReachesLine r (interpolation x) :=
  .behind fun _ => reaches_expression hr _ _ _ (by simp [Text.IsPunct, Text.isPunct]) rfl

end

/-! ## Templates and styles -/

section

variable {r : Setting}

mutual

/-- A node ends its lines. -/
theorem stays_node (hr : Sense.verbatim.Reads r.reader) (x : Node) : StaysAtLine r (node x) := by
  cases x with
  | comment span data => exact stays_of_same fun _ => rfl
  | text span data => exact stays_asNode (stays_pure ())
  | interpolation span e => exact stays_asNode (reaches_interpolation hr e).stays
  | element e children => exact stays_asNode (stays_element e _ (stays_nodes hr children))
  | loop span h children => exact stays_asNode (reaches_loop h _).stays
  | chain span bs => exact stays_asNode (stays_keepingGuards (stays_branches hr true bs))

theorem stays_nodes (hr : Sense.verbatim.Reads r.reader) (xs : List Node) : StaysAtLine r (nodes xs) := by
  cases xs with
  | nil => exact stays_pure ()
  | cons x xs => exact .bind (stays_node hr x) fun _ => stays_nodes hr xs

theorem stays_branches (hr : Sense.verbatim.Reads r.reader) (isFirst : Bool) (bs : List Branch) : StaysAtLine r (branches isFirst bs) := by
  cases bs with
  | nil => exact stays_pure ()
  | cons b bs =>
    obtain ⟨span, x, children⟩ := b
    exact .bind (reaches_branch isFirst x _).stays fun _ => stays_branches hr false bs

end

theorem stays_hoistedVariables : StaysAtLine r hoistedVariables :=
  .bind stays_get fun _ => .ite (reaches_line _ rfl).stays (stays_pure ())

theorem stays_slotsType : StaysAtLine r slotsType := by
  refine .bind stays_get fun _ => .bind stays_read fun _ => .ite ?_ (stays_pure ())
  exact (ReachesLine.behind fun _ => .behind fun _ => .behind fun _ => .behind fun _ => reaches_text rfl).stays

theorem stays_inheritedType : StaysAtLine r inheritedType :=
  .bind stays_get fun _ => .ite (.bind (stays_noteType _) fun _ => (reaches_line _ rfl).stays) (stays_pure ())

theorem stays_refsType : StaysAtLine r refsType := by
  refine .bind stays_get fun _ => .ite ?_ (stays_pure ())
  exact (ReachesLine.behind fun _ => .behind fun _ => .behind fun _ => reaches_text rfl).stays

theorem stays_rootType : StaysAtLine r rootType :=
  .bind stays_get fun _ => .bind stays_read fun _ => .ite (.bind (stays_noteType _) fun _ => (reaches_line _ rfl).stays) (stays_pure ())

theorem stays_dollarMembers : StaysAtLine r dollarMembers :=
  .bind stays_read fun _ => .bind stays_get fun _ => .ite (reaches_line _ rfl).stays (stays_pure ())

/-- A template ends its lines. -/
theorem stays_template (hr : Sense.verbatim.Reads r.reader) (f : Option Fragment) : StaysAtLine r (template f) := by
  refine .bind stays_read fun _ => stays_inScope (.bind (stays_declare _) fun _ => ?_)
  extract_lets declarations
  have hdeclarations : ∀ u, StaysAtLine r (declarations u) := fun _ =>
    .bind stays_hoistedVariables fun _ => .bind stays_slotsType fun _ => .bind stays_inheritedType fun _ =>
      .bind stays_refsType fun _ => .bind stays_rootType fun _ => stays_dollarMembers
  cases f with
  | some f => exact .bind (stays_nodes hr f.nodes) hdeclarations
  | none => exact hdeclarations ()

theorem stays_moduleTypes (ss : List StyleBlock) : StaysAtLine r (moduleTypes ss) :=
  .ite (ReachesLine.behind fun _ => .behind fun _ => .behind fun _ => reaches_text rfl).stays (stays_pure ())

theorem stays_styleBindings (s : StyleBlock × Nat) : StaysAtLine r (styleBindings s) :=
  stays_forM fun _ _ => (ReachesLine.behind fun _ => reaches_text rfl).stays

/-- Styles end their lines. -/
theorem stays_styles (ss : List StyleBlock) : StaysAtLine r (styles ss) :=
  .bind stays_read fun _ => stays_inScope (.bind (stays_declare _) fun _ => .bind (stays_moduleTypes ss) fun _ =>
    stays_forM fun s _ => stays_styleBindings s)

end

end Generate

end TypedSfc
