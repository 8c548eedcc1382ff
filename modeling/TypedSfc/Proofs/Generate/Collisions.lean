import TypedSfc.Document.Split
import TypedSfc.Generate.Macro
import TypedSfc.Script.References

/-!
# When macros collide

What becomes of a macro is stated as edits of the script, without a look at the other macros. The edits of one macro never get in each
other's way. Those of two macros do when one of them stands within what the other one replaces, as an argument that is moved away with
the calls in it as they are.
-/

namespace TypedSfc

namespace Span

/-- Whether one span ends before the other starts, or where it does. -/
def Apart (s t : Span) : Prop := s.stop ≤ t.start ∨ t.stop ≤ s.start

instance (s t : Span) : Decidable (s.Apart t) := inferInstanceAs (Decidable (_ ∨ _))

theorem encloses_iff {s t : Span} : s.encloses t = true ↔ s.start ≤ t.start ∧ t.stop ≤ s.stop := by
  simp [encloses]

theorem Apart.symm {s t : Span} (h : s.Apart t) : t.Apart s := Or.symm h

/-- Spans within spans that are apart are apart. -/
theorem Apart.mono {s t s' t' : Span} (h : s.Apart t) (hs : s.encloses s') (ht : t.encloses t') : s'.Apart t' := by
  rw [encloses_iff] at hs ht
  unfold Apart at h ⊢
  omega

/-- A place is apart from a span unless it lies strictly within. -/
theorem apart_empty {s : Span} {n : Nat} : s.Apart (empty n) ↔ ¬(s.start < n ∧ n < s.stop) := by
  simp only [Apart, empty]
  omega

end Span

/-! ## Places as a tree gives them -/

/-- A span that lies within another one. -/
structure Span.Within (s t : Span) : Prop where
  le : s.start ≤ s.stop
  start : t.start ≤ s.start
  stop : s.stop ≤ t.stop

instance (s t : Span) : Decidable (s.Within t) :=
  decidable_of_iff (s.start ≤ s.stop ∧ t.start ≤ s.start ∧ s.stop ≤ t.stop)
    ⟨fun h => ⟨h.1, h.2.1, h.2.2⟩, fun h => ⟨h.le, h.start, h.stop⟩⟩

theorem Span.Within.trans {s t u : Span} (h : s.Within t) (h' : t.Within u) : s.Within u :=
  ⟨h.le, Nat.le_trans h'.start h.start, Nat.le_trans h.stop h'.stop⟩

/-- What is read off a call lies in the call. -/
structure Script.CallPlaces.Nests (c : Script.CallPlaces) : Prop where
  call : c.call.start ≤ c.call.stop
  arg : ∀ a ∈ c.arg, a.Within c.call
  typeArg : ∀ t ∈ c.typeArg, t.Within c.call

instance (c : Script.CallPlaces) : Decidable c.Nests :=
  decidable_of_iff (c.call.start ≤ c.call.stop ∧ (∀ a ∈ c.arg, a.Within c.call) ∧ ∀ t ∈ c.typeArg, t.Within c.call)
    ⟨fun h => ⟨h.1, h.2.1, h.2.2⟩, fun h => ⟨h.call, h.arg, h.typeArg⟩⟩

/-- The call lies in its statement. -/
structure Script.Assigned.Nests (a : Script.Assigned) : Prop where
  places : a.call.Nests
  statement : a.call.call.Within a.statement

instance (a : Script.Assigned) : Decidable a.Nests :=
  decidable_of_iff (a.call.Nests ∧ a.call.call.Within a.statement) ⟨fun h => ⟨h.1, h.2⟩, fun h => ⟨h.places, h.statement⟩⟩

namespace Script.Setup

/-- The macros that stand for something of the component. -/
def assigned (r : Setup) : List Assigned := (r.props.map (·.assigned)).toList ++ r.emits.toList ++ r.slots.toList

/-- The calls that are rewritten where they stand. -/
def plainCalls (r : Setup) : List CallPlaces :=
  r.withDefaults.toList ++ r.expose.toList ++ r.attrs ++ r.cssModules ++ r.slotUses ++ r.templateRefs.map (·.call)

/-- The calls of a script. -/
def calls (r : Setup) : List CallPlaces := r.assigned.map (·.call) ++ r.plainCalls

/-- What is read off a script has the places of a tree: in the script, its calls apart or one in the other, and their arguments and
statements around each other. -/
structure Nests (r : Setup) (size : Nat) : Prop where
  assigned : ∀ a ∈ r.assigned, a.Nests ∧ a.statement.stop ≤ size
  plainCalls : ∀ c ∈ r.plainCalls, c.Nests ∧ c.call.stop ≤ size
  calls : r.calls.Pairwise fun c d => c.call.Apart d.call ∨ c.call.encloses d.call ∨ d.call.encloses c.call

instance (r : Setup) (size : Nat) : Decidable (r.Nests size) :=
  decidable_of_iff ((∀ a ∈ r.assigned, a.Nests ∧ a.statement.stop ≤ size) ∧ (∀ c ∈ r.plainCalls, c.Nests ∧ c.call.stop ≤ size) ∧
    r.calls.Pairwise fun c d => c.call.Apart d.call ∨ c.call.encloses d.call ∨ d.call.encloses c.call)
    ⟨fun h => ⟨h.1, h.2.1, h.2.2⟩, fun h => ⟨h.assigned, h.plainCalls, h.calls⟩⟩

end Script.Setup

namespace Generate

/-- Whether two edits are apart. -/
def Edit.Apart (e f : Edit) : Prop := e.span.Apart f.span

instance (e f : Edit) : Decidable (e.Apart f) := inferInstanceAs (Decidable (e.span.Apart f.span))

namespace SetupEdits

/-! ## Macros one by one -/

/-- A macro in a script, by what becomes of it. -/
inductive Use where
  | definition (d : Definition)
  | exposed (c : Script.CallPlaces)
  | dollar (member : String) (c : Script.CallPlaces)
  | styleModule (c : Script.CallPlaces)
  | templateRef (c : Script.CallPlaces)

/-- The edits of a macro. -/
def Use.edits (s : Scene) (q : SetupScript) : Use → List Edit
  | .definition d => d.edits q
  | .exposed c => exposeEdits q c
  | .dollar member c => dollarEdits member c
  | .styleModule c => moduleEdits s q c
  | .templateRef c => refEdits s q c

/-- The macros of a script. -/
def uses (s : Scene) (q : SetupScript) : List Use :=
  (definitions q).map .definition ++
  q.setup.expose.toList.map .exposed ++
  (if s.options.flag .inferTemplateDollarAttrs then q.setup.attrs.map (.dollar "$attrs") else []) ++
  q.setup.cssModules.map .styleModule ++
  (if s.options.flag .inferTemplateDollarSlots then q.setup.slotUses.map (.dollar "$slots") else []) ++
  q.setup.templateRefs.map fun r => .templateRef r.call

theorem all_eq (s : Scene) (q : SetupScript) : all s q = (uses s q).flatMap (Use.edits s q) := by
  have hexpose : (q.setup.expose.map (exposeEdits q)).getD [] = (q.setup.expose.toList.map Use.exposed).flatMap (Use.edits s q) := by
    cases q.setup.expose with
    | none => rfl
    | some c => exact (List.append_nil _).symm
  have hdollar : ∀ (flag : Bool) (member : String) (cs : List Script.CallPlaces),
      (if flag = true then cs.flatMap (dollarEdits member) else []) =
        (if flag = true then cs.map (Use.dollar member) else []).flatMap (Use.edits s q) := by
    intro flag member cs
    split
    · rw [List.flatMap_map]
      rfl
    · rfl
  simp only [all, uses, List.flatMap_append, List.flatMap_map, hexpose, hdollar]
  rfl

/-! ## What a macro touches -/

/-- What a definition without a variable moves when its statement holds more than the call: everything up to the end of the call, but
for a type argument. -/
def Definition.moved (d : Definition) : List Span :=
  if d.assigned || d.statement = d.call then []
  else
    match d.typeArg with
    | some t => [⟨d.statement.start, t.start⟩, ⟨t.stop, d.call.stop⟩]
    | none => [⟨d.statement.start, d.call.stop⟩]

/-- The ranges that a macro replaces. -/
def Use.replaced (s : Scene) : Use → List Span
  | .definition d => d.typeArg.toList ++ d.moved
  | .exposed c => (c.typeArg.or c.arg).toList
  | .dollar .. => []
  | .styleModule c => c.arg.toList
  | .templateRef c => if c.typeArg.isSome then [] else (c.arg.filter fun _ => s.hasType "TemplateRefs").toList

/-- The places at which a macro puts something in. -/
def Use.inserted : Use → List Nat
  | .definition d =>
    d.typeArg.toList.map (fun _ => d.statement.start) ++ if !d.assigned && d.statement = d.call then [d.call.start] else []
  | .exposed c => [c.call.start]
  | .dollar _ c | .styleModule c => [c.call.start, c.call.stop]
  | .templateRef c => if c.typeArg.isSome then [] else [c.call.start, c.call.stop]

theorem Definition.spans_typeEdits (q : SetupScript) (d : Definition) :
    (d.typeEdits q).map (·.span) = d.typeArg.toList.flatMap fun t => [Span.empty d.statement.start, t] := by
  unfold typeEdits
  split <;> rename_i heq <;> rw [heq] <;> rfl

theorem Definition.spans_valueEdits (q : SetupScript) (d : Definition) : (d.valueEdits q).map (·.span) =
    (if !d.assigned && d.statement = d.call then [Span.empty d.call.start] else []) ++ d.moved := by
  unfold valueEdits moved
  extract_lets declare before
  cases d.assigned with
  | true => rfl
  | false =>
    by_cases hsame : d.statement = d.call
    · simp [hsame, Edit.insert]
    · cases d.typeArg <;> simp [hsame]

/-- The edits of a macro are its insertions and its replacements. -/
theorem Use.mem_spans (s : Scene) (q : SetupScript) (u : Use) (r : Span) :
    r ∈ (u.edits s q).map (·.span) ↔ r ∈ u.inserted.map Span.empty ∨ r ∈ u.replaced s := by
  cases u with
  | definition d =>
    rw [edits, Definition.edits, List.map_append, d.spans_typeEdits, d.spans_valueEdits, replaced, inserted]
    obtain ⟨statement, call, typeArg, assigned, variable', type⟩ := d
    cases typeArg <;> cases assigned <;> by_cases hsame : statement = call <;> simp [hsame, or_left_comm]
  | exposed c =>
    obtain ⟨call, callee, arg, typeArg⟩ := c
    cases typeArg <;> cases arg <;> simp [edits, exposeEdits, replaced, inserted, Edit.insert]
  | dollar member c => simp [edits, dollarEdits, castEdits, replaced, inserted, Edit.insert]
  | styleModule c =>
    obtain ⟨call, callee, arg, typeArg⟩ := c
    cases arg <;> simp [edits, moduleEdits, replaced, inserted, castEdits, Edit.insert, anyArgument, or_assoc]
  | templateRef c =>
    obtain ⟨call, callee, arg, typeArg⟩ := c
    cases typeArg with
    | some t => simp [edits, refEdits, replaced, inserted]
    | none =>
      rw [edits, refEdits, replaced, inserted]
      cases arg.filter fun _ => s.hasType "TemplateRefs" <;> simp [castEdits, Edit.insert, anyArgument, or_comm]

/-! ## Edits of one macro -/

/-- What is read off a macro lies in it. -/
def Use.Nests : Use → Prop
  | .definition d => d.statement.start ≤ d.statement.stop ∧ ∀ t ∈ d.typeArg, t.Within d.statement
  | .exposed c | .dollar _ c | .styleModule c | .templateRef c => c.Nests

/-- An argument that is replaced lies between the places where something is put before and behind its call. -/
theorem pairwise_castEdits {c : Script.CallPlaces} (hc : c.call.start ≤ c.call.stop) {a : Span} (ha : a.Within c.call)
    (type ps : List Piece) : (⟨a, ps⟩ :: castEdits c type).Pairwise Edit.Apart := by
  obtain ⟨-, hstart, hstop⟩ := ha
  simp only [castEdits, Edit.insert, List.pairwise_cons, List.mem_cons, List.not_mem_nil, or_false, forall_eq_or_imp, forall_eq,
    Edit.Apart, Span.Apart, Span.empty, false_implies, implies_true, List.Pairwise.nil, and_true]
  omega

/-- The edits of one macro are apart. -/
theorem Use.Nests.pairwise {u : Use} (h : u.Nests) (s : Scene) (q : SetupScript) : (u.edits s q).Pairwise Edit.Apart := by
  cases u with
  | definition d =>
    obtain ⟨statement, call, typeArg, assigned, variable', type⟩ := d
    cases typeArg with
    | none =>
      cases assigned <;> by_cases hsame : statement = call <;>
        simp [Use.edits, Definition.edits, Definition.typeEdits, Definition.valueEdits, hsame]
    | some t =>
      obtain ⟨hle, hstart, -⟩ : t.Within statement := h.2 t rfl
      have htype : (Span.empty statement.start).Apart t := .inl hstart
      cases assigned with
      | true => simpa [Use.edits, Definition.edits, Definition.typeEdits, Definition.valueEdits, Edit.insert, Edit.Apart] using htype
      | false =>
        by_cases hsame : statement = call
        · subst hsame
          simp [Use.edits, Definition.edits, Definition.typeEdits, Definition.valueEdits, Edit.insert, Edit.Apart, Span.Apart, Span.empty]
          omega
        · simp [Use.edits, Definition.edits, Definition.typeEdits, Definition.valueEdits, hsame, Edit.insert, Edit.Apart, Span.Apart,
            Span.empty]
          omega
  | exposed c =>
    obtain ⟨call, callee, arg, typeArg⟩ := c
    obtain ⟨-, harg, htype⟩ := h
    have hbefore : ∀ a : Span, a.Within call → (Span.empty call.start).Apart a := fun a ha => .inl ha.start
    cases typeArg with
    | some t => simpa [Use.edits, exposeEdits, Edit.insert, Edit.Apart] using hbefore t (htype t rfl)
    | none =>
      cases arg with
      | some a => simpa [Use.edits, exposeEdits, Edit.insert, Edit.Apart] using hbefore a (harg a rfl)
      | none => simp [Use.edits, exposeEdits]
  | dollar member c =>
    have hempty : (Span.empty c.call.start).Within c.call := ⟨Nat.le_refl _, Nat.le_refl _, h.call⟩
    exact (List.pairwise_cons.1 (pairwise_castEdits h.call hempty _ [])).2
  | styleModule c =>
    have hempty : (Span.empty c.call.start).Within c.call := ⟨Nat.le_refl _, Nat.le_refl _, h.call⟩
    rw [Use.edits, moduleEdits]
    split
    · rename_i a ha
      exact (List.perm_append_singleton _ _).pairwise_iff (fun h => Span.Apart.symm h) |>.2 (pairwise_castEdits h.call (h.arg a ha) _ _)
    · exact (List.pairwise_cons.1 (pairwise_castEdits h.call hempty _ [])).2
  | templateRef c =>
    have hempty : (Span.empty c.call.start).Within c.call := ⟨Nat.le_refl _, Nat.le_refl _, h.call⟩
    rw [Use.edits, refEdits]
    split
    · exact .nil
    · dsimp only
      split
      · rename_i a ha
        exact pairwise_castEdits h.call (h.arg a (Option.filter_eq_some_iff.1 ha).1) _ _
      · exact (List.pairwise_cons.1 (pairwise_castEdits h.call hempty _ [])).2

/-- The macros of a script whose places are those of a tree. -/
theorem nests_of_mem_uses {s : Scene} {q : SetupScript} {size : Nat} (h : q.setup.Nests size) {u : Use} (hu : u ∈ uses s q) : u.Nests := by
  have hdefinition : ∀ (a : Script.Assigned) (call : Span) (variableKey typeKey : String), a ∈ q.setup.assigned →
      (Use.definition (.of a call variableKey typeKey)).Nests := by
    intro a _ _ _ ha
    obtain ⟨hplaces, hstatement⟩ := (h.assigned a ha).1
    exact ⟨Nat.le_trans hstatement.start (Nat.le_trans hstatement.le hstatement.stop), fun t ht => (hplaces.typeArg t ht).trans hstatement⟩
  have hplain : ∀ c ∈ q.setup.plainCalls, c.Nests := fun c hc => (h.plainCalls c hc).1
  have hmap : ∀ {cs : List Script.CallPlaces} (f : Script.CallPlaces → Use), (∀ c : Script.CallPlaces, c.Nests → (f c).Nests) →
      u ∈ cs.map f → (∀ c ∈ cs, c ∈ q.setup.plainCalls) → u.Nests := by
    intro cs f hf hu hcs
    obtain ⟨c, hc, rfl⟩ := List.mem_map.1 hu
    exact hf c (hplain c (hcs c hc))
  simp only [uses, List.mem_append] at hu
  obtain ((((hu | hu) | hu) | hu) | hu) | hu := hu
  · obtain ⟨d, hd, rfl⟩ := List.mem_map.1 hu
    simp only [definitions, List.mem_append] at hd
    obtain (hd | hd) | hd := hd <;> split at hd <;> simp only [List.mem_singleton, List.not_mem_nil] at hd <;> subst hd <;>
      rename_i heq <;> exact hdefinition _ _ _ _ (by simp [Script.Setup.assigned, heq])
  · exact hmap .exposed (fun _ hc => hc) hu fun c hc => by simp [Script.Setup.plainCalls, Option.mem_toList.1 hc]
  · split at hu
    · exact hmap (.dollar _) (fun _ hc => hc) hu fun c hc => by simp [Script.Setup.plainCalls, hc]
    · cases hu
  · exact hmap .styleModule (fun _ hc => hc) hu fun c hc => by simp [Script.Setup.plainCalls, hc]
  · split at hu
    · exact hmap (.dollar _) (fun _ hc => hc) hu fun c hc => by simp [Script.Setup.plainCalls, hc]
    · cases hu
  · obtain ⟨r, hr, rfl⟩ := List.mem_map.1 hu
    exact hplain r.call (List.mem_append_right _ (List.mem_map.2 ⟨r, hr, rfl⟩))

/-! ## Edits of different macros -/

/-- Whether neither of two macros replaces anything that the other one replaces, or within which the other one puts something in. -/
structure Use.Clear (s : Scene) (u v : Use) : Prop where
  replaced : ∀ r ∈ u.replaced s, ∀ r' ∈ v.replaced s, r.Apart r'
  left : ∀ r ∈ u.replaced s, ∀ n ∈ v.inserted, ¬(r.start < n ∧ n < r.stop)
  right : ∀ r ∈ v.replaced s, ∀ n ∈ u.inserted, ¬(r.start < n ∧ n < r.stop)

/-- The edits of two macros are apart just when the macros are clear of each other. -/
theorem Use.clear_iff {s : Scene} {q : SetupScript} {u v : Use} :
    (∀ e ∈ u.edits s q, ∀ f ∈ v.edits s q, e.Apart f) ↔ u.Clear s v := by
  have hspans : (∀ e ∈ u.edits s q, ∀ f ∈ v.edits s q, e.Apart f) ↔
      ∀ r ∈ (u.edits s q).map (·.span), ∀ r' ∈ (v.edits s q).map (·.span), r.Apart r' := by
    simp only [List.forall_mem_map]
    rfl
  rw [hspans]
  simp only [u.mem_spans, v.mem_spans, or_imp, forall_and, List.forall_mem_map]
  constructor
  · rintro ⟨⟨-, hleft⟩, hright, hreplaced⟩
    exact ⟨hreplaced, fun r hr n hn => Span.apart_empty.1 (hleft r hr n hn), fun r hr n hn => Span.apart_empty.1 (hright n hn r hr).symm⟩
  · rintro ⟨hreplaced, hleft, hright⟩
    refine ⟨⟨fun n _ n' _ => ?_, fun r hr n hn => Span.apart_empty.2 (hleft r hr n hn)⟩,
      fun n hn r hr => (Span.apart_empty.2 (hright r hr n hn)).symm, hreplaced⟩
    -- Two insertions are never in each other's way.
    rw [Span.apart_empty]
    dsimp only [Span.empty]
    omega

/-- The range around a macro: its call, and the statement of a definition. -/
def Use.around : Use → Span
  | .definition d => d.statement.cover d.call
  | .exposed c | .dollar _ c | .styleModule c | .templateRef c => c.call

/-- A macro puts things in only in the range around it. -/
theorem Use.Nests.inserted_around {u : Use} (h : u.Nests) {n : Nat} (hn : n ∈ u.inserted) : u.around.encloses (Span.empty n) = true := by
  rw [Span.encloses_iff]
  have hcall : ∀ c : Script.CallPlaces, c.Nests → n = c.call.start ∨ n = c.call.stop → c.call.start ≤ n ∧ n ≤ c.call.stop := by
    intro c hc hn
    have := hc.call
    omega
  cases u with
  | definition d =>
    have hn : n = d.statement.start ∨ n = d.call.start ∧ d.statement = d.call := by
      simp only [inserted, List.mem_append, List.mem_map] at hn
      rcases hn with ⟨_, -, rfl⟩ | hn
      · exact .inl rfl
      · split at hn
        · rename_i hsame
          exact .inr ⟨List.mem_singleton.1 hn, by simpa using (Bool.and_eq_true_iff.1 hsame).2⟩
        · cases hn
    have hle := h.1
    have hstart : n = d.statement.start := by
      rcases hn with hn | ⟨hn, hsame⟩
      · exact hn
      · rw [hsame, hn]
    show min d.statement.start d.call.start ≤ n ∧ n ≤ max d.statement.stop d.call.stop
    omega
  | exposed c => exact hcall c h (.inl (List.mem_singleton.1 hn))
  | dollar _ c | styleModule c => exact hcall c h (by simpa [inserted] using hn)
  | templateRef c =>
    rw [inserted] at hn
    split at hn
    · cases hn
    · exact hcall c h (by simpa using hn)

/-- A macro replaces something only in the range around it. -/
theorem Use.Nests.replaced_around {u : Use} (h : u.Nests) {s : Scene} {r : Span} (hr : r ∈ u.replaced s) : u.around.encloses r = true := by
  have hwithin : ∀ {r t : Span}, r.Within t → t.encloses r = true := fun h => Span.encloses_iff.2 ⟨h.start, h.stop⟩
  cases u with
  | definition d =>
    have htype : ∀ t ∈ d.typeArg, d.statement.start ≤ t.start ∧ t.start ≤ t.stop ∧ t.stop ≤ d.statement.stop :=
      fun t ht => ⟨(h.2 t ht).start, (h.2 t ht).le, (h.2 t ht).stop⟩
    rw [Span.encloses_iff]
    show min d.statement.start d.call.start ≤ r.start ∧ r.stop ≤ max d.statement.stop d.call.stop
    rcases List.mem_append.1 hr with hr | hr
    · have := htype r (Option.mem_toList.1 hr)
      omega
    · have hle := h.1
      unfold Definition.moved at hr
      split at hr
      · cases hr
      · split at hr
        · rename_i t ht
          have := htype t ht
          simp only [List.mem_cons, List.not_mem_nil, or_false] at hr
          rcases hr with rfl | rfl <;> dsimp only <;> omega
        · obtain rfl := List.mem_singleton.1 hr
          dsimp only
          omega
  | exposed c =>
    have hr : c.typeArg.or c.arg = some r := Option.mem_toList.1 hr
    rcases Option.or_eq_some_iff.1 hr with hr | ⟨-, hr⟩
    · exact hwithin (h.typeArg r hr)
    · exact hwithin (h.arg r hr)
  | dollar _ c => cases hr
  | styleModule c => exact hwithin (h.arg r (Option.mem_toList.1 hr))
  | templateRef c =>
    rw [replaced] at hr
    split at hr
    · cases hr
    · exact hwithin (h.arg r (Option.filter_eq_some_iff.1 (Option.mem_toList.1 hr)).1)

/-- A macro has all its edits in the range around it. -/
theorem Use.Nests.encloses {u : Use} (h : u.Nests) {s : Scene} {q : SetupScript} {e : Edit} (he : e ∈ u.edits s q) :
    u.around.encloses e.span = true := by
  rcases (u.mem_spans s q e.span).1 (List.mem_map_of_mem he) with hmem | hmem
  · obtain ⟨n, hn, heq⟩ := List.mem_map.1 hmem
    rw [← heq]
    exact h.inserted_around hn
  · exact h.replaced_around hmem

/-- Macros apart from each other are clear of each other. -/
theorem Use.clear_of_apart {s : Scene} {q : SetupScript} {u v : Use} (hu : u.Nests) (hv : v.Nests) (h : u.around.Apart v.around) :
    u.Clear s v :=
  Use.clear_iff (q := q) |>.1 fun _ he _ hf => h.mono (hu.encloses he) (hv.encloses hf)

/-- Macros collide just when one of them stands in what another one replaces: for a script with the places of a tree, its edits are apart
from each other if and only if no macro replaces anything that another one replaces or within which another one puts something in. So
they are apart when the macros are. -/
theorem pairwise_apart_iff {s : Scene} {q : SetupScript} (h : q.setup.Nests q.block.size) :
    ((all s q).Pairwise Edit.Apart ↔ (uses s q).Pairwise (Use.Clear s)) ∧
      ((uses s q).Pairwise (fun u v => u.around.Apart v.around) → (all s q).Pairwise Edit.Apart) := by
  have hiff : (all s q).Pairwise Edit.Apart ↔ (uses s q).Pairwise (Use.Clear s) := by
    rw [all_eq, List.pairwise_flatMap]
    simp only [Use.clear_iff]
    exact and_iff_right fun u hu => (nests_of_mem_uses h hu).pairwise s q
  refine ⟨hiff, fun hapart => hiff.2 (hapart.imp_of_mem fun hu hv huv => ?_)⟩
  exact Use.clear_of_apart (q := q) (nests_of_mem_uses h hu) (nests_of_mem_uses h hv) huv

/-! ## A reference within what is exposed -/

/-- The setup script of a document. -/
def setupOf (source : String) : SetupScript :=
  let b := (Document.split source).1.scriptSetup.getD default
  .ofModule default b (Script.Module.read b.content b.lang)

/-- A reference in a statement of its own. -/
def namedRef : String := "<script setup lang=\"ts\">\nconst el = useTemplateRef('el')\ndefineExpose(\x7b el \x7d)\n</script>"

/-- Macros in statements of their own do not collide. -/
theorem pairwise_apart_namedRef : (setupOf namedRef).setup.Nests (setupOf namedRef).block.size ∧
    (uses default (setupOf namedRef)).Pairwise (fun u v => u.around.Apart v.around) ∧
    (all default (setupOf namedRef)).Pairwise Edit.Apart := by
  have hnests : (setupOf namedRef).setup.Nests (setupOf namedRef).block.size := by decide +kernel
  have hapart : (uses default (setupOf namedRef)).Pairwise fun u v => u.around.Apart v.around := by decide +kernel
  exact ⟨hnests, hapart, (pairwise_apart_iff hnests).2 hapart⟩

/-- The same reference in what is exposed. -/
def exposedRef : String := "<script setup lang=\"ts\">\ndefineExpose(\x7b el: useTemplateRef('el') \x7d)\n</script>"

/-- The places of the two calls are those of a tree, and the reference is to be put in parentheses in the middle of the argument that is
moved away. -/
theorem not_pairwise_apart_exposedRef : (setupOf exposedRef).setup.Nests (setupOf exposedRef).block.size ∧
    ¬(all default (setupOf exposedRef)).Pairwise Edit.Apart := by
  decide +kernel

end SetupEdits

end Generate

end TypedSfc
