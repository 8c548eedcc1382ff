import Mathlib.Data.List.DropRight
import Mathlib.Data.List.Forall2
import TypedSfc.Proofs.Document.Comments

/-!
# Bindings of style sheets

A binding is the mark `v-bind(` with an argument in quotes, or with an identifier, and a closing parenthesis, white space around the
argument aside. At a position stands one binding or none: `binds_iff` reads it off the text. The search goes from the left, takes a
binding where one stands, and goes on behind it, so what it passes is no binding or begins within one that was taken.
-/

namespace TypedSfc

namespace Stylesheet

/-- The argument of a binding, between what comes in front of it and what comes behind. -/
inductive Argument : List Char → List Char → List Char → Prop
  /-- A text that is not empty, in quotes that are not in it. -/
  | quoted {q : Char} {own : List Char} (quote : q = '\x22' ∨ q = '\x27') (nonempty : own ≠ []) (first : q ∉ own) : Argument [q] own [q]
  /-- An identifier. -/
  | name {c : Char} {cs : List Char} (letter : c.isAlpha = true ∨ c = '_') (word : ∀ d ∈ cs, isWord d = true) : Argument [] (c :: cs) []

/-- Behind its mark a binding is completed by its argument, at `start` and of a length, and ends `all` behind the mark. -/
def Completes (cs : List Char) (start length all : Nat) : Prop :=
  ∃ lead left own right trail behind, cs = lead ++ (left ++ (own ++ (right ++ (trail ++ ')' :: behind)))) ∧
    (∀ c ∈ lead, Text.isAsciiBlank c = true) ∧ Argument left own right ∧ (∀ c ∈ trail, Text.isAsciiBlank c = true) ∧
    start = Text.size lead + Text.size left ∧ length = Text.size own ∧ all = start + length + Text.size right + (Text.size trail + 1)

/-- The places of a binding and of the argument in it. -/
structure Binding where
  whole : Span
  argument : Span

/-- A binding stands in a text, and no word goes on into it. -/
def Binds (b : List Char) (m : Binding) : Prop :=
  ∃ before cs start length all, b = before ++ ("v-bind(".toList ++ cs) ∧ (∀ c, before.getLast? = some c → isWord c = false) ∧
    Completes cs start length all ∧ m = ⟨⟨Text.size before, Text.size before + 7 + all⟩,
      ⟨Text.size before + 7 + start, Text.size before + 7 + start + length⟩⟩

/-! ## Arguments -/

/-- The parenthesis closes behind blanks. -/
theorem closing_eq_some_iff {cs : List Char} {k : Nat} : closing cs = some k ↔
    ∃ trail behind, cs = trail ++ ')' :: behind ∧ (∀ c ∈ trail, Text.isAsciiBlank c = true) ∧ k = Text.size trail + 1 := by
  unfold closing
  constructor
  · intro h
    split at h
    · rename_i behind hdrop
      refine ⟨cs.takeWhile Text.isAsciiBlank, behind, ?_, fun c hc => List.mem_takeWhile_imp hc, (Option.some.inj h).symm⟩
      rw [← hdrop, List.takeWhile_append_dropWhile]
    · cases h
  · rintro ⟨trail, behind, rfl, htrail, rfl⟩
    obtain ⟨htake, hdrop⟩ := takeWhile_append_cons htrail (show Text.isAsciiBlank ')' = false from rfl) behind
    rw [htake, hdrop]
    rfl

theorem ne_of_letter {c d : Char} (h : c.isAlpha = true ∨ c = '_') (hd : isWord d = false) : c ≠ d := by
  rintro rfl
  rw [isWord_of_letter h] at hd
  cases hd

/-- A blank is in no word. -/
theorem isWord_eq_false_of_isAsciiBlank {c : Char} (h : Text.isAsciiBlank c = true) : isWord c = false := by
  simp only [Text.isAsciiBlank, Bool.or_eq_true, beq_iff_eq] at h
  rcases h with (((rfl | rfl) | rfl) | rfl) | rfl <;> rfl

/-- What closes a binding begins with no character of words. -/
theorem exists_closing_cons {trail : List Char} (htrail : ∀ c ∈ trail, Text.isAsciiBlank c = true) (behind : List Char) :
    ∃ d more, trail ++ ')' :: behind = d :: more ∧ isWord d = false := by
  cases trail with
  | nil => exact ⟨')', behind, rfl, rfl⟩
  | cons d trail => exact ⟨d, trail ++ ')' :: behind, rfl, isWord_eq_false_of_isAsciiBlank (htrail d List.mem_cons_self)⟩

/-- A text in quotes is an argument, up to the first quote like the one in front of it. -/
theorem completes_quoted {lead inner rest : List Char} {q e : Char} {k : Nat} (hlead : ∀ c ∈ lead, Text.isAsciiBlank c = true)
    (quote : q = '\x22' ∨ q = '\x27') (hrest : inner.dropWhile (· != q) = e :: rest) (hown : Text.size (inner.takeWhile (· != q)) ≠ 0)
    (hk : closing rest = some k) : Completes (lead ++ q :: inner) (Text.size lead + 1) (Text.size (inner.takeWhile (· != q)))
      (Text.size lead + Text.size (inner.takeWhile (· != q)) + 2 + k) := by
  have hinner := (List.takeWhile_append_dropWhile (p := (· != q)) (l := inner)).symm
  have hends := List.head_dropWhile_not (· != q) (l := inner) (by simp [hrest])
  obtain rfl : e = q := by simpa [hrest] using hends
  obtain ⟨trail, behind, rfl, htrail, rfl⟩ := closing_eq_some_iff.1 hk
  have hsize : Text.size [e] = 1 := by rcases quote with rfl | rfl <;> rfl
  refine ⟨lead, [e], inner.takeWhile (· != e), [e], trail, behind, ?_, hlead, .quoted quote ?_ ?_, htrail, ?_, rfl, ?_⟩
  · rw [hrest] at hinner
    conv_lhs => rw [hinner]
    rfl
  · exact fun hnil => hown (Text.size_eq_zero.2 hnil)
  · intro hmem
    simpa using List.mem_takeWhile_imp hmem
  · rw [hsize]
  · rw [hsize]
    omega

/-- An identifier is an argument, as far as it goes. -/
theorem completes_name {lead inner : List Char} {c : Char} {k : Nat} (hlead : ∀ c ∈ lead, Text.isAsciiBlank c = true)
    (letter : c.isAlpha = true ∨ c = '_') (hk : closing ((c :: inner).dropWhile isWord) = some k) :
    Completes (lead ++ c :: inner) (Text.size lead) (Text.size ((c :: inner).takeWhile isWord))
      (Text.size lead + Text.size ((c :: inner).takeWhile isWord) + k) := by
  obtain ⟨trail, behind, hclose, htrail, rfl⟩ := closing_eq_some_iff.1 hk
  have hinner := (List.takeWhile_append_dropWhile (p := isWord) (l := c :: inner)).symm
  rw [hclose] at hinner
  rw [List.takeWhile_cons_of_pos (isWord_of_letter letter)] at hinner ⊢
  refine ⟨lead, [], c :: inner.takeWhile isWord, [], trail, behind, ?_, hlead, .name letter ?_, htrail, rfl, rfl, rfl⟩
  · rw [hinner]
    rfl
  · exact fun d hd => List.mem_takeWhile_imp hd

/-- What is read behind the mark completes a binding. -/
theorem completes_of_bindingArgument {cs : List Char} {start length all : Nat} (h : bindingArgument cs = some (start, length, all)) :
    Completes cs start length all := by
  have hsplit := (List.takeWhile_append_dropWhile (p := Text.isAsciiBlank) (l := cs)).symm
  have hlead : ∀ c ∈ cs.takeWhile Text.isAsciiBlank, Text.isAsciiBlank c = true := fun c hc => List.mem_takeWhile_imp hc
  unfold bindingArgument at h
  extract_lets lead at h
  split at h
  · cases h
  · rename_i q inner hbehind
    rw [hbehind] at hsplit
    rw [hsplit]
    split at h
    · rename_i hquote
      have quote : q = '\x22' ∨ q = '\x27' := by simpa using hquote
      extract_lets own at h
      split at h
      · cases h
      · rename_i rest hrest
        split at h
        · cases h
        · rename_i hown
          obtain ⟨k, hk, heq⟩ := Option.map_eq_some_iff.1 h
          obtain ⟨rfl, rfl, rfl⟩ : lead + 1 = start ∧ own = length ∧ lead + own + 2 + k = all := by simpa using heq
          exact completes_quoted hlead quote hrest hown hk
    · split at h
      · rename_i hletter
        have letter : q.isAlpha = true ∨ q = '_' := by simpa using hletter
        extract_lets own at h
        obtain ⟨k, hk, heq⟩ := Option.map_eq_some_iff.1 h
        obtain ⟨rfl, rfl, rfl⟩ : lead = start ∧ own = length ∧ lead + own + k = all := by simpa using heq
        exact completes_name hlead letter hk
      · cases h

/-- What completes a binding is read behind the mark. -/
theorem Completes.bindingArgument_eq {cs : List Char} {start length all : Nat} (h : Completes cs start length all) :
    bindingArgument cs = some (start, length, all) := by
  obtain ⟨lead, left, own, right, trail, behind, rfl, hlead, hargument, htrail, rfl, rfl, rfl⟩ := h
  have hclosing : closing (trail ++ ')' :: behind) = some (Text.size trail + 1) := closing_eq_some_iff.2 ⟨trail, behind, rfl, htrail, rfl⟩
  cases hargument with
  | @quoted q own quote nonempty first =>
    have hq : Text.isAsciiBlank q = false := by rcases quote with rfl | rfl <;> rfl
    have hone : q.utf8Size = 1 := by rcases quote with rfl | rfl <;> rfl
    have hopens : (q == '\x22' || q == '\x27') = true := by simpa using quote
    obtain ⟨htake, hdrop⟩ := takeWhile_append_cons hlead hq (own ++ q :: (trail ++ ')' :: behind))
    have hin : ∀ d ∈ own, (d != q) = true := by
      intro d hd
      simpa using fun heq : d = q => first (heq ▸ hd)
    obtain ⟨hown, hrest⟩ := takeWhile_append_cons hin (show (q != q) = false by simp) (trail ++ ')' :: behind)
    have hsize : ¬Text.size own = 0 := fun h => nonempty (Text.size_eq_zero.1 h)
    simp only [bindingArgument, List.singleton_append, htake, hdrop, hopens, if_true, hown, hrest, if_neg hsize, hclosing, Option.map_some]
    simp only [Text.size_cons, Text.size_nil, hone, Option.some.injEq, Prod.mk.injEq]
    exact ⟨trivial, trivial, by omega⟩
  | @name c cs letter word =>
    have hblank : Text.isAsciiBlank c = false := by
      by_contra hblank
      exact absurd rfl (ne_of_letter letter (isWord_eq_false_of_isAsciiBlank (Bool.not_eq_false _ ▸ hblank)))
    have hopens : ¬(c == '\x22' || c == '\x27') = true := by
      simp [ne_of_letter letter (show isWord '\x22' = false from rfl), ne_of_letter letter (show isWord '\x27' = false from rfl)]
    have hletter : (c.isAlpha || c == '_') = true := by simpa using letter
    obtain ⟨d, more, hmore, hd⟩ := exists_closing_cons htrail behind
    obtain ⟨htake, hdrop⟩ := takeWhile_append_cons hlead hblank (cs ++ (trail ++ ')' :: behind))
    obtain ⟨hown, hrest⟩ := takeWhile_append_cons (List.forall_mem_cons.2 ⟨isWord_of_letter letter, word⟩) hd more
    rw [← hmore] at hown hrest
    simp only [bindingArgument, List.nil_append, List.cons_append, htake, hdrop, if_neg hopens, hletter, if_true]
    simp only [← List.cons_append, hown, hrest, hclosing, Option.map_some]
    rfl

/-! ## Bindings at a position -/

theorem size_bindingMark : Text.size "v-bind(".toList = 7 := by decide

/-- Whether a binding stands at a position is read there. -/
theorem binds_iff {before : List Char} {m : Binding} (cs : List Char) (hstart : m.whole.start = Text.size before) : Binds (before ++ cs) m ↔
    Text.begins bindingMark cs = true ∧ before.getLast?.any isWord = false ∧ ∃ start length all,
      bindingArgument (cs.drop 7) = some (start, length, all) ∧ m = ⟨⟨Text.size before, Text.size before + 7 + all⟩,
        ⟨Text.size before + 7 + start, Text.size before + 7 + start + length⟩⟩ := by
  have hlast : before.getLast?.any isWord = false ↔ ∀ c, before.getLast? = some c → isWord c = false := by
    cases before.getLast? <;> simp
  rw [hlast, Text.begins_iff]
  constructor
  · rintro ⟨before', cs', start, length, all, hsplit, hword, hcompletes, rfl⟩
    have hcs : cs = "v-bind(".toList ++ cs' :=
      Text.Rest.unique ⟨before, rfl, hstart.symm⟩ ⟨before', hsplit, rfl⟩
    rw [hcs] at hsplit
    obtain rfl : before = before' := List.append_cancel_right hsplit
    subst hcs
    exact ⟨⟨cs', rfl⟩, hword, start, length, all, hcompletes.bindingArgument_eq, rfl⟩
  · rintro ⟨⟨cs', rfl⟩, hword, start, length, all, hargument, rfl⟩
    exact ⟨before, cs', start, length, all, rfl, hword, completes_of_bindingArgument hargument, rfl⟩

namespace Binds

variable {b cs : List Char} {m m' : Binding}

theorem exists_rest (h : Binds b m) : ∃ more, Text.Rest b m.whole.start ('v' :: more) := by
  obtain ⟨before, cs, start, length, all, rfl, -, -, rfl⟩ := h
  exact ⟨_, before, rfl, rfl⟩

/-- At a position stands one binding. -/
theorem unique (h : Binds b m) (h' : Binds b m') (heq : m'.whole.start = m.whole.start) : m' = m := by
  obtain ⟨more, before, rfl, hsize⟩ := h.exists_rest
  obtain ⟨-, -, start, length, all, hargument, rfl⟩ := (binds_iff _ hsize.symm).1 h
  obtain ⟨-, -, start', length', all', hargument', rfl⟩ := (binds_iff _ (heq.trans hsize.symm)).1 h'
  rw [hargument] at hargument'
  cases hargument'
  rfl

/-- A binding that does not begin in front of a character begins with it or behind it. -/
theorem start_eq_or {pos : Nat} {c : Char} (h : Binds b m) (hrest : Text.Rest b pos (c :: cs)) (hle : pos ≤ m.whole.start) :
    m.whole.start = pos ∨ pos + c.utf8Size ≤ m.whole.start := by
  obtain ⟨more, hmore⟩ := h.exists_rest
  obtain ⟨mid, hmid, hstart⟩ := hrest.split hmore hle
  cases mid with
  | nil => exact .inl hstart
  | cons d mid =>
    obtain ⟨rfl, -⟩ := List.cons.inj hmid
    rw [hstart, Text.size_cons]
    exact .inr (by omega)

end Binds

/-! ## The search -/

/-- What is found from a position on, if the search takes up at `resume`: bindings from left to right, and all but those that begin
before it or within one that is found. -/
structure Found (b : List Char) (pos resume : Nat) (ms : List Binding) : Prop where
  binds : ∀ m ∈ ms, Binds b m
  resumed : ∀ m ∈ ms, resume ≤ m.whole.start
  ordered : ms.Pairwise fun m m' => m.whole.stop ≤ m'.whole.start
  complete : ∀ m, Binds b m → pos ≤ m.whole.start → resume ≤ m.whole.start →
    m ∈ ms ∨ ∃ m' ∈ ms, m'.whole.start < m.whole.start ∧ m.whole.start < m'.whole.stop

namespace Found

variable {b cs : List Char} {pos resume : Nat} {c : Char} {ms : List Binding}

/-- At the end of a text nothing is found. -/
theorem nil (b : List Char) (resume : Nat) : Found b (Text.size b) resume [] where
  binds := by simp
  resumed := by simp
  ordered := .nil
  complete m hm hle _ := by
    obtain ⟨more, hmore⟩ := hm.exists_rest
    have hsize := hmore.size_eq
    rw [Text.size_cons] at hsize
    have hv := 'v'.utf8Size_pos
    omega

/-- A character at which no binding is taken up is passed. -/
theorem pass (h : Found b (pos + c.utf8Size) resume ms) (hrest : Text.Rest b pos (c :: cs))
    (hnot : ∀ m, Binds b m → m.whole.start = pos → resume ≤ pos → False) : Found b pos resume ms where
  binds := h.binds
  resumed := h.resumed
  ordered := h.ordered
  complete m hm hle hresume := by
    rcases hm.start_eq_or hrest hle with heq | hbehind
    · exact (hnot m hm heq (heq ▸ hresume)).elim
    · exact h.complete m hm hbehind hresume

/-- A binding is taken, and the search takes up behind it. -/
theorem take {m : Binding} (h : Found b (pos + c.utf8Size) m.whole.stop ms) (hrest : Text.Rest b pos (c :: cs)) (hm : Binds b m)
    (hstart : m.whole.start = pos) (hstop : pos ≤ m.whole.stop) (hresume : resume ≤ pos) : Found b pos resume (m :: ms) where
  binds := List.forall_mem_cons.2 ⟨hm, h.binds⟩
  resumed := List.forall_mem_cons.2 ⟨by omega, fun m' hm' => by have := h.resumed m' hm'; omega⟩
  ordered := List.pairwise_cons.2 ⟨h.resumed, h.ordered⟩
  complete m' hm' hle _ := by
    rcases hm'.start_eq_or hrest hle with heq | hbehind
    · rw [hm.unique hm' (heq.trans hstart.symm)]
      exact .inl List.mem_cons_self
    · have hc := c.utf8Size_pos
      rcases Nat.lt_or_ge m'.whole.start m.whole.stop with hin | hout
      · exact .inr ⟨m, List.mem_cons_self, by omega, hin⟩
      · rcases h.complete m' hm' hbehind hout with hmem | ⟨m'', hmem, hin⟩
        · exact .inl (List.mem_cons_of_mem _ hmem)
        · exact .inr ⟨m'', List.mem_cons_of_mem _ hmem, hin⟩

end Found

/-- The search finds what is to be found. -/
theorem exists_found {b cs : List Char} (before : List Char) (hb : b = before ++ cs) (resume : Nat) : ∃ ms : List Binding,
    bindingSpans (Text.size before) resume before.getLast? cs = ms.map Binding.argument ∧ Found b (Text.size before) resume ms := by
  induction cs generalizing before resume with
  | nil =>
    rw [List.append_nil] at hb
    subst hb
    exact ⟨[], rfl, .nil b resume⟩
  | cons c cs ih =>
    have hrest : Text.Rest b (Text.size before) (c :: cs) := ⟨before, hb, rfl⟩
    have hnext : ∀ resume, ∃ ms : List Binding,
        bindingSpans (Text.size before + c.utf8Size) resume (some c) cs = ms.map Binding.argument ∧
          Found b (Text.size before + c.utf8Size) resume ms := by
      intro resume
      have hstep := ih (before ++ [c]) (by simp [hb]) resume
      rwa [List.getLast?_concat, Text.size_append, Text.size_cons, Text.size_nil, Nat.add_zero] at hstep
    have hiff := fun m (hm : Binds b m) (hstart : m.whole.start = Text.size before) => (binds_iff (c :: cs) hstart).1 (hb ▸ hm)
    rw [bindingSpans]
    dsimp only
    split
    · rename_i hmark
      simp only [Bool.and_eq_true, decide_eq_true_eq, Bool.not_eq_true'] at hmark
      obtain ⟨⟨hresume, hbegins⟩, hword⟩ := hmark
      split
      · rename_i start length all hargument
        obtain ⟨ms, hms, hfound⟩ := hnext (Text.size before + 7 + all)
        have hm := (binds_iff (c :: cs) rfl).2 ⟨hbegins, hword, start, length, all, hargument, rfl⟩
        rw [← hb] at hm
        exact ⟨_ :: ms, by rw [hms]; rfl, .take hfound hrest hm rfl (by show _ ≤ Text.size before + 7 + all; omega) hresume⟩
      · rename_i hargument
        obtain ⟨ms, hms, hfound⟩ := hnext resume
        refine ⟨ms, hms, hfound.pass hrest fun m hm hstart _ => ?_⟩
        obtain ⟨-, -, start, length, all, hsome, -⟩ := hiff m hm hstart
        rw [show (c :: cs).drop 7 = cs.drop 6 from rfl, hargument] at hsome
        cases hsome
    · rename_i hmark
      obtain ⟨ms, hms, hfound⟩ := hnext resume
      refine ⟨ms, hms, hfound.pass hrest fun m hm hstart hresume => hmark ?_⟩
      obtain ⟨hbegins, hword, -⟩ := hiff m hm hstart
      simp [hresume, hbegins, hword]

/-! ## Arguments in the style sheet -/

/-- An argument is a text of the style sheet that was blanked. -/
theorem Argument.fits {css b left own right more : List Char} {n : Nat} (h : Argument left own right) (hb : Blanks css b)
    (hrest : Text.Rest b n (left ++ (own ++ (right ++ more)))) :
    (⟨n + Text.size left, n + Text.size left + Text.size own⟩ : Span).Fits css := by
  cases h with
  | @quoted q own quote nonempty first =>
    have hq : q ≠ ' ' := by rcases quote with rfl | rfl <;> decide
    refine ⟨?_, (hb.isPlace hq hrest.step.step).1, Nat.le_add_right ..⟩
    exact (hb.isPlace hq hrest).2
  | @name c cs letter word =>
    refine ⟨(hb.isPlace (ne_of_letter letter rfl) hrest).1, ?_, Nat.le_add_right ..⟩
    -- An identifier ends behind its last character.
    have hword : ∀ d ∈ c :: cs, isWord d = true := List.forall_mem_cons.2 ⟨isWord_of_letter letter, word⟩
    obtain ⟨own, d, heq⟩ := (List.eq_nil_or_concat (c :: cs)).resolve_left (List.cons_ne_nil c cs)
    rw [heq] at hword hrest ⊢
    have hd : d ≠ ' ' := by
      rintro rfl
      exact absurd (hword ' ' (by simp)) (by decide)
    have hlast : Text.Rest b (n + Text.size own) (d :: more) :=
      Text.Rest.step (t := own) (by simpa using hrest)
    have hplace := (hb.isPlace hd hlast).2
    simpa [Nat.add_assoc] using hplace

namespace Binds

variable {css b : List Char} {ps : List Piece} {m : Binding}

/-- The argument of a binding stands in the text. -/
theorem exists_argument (h : Binds b m) : ∃ n left own right more, Argument left own right ∧
    Text.Rest b n (left ++ (own ++ (right ++ more))) ∧ m.argument = ⟨n + Text.size left, n + Text.size left + Text.size own⟩ := by
  obtain ⟨before, cs, start, length, all, rfl, -, ⟨lead, left, own, right, trail, behind, rfl, -, hargument, -, rfl, rfl, -⟩, rfl⟩ := h
  have hrest : Text.Rest (before ++ ("v-bind(".toList ++ (lead ++ (left ++ (own ++ (right ++ (trail ++ ')' :: behind)))))))
      (Text.size before) ("v-bind(".toList ++ (lead ++ (left ++ (own ++ (right ++ (trail ++ ')' :: behind)))))) := ⟨before, rfl, rfl⟩
  have hleft := hrest.step.step
  rw [size_bindingMark] at hleft
  exact ⟨_, left, own, right, _, hargument, hleft, by simp only [Nat.add_assoc]⟩

theorem argument_fits (h : Binds b m) (hb : Blanks css b) : m.argument.Fits css := by
  obtain ⟨n, left, own, right, more, hargument, hrest, heq⟩ := h.exists_argument
  rw [heq]
  exact hargument.fits hb hrest

/-- No binding begins in a comment. -/
theorem not_start_in_comment (h : Binds (ps.flatMap Piece.blanked) m) {k : Span} (hk : k ∈ commentSpans 0 ps) :
    ¬(k.start ≤ m.whole.start ∧ m.whole.start < k.stop) := by
  rintro ⟨hlo, hhi⟩
  obtain ⟨more, hmore⟩ := h.exists_rest
  have hchar := mem_commentSpans_blanked hk hmore (by rwa [Nat.zero_add]) (by rwa [Nat.zero_add])
  revert hchar
  decide

/-- No argument begins within a comment: a quote in front of it would be in the comment, and so would the first letter of an identifier. -/
theorem not_argument_in_comment (h : Binds (ps.flatMap Piece.blanked) m) {k : Span} (hk : k ∈ commentSpans 0 ps) :
    ¬(k.start < m.argument.start ∧ m.argument.start < k.stop) := by
  obtain ⟨n, left, own, right, more, hargument, hrest, heq⟩ := h.exists_argument
  rw [heq]
  rintro ⟨hlo, hhi⟩
  cases hargument with
  | @quoted q own quote nonempty first =>
    have hsize : Text.size [q] = 1 := by rcases quote with rfl | rfl <;> rfl
    dsimp only at hlo hhi
    rw [hsize] at hlo hhi
    have hchar := mem_commentSpans_blanked hk hrest (by omega) (by omega)
    rcases quote with rfl | rfl <;> revert hchar <;> decide
  | @name c cs letter word =>
    dsimp only at hlo hhi
    rw [Text.size_nil] at hlo hhi
    rcases mem_commentSpans_blanked hk hrest (by omega) (by omega) with hc | hc | hc | hc <;> exact ne_of_letter letter rfl hc

end Binds

/-- What a style sheet is bound to are the bindings that are found in its text in small letters with blanked comments; the argument of
each is read in the style sheet itself. -/
theorem exists_bindings (css : String) : ∃ ps, Commented (Text.lower css.toList) ps ∧ ∃ ms : List Binding,
    Found (ps.flatMap Piece.blanked) 0 0 ms ∧ bindings css = ms.map (fun m => refAt css.toList m.argument) ∧
    ∀ m ∈ ms, ∃ t, m.argument.Reads css.toList t ∧ refAt css.toList m.argument = ⟨String.ofList t, m.argument.start⟩ := by
  obtain ⟨ps, hps⟩ := exists_commented (Text.lower css.toList)
  obtain ⟨ms, hms, hfound⟩ := exists_found [] (List.nil_append (ps.flatMap Piece.blanked)).symm 0
  have hblanks := (blanks_blankComments .code (Text.lower css.toList)).ofLower
  rw [hps.blankComments_eq] at hblanks
  have hspans : bindingSpans 0 0 none (ps.flatMap Piece.blanked) = ms.map Binding.argument := hms
  refine ⟨ps, hps, ms, hfound, ?_, fun m hm => ?_⟩
  · rw [bindings, hps.blankComments_eq, hspans, List.map_map]
    rfl
  · obtain ⟨t, ht⟩ := ((hfound.binds m hm).argument_fits hblanks).exists_reads
    exact ⟨t, ht, refAt_eq ht⟩

/-- What a style sheet is bound to stands in it. -/
theorem bindings_stand (css : String) : ∀ b ∈ bindings css, Text.StandsAt css.toList b.offset b.text.toList := by
  obtain ⟨-, -, ms, -, hbindings, hreads⟩ := exists_bindings css
  intro b hb
  rw [hbindings] at hb
  obtain ⟨m, hm, rfl⟩ := List.mem_map.1 hb
  obtain ⟨t, ht, heq⟩ := hreads m hm
  rw [heq, String.toList_ofList]
  exact ht.1

/-- Style bindings are the bindings of the text in small letters with blanked comments, taken from left to right: none of them goes over
another, and one that is passed begins within one that is taken. Each is given as the text of the style sheet itself at its place. None
begins in a comment, and no argument does, but that a quoted one may have a comment as its own beginning. -/
theorem bindings_found (css : String) : ∃ ps, Commented (Text.lower css.toList) ps ∧ ∃ ms : List Binding,
    (∀ m ∈ ms, Binds (ps.flatMap Piece.blanked) m) ∧ (ms.Pairwise fun m m' => m.whole.stop ≤ m'.whole.start) ∧
    (∀ m, Binds (ps.flatMap Piece.blanked) m →
      m ∈ ms ∨ ∃ m' ∈ ms, m'.whole.start < m.whole.start ∧ m.whole.start < m'.whole.stop) ∧
    List.Forall₂ (fun r m => r.offset = m.argument.start ∧ m.argument.Reads css.toList r.text.toList) (bindings css) ms ∧
    ∀ m ∈ ms, ∀ k ∈ commentSpans 0 ps,
      ¬(k.start ≤ m.whole.start ∧ m.whole.start < k.stop) ∧ ¬(k.start < m.argument.start ∧ m.argument.start < k.stop) := by
  obtain ⟨ps, hps, ms, hfound, hbindings, hreads⟩ := exists_bindings css
  refine ⟨ps, hps, ms, hfound.binds, hfound.ordered, fun m hm => hfound.complete m hm (Nat.zero_le _) (Nat.zero_le _), ?_,
    fun m hm k hk => ⟨(hfound.binds m hm).not_start_in_comment hk, (hfound.binds m hm).not_argument_in_comment hk⟩⟩
  rw [hbindings, List.forall₂_map_left_iff, List.forall₂_same]
  intro m hm
  obtain ⟨t, ht, heq⟩ := hreads m hm
  rw [heq, String.toList_ofList]
  exact ⟨rfl, ht⟩

example : bindings "/* v-bind(a) */ V-Bind( \x22Foo\x22 )" = [⟨"Foo", 25⟩] := by decide +kernel

end Stylesheet

end TypedSfc
