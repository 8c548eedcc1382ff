import TypedSfc.Proofs.Markup.Steps

/-!
# Opening tags

The attributes of a tag are read one after another, each from a place behind the one before, until a token that is no part of them. The
bound on their number is never met: every step takes a byte, and the bound is more than the bytes that are left.
-/

namespace TypedSfc

namespace Markup

namespace Reader

variable {source : List Char} {pos : Nat} {r : Reader}

/-! ## Values -/

/-- The kind of token that a quote is. -/
def IsQuote (k : TokenKind) (q : Char) : Prop := (k = .doubleQuote ∧ q = '\x22') ∨ (k = .singleQuote ∧ q = '\x27')

theorem IsQuote.written {k : TokenKind} {q : Char} {t : List Char} (h : IsQuote k q) (ht : Token.Written k t) : t = [q] := by
  rcases h with ⟨rfl, rfl⟩ | ⟨rfl, rfl⟩ <;> exact ht

theorem IsQuote.scan {k : TokenKind} {q : Char} (h : IsQuote k q) (cs : List Char) :
    Token.isSkipped q = false ∧ (Token.scan q cs).1 = k := by
  rcases h with ⟨rfl, rfl⟩ | ⟨rfl, rfl⟩ <;> exact ⟨rfl, rfl⟩

theorem IsQuote.ne_eof {k : TokenKind} {q : Char} (h : IsQuote k q) : k ≠ .eof := by
  rcases h with ⟨rfl, rfl⟩ | ⟨rfl, rfl⟩ <;> decide

/-- A quoted value stands between its quotes, or from its quote to the end of the source. -/
theorem quotedValue_stands {q : Char} (h : r.Stands source pos) (hq : IsQuote r.kind q) :
    (r.quotedValue q).1.Describes source ∧ pos ≤ (r.quotedValue q).1.offset ∧
      (r.quotedValue q).2.2.Stands source (r.quotedValue q).2.1 ∧ pos ≤ (r.quotedValue q).2.1 := by
  obtain ⟨own, more, hf, hle⟩ := h.faces hq.ne_eof
  have hinner : r.rest r.current.span.stop = more := by
    rw [hf.stop_eq]
    exact h.rest_eq hf.rest.step
  unfold quotedValue
  dsimp only
  rw [hinner, hf.stop_eq]
  split
  · rename_i n hfind
    obtain ⟨inner, behind, rfl, rfl⟩ := Text.exists_of_find hfind
    have hplace : Text.Rest source (r.start + Text.size own + Text.size inner) (q :: behind) := hf.rest.step.step
    have hsync : (r.sync (r.start + Text.size own + Text.size inner)).Stands source (r.start + Text.size own + Text.size inner) :=
      h.sync hplace.isPlace (by omega)
    -- Behind the value the reader faces the quote that ends it.
    obtain ⟨own', more', hown', hf', hstart⟩ := hsync.faces_of_rest hplace (hq.scan behind).1
    have hkind : (r.sync (r.start + Text.size own + Text.size inner)).kind = r.kind := hf'.kind_eq.trans (hq.scan behind).2
    obtain rfl : own' = [q] := hq.written ((hq.scan behind).2 ▸ hf'.written)
    have hbetween := (Text.rest_zero (inner ++ ([q] ++ behind))).between_eq
    rw [Nat.zero_add] at hbetween
    have hone : Text.size [q] = 1 := by
      rcases hq with ⟨-, rfl⟩ | ⟨-, rfl⟩ <;> rfl
    have hadvance := hsync.advance hf'
    rw [hstart, hone] at hadvance
    rw [hkind, beq_self_eq_true, if_pos rfl, if_pos rfl, hbetween]
    exact ⟨standsAt_ofList hf.rest.step.standsAt, le_trans hle (Nat.le_add_right ..), hadvance, by dsimp only; omega⟩
  · refine ⟨standsAt_ofList ⟨[], by rw [List.append_nil]; exact hf.rest.step⟩, le_trans hle (Nat.le_add_right ..), ?_, ?_⟩
    · rw [h.size_eq]
      exact (h.error _).sync (Text.isPlace_size source) h.isPlace.le_size
    · exact le_trans hle h.start_le

theorem quotedValue_followsQuote {q : Char} (h : r.Stands source pos) (hq : IsQuote r.kind q) :
    (r.quotedValue q).1.FollowsQuote source := by
  intro _
  obtain ⟨own, more, hf, -⟩ := h.faces hq.ne_eof
  obtain rfl : own = [q] := hq.written hf.written
  have hquote : q = '\x22' ∨ q = '\x27' := hq.imp And.right And.right
  have hone : Text.size [q] = 1 := by
    rcases hquote with rfl | rfl <;> rfl
  have hinner : r.rest r.current.span.stop = more := by
    rw [hf.stop_eq]
    exact h.rest_eq hf.rest.step
  have hstands : 0 < r.current.span.stop ∧ Text.StandsAt source (r.current.span.stop - 1) [q] := by
    rw [hf.stop_eq, hone, Nat.add_sub_cancel]
    exact ⟨Nat.succ_pos _, hf.rest.standsAt⟩
  refine ⟨q, hquote, ?_⟩
  unfold quotedValue
  dsimp only
  rw [hinner]
  split
  · rename_i n hfind
    obtain ⟨inner, behind, rfl, rfl, hnot⟩ := Text.exists_of_find_singleton hfind
    have hbetween := (Text.rest_zero (inner ++ q :: behind)).between_eq
    rw [Nat.zero_add] at hbetween
    rw [hbetween, String.toList_ofList]
    exact ⟨hstands.1, hstands.2, hnot⟩
  · rename_i hfind
    rw [String.toList_ofList]
    exact ⟨hstands.1, hstands.2, Text.notMem_of_find_singleton hfind⟩

/-- A value without quotes stands from its first token up to a blank or the end of the tag. -/
theorem bareValue_stands (h : r.Stands source pos) (hk : r.kind ≠ .eof) :
    r.bareValue.1.Describes source ∧ pos ≤ r.bareValue.1.offset ∧ r.bareValue.2.2.Stands source r.bareValue.2.1 ∧
      pos ≤ r.bareValue.2.1 := by
  obtain ⟨own, more, hf, hle⟩ := h.faces hk
  have hsplit := List.takeWhile_append_dropWhile (p := fun c => !(Text.isAsciiBlank c || c == '>')) (l := own ++ more)
  have hrest := hf.rest
  rw [← hsplit] at hrest
  unfold bareValue
  rw [h.rest_eq hf.rest]
  dsimp only
  have hstop : pos ≤ r.start + Text.size ((own ++ more).takeWhile fun c => !(Text.isAsciiBlank c || c == '>')) := by omega
  exact ⟨standsAt_ofList hrest.standsAt, hle, h.sync hrest.step.isPlace hstop, hstop⟩

/-! ## Attributes -/

/-- An attribute was read from the token here, and the reader stands behind it. -/
structure TakesAttribute (source : List Char) (pos : Nat) (a : RawAttribute) (r : Reader) : Prop where
  describes : a.Describes source
  le_start : pos ≤ a.span.start
  stands : ∃ pos', a.span.start < pos' ∧ a.span.stop ≤ pos' ∧ r.Stands source pos'

/-- An attribute of a name describes the source, with a value further on and up to any place behind the name. -/
theorem describes_of_name {own : List Char} {start stop : Nat} {value : Option AttributeValue}
    (hname : Text.StandsAt source start own) (hvalue : ∀ v ∈ value, v.Describes source ∧ start < v.offset ∧ v.FollowsQuote source)
    (hstop : Text.IsPlace source stop) (hle : start + Text.size own ≤ stop) :
    (⟨String.ofList own, start, value, ⟨start, stop⟩⟩ : RawAttribute).Describes source :=
  ⟨⟨hname.isPlace, hstop, Nat.le_trans (Nat.le_add_right ..) hle⟩, rfl, standsAt_ofList hname, fun v hv => (hvalue v hv).1,
    fun v hv => (hvalue v hv).2.1, fun v hv => (hvalue v hv).2.2⟩

theorem takesAttribute (h : r.Stands source pos) (hk : r.kind = .name) :
    TakesAttribute source pos r.readAttribute.1 r.readAttribute.2 := by
  obtain ⟨own, more, hf, hle⟩ := h.faces (by rw [hk]; decide)
  have hlt := hf.start_lt
  have hadvance := h.advance hf
  have hspan : r.current.span = ⟨r.start, r.start + Text.size own⟩ := congrArg Token.span hf.current_eq
  have hflag : (⟨String.ofList own, r.start, none, ⟨r.start, r.start + Text.size own⟩⟩ : RawAttribute).Describes source :=
    describes_of_name hf.rest.standsAt (by simp) hadvance.isPlace (Nat.le_refl _)
  unfold readAttribute
  dsimp only
  rw [hf.textOf_eq h.source_eq, hspan]
  dsimp only
  split
  · rename_i hequals
    have hkind : r.advance.kind ≠ .eof := by
      rw [eq_of_beq hequals]
      decide
    obtain ⟨own', more', hf', hle'⟩ := hadvance.faces hkind
    have hlt' := hf'.start_lt
    obtain ⟨pos', hpos', hstands⟩ := (hadvance.advance hf').dropWhile (p := fun t => t.kind == TokenKind.newline) (by
      intro t ht
      rw [ht]
      rfl)
    have hbehind : r.start + Text.size own ≤ pos' := by omega
    -- The reader behind the `=` and the line feeds after it.
    change ({ r.advance with tokens := r.advance.tokens.tail.dropWhile fun t => t.kind == TokenKind.newline } : Reader).Stands
      source pos' at hstands
    generalize ({ r.advance with tokens := r.advance.tokens.tail.dropWhile fun t => t.kind == TokenKind.newline } : Reader) = r'
      at hstands ⊢
    have hvalue : ∀ (v : AttributeValue) (stop : Nat) (r'' : Reader), v.Describes source → v.FollowsQuote source → pos' ≤ v.offset →
        r''.Stands source stop → pos' ≤ stop →
          TakesAttribute source pos ⟨String.ofList own, r.start, some v, ⟨r.start, stop⟩⟩ r'' := by
      intro v stop r'' hv hquote hoffset hr'' hstop
      have hsome : ∀ w ∈ some v, w.Describes source ∧ r.start < w.offset ∧ w.FollowsQuote source := by
        intro w hw
        obtain rfl := Option.some.inj hw
        exact ⟨hv, by omega, hquote⟩
      have hdescribes := describes_of_name hf.rest.standsAt hsome hr''.isPlace (by omega)
      exact ⟨hdescribes, hle, stop, by dsimp only; omega, Nat.le_refl _, hr''⟩
    -- An equals sign without a value.
    have hlone : ∀ f, TakesAttribute source pos ⟨String.ofList own, r.start, none, ⟨r.start, r.start + Text.size own⟩⟩ (r'.error f) :=
      fun f => ⟨hflag, hle, pos', by dsimp only; omega, hbehind, hstands.error f⟩
    split
    · rename_i hq
      obtain ⟨hv, hoffset, hr'', hstop⟩ := quotedValue_stands hstands (.inl ⟨hq, rfl⟩)
      exact hvalue _ _ _ hv (quotedValue_followsQuote hstands (.inl ⟨hq, rfl⟩)) hoffset hr'' hstop
    · rename_i hq
      obtain ⟨hv, hoffset, hr'', hstop⟩ := quotedValue_stands hstands (.inr ⟨hq, rfl⟩)
      exact hvalue _ _ _ hv (quotedValue_followsQuote hstands (.inr ⟨hq, rfl⟩)) hoffset hr'' hstop
    · exact hlone _
    · exact hlone _
    · exact hlone _
    · rename_i hne
      obtain ⟨hv, hoffset, hr'', hstop⟩ := bareValue_stands hstands hne
      exact hvalue _ _ _ hv (fun hquoted => by cases hquoted) hoffset hr'' hstop
  · exact ⟨hflag, hle, _, hlt, Nat.le_refl _, hadvance⟩

/-- Whether the attributes of a tag end before a token of this kind. -/
def endsAttributes (k : TokenKind) : Bool :=
  k == .close || k == .slashClose || k == .eof || k == .angle || k == .angleSlash || k == .commentOpen

/-- An attribute that was read between two places. -/
def Between (source : List Char) (lo hi : Nat) (a : RawAttribute) : Prop :=
  a.Describes source ∧ lo ≤ a.span.start ∧ a.span.stop ≤ hi

theorem Between.mono {lo lo' hi hi' : Nat} {a : RawAttribute} (h : Between source lo hi a) (hlo : lo' ≤ lo) (hhi : hi ≤ hi') :
    Between source lo' hi' a := ⟨h.1, le_trans hlo h.2.1, le_trans h.2.2 hhi⟩

/-- Reading attributes goes on: some are read up to a place further on, and the others from there. -/
def GoesOn (source : List Char) (pos : Nat) (r : Reader) : Prop :=
  ∃ as r' pos', pos < pos' ∧ r'.Stands source pos' ∧ (∀ a ∈ as, Between source pos pos' a) ∧
    ∀ fuel, attributes (fuel + 1) r = (as ++ (attributes fuel r').1, (attributes fuel r').2)

/-- Past a token that is no attribute. -/
theorem goesOn_of_advance {r' : Reader} (h : r'.Stands source pos) (hk : r'.kind ≠ .eof)
    (hstep : ∀ fuel, attributes (fuel + 1) r = attributes fuel r'.advance) : GoesOn source pos r := by
  obtain ⟨own, more, hf, hle⟩ := h.faces hk
  have hlt := hf.start_lt
  refine ⟨[], r'.advance, r'.start + Text.size own, by omega, h.advance hf, by simp, ?_⟩
  intro fuel
  rw [hstep]
  rfl

/-- One step of reading attributes: they end here, or reading goes on. -/
theorem attributes_step (h : r.Stands source pos) :
    (endsAttributes r.kind = true ∧ ∀ fuel, attributes (fuel + 1) r = ([], r)) ∨ GoesOn source pos r := by
  -- A token that is reported and passed over.
  have hfault : ∀ f, r.kind ≠ .eof → (∀ fuel, attributes (fuel + 1) r = attributes fuel (r.error f).advance) → GoesOn source pos r :=
    fun f hk hstep => goesOn_of_advance (h.error f) hk hstep
  cases hk : r.kind with
  | name =>
    right
    obtain ⟨hdescribes, hle, pos', hlt, hstop, hstands⟩ := takesAttribute h hk
    refine ⟨[r.readAttribute.1], r.readAttribute.2, pos', by omega, hstands, ?_, ?_⟩
    · intro a ha
      rw [List.mem_singleton.1 ha]
      exact ⟨hdescribes, hle, hstop⟩
    · intro fuel
      rw [attributes, hk]
      rfl
  | newline => exact .inr (goesOn_of_advance h (by rw [hk]; decide) fun fuel => by rw [attributes, hk])
  | slash => exact .inr (goesOn_of_advance h (by rw [hk]; decide) fun fuel => by rw [attributes, hk])
  | close => exact .inl ⟨rfl, fun fuel => by rw [attributes, hk]⟩
  | slashClose => exact .inl ⟨rfl, fun fuel => by rw [attributes, hk]⟩
  | eof => exact .inl ⟨rfl, fun fuel => by rw [attributes, hk]⟩
  | angle => exact .inl ⟨rfl, fun fuel => by rw [attributes, hk]⟩
  | angleSlash => exact .inl ⟨rfl, fun fuel => by rw [attributes, hk]⟩
  | commentOpen => exact .inl ⟨rfl, fun fuel => by rw [attributes, hk]⟩
  | equals => exact .inr (hfault _ (by rw [hk]; decide) fun fuel => by rw [attributes, hk])
  | doubleQuote => exact .inr (hfault _ (by rw [hk]; decide) fun fuel => by rw [attributes, hk])
  | singleQuote => exact .inr (hfault _ (by rw [hk]; decide) fun fuel => by rw [attributes, hk])
  | mustacheOpen => exact .inr (hfault _ (by rw [hk]; decide) fun fuel => by rw [attributes, hk])
  | mustacheClose => exact .inr (hfault _ (by rw [hk]; decide) fun fuel => by rw [attributes, hk])
  | brace => exact .inr (hfault _ (by rw [hk]; decide) fun fuel => by rw [attributes, hk])

/-- Attributes are read up to a place further on, and lie before it. -/
theorem attributes_stands (fuel : Nat) (h : r.Stands source pos) :
    ∃ pos', pos ≤ pos' ∧ (attributes fuel r).2.Stands source pos' ∧ ∀ a ∈ (attributes fuel r).1, Between source pos pos' a := by
  induction fuel generalizing r pos with
  | zero => exact ⟨pos, Nat.le_refl _, h, by simp [attributes]⟩
  | succ fuel ih =>
    rcases attributes_step h with ⟨-, hend⟩ | ⟨as, r', pos', hlt, hr', has, hstep⟩
    · rw [hend]
      exact ⟨pos, Nat.le_refl _, h, by simp⟩
    · obtain ⟨pos'', hle, hstands, hbetween⟩ := ih hr'
      rw [hstep]
      refine ⟨pos'', by omega, hstands, ?_⟩
      intro a ha
      rcases List.mem_append.1 ha with ha | ha
      · exact (has a ha).mono (Nat.le_refl _) hle
      · exact (hbetween a ha).mono hlt.le (Nat.le_refl _)

/-- With a bound that is more than the bytes that are left, attributes are read to their end. -/
theorem endsAttributes_kind_attributes {fuel : Nat} (h : r.Stands source pos) (hfuel : Text.size source < pos + fuel) :
    endsAttributes (attributes fuel r).2.kind = true := by
  induction fuel generalizing r pos with
  | zero =>
    have := h.isPlace.le_size
    omega
  | succ fuel ih =>
    rcases attributes_step h with ⟨hends, hend⟩ | ⟨as, r', pos', hlt, hr', -, hstep⟩
    · rw [hend]
      exact hends
    · rw [hstep]
      exact ih hr' (by omega)

/-- A bound that is more than the bytes that are left does not matter. -/
theorem attributes_enough {fuel fuel' : Nat} (h : r.Stands source pos) (hfuel : Text.size source < pos + fuel)
    (hfuel' : Text.size source < pos + fuel') : attributes fuel r = attributes fuel' r := by
  induction fuel generalizing r pos fuel' with
  | zero =>
    have := h.isPlace.le_size
    omega
  | succ fuel ih =>
    cases fuel' with
    | zero =>
      have := h.isPlace.le_size
      omega
    | succ fuel' =>
      rcases attributes_step h with ⟨-, hend⟩ | ⟨as, r', pos', hlt, hr', -, hstep⟩
      · rw [hend, hend]
      · rw [hstep, hstep, ih hr' (by omega) (by omega : Text.size source < pos' + fuel')]

/-! ## Tags -/

/-- An opening tag was read: its name stands behind its bracket, its attributes inside, and the reader stands behind it. -/
structure TakesTag (source : List Char) (pos : Nat) (t : StartTag) (r : Reader) : Prop where
  le_start : pos ≤ t.start
  start_lt : t.start < t.stop
  start_isPlace : Text.IsPlace source t.start
  tag_stands : Text.StandsAt source (t.start + 1) t.tag.toList
  tag_letter : t.tag.toList.head?.any Char.isAlpha = true
  attributes_between : ∀ a ∈ t.attributes, Between source t.start t.stop a
  stands : r.Stands source t.stop
  /-- A tag that has its end and does not close itself ends with its bracket. -/
  ends_with : t.terminated = true → t.selfClosing = false → ∃ before rest, source = before ++ '>' :: rest ∧ Text.size before + 1 = t.stop

/-- The place of an opening tag. -/
theorem TakesTag.fits {t : StartTag} (h : TakesTag source pos t r) : (⟨t.start, t.stop⟩ : Span).Fits source :=
  ⟨h.start_isPlace, h.stands.isPlace, h.start_lt.le⟩

theorem takesTag (h : r.Stands source pos) (ho : r.atTagOpen = true) : TakesTag source pos r.startTag.1 r.startTag.2 := by
  rw [atTagOpen, Bool.and_eq_true, Bool.and_eq_true, beq_iff_eq] at ho
  obtain ⟨⟨hk, hname⟩, hletter⟩ := ho
  obtain ⟨own, more, hf, hle⟩ := h.faces (by rw [hk]; decide)
  obtain rfl : own = ['<'] := by
    have hwritten := hf.written
    rwa [hk] at hwritten
  have hadvance : r.advance.Stands source (r.start + 1) := h.advance hf
  -- The name stands right behind the bracket.
  rw [nameFollows, peek_one, Bool.and_eq_true, beq_iff_eq, beq_iff_eq, hf.stop_eq] at hname
  have hstart : r.advance.start = r.start + 1 := hname.2
  obtain ⟨own', more', hf', hle'⟩ := hadvance.faces (by rw [show r.advance.kind = _ from hname.1]; decide)
  have hlt := hf'.start_lt
  obtain ⟨pos', hpos', hstands, hbetween⟩ := attributes_stands (r.advance.advance.size + 1) (hadvance.advance hf')
  unfold startTag
  dsimp only
  have hown : r.textOf (r.peek 1) = own' := by
    rw [← hf'.textOf_eq hadvance.source_eq, ← peek_one]
    rfl
  rw [hown] at hletter
  rw [hf'.textOf_eq hadvance.source_eq]
  generalize attributes (r.advance.advance.size + 1) r.advance.advance = x at hstands hbetween
  obtain ⟨as, r'⟩ := x
  dsimp only at hstands hbetween ⊢
  have hstart' := hstands.le_start
  have htag : Text.StandsAt source (r.start + 1) (String.ofList own').toList := standsAt_ofList (hstart ▸ hf'.rest.standsAt)
  have htagLetter : (String.ofList own').toList.head?.any Char.isAlpha = true := by rwa [String.toList_ofList]
  have hwithin : ∀ stop, pos' ≤ stop → ∀ a ∈ as, Between source r.start stop a := by
    intro stop hstop a ha
    exact (hbetween a ha).mono (by omega) hstop
  split
  · rename_i hkind
    obtain ⟨own'', more'', hf'', -⟩ := hstands.faces (by rw [hkind]; decide)
    have hlt'' := hf''.start_lt
    rw [hf''.stop_eq]
    exact ⟨hle, by dsimp only; omega, h.isPlace_start, htag, htagLetter, hwithin (r'.start + Text.size own'') (by omega),
      hstands.advance hf'', by simp⟩
  · rename_i hkind
    obtain ⟨own'', more'', hf'', -⟩ := hstands.faces (by rw [hkind]; decide)
    obtain rfl : own'' = ['>'] := by
      have hwritten := hf''.written
      rwa [hkind] at hwritten
    have hlt'' := hf''.start_lt
    rw [hf''.stop_eq]
    refine ⟨hle, by dsimp only; omega, h.isPlace_start, htag, htagLetter, hwithin (r'.start + Text.size ['>']) (by omega), hstands.advance hf'', ?_⟩
    intro _ _
    obtain ⟨before, hsource, hsize⟩ := hf''.rest
    exact ⟨before, more'', hsource, by rw [hsize]; rfl⟩
  · exact ⟨hle, by dsimp only; omega, h.isPlace_start, htag, htagLetter, hwithin _ hstart', (hstands.error _).atStart, by simp⟩

end Reader

end Markup

end TypedSfc
