import TypedSfc.Proofs.Markup.Tokens

/-!
# The longest match

The tokens of a text are told by rules alone: one for each kind of token, and one for the blanks between them. At every place the rule
with the longest match is followed, of several with the same match the one of the highest priority, and where no rule has a match there
is an error. The lexer makes exactly the lexemes that the rules give, which are never errors; so its tokens tile the text.
-/

namespace TypedSfc

namespace Markup

namespace Token

open Text (size)

/-! ## Rules -/

/-- The rules of the lexer: one for the blanks between tokens, and one for each kind of token. -/
inductive Rule where
  | blanks
  | token (kind : TokenKind)
  deriving DecidableEq

namespace Rule

/-- The texts that a rule matches. -/
def Matches : Rule → List Char → Prop
  | blanks, t => t ≠ [] ∧ ∀ c ∈ t, isSkipped c = true
  | token k, t => Written k t

/-- The priority of a rule, given that of the rule for blanks. The end of the file is no rule of its own. -/
def priority (ofBlanks : Nat) : Rule → Nat
  | blanks => ofBlanks
  | token .commentOpen => 12
  | token .angleSlash | token .slashClose | token .mustacheOpen | token .mustacheClose => 11
  | token .name => 4
  | token .brace => 2
  | token .eof => 0
  | token _ => 10

end Rule

/-- At a text that begins with `own`, a rule is followed for `own`: no rule matches more, and none of a higher priority matches as
much. -/
structure Wins (ofBlanks : Nat) (rule : Rule) (own more : List Char) : Prop where
  matched : rule.Matches own
  longest : ∀ rule' : Rule, ∀ t, rule'.Matches t → t <+: own ++ more →
    t.length < own.length ∨ (t = own ∧ rule'.priority ofBlanks ≤ rule.priority ofBlanks)

/-- What a lexer finds in a text: a token, or an error where no rule has a match. -/
inductive Lexeme where
  | token (t : Token)
  | error (s : Span)
  deriving DecidableEq

/-- The lexemes that the rules give for a text from byte `pos` on. -/
inductive Scans (ofBlanks : Nat) : Nat → List Char → List Lexeme → Prop
  | ends (pos : Nat) : Scans ofBlanks pos [] [.token ⟨.eof, Span.empty pos⟩]
  | skips {pos : Nat} {own more : List Char} {ls : List Lexeme} (wins : Wins ofBlanks .blanks own more)
      (behind : Scans ofBlanks (pos + size own) more ls) : Scans ofBlanks pos (own ++ more) ls
  | takes {pos : Nat} {k : TokenKind} {own more : List Char} {ls : List Lexeme} (wins : Wins ofBlanks (.token k) own more)
      (behind : Scans ofBlanks (pos + size own) more ls) :
      Scans ofBlanks pos (own ++ more) (.token ⟨k, ⟨pos, pos + size own⟩⟩ :: ls)
  | fails {pos : Nat} {own more : List Char} {ls : List Lexeme} (ne : own ≠ [])
      (unmatched : ∀ rule : Rule, ∀ t, rule.Matches t → ¬t <+: own ++ more) (behind : Scans ofBlanks (pos + size own) more ls) :
      Scans ofBlanks pos (own ++ more) (.error ⟨pos, pos + size own⟩ :: ls)

/-! ## One match -/

theorem isSkipped_of_isNameChar {c : Char} (h : isNameChar c = true) : isSkipped c = false := by
  simp only [isNameChar, Bool.not_eq_true', Bool.or_eq_false_iff] at h
  simp [h]

/-- No token begins with a blank. -/
theorem Written.isSkipped_eq_false {k : TokenKind} {c : Char} {t : List Char} (h : Written k (c :: t)) : isSkipped c = false := by
  cases k with
  | name => exact isSkipped_of_isNameChar (h.2 c List.mem_cons_self)
  | brace => rcases h with h | h <;> · rw [(List.cons.inj h).1]; rfl
  | eof => exact h.elim
  | commentOpen | angleSlash | angle | close | slashClose | slash | equals | doubleQuote | singleQuote | mustacheOpen
    | mustacheClose | newline => rw [(List.cons.inj h).1]; rfl

/-- A name goes on as long as there are characters of names. -/
theorem scan_of_isNameChar {c : Char} (hc : isNameChar c = true) (cs : List Char) :
    scan c cs = (.name, (cs.takeWhile isNameChar).length) := by
  simp only [isNameChar, Bool.not_eq_true', Bool.or_eq_false_iff] at hc
  simp [scan, hc]

/-- What is scanned at a text is no shorter than a token that the text begins with, and of equally long ones it is that token. -/
theorem scan_of_written {k : TokenKind} {c : Char} {own : List Char} (h : Written k (c :: own)) (more : List Char) :
    own.length ≤ (scan c (own ++ more)).2 ∧ ((scan c (own ++ more)).2 = own.length → (scan c (own ++ more)).1 = k) := by
  cases k with
  | name =>
    obtain ⟨hc, hown⟩ := List.forall_mem_cons.1 h.2
    rw [scan_of_isNameChar hc, List.takeWhile_append_of_pos hown, List.length_append]
    exact ⟨Nat.le_add_right .., fun _ => rfl⟩
  | eof => exact h.elim
  | commentOpen | angleSlash | slashClose | mustacheOpen | mustacheClose =>
    obtain ⟨rfl, rfl⟩ := List.cons.inj h
    exact ⟨Nat.le_refl _, fun _ => rfl⟩
  | close | equals | doubleQuote | singleQuote | newline =>
    obtain ⟨rfl, rfl⟩ := List.cons.inj h
    exact ⟨Nat.zero_le _, fun _ => rfl⟩
  | angle | slash =>
    -- What follows decides whether there is a longer token.
    obtain ⟨rfl, rfl⟩ := List.cons.inj h
    refine ⟨Nat.zero_le _, ?_⟩
    rw [List.nil_append, scan.eq_def]
    simp only [beq_self_eq_true, if_true, Char.reduceBEq, Bool.false_eq_true, if_false]
    split <;> simp
  | brace =>
    rcases h with h | h
    all_goals
      obtain ⟨rfl, rfl⟩ := List.cons.inj h
      refine ⟨Nat.zero_le _, ?_⟩
      rw [List.nil_append, scan.eq_def]
      simp only [beq_self_eq_true, if_true, Char.reduceBEq, Bool.false_eq_true, if_false]
      split <;> simp

/-- A token ends with the text, at the latest. -/
theorem scan_le_length (c : Char) (cs : List Char) : (scan c cs).2 ≤ cs.length := by
  have htake := (List.takeWhile_prefix (p := isNameChar) (l := cs)).length_le
  unfold scan
  repeat' split
  all_goals first | exact Nat.zero_le _ | exact htake | simp

/-- No text is matched by two rules. -/
theorem Rule.Matches.unique {rule rule' : Rule} {t : List Char} (h : rule.Matches t) (h' : rule'.Matches t) : rule = rule' := by
  -- A blank begins no token.
  have hblanks : ∀ k, Rule.blanks.Matches t → ¬(Rule.token k).Matches t := by
    rintro k ⟨hne, hskipped⟩ hk
    obtain ⟨c, t, rfl⟩ := List.exists_cons_of_ne_nil hne
    have hfalse := hk.isSkipped_eq_false
    rw [hskipped c List.mem_cons_self] at hfalse
    cases hfalse
  -- The text of a token is scanned as that token.
  have htoken : ∀ k, (Rule.token k).Matches t → ∃ c own, t = c :: own ∧ (scan c own).1 = k := by
    intro k hk
    obtain ⟨c, own, rfl⟩ := List.exists_cons_of_ne_nil (Written.ne_nil hk)
    obtain ⟨hlong, hkind⟩ := scan_of_written hk []
    rw [List.append_nil] at hlong hkind
    exact ⟨c, own, rfl, hkind (Nat.le_antisymm (scan_le_length c own) hlong)⟩
  cases rule with
  | blanks =>
    cases rule' with
    | blanks => rfl
    | token k => exact absurd h' (hblanks k h)
  | token k =>
    cases rule' with
    | blanks => exact absurd h (hblanks k h')
    | token k' =>
      obtain ⟨c, own, rfl, rfl⟩ := htoken k h
      obtain ⟨_, _, heq, rfl⟩ := htoken k' h'
      obtain ⟨rfl, rfl⟩ := List.cons.inj heq
      rfl

/-! ## The match that wins -/

variable {ofBlanks : Nat}

/-- At most one rule is followed at a text, and for one match. -/
theorem Wins.unique {rule rule' : Rule} {own more own' more' : List Char} (h : Wins ofBlanks rule own more)
    (h' : Wins ofBlanks rule' own' more') (heq : own ++ more = own' ++ more') : rule = rule' ∧ own = own' ∧ more = more' := by
  have hle := h.longest rule' own' h'.matched (heq ▸ List.prefix_append own' more')
  have hge := h'.longest rule own h.matched (heq ▸ List.prefix_append own more)
  obtain rfl : own = own' := by
    rcases hle with hlt | ⟨hown, -⟩
    · rcases hge with hgt | ⟨hown, -⟩
      · omega
      · exact hown
    · exact hown.symm
  exact ⟨h.matched.unique h'.matched, rfl, List.append_cancel_left heq⟩

/-- Before a character that is no blank, the rule for blanks is followed for all of them. -/
theorem wins_blanks {gap rest : List Char} (hne : gap ≠ []) (hgap : ∀ c ∈ gap, isSkipped c = true)
    (hrest : ∀ c rest', rest = c :: rest' → isSkipped c = false) : Wins ofBlanks .blanks gap rest := by
  refine ⟨⟨hne, hgap⟩, ?_⟩
  intro rule t ht hprefix
  obtain ⟨more, hmore⟩ := hprefix
  cases rule with
  | blanks =>
    rcases List.append_eq_append_iff.1 hmore with ⟨mid, hlong, hmid⟩ | ⟨mid, hlong, hmid⟩
    · cases mid with
      | nil => exact .inr ⟨by rw [hlong, List.append_nil], Nat.le_refl _⟩
      | cons c mid => exact .inl (by rw [hlong]; simp)
    · cases mid with
      | nil => exact .inr ⟨by rw [hlong, List.append_nil], Nat.le_refl _⟩
      | cons c mid =>
        have hc : isSkipped c = true := ht.2 c (by rw [hlong]; simp)
        rw [hrest c _ hmid] at hc
        cases hc
  | token k =>
    obtain ⟨c, t, rfl⟩ := List.exists_cons_of_ne_nil (Written.ne_nil ht)
    obtain ⟨d, gap, rfl⟩ := List.exists_cons_of_ne_nil hne
    have hc : isSkipped d = true := hgap d List.mem_cons_self
    rw [← (List.cons.inj hmore).1, ht.isSkipped_eq_false] at hc
    cases hc

/-- At any other character, the rule of the token that is scanned there is followed for that token. -/
theorem wins_scan (ofBlanks : Nat) {c : Char} (hc : isSkipped c = false) (cs : List Char) :
    Wins ofBlanks (.token (scan c cs).1) (c :: cs.take (scan c cs).2) (cs.drop (scan c cs).2) := by
  refine ⟨written_scan hc cs, ?_⟩
  intro rule t ht hprefix
  rw [List.cons_append, List.take_append_drop] at hprefix
  obtain ⟨more, hmore⟩ := hprefix
  have hlength : (c :: cs.take (scan c cs).2).length = (scan c cs).2 + 1 := by
    rw [List.length_cons, List.length_take, Nat.min_eq_left (scan_le_length c cs)]
  cases rule with
  | blanks =>
    obtain ⟨d, t, rfl⟩ := List.exists_cons_of_ne_nil ht.1
    have hd := ht.2 d List.mem_cons_self
    rw [(List.cons.inj hmore).1, hc] at hd
    cases hd
  | token k =>
    obtain ⟨d, own, rfl⟩ := List.exists_cons_of_ne_nil (Written.ne_nil ht)
    rw [List.cons_append] at hmore
    obtain ⟨rfl, rfl⟩ := List.cons.inj hmore
    obtain ⟨hlong, hkind⟩ := scan_of_written ht more
    rw [hlength, List.length_cons]
    rcases Nat.lt_or_eq_of_le hlong with hlt | heq
    · exact .inl (by omega)
    · rw [← heq, hkind heq.symm, List.take_left]
      exact .inr ⟨rfl, Nat.le_refl _⟩

/-! ## The lexemes of a text -/

/-- At any character there is a match, of blanks or of a token. -/
theorem exists_matches (c : Char) (cs : List Char) : ∃ rule : Rule, ∃ t, rule.Matches t ∧ t <+: c :: cs := by
  cases hc : isSkipped c with
  | true => exact ⟨.blanks, [c], ⟨by simp, by simpa using hc⟩, List.prefix_append [c] cs⟩
  | false => exact ⟨.token _, _, written_scan hc cs, List.cons_prefix_cons.2 ⟨rfl, List.take_prefix _ _⟩⟩

/-- The rules give one list of lexemes at most: the tokens of the text. -/
theorem Scans.eq_tokens {pos : Nat} {cs : List Char} {ls : List Lexeme} (h : Scans ofBlanks pos cs ls) :
    ls = (lexFrom pos 0 cs).map .token := by
  induction h with
  | ends pos => rfl
  | @skips pos own more ls wins behind ih => rw [lexFrom_gap wins.matched.2, ih]
  | @takes pos k own more ls wins behind ih =>
    obtain ⟨c, own, rfl⟩ := List.exists_cons_of_ne_nil (Written.ne_nil wins.matched)
    have hc := Written.isSkipped_eq_false wins.matched
    have hscan := wins_scan ofBlanks hc (own ++ more)
    obtain ⟨hk, hown, hmore⟩ := wins.unique hscan (by rw [List.cons_append, List.cons_append, List.take_append_drop])
    rw [List.cons_append, lexFrom_scan hc, ← hown, ← hmore, ← Rule.token.inj hk, List.map_cons, ih]
  | @fails pos own more ls ne unmatched behind ih =>
    obtain ⟨c, own, rfl⟩ := List.exists_cons_of_ne_nil ne
    obtain ⟨rule, t, ht, hprefix⟩ := exists_matches c (own ++ more)
    exact absurd hprefix (unmatched rule t ht)

/-- The rules give the tokens of a text. -/
theorem scans_tokens (ofBlanks pos : Nat) (cs : List Char) : Scans ofBlanks pos cs ((lexFrom pos 0 cs).map .token) := by
  -- The induction is on the length of the text: a run of blanks or a token is taken off it.
  induction hlen : cs.length using Nat.strongRecOn generalizing cs pos with
  | _ len ih =>
    obtain ⟨gap, rest, rfl, hgap, hrest⟩ := exists_gap cs
    cases gap with
    | cons c gap =>
      have hshort : rest.length < len := by
        rw [← hlen, List.length_append, List.length_cons]
        omega
      rw [lexFrom_gap hgap]
      exact .skips (wins_blanks (List.cons_ne_nil c gap) hgap hrest) (ih rest.length hshort _ rest rfl)
    | nil =>
      rw [List.nil_append] at hlen ⊢
      cases rest with
      | nil => exact .ends pos
      | cons c cs =>
        have hc := hrest c cs rfl
        have hwins := wins_scan ofBlanks hc cs
        have hshort : (cs.drop (scan c cs).2).length < len := by
          rw [← hlen, List.length_drop, List.length_cons]
          omega
        have hbehind := Scans.takes hwins (ih _ hshort (pos + size (c :: cs.take (scan c cs).2)) _ rfl)
        rw [List.cons_append, List.take_append_drop] at hbehind
        rwa [lexFrom_scan hc]

/-- The lexemes that the rules give for a text are its tokens, and nothing else. -/
theorem scans_iff {pos : Nat} {cs : List Char} {ls : List Lexeme} :
    Scans ofBlanks pos cs ls ↔ ls = (lexFrom pos 0 cs).map .token := by
  constructor
  · exact Scans.eq_tokens
  · rintro rfl
    exact scans_tokens ofBlanks pos cs

/-! ## Tiles -/

/-- Tokens tile a text from byte `pos` on: they stand in it one behind another, each takes a byte at least, none is the end of the file,
and every byte outside of them is a blank. -/
structure Tiles (cs : List Char) (pos : Nat) (ts : List Token) : Prop where
  behind : ∀ t ∈ ts, pos ≤ t.span.start
  inOrder : ts.Pairwise fun t t' => t.span.stop ≤ t'.span.start
  nonempty : ∀ t ∈ ts, t.span.start < t.span.stop
  written : ∀ t ∈ ts, t.kind ≠ .eof ∧ ∃ own, t.span.Reads cs own ∧ Written t.kind own
  blanks_between : ∀ n, pos ≤ n → n < size cs → (∀ t ∈ ts, t.span.contains n = false) →
    ∃ c, Text.StandsAt cs n [c] ∧ (c = ' ' ∨ c = '\t' ∨ c = '\r' ∨ c = '\x0c')

/-- A blank is one byte. -/
theorem utf8Size_of_isSkipped {c : Char} (hc : isSkipped c = true) : c.utf8Size = 1 := by
  simp only [isSkipped, Bool.or_eq_true, beq_iff_eq] at hc
  rcases hc with ((rfl | rfl) | rfl) | rfl <;> rfl

/-- A blank stands at each byte of a run of blanks. -/
theorem exists_of_lt_size_gap {gap : List Char} (hgap : ∀ c ∈ gap, isSkipped c = true) {n : Nat} (hn : n < size gap) :
    ∃ before c behind, gap = before ++ c :: behind ∧ size before = n := by
  induction gap generalizing n with
  | nil => exact absurd hn (Nat.not_lt_zero n)
  | cons c gap ih =>
    have hc := utf8Size_of_isSkipped (hgap c List.mem_cons_self)
    cases n with
    | zero => exact ⟨[], c, gap, rfl, rfl⟩
    | succ n =>
      rw [Text.size_cons, hc] at hn
      obtain ⟨before, d, behind, rfl, rfl⟩ := ih (fun d hd => hgap d (List.mem_cons_of_mem c hd)) (by omega : n < size gap)
      exact ⟨c :: before, d, behind, rfl, by rw [Text.size_cons, hc]; omega⟩

/-- What the rules give for what is left of a text are tokens that tile it, and the end of the file at the end of the text. -/
theorem Scans.exists_tiles {source : List Char} {pos : Nat} {cs : List Char} {ls : List Lexeme} (h : Scans ofBlanks pos cs ls)
    (hrest : Text.Rest source pos cs) :
    ∃ ts, ls = (ts ++ [⟨.eof, Span.empty (size source)⟩]).map .token ∧ Tiles source pos ts := by
  induction h with
  | ends pos =>
    have hsize := hrest.size_eq
    rw [Text.size_nil, Nat.add_zero] at hsize
    refine ⟨[], by rw [hsize]; rfl, by simp, .nil, by simp, by simp, ?_⟩
    intro n hlo hhi
    omega
  | @skips pos own more ls wins behind ih =>
    obtain ⟨ts, hls, htiles⟩ := ih hrest.step
    refine ⟨ts, hls, fun t ht => Nat.le_trans (Nat.le_add_right ..) (htiles.behind t ht), htiles.inOrder, htiles.nonempty,
      htiles.written, ?_⟩
    intro n hlo hhi hout
    by_cases hgap : n < pos + size own
    · obtain ⟨before, c, rest, rfl, hn⟩ := exists_of_lt_size_gap wins.matched.2 (by omega : n - pos < size own)
      have hc := wins.matched.2 c (by simp)
      simp only [isSkipped, Bool.or_eq_true, beq_iff_eq, or_assoc] at hc
      rw [List.append_assoc] at hrest
      have hstands := hrest.step.standsAt (t := [c])
      rw [hn, Nat.add_sub_cancel' hlo] at hstands
      exact ⟨c, hstands, hc⟩
    · exact htiles.blanks_between n (by omega) hhi hout
  | @takes pos k own more ls wins behind ih =>
    obtain ⟨ts, rfl, htiles⟩ := ih hrest.step
    have hpos := Text.size_pos (Written.ne_nil wins.matched)
    have hbehind : ∀ t ∈ ts, pos + size own ≤ t.span.start := htiles.behind
    refine ⟨⟨k, ⟨pos, pos + size own⟩⟩ :: ts, rfl, ?_, ?_, ?_, ?_, ?_⟩
    · exact List.forall_mem_cons.2 ⟨Nat.le_refl pos, fun t ht => Nat.le_trans (Nat.le_add_right ..) (hbehind t ht)⟩
    · exact List.pairwise_cons.2 ⟨hbehind, htiles.inOrder⟩
    · exact List.forall_mem_cons.2 ⟨by dsimp only; omega, htiles.nonempty⟩
    · exact List.forall_mem_cons.2 ⟨⟨Written.ne_eof wins.matched, own, ⟨hrest.standsAt, rfl⟩, wins.matched⟩, htiles.written⟩
    · intro n hlo hhi hout
      obtain ⟨hfirst, hout⟩ := List.forall_mem_cons.1 hout
      have hn : pos + size own ≤ n := by
        simp only [Span.contains, hlo, decide_true, Bool.true_and, decide_eq_false_iff_not] at hfirst
        omega
      exact htiles.blanks_between n hn hhi hout
  | @fails pos own more ls ne unmatched behind ih =>
    obtain ⟨c, own, rfl⟩ := List.exists_cons_of_ne_nil ne
    obtain ⟨rule, t, ht, hprefix⟩ := exists_matches c (own ++ more)
    exact absurd hprefix (unmatched rule t ht)

/-- The tokens of what is left of a text tile it, and the end of the file is behind them. -/
theorem exists_tiles_lexFrom {source cs : List Char} {pos : Nat} (hrest : Text.Rest source pos cs) :
    ∃ ts, lexFrom pos 0 cs = ts ++ [⟨.eof, Span.empty (size source)⟩] ∧ Tiles source pos ts := by
  obtain ⟨ts, hls, htiles⟩ := (scans_tokens 0 pos cs).exists_tiles hrest
  exact ⟨ts, (List.map_inj_right fun _ _ h => Lexeme.token.inj h).1 hls, htiles⟩

/-- The lexer tiles its input: whatever the priority of the rule for blanks, the rules give its tokens and no error; the last token is the
end of the file, at the end of the source, and the others tile the source. -/
theorem lex_tiles (source : String) :
    (∀ ofBlanks ls, Scans ofBlanks 0 source.toList ls ↔ ls = (lex source.toList).map .token) ∧
      ∃ ts, lex source.toList = ts ++ [⟨.eof, Span.empty source.utf8ByteSize⟩] ∧ Tiles source.toList 0 ts := by
  refine ⟨fun ofBlanks ls => scans_iff, ?_⟩
  obtain ⟨ts, hlex, htiles⟩ := exists_tiles_lexFrom (Text.rest_zero source.toList)
  rw [Text.size_toList] at hlex
  exact ⟨ts, hlex, htiles⟩

example : lex "<p>\n</p".toList =
    [⟨.angle, ⟨0, 1⟩⟩, ⟨.name, ⟨1, 2⟩⟩, ⟨.close, ⟨2, 3⟩⟩, ⟨.newline, ⟨3, 4⟩⟩, ⟨.angleSlash, ⟨4, 6⟩⟩, ⟨.name, ⟨6, 7⟩⟩, ⟨.eof, ⟨7, 7⟩⟩] := by
  decide

end Token

end Markup

end TypedSfc
