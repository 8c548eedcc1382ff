import TypedSfc.Markup.Reader
import TypedSfc.Proofs.Markup.Tokens

/-!
# Where a reader stands

A reader stands at a place of its source when its tokens are those of the source from there on. It stands at its start again wherever
it is brought, so that a step is known by the place behind it; and the faults noted on the way are at places of the source.
-/

namespace TypedSfc

namespace Markup

namespace Reader

/-- A reader of a source stands at byte `pos`: its tokens are those from there on, and its faults have places. -/
structure Stands (source : List Char) (pos : Nat) (r : Reader) : Prop where
  source_eq : r.source = source
  tokens_eq : ∃ rest, Text.Rest source pos rest ∧ r.tokens = Token.lexFrom pos 0 rest
  errors_fit : ∀ e ∈ r.errors, e.span.Fits source

/-- The token here is of a kind and written `own`, and `more` follows it. -/
structure Faces (source : List Char) (k : TokenKind) (own more : List Char) (r : Reader) : Prop where
  written : Token.Written k own
  rest : Text.Rest source r.start (own ++ more)
  tokens_eq : r.tokens = ⟨k, ⟨r.start, r.start + Text.size own⟩⟩ :: Token.lexFrom (r.start + Text.size own) 0 more

variable {source : List Char} {pos : Nat} {r : Reader} {k : TokenKind} {own more : List Char}

/-! ## The token here -/

theorem current_of_tokens {t : Token} {ts : List Token} (h : r.tokens = t :: ts) : r.current = t := by
  simp [current, peek, h]

theorem peek_one (r : Reader) : r.peek 1 = r.advance.current := by
  unfold peek current advance peek
  cases r.tokens <;> rfl

/-- Bringing a reader to a place is about its tokens alone. -/
@[simp] theorem source_sync (r : Reader) (offset : Nat) : (r.sync offset).source = r.source := by
  unfold sync
  dsimp only
  split
  · rfl
  · split <;> rfl

@[simp] theorem errors_sync (r : Reader) (offset : Nat) : (r.sync offset).errors = r.errors := by
  unfold sync
  dsimp only
  split
  · rfl
  · split <;> rfl

namespace Faces

theorem current_eq (h : r.Faces source k own more) : r.current = ⟨k, ⟨r.start, r.start + Text.size own⟩⟩ :=
  current_of_tokens h.tokens_eq

theorem kind_eq (h : r.Faces source k own more) : r.kind = k := congrArg Token.kind h.current_eq

theorem stop_eq (h : r.Faces source k own more) : r.current.span.stop = r.start + Text.size own :=
  congrArg (·.span.stop) h.current_eq

theorem reads (h : r.Faces source k own more) : r.current.span.Reads source own := by
  rw [h.current_eq]
  exact ⟨h.rest.standsAt, rfl⟩

theorem textOf_eq (hs : r.source = source) (h : r.Faces source k own more) : r.textOf r.current = own := by
  rw [textOf, hs]
  exact h.reads.between_eq

/-- A token takes a byte at least. -/
theorem start_lt (h : r.Faces source k own more) : r.start < r.start + Text.size own := by
  have := Text.size_pos h.written.ne_nil
  omega

end Faces

namespace Stands

theorem size_eq (h : r.Stands source pos) : r.size = Text.size source := by rw [Reader.size, h.source_eq]

/-- A reader stands before blanks and then the end of the source or a token. -/
theorem ends_or_faces (h : r.Stands source pos) :
    (r.current = ⟨.eof, Span.empty (Text.size source)⟩ ∧ r.tokens = [r.current]) ∨
      ∃ k own more, r.Faces source k own more ∧ pos ≤ r.start := by
  obtain ⟨rest, hrest, htokens⟩ := h.tokens_eq
  obtain ⟨gap, behind, rfl, hgap, hbehind⟩ := Token.exists_gap rest
  rw [Token.lexFrom_gap hgap] at htokens
  cases behind with
  | nil =>
    left
    have hsize := hrest.size_eq
    rw [List.append_nil] at hsize
    rw [Token.lexFrom_nil, hsize] at htokens
    rw [current_of_tokens htokens]
    exact ⟨rfl, htokens⟩
  | cons c cs =>
    right
    obtain ⟨k, own, more, hown, hwritten, -, hlex⟩ := Token.lexFrom_token (hbehind c cs rfl) (pos + Text.size gap) cs
    rw [hlex] at htokens
    have hstart : r.start = pos + Text.size gap := congrArg (·.span.start) (current_of_tokens htokens)
    refine ⟨k, own, more, ⟨hwritten, ?_, by rw [hstart]; exact htokens⟩, by omega⟩
    rw [hstart, ← hown]
    exact hrest.step

/-- At the end of the file there is nothing left but blanks. -/
theorem start_of_eof (h : r.Stands source pos) (hk : r.kind = .eof) : r.start = Text.size source := by
  rcases h.ends_or_faces with ⟨hcurrent, -⟩ | ⟨k, own, more, hf, -⟩
  · rw [start, hcurrent]
    rfl
  · exact absurd (hf.kind_eq ▸ hk) hf.written.ne_eof

/-- Before any other token, the token faces its text. -/
theorem faces (h : r.Stands source pos) (hk : r.kind ≠ .eof) : ∃ own more, r.Faces source r.kind own more ∧ pos ≤ r.start := by
  rcases h.ends_or_faces with ⟨hcurrent, -⟩ | ⟨k, own, more, hf, hle⟩
  · exact absurd (congrArg Token.kind hcurrent) hk
  · exact ⟨own, more, hf.kind_eq ▸ hf, hle⟩

theorem isPlace (h : r.Stands source pos) : Text.IsPlace source pos := by
  obtain ⟨rest, hrest, -⟩ := h.tokens_eq
  exact hrest.isPlace

theorem le_start (h : r.Stands source pos) : pos ≤ r.start := by
  by_cases hk : r.kind = .eof
  · rw [h.start_of_eof hk]
    exact h.isPlace.le_size
  · obtain ⟨_, _, -, hle⟩ := h.faces hk
    exact hle

theorem isPlace_start (h : r.Stands source pos) : Text.IsPlace source r.start := by
  by_cases hk : r.kind = .eof
  · rw [h.start_of_eof hk]
    exact Text.isPlace_size source
  · obtain ⟨_, _, hf, -⟩ := h.faces hk
    exact hf.rest.isPlace

theorem start_le (h : r.Stands source pos) : r.start ≤ r.size := by
  rw [h.size_eq]
  exact h.isPlace_start.le_size

/-- The token here has a place, the end of the file among them. -/
theorem current_fits (h : r.Stands source pos) : r.current.span.Fits source := by
  rcases h.ends_or_faces with ⟨hcurrent, -⟩ | ⟨k, own, more, hf, -⟩
  · rw [hcurrent]
    exact ⟨Text.isPlace_size source, Text.isPlace_size source, Nat.le_refl _⟩
  · exact hf.reads.fits

/-! ## Steps -/

theorem new (source : String) : (Reader.new source).Stands source.toList 0 :=
  ⟨rfl, ⟨source.toList, Text.rest_zero _, rfl⟩, by simp [Reader.new]⟩

/-- The blanks before a token do not matter. -/
theorem atStart (h : r.Stands source pos) : r.Stands source r.start := by
  refine ⟨h.source_eq, ?_, h.errors_fit⟩
  rcases h.ends_or_faces with ⟨hcurrent, htokens⟩ | ⟨k, own, more, hf, -⟩
  · have hstart : r.start = Text.size source := by rw [start, hcurrent]; rfl
    refine ⟨[], hstart ▸ Text.rest_size source, ?_⟩
    rw [htokens, hcurrent, hstart, Token.lexFrom_nil]
  · refine ⟨own ++ more, hf.rest, ?_⟩
    obtain ⟨rest, hrest, htokens⟩ := h.tokens_eq
    obtain ⟨gap, behind, rfl, hgap, hbehind⟩ := Token.exists_gap rest
    have hsame : r.start = pos + Text.size gap ∧ own ++ more = behind := by
      rw [Token.lexFrom_gap hgap] at htokens
      cases behind with
      | nil =>
        rw [Token.lexFrom_nil, hf.tokens_eq] at htokens
        have hkind := congrArg Token.kind (List.cons.inj htokens).1
        exact absurd hkind hf.written.ne_eof
      | cons c cs =>
        obtain ⟨k', own', more', hown', -, -, hlex⟩ := Token.lexFrom_token (hbehind c cs rfl) (pos + Text.size gap) cs
        rw [hlex] at htokens
        have hstart : r.start = pos + Text.size gap := congrArg (·.span.start) (current_of_tokens htokens)
        exact ⟨hstart, (hstart ▸ hf.rest).unique hrest.step⟩
    rw [htokens, Token.lexFrom_gap hgap, hsame.1, hsame.2]

/-- Past a token of the text, the reader stands where the token ends. -/
theorem advance (h : r.Stands source pos) (hf : r.Faces source k own more) : r.advance.Stands source (r.start + Text.size own) := by
  refine ⟨h.source_eq, ⟨more, hf.rest.step, ?_⟩, h.errors_fit⟩
  rw [Reader.advance, hf.tokens_eq]
  rfl

theorem errorAt (h : r.Stands source pos) (f : Fault) {s : Span} (hs : s.Fits source) : (r.errorAt f s).Stands source pos := by
  refine ⟨h.source_eq, h.tokens_eq, ?_⟩
  intro e he
  rcases List.mem_append.1 he with he | he
  · exact h.errors_fit e he
  · rw [List.mem_singleton.1 he]
    exact hs

theorem error (h : r.Stands source pos) (f : Fault) : (r.error f).Stands source pos := h.errorAt f h.current_fits

theorem withErrors (h : r.Stands source pos) {es : List ParseError} (hes : ∀ e ∈ es, e.span.Fits source) :
    ({ r with errors := r.errors ++ es } : Reader).Stands source pos := by
  refine ⟨h.source_eq, h.tokens_eq, ?_⟩
  intro e he
  rcases List.mem_append.1 he with he | he
  · exact h.errors_fit e he
  · exact hes e he

/-- Brought to a place that is not behind it, the reader stands there. -/
theorem sync (h : r.Stands source pos) {offset : Nat} (ho : Text.IsPlace source offset) (hle : pos ≤ offset) :
    (r.sync offset).Stands source offset := by
  obtain ⟨rest, hrest, htokens⟩ := h.tokens_eq
  obtain ⟨more, hmore⟩ := ho
  obtain ⟨mid, rfl, rfl⟩ := hrest.split hmore hle
  have hafter : Text.after (pos + Text.size mid) r.source = more := by
    rw [h.source_eq]
    exact hmore.after_eq
  suffices htok : (r.sync (pos + Text.size mid)).tokens = Token.lexFrom (pos + Text.size mid) 0 more by
    exact ⟨(r.source_sync _).trans h.source_eq, ⟨more, hmore, htok⟩, fun e he => h.errors_fit e (r.errors_sync _ ▸ he)⟩
  -- Whether the tokens are kept or made afresh, they are those from the place on.
  have hends : (fun t : Token => t.kind != .eof && decide (t.span.stop ≤ pos + Text.size mid)) = Token.endsBy (pos + Text.size mid) := rfl
  unfold Reader.sync
  dsimp only
  rw [hends, htokens, hafter]
  rcases Token.dropWhile_lexFrom mid more pos with hleft | ⟨t, ts, hleft, hkind, hstart⟩
  · rw [hleft]
    split
    · rename_i hnil
      rw [hnil]
    · split <;> rfl
  · rw [hleft]
    simp [hkind, hstart]

/-- Tokens that are dropped by their own look, and never the last, leave the reader at a place further on. -/
theorem dropWhile (h : r.Stands source pos) {p : Token → Bool} (hp : ∀ t, t.kind = .eof → p t = false) :
    ∃ pos', pos ≤ pos' ∧ ({ r with tokens := r.tokens.dropWhile p } : Reader).Stands source pos' := by
  obtain ⟨rest, hrest, htokens⟩ := h.tokens_eq
  obtain ⟨mid, more, rfl, hdrop, -⟩ := Token.exists_dropWhile_lexFrom hp rest pos
  refine ⟨pos + Text.size mid, Nat.le_add_right .., h.source_eq, ⟨more, hrest.step, ?_⟩, h.errors_fit⟩
  rw [← hdrop, ← htokens]

/-- At a character that is no blank, the reader faces the token that is scanned there. -/
theorem faces_of_rest (h : r.Stands source pos) {c : Char} {cs : List Char} (hrest : Text.Rest source pos (c :: cs))
    (hc : Token.isSkipped c = false) :
    ∃ own more, c :: cs = own ++ more ∧ r.Faces source (Token.scan c cs).1 own more ∧ r.start = pos := by
  obtain ⟨rest, hrest', htokens⟩ := h.tokens_eq
  rw [hrest'.unique hrest] at htokens
  obtain ⟨k, own, more, hown, hwritten, rfl, hlex⟩ := Token.lexFrom_token hc pos cs
  rw [hlex] at htokens
  have hstart : r.start = pos := congrArg (·.span.start) (current_of_tokens htokens)
  refine ⟨own, more, hown, ⟨hwritten, ?_, by rw [hstart]; exact htokens⟩, hstart⟩
  rw [hstart, ← hown]
  exact hrest

/-- Where no blank is, the token here starts right away. -/
theorem start_eq (h : r.Stands source pos) {rest : List Char} (hrest : Text.Rest source pos rest)
    (hhead : ∀ c ∈ rest.head?, Token.isSkipped c = false) : r.start = pos := by
  cases rest with
  | cons c cs =>
    obtain ⟨-, -, -, -, hstart⟩ := h.faces_of_rest hrest (hhead c rfl)
    exact hstart
  | nil =>
    have hsize := hrest.size_eq
    have hle := h.le_start
    have hend := h.isPlace_start.le_size
    rw [Text.size_nil] at hsize
    omega

/-- The source from the start of the token on, or from a place behind it. -/
theorem rest_eq (h : r.Stands source pos) {n : Nat} {rest : List Char} (hrest : Text.Rest source n rest) : r.rest n = rest := by
  rw [Reader.rest, h.source_eq]
  exact hrest.after_eq

end Stands

end Reader

end Markup

end TypedSfc
