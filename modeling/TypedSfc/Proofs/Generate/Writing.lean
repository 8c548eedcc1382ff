import TypedSfc.Proofs.Generate.Closes
import TypedSfc.Proofs.Generate.Strands

/-!
# What an expression is written as

A generator that writes an expression adds segments and changes neither the scopes nor the effect in force, so what it adds can be said
beforehand: the segments of each piece, and around each free name what is kept of the text and what is inserted.
-/

namespace TypedSfc

namespace Generate

open Script (Reference)

/-! ## What a generator writes -/

/-- Under an effect and in scopes, a generator adds some segments, and leaves both as they are. -/
def Writes (r : Setting) (e : Option Effect) (scopes : List (List String)) (g : Gen Unit) (ss : List Segment) : Prop :=
  ∀ s : State, s.code.effect = e → s.scopes = scopes →
    (g.after r s).2.code.segments = s.code.segments ++ ss ∧ (g.after r s).2.code.effect = e ∧ (g.after r s).2.scopes = scopes

section

variable {r : Setting} {e : Option Effect} {scopes : List (List String)} {g : Gen Unit} {as bs ss : List Segment}

theorem Writes.bind {k : Unit → Gen Unit} (hg : Writes r e scopes g as) (hk : Writes r e scopes (k ()) bs) :
    Writes r e scopes (g >>= k) (as ++ bs) := by
  intro s he hscopes
  obtain ⟨hsegments, he', hscopes'⟩ := hg s he hscopes
  obtain ⟨hsegments', he'', hscopes''⟩ := hk (g.after r s).2 he' hscopes'
  refine ⟨?_, he'', hscopes''⟩
  rw [← List.append_assoc, ← hsegments]
  exact hsegments'

/-- A generator that only notes something, and then the rest. -/
theorem Writes.noted {k : Unit → Gen Unit} (hg : Writes r e scopes g []) (hk : Writes r e scopes (k ()) ss) :
    Writes r e scopes (g >>= k) ss := hg.bind hk

theorem Writes.read {k : Setting → Gen Unit} (hk : Writes r e scopes (k r) ss) : Writes r e scopes (read >>= k) ss := hk

theorem Writes.get {k : State → Gen Unit} (hk : ∀ s : State, s.scopes = scopes → Writes r e scopes (k s) ss) :
    Writes r e scopes (get >>= k) ss := fun s he hscopes => hk s hscopes s he hscopes

theorem writes_pure : Writes r e scopes (pure ()) [] := fun _ he hscopes => ⟨(List.append_nil _).symm, he, hscopes⟩

/-- Text of its own makes a segment, unless it is empty. -/
def textSegments (t : String) : List Segment := if t.isEmpty then [] else [.text t]

theorem writes_text (t : String) : Writes r e scopes (text t) (textSegments t) := by
  intro s he hscopes
  show (s.code.text t).segments = _ ∧ (s.code.text t).effect = e ∧ s.scopes = scopes
  unfold Code.text textSegments
  split
  · exact ⟨(List.append_nil _).symm, he, hscopes⟩
  · exact ⟨rfl, he, hscopes⟩

theorem writes_mapped (t : String) (source : SourceId) (offset : Nat) (i : Info) :
    Writes r e scopes (mapped t source offset i) [.mapped t source offset ⟨Effect.apply e i.policy, i.role⟩] := by
  rintro s rfl hscopes
  exact ⟨rfl, rfl, hscopes⟩

theorem writes_checkCut (start stop : Nat) (cs : List Char) : Writes r e scopes (checkCut start stop cs) [] :=
  fun _ he hscopes => ⟨(List.append_nil _).symm, he, hscopes⟩

theorem writes_access (name : String) : Writes r e scopes (access name) [] :=
  fun _ he hscopes => ⟨(List.append_nil _).symm, he, hscopes⟩

end

/-! ## Pieces -/

/-- How much of a piece at `pos`, `size` bytes long, is not behind the mapped part. -/
def Placement.innerEnd (p : Placement) (pos size : Nat) : Nat :=
  if p.before + p.length < pos + size then size - (pos + size - (p.before + p.length)) else size

/-- How much of a piece is before the mapped part. -/
def Placement.headEnd (p : Placement) (pos size : Nat) : Nat := min (p.before - pos) (p.innerEnd pos size)

/-- The segments of a piece: what is before the mapped part, what is in it, and what is behind it. -/
def pieceSegments (p : Placement) (t : List Char) (pos : Nat) (atEnd : Bool) : List Segment :=
  let head := p.headEnd pos (Text.size t)
  let inner := p.innerEnd pos (Text.size t)
  textSegments (String.ofList (Text.between 0 head t)) ++
    ((if !((Text.between head inner t).isEmpty && atEnd) then
        [.mapped (String.ofList (Text.between head inner t)) p.source (p.start + (pos + head - p.before)) p.info]
      else []) ++
      textSegments (String.ofList (Text.between inner (Text.size t) t)))

/-- A placement with the info as its segments carry it under an effect. -/
def Placement.under (p : Placement) (e : Option Effect) : Placement := { p with info := ⟨Effect.apply e p.info.policy, p.info.role⟩ }

section

variable {r : Setting} {e : Option Effect} {scopes : List (List String)}

theorem piece_eq (p : Placement) (t : List Char) (pos : Nat) (atEnd : Bool) :
    piece p t pos atEnd = (do
      checkCut 0 (p.innerEnd pos (Text.size t)) t
      checkCut 0 (p.headEnd pos (Text.size t)) t
      text (String.ofList (Text.between 0 (p.headEnd pos (Text.size t)) t))
      if !((Text.between (p.headEnd pos (Text.size t)) (p.innerEnd pos (Text.size t)) t).isEmpty && atEnd) then
        mapped (String.ofList (Text.between (p.headEnd pos (Text.size t)) (p.innerEnd pos (Text.size t)) t)) p.source
          (p.start + (pos + p.headEnd pos (Text.size t) - p.before)) p.info
      text (String.ofList (Text.between (p.innerEnd pos (Text.size t)) (Text.size t) t))) := rfl

theorem writes_piece (p : Placement) (t : List Char) (pos : Nat) (atEnd : Bool) :
    Writes r e scopes (piece p t pos atEnd) (pieceSegments (p.under e) t pos atEnd) := by
  have hhead : (p.under e).headEnd pos (Text.size t) = p.headEnd pos (Text.size t) := rfl
  have hinner : (p.under e).innerEnd pos (Text.size t) = p.innerEnd pos (Text.size t) := rfl
  rw [piece_eq, pieceSegments, hhead, hinner]
  refine .noted (writes_checkCut _ _ _) (.noted (writes_checkCut _ _ _) (.bind (writes_text _) ?_))
  dsimp only
  split
  · exact .bind (writes_mapped _ _ _ _) (writes_text _)
  · exact writes_text _

theorem writes_cutPiece (p : Placement) (whole : List Char) (start stop : Nat) (atEnd : Bool) :
    Writes r e scopes (cutPiece p whole start stop atEnd) (pieceSegments (p.under e) (Text.between start stop whole) start atEnd) :=
  .noted (writes_checkCut _ _ _) (writes_piece p _ _ _)

end

/-! ## Free names -/

/-- Where a free name ends. -/
abbrev stopOf (n : Reference) : Nat := n.offset + n.name.utf8ByteSize

/-- What stands before a free name that is a member of the component. -/
def ownerOf (r : Setting) (n : Reference) : String :=
  if r.dollars.contains n.name then Names.ofKey "dollars" ++ "." else Names.ofKey "ctx" ++ "."

/-- A free name as it stands, at its place in the source. -/
def nameSegment (p : Placement) (n : Reference) (t : String) : Segment := .mapped t p.source (p.start + (n.offset - p.before)) p.info

/-- What is inserted for a free name, and where. A member of the component has its owner put before it, and a reference of the setup
script has its value taken behind it; a shorthand keeps its name as the key, and the name stands again as the value. -/
def insertionsOf (r : Setting) (p : Placement) (n : Reference) : List (Nat × Segment) :=
  if n.shorthand then
    if r.setupRefs.contains n.name then [(stopOf n, .text ": "), (stopOf n, nameSegment p n n.name), (stopOf n, .text ".value")]
    else [(stopOf n, .text ": "), (stopOf n, nameSegment p n ""), (stopOf n, .text (ownerOf r n)), (stopOf n, nameSegment p n n.name)]
  else if r.setupRefs.contains n.name then [(stopOf n, .text ".value")]
  else [(n.offset, .text (ownerOf r n))]

/-- The segments that read a free name. -/
def useSegments (r : Setting) (p : Placement) (n : Reference) : List Segment :=
  if r.setupRefs.contains n.name then pieceSegments p n.name.toList n.offset false ++ textSegments ".value"
  else pieceSegments p [] n.offset false ++ (textSegments (ownerOf r n) ++ pieceSegments p n.name.toList n.offset false)

/-- The strands up to the end of a free name, from where the name before it ends. -/
def nameStrands (r : Setting) (p : Placement) (whole : List Char) (prev : Nat) (n : Reference) : List Strand :=
  if n.shorthand then
    (pieceSegments p (Text.between prev (stopOf n) whole) prev false).map .kept ++
      (textSegments ": " ++ useSegments r p n).map .inserted
  else
    (pieceSegments p (Text.between prev n.offset whole) prev (prev == 0)).map .kept ++
      if r.setupRefs.contains n.name then
        (pieceSegments p n.name.toList n.offset false).map .kept ++ (textSegments ".value").map .inserted
      else
        (pieceSegments p [] n.offset false).map .kept ++
          ((textSegments (ownerOf r n)).map .inserted ++ (pieceSegments p n.name.toList n.offset false).map .kept)

/-- The strands of a text from the end of a free name on. -/
def strands (r : Setting) (p : Placement) (whole : List Char) : Nat → List Reference → List Strand
  | prev, [] => if prev < Text.size whole then (pieceSegments p (Text.after prev whole) prev true).map .kept else []
  | prev, n :: ns => nameStrands r p whole prev n ++ strands r p whole (stopOf n) ns

section

variable {r : Setting} {e : Option Effect} {scopes : List (List String)}

/-- The segments of the strands of a free name: what is before it, and what reads it. -/
theorem segment_nameStrands (p : Placement) (whole : List Char) (prev : Nat) (n : Reference) :
    (nameStrands r p whole prev n).map Strand.segment =
      if n.shorthand then
        pieceSegments p (Text.between prev (stopOf n) whole) prev false ++ (textSegments ": " ++ useSegments r p n)
      else pieceSegments p (Text.between prev n.offset whole) prev (prev == 0) ++ useSegments r p n := by
  unfold nameStrands useSegments
  split
  · rw [List.map_append, segment_map_kept, segment_map_inserted]
  · split
    · rw [List.map_append, List.map_append, segment_map_kept, segment_map_kept, segment_map_inserted]
    · rw [List.map_append, List.map_append, List.map_append, segment_map_kept, segment_map_kept, segment_map_kept,
        segment_map_inserted]

theorem writes_useName (p : Placement) (whole : List Char) (prev : Nat) (n : Reference) :
    Writes r e scopes (useName p whole prev n) ((nameStrands r (p.under e) whole prev n).map Strand.segment) := by
  rw [segment_nameStrands]
  unfold useName
  extract_lets stop name last rest
  have hrest : ∀ u, Writes r e scopes (rest u) (useSegments r (p.under e) n) := by
    intro u
    refine .read ?_
    unfold useSegments
    split
    · exact .bind (writes_piece p _ _ _) (writes_text _)
    · refine .bind (writes_piece p _ _ _) ?_
      unfold ownerOf
      split
      · exact .bind (writes_text _) (writes_piece p _ _ _)
      · exact .noted (writes_access _) (.bind (writes_text _) (writes_piece p _ _ _))
  split
  · exact .bind (writes_cutPiece p _ _ _ _) (.bind (writes_text _) (hrest ()))
  · exact .bind (writes_cutPiece p _ _ _ _) (hrest ())

theorem State.keeps_congr {s s' : State} (h : s.scopes = s'.scopes) (name : String) : s.keeps name = s'.keeps name := by
  unfold State.keeps State.isDeclared
  rw [h]

/-- What is written is what the strands of the free names that do not stay as they are make. -/
theorem writes_useNames (p : Placement) (whole : List Char) (prev : Nat) (ns : List Reference) (s : State) :
    Writes r e s.scopes (useNames p whole prev ns)
      ((strands r (p.under e) whole prev (ns.filter fun n => !s.keeps n.name)).map Strand.segment) := by
  induction ns generalizing prev with
  | nil =>
    unfold useNames
    rw [List.filter_nil, strands]
    split
    · rename_i hlt
      rw [segment_map_kept, ← Text.between_size (Nat.le_of_lt hlt)]
      exact writes_cutPiece p _ _ _ _
    · exact writes_pure
  | cons n ns ih =>
    unfold useNames
    refine .get fun s' hs' => ?_
    rw [State.keeps_congr hs']
    split
    · rename_i hkeeps
      rw [List.filter_cons_of_neg (by simp [hkeeps])]
      exact ih prev
    · rename_i hkeeps
      rw [List.filter_cons_of_pos (by simp [hkeeps]), strands, List.map_append]
      exact .bind (writes_useName p whole prev n) (ih _)

end

end Generate

end TypedSfc
