import Mathlib.Data.List.DropRight
import TypedSfc.Proofs.Generate.PermittedExpressions
import TypedSfc.Proofs.Generate.Rewriting
import TypedSfc.Proofs.Script.Idents

/-!
# Senses of being at a place

A text may be at a place of another in more than one sense: it stands there to the letter, or it fits between there and the end. Either
way parts of what is at a place are further on by as much as they are in it. A sense makes a permit: what is at a place of a source may
be mapped there, as it is or with its first letter in upper case, and nothing at all may be mapped where places may be marked. An
expression that is at a place is then written within the permit, so long as the reader of scripts finds names where they are.
-/

namespace TypedSfc

/-- A sense in which a text is at a place of another. -/
structure Sense where
  /-- Whether the second text is in the first one at a position. -/
  has : List Char → Nat → List Char → Prop
  /-- Whether a position of a text may be marked. -/
  marks : List Char → Nat → Prop
  has_of_standsAt : ∀ {t k u}, Text.StandsAt t k u → has t k u
  has_start : ∀ {t k u}, has t k u → has t k []
  has_stop : ∀ {t k u}, has t k u → has t (k + Text.size u) []
  has_trans : ∀ {t u v k j}, has t k u → has u j v → has t (k + j) v
  has_middle : ∀ {as bs cs k u}, has (as ++ (bs ++ cs)) k u → Text.size as ≤ k → k + Text.size u ≤ Text.size as + Text.size bs →
    has bs (k - Text.size as) u
  le_size : ∀ {t k u}, has t k u → k + Text.size u ≤ Text.size t
  marks_of_has : ∀ {t k u}, has t k u → marks t (k + Text.size u)
  marks_mono : ∀ {t k j}, marks t k → j ≤ k → marks t j

namespace Sense

/-- To the letter. Any position may be marked. -/
def verbatim : Sense where
  has := Text.StandsAt
  marks _ _ := True
  has_of_standsAt h := h
  has_start h := h.beginning ⟨_, rfl⟩
  has_stop h := (show Text.StandsAt _ _ (_ ++ []) by rwa [List.append_nil]).right
  has_trans h h' := h.trans h'
  has_middle h hlo hhi := h.middle hlo hhi
  le_size h := h.isPlace_stop.le_size
  marks_of_has _ := trivial
  marks_mono _ _ := trivial

/-- By its extent. The positions of a text up to its end may be marked. -/
def extent : Sense where
  has t k u := k + Text.size u ≤ Text.size t
  marks t k := k ≤ Text.size t
  has_of_standsAt h := h.isPlace_stop.le_size
  has_start h := Nat.le_trans (Nat.le_add_right ..) h
  has_stop h := h
  has_trans h h' := by omega
  has_middle h hlo hhi := by omega
  le_size h := h
  marks_of_has h := h
  marks_mono h hle := Nat.le_trans hle h

variable {S : Sense} {t u : List Char} {k lo hi : Nat}

theorem has_nil (S : Sense) (t : List Char) : S.has t 0 [] := S.has_of_standsAt ⟨t, Text.rest_zero t⟩

theorem has_self (S : Sense) (t : List Char) : S.has t 0 t := S.has_of_standsAt ⟨[], by rw [List.append_nil]; exact Text.rest_zero t⟩

/-- What lies between a position and another is at the first. -/
theorem has_between (h : S.has t lo []) (hi : Nat) : S.has t lo (Text.between lo hi t) := by
  rcases Text.between_eq_nil_or lo hi t with hnil | ⟨hstands, -⟩
  · rwa [hnil]
  · exact S.has_of_standsAt hstands

/-- What follows a position is there. -/
theorem has_after (h : S.has t lo []) : S.has t lo (Text.after lo t) := by
  rcases Text.after_eq_nil_or lo t with hnil | hrest
  · rwa [hnil]
  · exact S.has_of_standsAt ⟨[], by rwa [List.append_nil]⟩

theorem marks_within (h : S.has t k u) {j : Nat} (hj : j ≤ Text.size u) : S.marks t (k + j) :=
  S.marks_mono (S.marks_of_has h) (Nat.add_le_add_left hj k)

/-- What a part in the middle of three takes from a text. -/
theorem has_clip {as bs cs : List Char} (h : S.has (as ++ (bs ++ cs)) k t) (hlo : k ≤ Text.size as + Text.size bs)
    {a b : Nat} (ha : a = Text.size as - k) (hb : k + b ≤ Text.size as + Text.size bs) :
    S.has bs (k + a - Text.size as) (Text.between a b t) := by
  rcases Text.between_eq_nil_or a b t with hnil | ⟨hstands, hsize⟩
  · rw [hnil]
    by_cases hle : Text.size as ≤ k
    · have hmiddle := S.has_middle (S.has_start h) hle (by simpa using hlo)
      rwa [show k + a - Text.size as = k - Text.size as by omega]
    · rw [show k + a - Text.size as = 0 by omega]
      exact S.has_nil bs
  · exact S.has_middle (S.has_trans h (S.has_of_standsAt hstands)) (by omega) (by omega)

/-! ## Readers of scripts -/

open Generate (emptyBody parametersOf? typeOf?)

/-- Whether a reader of scripts finds what it reads where it is: names, which neither begin nor end in the brackets and blanks around a
text, and the types of the parameters of a function. -/
structure Reads (S : Sense) (reader : Script.Reader) : Prop where
  names : ∀ code lang, ∀ i ∈ (reader code lang).idents, S.has code.toList i.start i.name.toList ∧
    Text.size (code.toList.takeWhile Text.isPunct) ≤ i.start ∧ i.range.stop ≤ Text.size (code.toList.rdropWhile Text.isPunct)
  types : ∀ code, ∀ ps ∈ parametersOf? reader ("(" ++ code ++ emptyBody), ∀ p ∈ ps, ∀ s ∈ typeOf? p,
    1 ≤ s.start ∧ s.start ≤ s.stop ∧ s.stop ≤ 1 + code.utf8ByteSize

/-- What is left of a text when the brackets and blanks behind it are gone lies in the text before them. -/
theorem size_rdropWhile_append_le {as bs : List Char} (hbs : ∀ c ∈ bs, Text.isPunct c = true) :
    Text.size ((as ++ bs).rdropWhile Text.isPunct) ≤ Text.size as := by
  have hdrop : (as ++ bs).rdropWhile Text.isPunct = as.rdropWhile Text.isPunct := by
    have hreverse : ∀ c ∈ bs.reverse, Text.isPunct c = true := fun c hc => hbs c (List.mem_reverse.1 hc)
    rw [List.rdropWhile, List.reverse_append, List.dropWhile_append_of_pos hreverse, ← List.rdropWhile]
  obtain ⟨behind, hbehind⟩ := as.rdropWhile_prefix Text.isPunct
  rw [hdrop]
  conv_rhs => rw [← hbehind, Text.size_append]
  exact Nat.le_add_right ..

/-- The free names of a text are where they are, and before the brackets and blanks behind it. -/
theorem Reads.free {reader : Script.Reader} (h : S.Reads reader) {front code back : String} (hback : Text.IsPunct back) :
    ∀ n ∈ reader.freeNames (front ++ code ++ back), S.has (front ++ code ++ back).toList n.offset n.name.toList ∧
      Text.size ((front ++ code ++ back).toList.takeWhile Text.isPunct) ≤ n.offset ∧
        Generate.stopOf n ≤ front.utf8ByteSize + code.utf8ByteSize := by
  intro n hn
  obtain ⟨hhas, hlo, hhi⟩ := h.names _ "ts" _ (Script.Module.mem_idents_of_mem_free hn)
  refine ⟨hhas, hlo, Nat.le_trans hhi ?_⟩
  rw [String.toList_append]
  refine Nat.le_trans (size_rdropWhile_append_le hback) ?_
  rw [String.toList_append, Text.size_append, Text.size_toList, Text.size_toList]

/-- What a reader finds to the letter it finds by its extent. -/
theorem Reads.extent {reader : Script.Reader} (h : verbatim.Reads reader) : Sense.extent.Reads reader :=
  ⟨fun code lang i hi => ⟨verbatim.le_size (h.names code lang i hi).1, (h.names code lang i hi).2⟩, h.types⟩

/-- A reader that reads what another one does, but only some typed scripts. -/
def only (codes : List String) (reader : Script.Reader) : Script.Reader := fun code lang =>
  if lang = "ts" ∧ code ∈ codes then reader code lang else ⟨none, [], []⟩

/-- Whether the names that a reader finds in a script, and the types if it is a function without a body, are where they should be. -/
def Checks (reader : Script.Reader) (code : String) : Prop :=
  (∀ i ∈ (reader code "ts").idents, Text.slice i.start i.range.stop code.toList = some i.name.toList ∧
    Text.size (code.toList.takeWhile Text.isPunct) ≤ i.start ∧ i.range.stop ≤ Text.size (code.toList.rdropWhile Text.isPunct)) ∧
  ∀ ps ∈ parametersOf? reader code, ∀ p ∈ ps, ∀ s ∈ typeOf? p,
    1 ≤ s.start ∧ s.start ≤ s.stop ∧ s.stop + emptyBody.utf8ByteSize ≤ code.utf8ByteSize

instance (reader : Script.Reader) (code : String) : Decidable (Checks reader code) :=
  inferInstanceAs (Decidable (_ ∧ _))

/-- A reader of a few scripts finds what it reads where it is, if it does so in each of them. -/
theorem reads_only {codes : List String} {reader : Script.Reader} (h : ∀ code ∈ codes, Checks reader code) :
    verbatim.Reads (only codes reader) := by
  constructor
  · intro code lang i hi
    unfold only at hi
    split at hi
    · rename_i hcode
      obtain ⟨rfl, hmem⟩ := hcode
      obtain ⟨hslice, hlo, hhi⟩ := (h code hmem).1 i hi
      exact ⟨(Text.standsAt_of_slice hslice).1, hlo, hhi⟩
    · cases hi
  · intro code ps hps p hp s hs
    have hsize : ("(" ++ code ++ emptyBody).utf8ByteSize = 1 + code.utf8ByteSize + emptyBody.utf8ByteSize := by
      rw [String.utf8ByteSize_append, String.utf8ByteSize_append]
      rfl
    unfold parametersOf? only at hps
    by_cases hmem : "(" ++ code ++ emptyBody ∈ codes
    · rw [if_pos ⟨rfl, hmem⟩] at hps
      obtain ⟨hlo, hle, hhi⟩ := (h _ hmem).2 ps hps p hp s hs
      exact ⟨hlo, hle, by omega⟩
    · rw [if_neg fun hboth => hmem hboth.2] at hps
      cases hps

end Sense

/-! ## Permits -/

/-- What is at a place of a source may be mapped there, as it is or capitalized; the places of a source may be marked. -/
def Permit.ofSense (S : Sense) (texts : SourceId → List Char) (listens : String → Prop) : Permit where
  allows t source offset := (t = "" ∧ S.marks (texts source) offset) ∨ S.has (texts source) offset t.toList ∨
    ∃ u, S.has (texts source) offset u.toList ∧ t = Text.capitalize u
  stands source t offset := S.has (texts source) offset t.toList
  listens := listens
  binds offset := 1 ≤ offset

section

variable {S : Sense} {texts : SourceId → List Char} {listens : String → Prop} {source : SourceId} {offset : Nat}

theorem Permit.allows_of_has {t : List Char} (h : S.has (texts source) offset t) :
    (Permit.ofSense S texts listens).allows (String.ofList t) source offset := .inr (.inl (by rwa [String.toList_ofList]))

theorem Permit.allows_of_marks (h : S.marks (texts source) offset) : (Permit.ofSense S texts listens).allows "" source offset :=
  .inl ⟨rfl, h⟩

end

namespace Generate

variable {S : Sense} {texts : SourceId → List Char} {listens : String → Prop} {r : Setting} {e : Option Effect}

/-! ## Expressions -/

/-- A piece of a text in which an expression stands may be mapped. -/
theorem puts_piece_ofSense {source : SourceId} {code : String} {start : Nat} {i : Info} {front back : String}
    (h : S.has (texts source) start code.toList) (hi : i.policy.isPlain = true) {t : List Char} {pos : Nat}
    (ht : S.has (front ++ code ++ back).toList pos t) (hpos : pos ≤ front.utf8ByteSize + code.utf8ByteSize) (atEnd : Bool) :
    Puts (.ofSense S texts listens) r e (piece (placementOf source code start i front) t pos atEnd) := by
  refine puts_piece hi (Permit.allows_of_has ?_) atEnd
  have hinner := innerEnd_eq (p := placementOf source code start i front) (Text.size t) hpos
  generalize hb : (placementOf source code start i front).innerEnd pos (Text.size t) = b at hinner
  generalize ha : (placementOf source code start i front).headEnd pos (Text.size t) = a
  rw [Placement.headEnd, hb] at ha
  dsimp only [placementOf] at ha hinner ⊢
  have hsizes : Text.size front.toList = front.utf8ByteSize ∧ Text.size code.toList = code.utf8ByteSize :=
    ⟨Text.size_toList front, Text.size_toList code⟩
  rw [String.toList_append, String.toList_append, List.append_assoc] at ht
  by_cases hle : front.utf8ByteSize ≤ pos + b
  · have hclip := S.has_clip ht (by omega) (a := a) (b := b) (by omega) (by omega)
    have htrans := S.has_trans h hclip
    rwa [hsizes.1] at htrans
  · -- The piece ends before the expression, whose start it marks.
    have hempty : Text.between a b t = [] := by
      rcases Text.between_eq_nil_or a b t with hnil | ⟨-, hsize⟩
      · exact hnil
      · exact Text.size_eq_zero.1 (by omega)
    rw [hempty, show start + (pos + a - front.utf8ByteSize) = start by omega]
    exact S.has_start h

/-- An expression that stands somewhere may be written as if it stood there. -/
theorem puts_expressionIn_ofSense (hr : S.Reads r.reader) {source : SourceId} {code : String} {start : Nat} {i : Info}
    {front back : String} (h : S.has (texts source) start code.toList) (hi : i.policy.isPlain = true) (hback : Text.IsPunct back) :
    Puts (.ofSense S texts listens) r e (expressionIn source code start i front back) := by
  refine .bind gives_read fun setting hsetting => ?_
  rw [hsetting]
  -- The names are where they are in the whole text, and end before what stands behind the expression.
  have hnames : ∀ n ∈ namesIn r.reader front code back, S.has (front ++ code ++ back).toList n.offset n.name.toList ∧
      stopOf n ≤ front.utf8ByteSize + code.utf8ByteSize := by
    unfold namesIn
    split
    · intro n hn
      rw [List.mem_singleton.1 hn]
      refine ⟨S.has_of_standsAt ⟨back.toList, front.toList, ?_, Text.size_toList front⟩, Nat.le_refl _⟩
      rw [String.toList_append, String.toList_append, List.append_assoc]
    · exact fun n hn => ⟨(hr.free hback n hn).1, (hr.free hback n hn).2.2⟩
  have hplace : ∀ lo ∈ 0 :: (namesIn r.reader front code back).map stopOf,
      S.has (front ++ code ++ back).toList lo [] ∧ lo ≤ front.utf8ByteSize + code.utf8ByteSize := by
    refine List.forall_mem_cons.2 ⟨⟨S.has_nil _, Nat.zero_le _⟩, fun lo hlo => ?_⟩
    obtain ⟨n, hn, rfl⟩ := List.mem_map.1 hlo
    obtain ⟨hhas, hstop⟩ := hnames n hn
    have hbehind := S.has_stop hhas
    rw [Text.size_toList] at hbehind
    exact ⟨hbehind, hstop⟩
  have hfit : PiecesFit (fun pos t => S.has (front ++ code ++ back).toList pos t ∧ pos ≤ front.utf8ByteSize + code.utf8ByteSize)
      (front ++ code ++ back).toList 0 (namesIn r.reader front code back) := by
    refine ⟨fun lo hlo n hn => ?_, fun n hn => ?_, fun lo hlo => ?_⟩
    · obtain ⟨hhas, hle⟩ := hplace lo hlo
      exact ⟨⟨S.has_between hhas _, hle⟩, ⟨S.has_between hhas _, hle⟩⟩
    · obtain ⟨hhas, hstop⟩ := hnames n hn
      have hle : n.offset ≤ front.utf8ByteSize + code.utf8ByteSize := Nat.le_trans (Nat.le_add_right ..) hstop
      exact ⟨⟨S.has_start hhas, hle⟩, ⟨hhas, hle⟩⟩
    · obtain ⟨hhas, hle⟩ := hplace lo hlo
      exact ⟨S.has_after hhas, hle⟩
  exact puts_useNames (fun pos t ht atEnd => puts_piece_ofSense h hi ht.1 ht.2 atEnd) hfit

end Generate

end TypedSfc
