import TypedSfc.Options.Keyed

/-!
# Merging keyed lists

A keyed list that takes more entries keeps its keys where they are. `Merges` says what is under each key afterwards and in which order
the keys stand; `merges_extend` is that every extension does so, whatever keys come twice.
-/

namespace TypedSfc

namespace Keyed

variable {α : Type}

/-- The keys, in order. -/
def keys (t : Keyed α) : List String := t.entries.map (·.1)

/-- `r` is `base` with some entries laid over it: under each key is the last of its new values, or else what was there. The keys that
were there keep their places; behind them are the new ones, in the order in which they come up first. -/
structure Merges (base : Keyed α) (es : List (String × α)) (r : Keyed α) : Prop where
  value : ∀ k, r.get? k = ((es.filter (·.1 == k)).getLast?.map (·.2)).or (base.get? k)
  keys : r.keys = base.keys ++ ((es.map (·.1)).filter fun k => !base.keys.contains k).eraseDups

/-! ## One more entry -/

theorem get?_cons (e : String × α) (es : List (String × α)) (k : String) :
    get? ⟨e :: es⟩ k = if k = e.1 then some e.2 else get? ⟨es⟩ k := by
  obtain ⟨key, value⟩ := e
  by_cases hk : k = key
  · simp only [get?, List.lookup_cons, hk, beq_self_eq_true, if_true]
  · simp only [get?, List.lookup_cons, beq_eq_false_iff_ne.2 hk, if_neg hk]

/-- A value that is put under a key is found there, and every other key has what it had. -/
theorem get?_insert (t : Keyed α) (key : String) (value : α) (k : String) :
    (t.insert key value).get? k = if k = key then some value else t.get? k := by
  obtain ⟨es⟩ := t
  simp only [insert]
  induction es with
  | nil => exact get?_cons (key, value) [] k
  | cons e es ih =>
    by_cases he : e.1 = key
    · rw [put, if_pos he, get?_cons, get?_cons, he]
      by_cases hk : k = key
      · rw [if_pos hk, if_pos hk]
      · rw [if_neg hk, if_neg hk, if_neg hk]
    · rw [put, if_neg he, get?_cons, get?_cons, ih]
      by_cases hk : k = e.1
      · rw [if_pos hk, if_pos hk, if_neg fun h => he (hk.symm.trans h)]
      · rw [if_neg hk, if_neg hk]

/-- A new key goes behind the others. -/
theorem keys_insert (t : Keyed α) (key : String) (value : α) :
    (t.insert key value).keys = if key ∈ t.keys then t.keys else t.keys ++ [key] := by
  obtain ⟨es⟩ := t
  simp only [insert, keys]
  induction es with
  | nil => simp [put]
  | cons e es ih =>
    by_cases he : e.1 = key
    · simp [put, he]
    · have hne : ¬key = e.1 := fun h => he h.symm
      by_cases hk : key ∈ es.map (·.1) <;> simp_all [put]

/-! ## Some entries -/

/-- An extension lays its entries over what was there. -/
theorem merges_extend (t : Keyed α) (es : List (String × α)) : Merges t es (t.extend es) := by
  induction es generalizing t with
  | nil => exact ⟨fun k => by simp [extend], by simp [extend]⟩
  | cons e es ih =>
    have hih := ih (t.insert e.1 e.2)
    constructor
    · intro k
      rw [extend, List.foldl_cons, ← extend, hih.value, get?_insert]
      by_cases hk : e.1 = k
      · rw [if_pos hk.symm, List.filter_cons_of_pos (by simp [hk]), List.getLast?_cons]
        cases (es.filter (·.1 == k)).getLast? <;> simp
      · rw [if_neg (Ne.symm hk), List.filter_cons_of_neg (by simp [hk])]
    · rw [extend, List.foldl_cons, ← extend, hih.keys, keys_insert, List.map_cons]
      by_cases he : e.1 ∈ t.keys
      · rw [if_pos he, List.filter_cons_of_neg (by simp [he])]
      · -- The key stands behind the old ones from now on, and none of the later ones that are equal to it is new.
        rw [if_neg he, List.filter_cons_of_pos (by simp [he]), List.eraseDups_cons, List.filter_filter, List.append_assoc]
        have hnew : (fun k => !(t.keys ++ [e.1]).contains k) = fun k => (!k == e.1) && !t.keys.contains k := by
          funext k
          by_cases hk : k = e.1 <;> simp [hk]
        rw [hnew]
        rfl

/-- A table of some entries has of each key the last value, the keys as they come up. -/
theorem merges_ofList (es : List (String × α)) : Merges ⟨[]⟩ es (ofList es) := merges_extend _ es

/-! ## Keys that stand once -/

theorem nodup_keys_insert {t : Keyed α} (h : t.keys.Nodup) (key : String) (value : α) : (t.insert key value).keys.Nodup := by
  rw [keys_insert]
  split
  · exact h
  next hk => exact List.nodup_append.2 ⟨h, by simp, by simp only [List.mem_singleton]; rintro k hmem _ rfl rfl; exact hk hmem⟩

/-- Every extension keeps to one place for a key. -/
theorem nodup_keys_extend {t : Keyed α} (h : t.keys.Nodup) (es : List (String × α)) : (t.extend es).keys.Nodup := by
  induction es generalizing t with
  | nil => exact h
  | cons e es ih => exact ih (nodup_keys_insert h e.1 e.2)

theorem nodup_keys_map {β : Type} (f : String → String) (g : α → β) (t : Keyed α) : (t.map f g).keys.Nodup :=
  nodup_keys_extend (t := ⟨[]⟩) List.nodup_nil _

/-- Entries under new keys go behind the others as they are. -/
theorem extend_of_nodup {es es' : List (String × α)} (h : ((es ++ es').map (·.1)).Nodup) : (⟨es⟩ : Keyed α).extend es' = ⟨es ++ es'⟩ := by
  have hput : ∀ (key : String) (value : α) (es : List (String × α)), key ∉ es.map (·.1) → put key value es = es ++ [(key, value)] := by
    intro key value es hk
    induction es with
    | nil => rfl
    | cons e es ih =>
      simp only [List.map_cons, List.mem_cons, not_or] at hk
      rw [put, if_neg (Ne.symm hk.1), ih hk.2]
      rfl
  induction es' generalizing es with
  | nil => simp [extend]
  | cons e es' ih =>
    have hk : e.1 ∉ es.map (·.1) := by
      rw [List.map_append, List.map_cons, List.nodup_append] at h
      exact fun hmem => h.2.2 e.1 hmem e.1 List.mem_cons_self rfl
    rw [extend, List.foldl_cons, ← extend, insert, hput _ _ _ hk, ih (by simpa using h)]
    simp

/-- What is left of a list without its repetitions stands in it in this order. -/
theorem eraseDups_sublist : ∀ ks : List String, ks.eraseDups.Sublist ks
  | [] => by simp
  | k :: ks => by
    rw [List.eraseDups_cons]
    exact ((eraseDups_sublist _).trans List.filter_sublist).cons_cons k
termination_by ks => ks.length
decreasing_by simpa using Nat.lt_succ_of_le (List.length_filter_le _ _)

/-- A table whose keys are written anew is the same table exactly when each key is written as it was. -/
theorem map_keys_eq_self_iff {t : Keyed α} (h : t.keys.Nodup) (f : String → String) : t.map f id = t ↔ ∀ k ∈ t.keys, f k = k := by
  constructor
  · intro ht
    have hkeys := (merges_ofList (t.entries.map fun e => (f e.1, id e.2))).keys
    have hmap : (t.entries.map fun e => (f e.1, id e.2)).map (·.1) = t.keys.map f := by simp [keys]
    rw [← map, ht, hmap] at hkeys
    have herase : t.keys = (t.keys.map f).eraseDups := by
      rw [List.filter_eq_self.2 (by simp [keys])] at hkeys
      exact hkeys
    -- Keys that were made one would be missing, so that none of them was.
    have hlength : (t.keys.map f).eraseDups.length = (t.keys.map f).length := by rw [← herase, List.length_map]
    have hfixed : t.keys.map f = t.keys := by rw [← (eraseDups_sublist _).eq_of_length hlength, ← herase]
    exact fun k hk => List.map_inj_left.1 (hfixed.trans (List.map_id _).symm) k hk
  · intro hf
    have hentries : t.entries.map (fun e => (f e.1, id e.2)) = t.entries := by
      rw [List.map_congr_left fun e he => (Prod.ext (hf e.1 (List.mem_map_of_mem he)) rfl : (f e.1, id e.2) = e), List.map_id']
    rw [map, hentries]
    exact extend_of_nodup (by simpa [keys] using h)

end Keyed

end TypedSfc
