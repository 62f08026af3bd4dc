import RequireInjection.Text

namespace RequireInjection

abbrev Entries (κ α : Type) := List (κ × α)

namespace Entries

variable {κ α : Type} [DecidableEq κ]

def keys (es : Entries κ α) : List κ := es.map Prod.fst

def get? (es : Entries κ α) (k : κ) : Option α := (es.find? fun e => e.1 == k).map Prod.snd

def put : Entries κ α → κ → α → Entries κ α
  | [], k, v => [(k, v)]
  | (k', v') :: es, k, v => if k' = k then (k', v) :: es else (k', v') :: put es k v

theorem keys_put (es : Entries κ α) (k : κ) (v : α) :
    (put es k v).keys = if k ∈ es.keys then es.keys else es.keys ++ [k] := by
  induction es with
  | nil => simp [put, keys]
  | cons e es ih =>
    obtain ⟨k', v'⟩ := e
    by_cases h : k' = k
    · simp [put, keys, h]
    · simp only [put, h, if_false, keys, List.map_cons] at ih ⊢
      rw [ih]
      by_cases hk : k ∈ es.map Prod.fst
      · simp [hk]
      · simp [hk, Ne.symm h]

theorem nodup_keys_put {es : Entries κ α} (h : es.keys.Nodup) (k : κ) (v : α) :
    (put es k v).keys.Nodup := by
  rw [keys_put]
  split
  · exact h
  · rename_i hk
    exact List.nodup_append.2 ⟨h, by simp, by
      intro a ha b hb hab
      simp only [List.mem_singleton] at hb
      exact hk (hb ▸ hab ▸ ha)⟩

theorem get?_put (es : Entries κ α) (k k' : κ) (v : α) :
    (put es k v).get? k' = if k = k' then some v else es.get? k' := by
  induction es with
  | nil => by_cases h : k = k' <;> simp [put, get?, h]
  | cons e es ih =>
    obtain ⟨a, b⟩ := e
    by_cases h : a = k
    · subst h
      by_cases hk : a = k' <;> simp [put, get?, hk]
    · simp only [put, h, if_false]
      by_cases ha : a = k'
      · subst ha
        simp [get?, Ne.symm h]
      · have : (a == k') = false := by simpa using ha
        simp only [get?, List.find?_cons, this] at ih ⊢
        exact ih

theorem put_of_notMem {es : Entries κ α} {k : κ} (fresh : k ∉ es.keys) (v : α) :
    es.put k v = es ++ [(k, v)] := by
  induction es with
  | nil => rfl
  | cons e es ih =>
    obtain ⟨other, later⟩ : k ≠ e.1 ∧ k ∉ keys es := by
      simpa [keys] using fresh
    rw [put, if_neg (Ne.symm other), ih later]
    rfl

theorem put_concat {es : Entries κ α} {k : κ} (fresh : k ∉ es.keys) (v w : α) :
    put (es ++ [(k, w)]) k v = es ++ [(k, v)] := by
  induction es with
  | nil => simp [put]
  | cons e es ih =>
    obtain ⟨other, later⟩ : k ≠ e.1 ∧ k ∉ keys es := by
      simpa [keys] using fresh
    rw [List.cons_append, put, if_neg (Ne.symm other), ih later]
    rfl

theorem get?_concat {es : Entries κ α} {k : κ} (fresh : k ∉ es.keys) (v : α) :
    get? (es ++ [(k, v)]) k = some v := by
  rw [← put_of_notMem fresh, get?_put, if_pos rfl]

theorem get?_of_notMem {es : Entries κ α} {k : κ} (fresh : k ∉ es.keys) : es.get? k = none := by
  simp only [get?, Option.map_eq_none_iff, List.find?_eq_none, beq_iff_eq]
  rintro e member rfl
  exact fresh (List.mem_map_of_mem member)

def ofList (es : List (κ × α)) : Entries κ α := es.foldl (fun m e => put m e.1 e.2) []

theorem foldl_put_of_nodup (sofar es : Entries κ α) (distinct : (sofar ++ es).keys.Nodup) :
    es.foldl (fun m e => put m e.1 e.2) sofar = sofar ++ es := by
  induction es generalizing sofar with
  | nil => simp
  | cons e es ih =>
    have fresh : e.1 ∉ sofar.keys := by
      intro known
      simp only [keys, List.map_append, List.nodup_append] at distinct
      exact distinct.2.2 e.1 known e.1 (by simp) rfl
    rw [List.foldl_cons, put_of_notMem fresh, ih]
    · simp
    · simpa using distinct

theorem ofList_of_nodup {es : Entries κ α} (distinct : es.keys.Nodup) : ofList es = es :=
  foldl_put_of_nodup [] es distinct

theorem nodup_keys_foldl_put {sofar : Entries κ α} (distinct : sofar.keys.Nodup)
    (es : List (κ × α)) : (es.foldl (fun m e => put m e.1 e.2) sofar).keys.Nodup := by
  induction es generalizing sofar with
  | nil => exact distinct
  | cons e es ih => exact ih (nodup_keys_put distinct e.1 e.2)

theorem nodup_keys_ofList (es : List (κ × α)) : (ofList es).keys.Nodup :=
  nodup_keys_foldl_put (by simp [keys]) es

end Entries
end RequireInjection
