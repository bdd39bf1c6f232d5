import ContractHost.OrderedMap
/-!
# Folds over the entries of a map

A fold whose steps overwrite each other at one key and commute at two is a fold over the map and not over its list:
inserting an entry adds one step at the end, and merging another map adds the steps of that map. The map of its own entries
is the map itself.
-/
namespace ContractHost.OrderedMap

open OrderedKey (before)

universe u v w

variable {κ : Type u} {β : Type v} {σ : Type w}

/-- The steps of a fold over entries that care only about the last value of each key. -/
structure Overwrites (step : σ → κ × β → σ) : Prop where
  again : ∀ s k v w, step (step s (k, v)) (k, w) = step s (k, w)
  swap : ∀ s {k k'} v w, k ≠ k' → step (step s (k, v)) (k', w) = step (step s (k', w)) (k, v)

theorem Overwrites.foldl_fresh {step : σ → κ × β → σ} (h : Overwrites step) {k : κ} (v : β)
    {es : List (κ × β)} (hk : ∀ e ∈ es, k ≠ e.1) (s : σ) :
    es.foldl step (step s (k, v)) = step (es.foldl step s) (k, v) := by
  induction es generalizing s with
  | nil => rfl
  | cons e es ih =>
    have hrest : ∀ e ∈ es, k ≠ e.1 := fun e he => hk e (List.mem_cons_of_mem _ he)
    rw [List.foldl_cons, List.foldl_cons, h.swap s v e.2 (hk e List.mem_cons_self), ih hrest]

variable [OrderedKey κ]

theorem Overwrites.foldl_put {step : σ → κ × β → σ} (h : Overwrites step) (k : κ) (v : β)
    {es : List (κ × β)} (hes : es.Pairwise fun a b => before a.1 b.1 = true) (s : σ) :
    (put k v es).foldl step s = step (es.foldl step s) (k, v) := by
  induction es generalizing s with
  | nil => rfl
  | cons e es ih =>
    obtain ⟨he, hrest⟩ := List.pairwise_cons.1 hes
    simp only [put]
    split
    · rw [List.foldl_cons, List.foldl_cons, ih hrest]
    · rename_i hek
      split
      · rename_i hke
        refine h.foldl_fresh v (fun e' he' => ?_) s
        rcases List.mem_cons.1 he' with rfl | he'
        · exact OrderedKey.ne hke
        · exact OrderedKey.ne (OrderedKey.trans hke (he e' he'))
      · rename_i hke
        have hk : k = e.1 := by
          rcases OrderedKey.total k e.1 with hk | hk | hk
          · exact hk
          · exact absurd hk hke
          · exact absurd hk hek
        subst hk
        have hfresh : ∀ e' ∈ es, e.1 ≠ e'.1 := fun e' he' => OrderedKey.ne (he e' he')
        have hagain : step (step s e) (e.1, v) = step s (e.1, v) := h.again s e.1 e.2 v
        rw [List.foldl_cons, List.foldl_cons, ← h.foldl_fresh v hfresh, hagain]

theorem Overwrites.foldl_insert {step : σ → κ × β → σ} (h : Overwrites step) (m : OrderedMap κ β) (k : κ) (v : β)
    (s : σ) : (m.insert k v).toList.foldl step s = step (m.toList.foldl step s) (k, v) :=
  h.foldl_put k v m.increasing s

/-- A quantity that the entry of one key decides is decided by the value of that key in the map. -/
theorem foldl_look {γ : Type u} (step : σ → κ × β → σ) (look : σ → γ) (k : κ) (found : β → γ)
    (hit : ∀ s v, look (step s (k, v)) = found v) (miss : ∀ s k' v, k' ≠ k → look (step s (k', v)) = look s)
    (m : OrderedMap κ β) (s : σ) :
    look (m.toList.foldl step s) = ((m.get? k).map found).getD (look s) := by
  obtain ⟨es, hes⟩ := m
  simp only [get?]
  induction es generalizing s with
  | nil => rfl
  | cons e es ih =>
    obtain ⟨he, hrest⟩ := List.pairwise_cons.1 hes
    obtain ⟨ek, ev⟩ := e
    rw [List.foldl_cons, ih _ hrest, find?]
    rcases OrderedKey.total ek k with rfl | hk | hk
    · have hnone : find? ek es = none := find?_eq_none_of_lt he
      simp [hnone, OrderedKey.irrefl, hit]
    · simp [hk, miss s ek ev (OrderedKey.ne hk)]
    · have hnone : find? k es = none := find?_eq_none_of_lt fun e' he' => OrderedKey.trans hk (he e' he')
      simp [hnone, hk, OrderedKey.asymm hk, miss s ek ev (OrderedKey.ne hk).symm]

/-! ## Setting and removing a key -/

/-- The map with a key set to a value or removed. -/
def assign (m : OrderedMap κ β) (k : κ) : Option β → OrderedMap κ β
  | some v => m.insert k v
  | none => m.erase k

@[simp] theorem get?_assign_self (m : OrderedMap κ β) (k : κ) (v : Option β) : (m.assign k v).get? k = v := by
  cases v <;> simp [assign]

theorem get?_assign_of_ne (m : OrderedMap κ β) {k k' : κ} (v : Option β) (h : k ≠ k') :
    (m.assign k v).get? k' = m.get? k' := by
  cases v with
  | none => exact get?_erase_of_ne m h
  | some v => exact get?_insert_of_ne m v h

theorem assign_assign (m : OrderedMap κ β) (k : κ) (v w : Option β) : (m.assign k v).assign k w = m.assign k w := by
  apply ext_get?
  intro i
  by_cases h : k = i
  · subst h
    simp
  · simp [get?_assign_of_ne, h]

theorem assign_comm (m : OrderedMap κ β) {k k' : κ} (v w : Option β) (h : k ≠ k') :
    (m.assign k v).assign k' w = (m.assign k' w).assign k v := by
  apply ext_get?
  intro i
  by_cases hk : k = i
  · subst hk
    simp [get?_assign_of_ne, h.symm]
  · by_cases hk' : k' = i
    · subst hk'
      simp [get?_assign_of_ne, h]
    · simp [get?_assign_of_ne, hk, hk']

theorem insert_insert (m : OrderedMap κ β) (k : κ) (v w : β) : (m.insert k v).insert k w = m.insert k w :=
  m.assign_assign k (some v) (some w)

theorem insert_comm (m : OrderedMap κ β) {k k' : κ} (v w : β) (h : k ≠ k') :
    (m.insert k v).insert k' w = (m.insert k' w).insert k v :=
  m.assign_comm (some v) (some w) h

/-! ## Maps from their entries -/

theorem put_of_last {k : κ} {v : β} {es : List (κ × β)} (h : ∀ e ∈ es, before e.1 k = true) :
    put k v es = es ++ [(k, v)] := by
  induction es with
  | nil => rfl
  | cons e es ih =>
    have hfirst := h e List.mem_cons_self
    have hrest := ih fun e he => h e (List.mem_cons_of_mem _ he)
    simp [put, hfirst, hrest]

theorem toList_insertAll (m : OrderedMap κ β) {es : List (κ × β)}
    (h : (m.toList ++ es).Pairwise fun a b => before a.1 b.1 = true) : (m.insertAll es).toList = m.toList ++ es := by
  induction es generalizing m with
  | nil => simp [insertAll]
  | cons e es ih =>
    obtain ⟨-, -, hlast⟩ := List.pairwise_append.mp h
    have hput : (m.insert e.1 e.2).toList = m.toList ++ [e] := put_of_last fun d hd => hlast d hd e List.mem_cons_self
    have hnext := ih (m.insert e.1 e.2) (by rw [hput]; simpa using h)
    rw [hput] at hnext
    show ((m.insert e.1 e.2).insertAll es).toList = _
    rw [hnext]
    simp

theorem toList_ofList {es : List (κ × β)} (h : es.Pairwise fun a b => before a.1 b.1 = true) :
    (ofList es : OrderedMap κ β).toList = es :=
  toList_insertAll empty h

theorem ofList_toList (m : OrderedMap κ β) : ofList m.toList = m := by
  have hlist := toList_ofList m.increasing
  generalize (ofList m.toList : OrderedMap κ β) = n at hlist
  cases m
  cases n
  cases hlist
  rfl

theorem mem_insertAll {m : OrderedMap κ β} {es : List (κ × β)} {e : κ × β} (h : e ∈ (m.insertAll es).toList) :
    e ∈ m.toList ∨ e ∈ es := by
  induction es generalizing m with
  | nil => exact .inl h
  | cons d es ih =>
    rcases ih (m := m.insert d.1 d.2) h with h | h
    · rcases mem_put h with rfl | h
      · exact .inr List.mem_cons_self
      · exact .inl h
    · exact .inr (List.mem_cons_of_mem _ h)

theorem mem_ofList {es : List (κ × β)} {e : κ × β} (h : e ∈ (ofList es : OrderedMap κ β).toList) : e ∈ es := by
  rcases mem_insertAll h with h | h
  · cases h
  · exact h

theorem empty_merge (m : OrderedMap κ β) : empty.merge m = m :=
  ofList_toList m

end ContractHost.OrderedMap
