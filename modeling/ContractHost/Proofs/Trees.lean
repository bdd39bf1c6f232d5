import ContractHost.Tree
/-!
# Trees and the trees in them
-/
namespace ContractHost.Tree

variable {α β : Type}

/-! ## Replacing labels -/

mutual

theorem height_map (f : α → β) (t : Tree α) : (t.map f).height = t.height := by
  match t with
  | .node a cs => rw [map, height, height, height_mapAll f cs]

theorem height_mapAll (f : α → β) (ts : List (Tree α)) : heightAll (mapAll f ts) = heightAll ts := by
  match ts with
  | [] => rfl
  | t :: ts => rw [mapAll, heightAll, heightAll, height_map f t, height_mapAll f ts]

end

mutual

theorem subtrees_map (f : α → β) (t : Tree α) : (t.map f).subtrees = t.subtrees.map (map f) := by
  match t with
  | .node a cs => rw [map, subtrees, subtrees, List.map_cons, subtreesAll_mapAll f cs, map]

theorem subtreesAll_mapAll (f : α → β) (ts : List (Tree α)) :
    subtreesAll (mapAll f ts) = (subtreesAll ts).map (map f) := by
  match ts with
  | [] => rfl
  | t :: ts => rw [mapAll, subtreesAll, subtreesAll, List.map_append, subtrees_map f t, subtreesAll_mapAll f ts]

end

mutual

theorem map_map {γ : Type} (f : α → β) (g : β → γ) (t : Tree α) : (t.map f).map g = t.map (g ∘ f) := by
  match t with
  | .node a cs => rw [map, map, map, mapAll_mapAll f g cs, Function.comp_apply]

theorem mapAll_mapAll {γ : Type} (f : α → β) (g : β → γ) (ts : List (Tree α)) :
    mapAll g (mapAll f ts) = mapAll (g ∘ f) ts := by
  match ts with
  | [] => rfl
  | t :: ts => rw [mapAll, mapAll, mapAll, map_map f g t, mapAll_mapAll f g ts]

end

theorem label_map (f : α → β) (t : Tree α) : (t.map f).label = f t.label := by
  obtain ⟨a, cs⟩ := t
  rfl

/-- Trees that are equal with replaced labels tell the same at their roots of what the replacement keeps. -/
theorem told_of_map_eq {f : α → α} {t t' : Tree α} (h : t'.map f = t.map f) (tell : α → β)
    (htell : ∀ a, tell (f a) = tell a) : tell t'.label = tell t.label := by
  have hlabel := congrArg label h
  rw [label_map, label_map] at hlabel
  rw [← htell, hlabel, htell]

theorem mapAll_eq_map (f : α → β) (ts : List (Tree α)) : mapAll f ts = ts.map (map f) := by
  induction ts with
  | nil => rfl
  | cons t ts ih => rw [mapAll, ih, List.map_cons]

theorem children_map (f : α → β) (t : Tree α) : (t.map f).children = t.children.map (map f) := by
  obtain ⟨a, cs⟩ := t
  exact mapAll_eq_map f cs

/-! ## Trees in trees -/

mutual

theorem subtrees_subset {t u : Tree α} (h : u ∈ t.subtrees) : u.subtrees ⊆ t.subtrees := by
  match t with
  | .node a cs =>
    rw [subtrees] at h ⊢
    rcases List.mem_cons.mp h with rfl | hbelow
    · rw [subtrees]
      exact List.Subset.refl _
    · exact List.Subset.trans (subtrees_subset_all hbelow) (List.subset_cons_self _ _)

theorem subtrees_subset_all {ts : List (Tree α)} {u : Tree α} (h : u ∈ subtreesAll ts) :
    u.subtrees ⊆ subtreesAll ts := by
  match ts with
  | [] => cases h
  | t :: ts =>
    rw [subtreesAll] at h ⊢
    rcases List.mem_append.mp h with hfirst | hrest
    · exact List.Subset.trans (subtrees_subset hfirst) (List.subset_append_left _ _)
    · exact List.Subset.trans (subtrees_subset_all hrest) (List.subset_append_right _ _)

end

mutual

theorem height_le_of_mem {t u : Tree α} (h : u ∈ t.subtrees) : u.height ≤ t.height := by
  match t with
  | .node a cs =>
    rw [subtrees] at h
    rcases List.mem_cons.mp h with rfl | hbelow
    · exact Nat.le_refl _
    · have hle := height_le_of_mem_all hbelow
      rw [height]
      omega

theorem height_le_of_mem_all {ts : List (Tree α)} {u : Tree α} (h : u ∈ subtreesAll ts) :
    u.height ≤ heightAll ts := by
  match ts with
  | [] => cases h
  | t :: ts =>
    rw [subtreesAll] at h
    rw [heightAll]
    rcases List.mem_append.mp h with hfirst | hrest
    · have hle := height_le_of_mem hfirst
      omega
    · have hle := height_le_of_mem_all hrest
      omega

end

theorem heightAll_le_iff {ts : List (Tree α)} {n : Nat} : heightAll ts ≤ n ↔ ∀ t ∈ ts, t.height ≤ n := by
  induction ts with
  | nil => simp [heightAll]
  | cons t ts ih => rw [heightAll, Nat.max_le, ih, List.forall_mem_cons]

end ContractHost.Tree
