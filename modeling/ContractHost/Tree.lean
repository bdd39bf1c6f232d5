/-!
# Trees with ordered children

A tree has a label at every node and any number of children in order.
-/
namespace ContractHost

universe u v

/-- A tree whose nodes carry labels. -/
inductive Tree (α : Type u) : Type u where
  | node (label : α) (children : List (Tree α))

namespace Tree

variable {α : Type u} {β : Type v}

def label : Tree α → α
  | node a _ => a

def children : Tree α → List (Tree α)
  | node _ cs => cs

mutual

def map (f : α → β) : Tree α → Tree β
  | node a cs => node (f a) (mapAll f cs)

def mapAll (f : α → β) : List (Tree α) → List (Tree β)
  | [] => []
  | t :: ts => t.map f :: mapAll f ts

end

mutual

def size : Tree α → Nat
  | node _ cs => 1 + sizeAll cs

def sizeAll : List (Tree α) → Nat
  | [] => 0
  | t :: ts => t.size + sizeAll ts

end

mutual

/-- The number of nodes on the longest path from the root. -/
def height : Tree α → Nat
  | node _ cs => 1 + heightAll cs

def heightAll : List (Tree α) → Nat
  | [] => 0
  | t :: ts => max t.height (heightAll ts)

end

mutual

/-- Every node's label with the node's depth, a node before its children. The root's depth is `d`. -/
def levels (d : Nat) : Tree α → List (Nat × α)
  | node a cs => (d, a) :: levelsAll (d + 1) cs

def levelsAll (d : Nat) : List (Tree α) → List (Nat × α)
  | [] => []
  | t :: ts => t.levels d ++ levelsAll d ts

end

mutual

/-- Every node as the tree below it, a node before its children. -/
def subtrees : Tree α → List (Tree α)
  | node a cs => node a cs :: subtreesAll cs

def subtreesAll : List (Tree α) → List (Tree α)
  | [] => []
  | t :: ts => t.subtrees ++ subtreesAll ts

end

theorem mem_subtreesAll {u : Tree α} {ts : List (Tree α)} : u ∈ subtreesAll ts ↔ ∃ t ∈ ts, u ∈ t.subtrees := by
  induction ts with
  | nil => simp [subtreesAll]
  | cons t ts ih => simp [subtreesAll, ih]

theorem mem_subtrees {u t : Tree α} : u ∈ t.subtrees ↔ u = t ∨ ∃ c ∈ t.children, u ∈ c.subtrees := by
  cases t with
  | node a cs => simp [subtrees, children, mem_subtreesAll]

theorem self_mem_subtrees (t : Tree α) : t ∈ t.subtrees :=
  mem_subtrees.mpr (.inl rfl)

theorem forall_subtrees_iff {P : Tree α → Prop} {t : Tree α} :
    (∀ u ∈ t.subtrees, P u) ↔ P t ∧ ∀ c ∈ t.children, ∀ u ∈ c.subtrees, P u := by
  constructor
  · intro h
    exact ⟨h t t.self_mem_subtrees, fun c hc u hu => h u (mem_subtrees.mpr (.inr ⟨c, hc, hu⟩))⟩
  · rintro ⟨ht, hchildren⟩ u hu
    rcases mem_subtrees.mp hu with rfl | ⟨c, hc, hu⟩
    · exact ht
    · exact hchildren c hc u hu

mutual

def decEq [DecidableEq α] : (s t : Tree α) → Decidable (s = t)
  | node a cs, node b ds =>
    if hab : a = b then
      match decEqAll cs ds with
      | isTrue hcd => isTrue (by rw [hab, hcd])
      | isFalse hcd => isFalse fun h => hcd (by injection h)
    else isFalse fun h => hab (by injection h)

def decEqAll [DecidableEq α] : (ss ts : List (Tree α)) → Decidable (ss = ts)
  | [], [] => isTrue rfl
  | [], _ :: _ => isFalse (by simp)
  | _ :: _, [] => isFalse (by simp)
  | s :: ss, t :: ts =>
    match decEq s t with
    | isTrue hst =>
      match decEqAll ss ts with
      | isTrue hr => isTrue (by rw [hst, hr])
      | isFalse hr => isFalse fun h => hr (by injection h)
    | isFalse hst => isFalse fun h => hst (by injection h)

end

instance [DecidableEq α] : DecidableEq (Tree α) := decEq

end Tree

end ContractHost
