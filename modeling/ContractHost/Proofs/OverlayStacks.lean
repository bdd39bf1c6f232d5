import ContractHost.Proofs.Flattening
import ContractHost.Proofs.Sums
/-!
# Stacks of overlays

A stack of overlays collapses into one: every overlay is folded into those before it. What is seen through the stack is
what a ledger says that has taken over the collapsed overlay, and this ledger is the one that has taken over the overlays
one after the other. It has an account for every address that some overlay mentions, even if all that is said there is
that a key is removed.
-/
namespace ContractHost

namespace Overlay

/-- The overlay with later ones folded into it in order. -/
def collapse (o : Overlay) (later : List Overlay) : Overlay :=
  later.foldl merge o

/-- The overlay says something about an address: about a key of its storage, its balance or its code. -/
def Mentions (o : Overlay) (a : Address) : Prop :=
  (∃ key, o.storage? a key ≠ none) ∨ o.balance? a ≠ none ∨ o.code? a ≠ none

end Overlay

theorem OrderedMap.exists_entry_iff {κ β : Type} [OrderedKey κ] {m : OrderedMap κ β} (P : κ → Prop) :
    (∃ e ∈ m.toList, P e.1) ↔ ∃ k, P k ∧ m.get? k ≠ none := by
  constructor
  · rintro ⟨⟨k, v⟩, he, hk⟩
    refine ⟨k, hk, ?_⟩
    rw [mem_toList_iff.mp he]
    exact Option.some_ne_none v
  · rintro ⟨k, hk, hfound⟩
    obtain ⟨v, hv⟩ := Option.ne_none_iff_exists'.mp hfound
    exact ⟨(k, v), mem_toList_iff.mpr hv, hk⟩

namespace Ledger

/-- The ledger after it has taken over overlays in order. -/
def applyEach (l : Ledger) (os : List Overlay) : Ledger :=
  os.foldl apply l

theorem apply_collapse (l : Ledger) (o : Overlay) (later : List Overlay) :
    l.apply (o.collapse later) = l.applyEach (o :: later) := by
  induction later generalizing o with
  | nil => rfl
  | cons o' later ih =>
    calc l.apply (o.collapse (o' :: later))
        = l.apply ((o.merge o').collapse later) := rfl
      _ = (l.apply (o.merge o')).applyEach later := ih (o.merge o')
      _ = ((l.apply o).apply o').applyEach later := by rw [l.apply_merge]

theorem applyAll_eq_foldr (l : Ledger) (os : List Overlay) : l.applyAll os = os.foldr (fun o l => l.apply o) l := by
  induction os with
  | nil => rfl
  | cons o os ih => rw [applyAll, ih, List.foldr_cons]

/-- Overlays may be taken over from a stack with the latest on top or one after the other. -/
theorem applyAll_reverse (l : Ledger) (os : List Overlay) : l.applyAll os.reverse = l.applyEach os := by
  rw [applyAll_eq_foldr, List.foldr_reverse]
  rfl

/-! ## Which accounts exist -/

theorem account?_modify_ne_none {l : Ledger} {a b : Address} {f : Account → Account} :
    (l.modify a f).account? b ≠ none ↔ l.account? b ≠ none ∨ a = b := by
  by_cases h : a = b
  · subst h
    simp [modify, account?]
  · simp [modify, account?, OrderedMap.get?_insert_of_ne _ _ h, h]

theorem account?_foldl_ne_none {ε : Type} {step : Ledger → ε → Ledger} (place : ε → Address)
    (hstep : ∀ l e, ∃ f, step l e = l.modify (place e) f) {es : List ε} {l : Ledger} {a : Address} :
    (es.foldl step l).account? a ≠ none ↔ l.account? a ≠ none ∨ ∃ e ∈ es, place e = a := by
  induction es generalizing l with
  | nil => simp
  | cons e es ih =>
    obtain ⟨f, hf⟩ := hstep l e
    rw [List.foldl_cons, ih, hf, account?_modify_ne_none, or_assoc]
    simp only [List.mem_cons, exists_eq_or_imp]

theorem account?_apply_ne_none {l : Ledger} {o : Overlay} {a : Address} :
    (l.apply o).account? a ≠ none ↔ l.account? a ≠ none ∨ o.Mentions a := by
  have hstorage : (∃ e ∈ o.storage.toList, e.1.1 = a) ↔ ∃ key, o.storage? a key ≠ none := by
    refine (OrderedMap.exists_entry_iff fun k : Address × Bytes => k.1 = a).trans ⟨?_, ?_⟩
    · rintro ⟨⟨contract, key⟩, rfl, hfound⟩
      exact ⟨key, hfound⟩
    · rintro ⟨key, hfound⟩
      exact ⟨(a, key), rfl, hfound⟩
  have hbalances : (∃ e ∈ o.balances.toList, e.1 = a) ↔ o.balance? a ≠ none := by
    exact (OrderedMap.exists_entry_iff fun b => b = a).trans exists_eq_left
  have hcodes : (∃ e ∈ o.codes.toList, e.1 = a) ↔ o.code? a ≠ none := by
    exact (OrderedMap.exists_entry_iff fun b => b = a).trans exists_eq_left
  have happly : (l.apply o).account? a ≠ none ↔ ((l.account? a ≠ none ∨ ∃ e ∈ o.storage.toList, e.1.1 = a) ∨
      ∃ e ∈ o.balances.toList, e.1 = a) ∨ ∃ e ∈ o.codes.toList, e.1 = a := by
    rw [apply_def]
    show (List.foldl applyCode _ _).account? a ≠ none ↔ _
    rw [account?_foldl_ne_none (fun e => e.1) fun l e => ⟨_, l.applyCode_def e⟩,
      account?_foldl_ne_none (fun e => e.1) fun l e => ⟨_, l.applyBalance_def e⟩,
      account?_foldl_ne_none (fun e => e.1.1) fun l e => ⟨_, l.applyStorage_def e.1.1 e.1.2 e.2⟩]
  rw [happly, hstorage, hbalances, hcodes, or_assoc, or_assoc, Overlay.Mentions]

theorem account?_applyEach_ne_none {l : Ledger} {os : List Overlay} {a : Address} :
    (l.applyEach os).account? a ≠ none ↔ l.account? a ≠ none ∨ ∃ o ∈ os, o.Mentions a := by
  induction os generalizing l with
  | nil => simp [applyEach]
  | cons o os ih =>
    show ((l.apply o).applyEach os).account? a ≠ none ↔ _
    rw [ih, account?_apply_ne_none, or_assoc]
    simp only [List.mem_cons, exists_eq_or_imp]

/-! ## The log and the burnt amount -/

theorem events_applyEach (l : Ledger) (os : List Overlay) :
    (l.applyEach os).events = l.events ++ os.flatMap Overlay.events := by
  induction os generalizing l with
  | nil => exact (List.append_nil _).symm
  | cons o os ih =>
    show ((l.apply o).applyEach os).events = _
    rw [ih, events_apply, List.flatMap_cons, List.append_assoc]

theorem burnt_applyEach (l : Ledger) (os : List Overlay) :
    (l.applyEach os).burnt = l.burnt + sumOf Overlay.burnt os := by
  induction os generalizing l with
  | nil => rfl
  | cons o os ih =>
    show ((l.apply o).applyEach os).burnt = _
    rw [ih, burnt_apply, sumOf_cons, Nat.add_assoc]

end Ledger

/-! ## Collapsed stacks -/

/-- Whatever is looked up through a stack of overlays is what the ledger says that has taken over the collapsed stack.
That ledger is the one that has taken over the overlays one after the other: it has an account just where there was one
or an overlay mentions the address, the events follow each other and the burnt amounts add up. -/
theorem Overlay.collapse_faithful (l : Ledger) (root : Overlay) (later : List Overlay) :
    let stack := root :: later
    let after := l.apply (root.collapse later)
    (∀ contract key, View.storage l stack.reverse contract key = after.storage contract key) ∧
    (∀ a, View.balance l stack.reverse a = after.balance a) ∧
    (∀ a, View.code l stack.reverse a = after.code a) ∧
    after = l.applyEach stack ∧
    (∀ a, after.account? a ≠ none ↔ l.account? a ≠ none ∨ ∃ o ∈ stack, o.Mentions a) ∧
    after.events = l.events ++ stack.flatMap Overlay.events ∧
    after.burnt = l.burnt + sumOf Overlay.burnt stack := by
  intro stack after
  have heach : after = l.applyEach stack := l.apply_collapse root later
  have hstack : l.applyAll stack.reverse = after := by rw [heach, l.applyAll_reverse]
  refine ⟨?_, ?_, ?_, heach, ?_, ?_, ?_⟩
  · intro contract key
    rw [View.storage_eq, hstack]
  · intro a
    rw [View.balance_eq, hstack]
  · intro a
    rw [View.code_eq, hstack]
  · intro a
    rw [heach]
    exact Ledger.account?_applyEach_ne_none
  · rw [heach, Ledger.events_applyEach]
  · rw [heach, Ledger.burnt_applyEach]

/-- An account may come into existence by nothing but the removal of a key that it never had. -/
example : (Ledger.apply {} (Overlay.collapse {} [Overlay.empty.removeStorage .zero [1]])).account? .zero = some {} := by
  decide

end ContractHost
