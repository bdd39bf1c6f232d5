import ContractHost.Proofs.LedgerWrites
/-!
# Overlays that were written one after the other

Folding a later overlay into an earlier one is going on with the writes of the later one. Since every overlay is what some
writes make of the empty one, folding is associative, and the empty overlay changes nothing on either side.
-/
namespace ContractHost

namespace OrderedMap

variable {κ β : Type} [OrderedKey κ]

theorem overwrites_insert : Overwrites fun (m : OrderedMap κ β) e => m.insert e.1 e.2 where
  again m k v w := m.insert_insert k v w
  swap m _ _ v w h := m.insert_comm v w h

theorem merge_insert (m n : OrderedMap κ β) (k : κ) (v : β) : m.merge (n.insert k v) = (m.merge n).insert k v :=
  overwrites_insert.foldl_insert n k v m

end OrderedMap

namespace Overlay

theorem writeAll_append (o : Overlay) (ws ws' : List Write) : o.writeAll (ws ++ ws') = (o.writeAll ws).writeAll ws' :=
  List.foldl_append

theorem merge_write (o later : Overlay) (w : Write) : o.merge (later.write w) = (o.merge later).write w := by
  cases w with
  | setStorage contract key value =>
    have hstorage := o.storage.merge_insert later.storage (contract, key) (some value)
    simp only [write, setStorage, merge, hstorage]
  | removeStorage contract key =>
    have hstorage := o.storage.merge_insert later.storage (contract, key) none
    simp only [write, removeStorage, merge, hstorage]
  | setBalance a balance =>
    have hbalances := o.balances.merge_insert later.balances a balance
    simp only [write, setBalance, merge, hbalances]
  | setCode a code =>
    have hcodes := o.codes.merge_insert later.codes a code
    simp only [write, setCode, merge, hcodes]
  | pushEvent e =>
    have hevents := List.append_assoc o.events later.events [e]
    simp only [write, pushEvent, merge, hevents]
  | addBurnt amount =>
    have hburnt := Nat.add_assoc o.burnt later.burnt amount
    simp only [write, addBurnt, merge, hburnt]

theorem merge_writeAll (o later : Overlay) (ws : List Write) :
    o.merge (later.writeAll ws) = (o.merge later).writeAll ws := by
  induction ws generalizing later with
  | nil => rfl
  | cons w ws ih =>
    calc o.merge (later.writeAll (w :: ws))
        = (o.merge (later.write w)).writeAll ws := ih (later.write w)
      _ = (o.merge later).writeAll (w :: ws) := by rw [o.merge_write]; rfl

theorem empty_merge (o : Overlay) : empty.merge o = o := by
  show Overlay.mk (OrderedMap.empty.merge o.storage) (OrderedMap.empty.merge o.balances)
    (OrderedMap.empty.merge o.codes) o.events (0 + o.burnt) = o
  rw [OrderedMap.empty_merge, OrderedMap.empty_merge, OrderedMap.empty_merge, Nat.zero_add]

theorem merge_empty (o : Overlay) : o.merge empty = o := by
  show { o with events := o.events ++ [] } = o
  rw [List.append_nil]

/-- Every overlay is what its writes make of the empty one. -/
theorem writeAll_writes (o : Overlay) : empty.writeAll o.writes = o := by
  rw [← merge_eq_writeAll, empty_merge]

theorem merge_assoc (o p q : Overlay) : (o.merge p).merge q = o.merge (p.merge q) := by
  calc (o.merge p).merge q
      = (o.merge p).writeAll q.writes := merge_eq_writeAll _ q
    _ = o.merge (p.writeAll q.writes) := (o.merge_writeAll p q.writes).symm
    _ = o.merge (p.merge q) := by rw [← merge_eq_writeAll]

/-- Overlays that were written apart and folded into each other are the overlay that was written in one go; folding is
associative, and the empty overlay is neutral on both sides. -/
theorem merge_written :
    (∀ ws ws', (empty.writeAll ws).merge (empty.writeAll ws') = empty.writeAll (ws ++ ws')) ∧
    (∀ o p q : Overlay, (o.merge p).merge q = o.merge (p.merge q)) ∧
    ∀ o : Overlay, empty.merge o = o ∧ o.merge empty = o := by
  refine ⟨?_, merge_assoc, fun o => ⟨o.empty_merge, o.merge_empty⟩⟩
  intro ws ws'
  rw [merge_writeAll, merge_empty, writeAll_append]

end Overlay

end ContractHost
