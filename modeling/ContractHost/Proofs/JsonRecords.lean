import ContractHost.Text.Json.Record
/-!
# Records that were written

A record is read back from the object it is written as if no two of its fields have one name: the fields are found under
their names, and numbers, lists and byte strings are read back from what they are written as.
-/
namespace ContractHost

theorem mapM_map_of_pure {m : Type → Type} [Monad m] [LawfulMonad m] {α β γ : Type} {f : β → m γ} {g : α → β}
    {h : α → γ} {xs : List α} (hxs : ∀ x ∈ xs, f (g x) = pure (h x)) : (xs.map g).mapM f = pure (xs.map h) := by
  induction xs with
  | nil => rfl
  | cons x xs ih =>
    have hfirst := hxs x List.mem_cons_self
    have hrest := ih fun y hy => hxs y (List.mem_cons_of_mem _ hy)
    simp [hfirst, hrest]

namespace Json

theorem member?_of_mem {ms : List (String × Json)} (h : (ms.map Prod.fst).Nodup) {m : String × Json} (hm : m ∈ ms) :
    member? m.1 ms = some (some m.2) := by
  have hfilter : ms.filter (fun n => n.1 = m.1) = [m] := by
    induction ms with
    | nil => cases hm
    | cons n ms ih =>
      obtain ⟨hfresh, hrest⟩ := List.nodup_cons.mp h
      rcases List.mem_cons.mp hm with rfl | hm
      · have hnone : ms.filter (fun n => n.1 = m.1) = [] := by
          rw [List.filter_eq_nil_iff]
          intro n hn heq
          have hname : n.1 = m.1 := of_decide_eq_true heq
          exact hfresh (hname ▸ List.mem_map_of_mem hn)
        simp [hnone]
      · have hother : n.1 ≠ m.1 := by
          intro heq
          exact hfresh (heq ▸ List.mem_map_of_mem hm)
        simpa [hother] using ih hrest hm
  rw [member?, hfilter]

theorem fields?_object {p : Positions} {names : List String} {ms : List (String × Json)}
    (hkeys : ms.map Prod.fst = names) (hnames : names.Nodup) :
    fields? p names (.object ms) = some (ms.map fun m => some m.2) := by
  subst hkeys
  exact mapM_map_of_pure fun m hm => member?_of_mem hnames hm

theorem asNat_ofNat {bound n : Nat} (h : n ≤ bound) : asNat bound (ofNat n) = some n := by
  simp [asNat, ofNat, h]

theorem asWord_ofNat (x : UInt64) : asWord (ofNat x.toNat) = some x := by
  have hbound : x.toNat ≤ 0xFFFFFFFFFFFFFFFF := Nat.le_of_lt_succ x.toNat_lt
  rw [asWord, asNat_ofNat hbound, Option.map_some, UInt64.ofNat_toNat]

theorem asList_map {α : Type} {read : Json → Option α} {write : α → Json} {xs : List α}
    (h : ∀ x ∈ xs, read (write x) = some x) : asList read (.list (xs.map write)) = some xs := by
  have hread : (xs.map write).mapM read = some (xs.map id) := mapM_map_of_pure h
  rw [List.map_id] at hread
  exact hread

theorem asBytes_ofBytes (b : Bytes) : asBytes (ofBytes b) = some b := by
  apply asList_map
  intro x _
  have hbound : x.toNat ≤ 255 := Nat.le_of_lt_succ x.toNat_lt
  rw [asNat_ofNat hbound, Option.map_some, UInt8.ofNat_toNat]

end Json

end ContractHost
