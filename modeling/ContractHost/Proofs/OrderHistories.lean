import Mathlib.Data.List.Forall2
import ContractHost.Proofs.ReservedMethod
/-!
# Orders one after the other

Hosts with any VMs and configurations carry out orders on one store, one after the other. What a ledger holds of code it
keeps to the end, so at every address at most one deployment ever reaches it.
-/
namespace ContractHost

namespace Store

/-- The store after orders that hosts carry out one after the other. -/
def after (store : Store) (agenda : List (Host × Order)) : Store :=
  agenda.foldl (fun store (h, order) => (h.carryOut store order).store) store

/-- What comes of the orders. -/
def completions (store : Store) : List (Host × Order) → List Completion
  | [] => []
  | (h, order) :: agenda => h.carryOut store order :: completions (h.carryOut store order).store agenda

def installed (store : Store) (agenda : List (Host × Order)) : List Passage :=
  (store.completions agenda).flatMap Completion.installed

theorem after_append (store : Store) (earlier later : List (Host × Order)) :
    store.after (earlier ++ later) = (store.after earlier).after later :=
  List.foldl_append

theorem after_keeps (store : Store) (agenda : List (Host × Order)) :
    store.ledger.Keeps (store.after agenda).ledger := by
  induction agenda generalizing store with
  | nil => exact .refl _
  | cons e agenda ih =>
    obtain ⟨h, order⟩ := e
    exact (h.carryOut_keeps store order).trans (ih _)

/-- Every completion is that of an order on a later store. -/
theorem exists_of_mem_completions {store : Store} {agenda : List (Host × Order)} {c : Completion}
    (hc : c ∈ store.completions agenda) :
    ∃ (h : Host) (order : Order) (later : Store), store.ledger.Keeps later.ledger ∧ c = h.carryOut later order := by
  induction agenda generalizing store with
  | nil => cases hc
  | cons e agenda ih =>
    obtain ⟨h, order⟩ := e
    rcases List.mem_cons.mp hc with rfl | hc
    · exact ⟨h, order, store, .refl _, rfl⟩
    · obtain ⟨h', order', later, hkept, rfl⟩ := ih hc
      exact ⟨h', order', later, (h.carryOut_keeps store order).trans hkept, rfl⟩

/-- No order starts a deployment where there is code before it. -/
theorem completions_fresh (store : Store) (agenda : List (Host × Order)) :
    ∀ c ∈ store.completions agenda, ∀ p ∈ c.started, store.ledger.code p.contract = none := by
  intro c hc p hp
  obtain ⟨h, order, later, hkept, rfl⟩ := exists_of_mem_completions hc
  exact hkept.code_eq_none ((h.carryOut_deploys later order).fresh p hp)

theorem completions_once (store : Store) (agenda : List (Host × Order)) :
    ∀ c ∈ store.completions agenda, ∀ t, c.record = some t → t.AllDeployOnce := by
  intro c hc
  obtain ⟨h, order, later, -, rfl⟩ := exists_of_mem_completions hc
  exact (h.carryOut_deploys later order).once

theorem installed_cons (store : Store) (h : Host) (order : Order) (agenda : List (Host × Order)) :
    store.installed ((h, order) :: agenda) =
      (h.carryOut store order).installed ++ (h.carryOut store order).store.installed agenda :=
  List.flatMap_cons

theorem mem_started_of_installed {store : Store} {agenda : List (Host × Order)} {p : Passage}
    (hp : p ∈ store.installed agenda) : ∃ c ∈ store.completions agenda, p ∈ c.started := by
  induction agenda generalizing store with
  | nil => cases hp
  | cons e agenda ih =>
    obtain ⟨h, order⟩ := e
    rw [installed_cons] at hp
    rcases List.mem_append.mp hp with hp | hp
    · exact ⟨_, List.mem_cons_self, (h.carryOut_deploys store order).started p hp⟩
    · obtain ⟨c, hc, hstarted⟩ := ih hp
      exact ⟨c, List.mem_cons_of_mem _ hc, hstarted⟩

theorem installed_seen {store : Store} {agenda : List (Host × Order)} {p : Passage} (hp : p ∈ store.installed agenda) :
    (store.after agenda).ledger.code p.contract = some p.code := by
  induction agenda generalizing store with
  | nil => cases hp
  | cons e agenda ih =>
    obtain ⟨h, order⟩ := e
    rw [installed_cons] at hp
    rcases List.mem_append.mp hp with hp | hp
    · exact (after_keeps _ agenda).code ((h.carryOut_deploys store order).seen p hp)
    · exact ih hp

theorem installed_distinct (store : Store) (agenda : List (Host × Order)) :
    CallRecord.Distinct (store.installed agenda) := by
  induction agenda generalizing store with
  | nil => exact List.Pairwise.nil
  | cons e agenda ih =>
    obtain ⟨h, order⟩ := e
    have hfirst := h.carryOut_deploys store order
    rw [installed_cons]
    refine List.pairwise_append.mpr ⟨hfirst.distinct, ih _, ?_⟩
    intro p hp q hq heq
    obtain ⟨c, hc, hstarted⟩ := mem_started_of_installed hq
    have hnone := completions_fresh _ agenda c hc q hstarted
    rw [heq, hfirst.seen p hp] at hnone
    cases hnone

/-- Orders that differ at most in what the VMs of their hosts do for the reserved method. -/
inductive Alike : Host × Order → Host × Order → Prop
  | mk {vm vm' : Vm} (hvm : vm.Alike vm') (config : Config) (order : Order) :
      Alike ({ vm, config }, order) ({ vm := vm', config }, order)

theorem completions_congr {agenda agenda' : List (Host × Order)} (h : List.Forall₂ Alike agenda agenda')
    (store : Store) : store.completions agenda = store.completions agenda' := by
  induction h generalizing store with
  | nil => rfl
  | cons hfirst hrest ih =>
    cases hfirst with
    | mk hvm config order => rw [completions, completions, Host.carryOut_congr hvm, ih]

/-- Whatever hosts carry out on a store, one order after the other: code that the ledger holds stays, and no deployment is
started at its address again; in no call tree is a deployment started below another one at its address or after one that
is kept; so those that reach the ledger are all at different addresses, where their code is. And constructors run in
deployments only, so it makes no difference what VMs do if they are run as methods. -/
theorem deploys_at_most_once (store : Store) (agenda : List (Host × Order)) :
    (∀ earlier later, agenda = earlier ++ later → ∀ a code, (store.after earlier).ledger.code a = some code →
      (store.after agenda).ledger.code a = some code ∧
        ∀ c ∈ (store.after earlier).completions later, ∀ p ∈ c.started, p.contract ≠ a) ∧
    (∀ c ∈ store.completions agenda, ∀ t, c.record = some t → ∀ u ∈ t.subtrees, CallRecord.DeploysOnce u) ∧
    CallRecord.Distinct (store.installed agenda) ∧
    (∀ p ∈ store.installed agenda, (store.after agenda).ledger.code p.contract = some p.code) ∧
    ∀ agenda', List.Forall₂ Alike agenda agenda' → store.completions agenda = store.completions agenda' := by
  refine ⟨?_, completions_once store agenda, installed_distinct store agenda, fun p hp => installed_seen hp, ?_⟩
  · rintro earlier later rfl a code hcode
    refine ⟨?_, ?_⟩
    · rw [after_append]
      exact (after_keeps _ later).code hcode
    · rintro c hc p hp rfl
      have hnone := completions_fresh _ later c hc p hp
      rw [hcode] at hnone
      cases hnone
  · exact fun agenda' h => completions_congr h store

end Store

end ContractHost
