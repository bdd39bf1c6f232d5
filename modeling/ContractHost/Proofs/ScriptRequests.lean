import ContractHost.Proofs.ScriptSessions
/-!
# What scripts ask for

Whatever the script, its arguments and the replies, a script never asks its host to credit or to debit an account: it
can only move and burn what there is.
-/
namespace ContractHost

theorem Request.neutral_of_nests {r : Request} (hr : r.nests = true) : Neutral r := by
  cases r with
  | call | deploy => exact ⟨rfl, rfl⟩
  | _ => cases hr

namespace Script

open Request (Neutral)

/-- Every request of the session satisfies a condition, however far the script has come. -/
def Session.Asks {α : Type} (P : Request → Prop) (x : Session α) : Prop :=
  ∀ p : Progress, Program.Asks P (x.run.run p)

namespace Session

variable {α β : Type} {P : Request → Prop} {s : Setting} {gas : UInt64} {n : Nat}

theorem asks_pure (a : α) : Asks P (pure a : Session α) :=
  fun _ => trivial

theorem asks_throw (halt : Halt) : Asks P (throw halt : Session α) :=
  fun _ => trivial

theorem asks_get : Asks P (get : Session Progress) :=
  fun _ => trivial

theorem asks_remember (b : Bytes) : Asks P (remember b) :=
  fun _ => trivial

theorem Asks.bind {x : Session α} {f : α → Session β} (hx : Asks P x) (hf : ∀ a, Asks P (f a)) :
    Asks P (x >>= f) := by
  intro p
  rw [run_bind]
  apply Program.Asks.bind (hx p)
  rintro ⟨(halt | a), q⟩
  · trivial
  · exact hf a q

theorem Asks.discard {x : Session α} (hx : Asks P x) : Asks P (discard x) := by
  rw [discard_eq]
  exact hx.bind fun _ => asks_pure ()

theorem asks_request {r : Request} (hr : P r) : Asks P (request r) :=
  fun _ => ⟨hr, fun _ => trivial⟩

theorem asks_charge (amount : UInt64) : Asks P (charge s amount) := by
  intro p
  rw [run_charge]
  trivial

theorem asks_absorb (reply : Reply) : Asks P (absorb s reply) := by
  apply (asks_charge reply.gasUsed).bind
  intro _
  split
  · exact asks_pure _
  · exact asks_throw _
  · exact asks_throw _
  · exact asks_throw _

theorem asks_absorbNested (strict : Bool) (reply : Reply) : Asks P (absorbNested s strict reply) := by
  rw [absorbNested_eq]
  apply Asks.bind _ fun _ => asks_remember _
  split
  · exact asks_charge reply.gasUsed
  · exact (asks_absorb reply).discard

theorem asks_sync (htell : ∀ remaining, P (.setRemainingGas remaining)) : Asks P (sync s) := by
  apply asks_get.bind
  intro p
  exact (asks_request (htell _)).bind fun reply => (asks_absorb reply).discard

theorem asks_query {r : Request} (htell : ∀ remaining, P (.setRemainingGas remaining)) (hr : P r) :
    Asks P (query s r) :=
  (asks_sync htell).bind fun _ => asks_request hr

theorem Paired.asks {own : Bool} {x x' : Session α} (h : Paired own s gas n x x') : Asks Neutral x := by
  have htell : ∀ remaining, Neutral (.setRemainingGas remaining) := fun _ => ⟨rfl, rfl⟩
  induction h with
  | pure a => exact asks_pure a
  | throw halt hhalt => exact asks_throw halt
  | crash reason => exact fun _ => trivial
  | get => exact asks_get
  | remember b => exact asks_remember b
  | charge amount hown => exact asks_charge amount
  | demand r hr hneutral => exact (asks_query htell hneutral).bind asks_absorb
  | nested r strict hr => exact (asks_query htell (Request.neutral_of_nests hr)).bind (asks_absorbNested strict)
  | bind hx hf ihx ihf => exact ihx.bind ihf
  | weaken hx hle ih => exact ih

end Session

theorem asks_vm (cost : UInt64) (i : Invocation) (code : List UInt8) (gas : UInt64) :
    ((vm cost).program i code gas).Asks Neutral := by
  have hstart := fun required => (paired_start (settingOf cost i gas) gas code (methodOf i) required).asks {}
  rw [program_account]
  exact Program.Asks.bind (hstart _) fun _ => trivial

end Script

end ContractHost
