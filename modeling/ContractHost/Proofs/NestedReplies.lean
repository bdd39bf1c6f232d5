import ContractHost.Proofs.ScriptRequests
/-!
# What a script makes of nested results

The reply to a nested call holds the whole result of the called frame, but a script takes the output from it and nothing
else. So it goes on alike after replies whose results have the same output, whatever else is in them.
-/
namespace ContractHost

open Script.Session (outputOf)

/-- Replies about a nested frame that tell the same, but for what the result says besides the output. -/
structure Reply.Agrees (reply reply' : Reply) : Prop where
  status : reply'.status = reply.status
  gasUsed : reply'.gasUsed = reply.gasUsed
  error : reply'.error = reply.error
  output : outputOf reply' = outputOf reply

theorem Reply.Agrees.refl (reply : Reply) : reply.Agrees reply :=
  ⟨rfl, rfl, rfl, rfl⟩

namespace Program

variable {α β : Type}

/-- A program that looks at the results of nested frames for their outputs only. -/
def OutputOnly : Program α → Prop
  | .done _ => True
  | .crash _ => True
  | .ask r next =>
    (r.nests = true → ∀ reply reply', reply.Agrees reply' → next reply' = next reply) ∧
      ∀ reply, (next reply).OutputOnly

theorem OutputOnly.bind {p : Program α} {f : α → Program β} (hp : p.OutputOnly) (hf : ∀ a, (f a).OutputOnly) :
    (p.bind f).OutputOnly := by
  induction p with
  | done a => exact hf a
  | crash reason => trivial
  | ask r next ih =>
    obtain ⟨hnested, hnext⟩ := hp
    refine ⟨fun hr reply reply' hagrees => ?_, fun reply => ih reply (hnext reply)⟩
    show (next reply').bind f = (next reply).bind f
    rw [hnested hr reply reply' hagrees]

theorem outputOnly_of_asks {p : Program α} (h : p.Asks fun r => r.nests = false) : p.OutputOnly := by
  induction p with
  | done a => trivial
  | crash reason => trivial
  | ask r next ih => exact ⟨fun hr => absurd (hr.symm.trans h.1) Bool.noConfusion, fun reply => ih reply (h.2 reply)⟩

end Program

theorem Request.nests_of_steady {r : Request} (hr : r.steady = true) : r.nests = false := by
  cases r with
  | call | deploy => cases hr
  | _ => rfl

namespace Script

namespace Session

variable {α β : Type} {s : Setting} {gas : Gas} {n : Nat}

/-- A session that looks at the results of nested frames for their outputs only, however far the script has come. -/
def OutputOnly (x : Session α) : Prop :=
  ∀ p : Progress, (x.run.run p).OutputOnly

theorem OutputOnly.bind {x : Session α} {f : α → Session β} (hx : OutputOnly x) (hf : ∀ a, OutputOnly (f a)) :
    OutputOnly (x >>= f) := by
  intro p
  rw [run_bind]
  apply Program.OutputOnly.bind (hx p)
  rintro ⟨(halt | a), q⟩
  · trivial
  · exact hf a q

theorem Asks.outputOnly {x : Session α} (h : Asks (fun r => r.nests = false) x) : OutputOnly x :=
  fun p => Program.outputOnly_of_asks (h p)

theorem discard_absorb_congr {reply reply' : Reply} (h : reply.Agrees reply') :
    discard (absorb s reply') = discard (absorb s reply) := by
  obtain ⟨status', gasUsed', value', error'⟩ := reply'
  obtain ⟨rfl, rfl, rfl, -⟩ := h
  cases hstatus : reply.status with
  | ok => simp only [discard_eq, absorb, hstatus, bind_assoc, pure_bind]
  | outOfGas | contractError | hostFault => simp only [absorb, hstatus, Reply.errorText]

theorem absorbNested_congr (strict : Bool) {reply reply' : Reply} (h : reply.Agrees reply') :
    absorbNested s strict reply' = absorbNested s strict reply := by
  rw [absorbNested_eq, absorbNested_eq, discard_absorb_congr h, h.status, h.gasUsed, h.output]

/-- A script may ask for a nested frame if it takes in the reply at once. -/
theorem outputOnly_request (r : Request) {f : Reply → Session α}
    (hf : ∀ reply reply', reply.Agrees reply' → f reply' = f reply)
    (hasks : ∀ reply, Asks (fun r => r.nests = false) (f reply)) : OutputOnly (request r >>= f) := by
  intro p
  have hrun : (request r >>= f).run.run p = .ask r fun reply => (f reply).run.run p := by
    rw [run_bind]
    rfl
  rw [hrun]
  refine ⟨fun _ reply reply' hagrees => ?_, fun reply => (hasks reply).outputOnly p⟩
  exact congrArg (fun x : Session α => x.run.run p) (hf reply reply' hagrees)

theorem outputOnly_nested (r : Request) (strict : Bool) : OutputOnly (query s r >>= absorbNested s strict) := by
  have hsync : Asks (fun r => r.nests = false) (sync s) := asks_sync fun _ => rfl
  have hreply : ∀ reply reply' : Reply, reply.Agrees reply' → absorbNested s strict reply' = absorbNested s strict reply :=
    fun _ _ => absorbNested_congr strict
  rw [query, bind_assoc]
  exact hsync.outputOnly.bind fun _ => outputOnly_request r hreply (asks_absorbNested strict)

theorem Paired.outputOnly {own : Bool} {x x' : Session α} (h : Paired own s gas n x x') : OutputOnly x := by
  induction h with
  | pure a => exact Asks.outputOnly (asks_pure a)
  | throw halt hhalt => exact Asks.outputOnly (asks_throw halt)
  | crash reason => exact fun _ => trivial
  | get => exact Asks.outputOnly asks_get
  | remember b => exact Asks.outputOnly (asks_remember b)
  | charge amount hown => exact Asks.outputOnly (asks_charge amount)
  | demand r hr hneutral =>
    have hquery : Asks (fun r => r.nests = false) (query s r) := asks_query (fun _ => rfl) (Request.nests_of_steady hr)
    exact Asks.outputOnly (hquery.bind asks_absorb)
  | nested r strict hr => exact outputOnly_nested r strict
  | bind hx hf ihx ihf => exact ihx.bind ihf
  | weaken hx hle ih => exact ih

end Session

theorem outputOnly_vm (cost : Gas) (i : Invocation) (code : Bytes) (gas : Gas) :
    ((vm cost).program i code gas).OutputOnly := by
  have hstart := fun required => (paired_start (settingOf cost i gas) gas code (methodOf i) required).outputOnly {}
  rw [program_account]
  exact (hstart _).bind fun _ => trivial

end Script

end ContractHost
