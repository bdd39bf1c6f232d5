import ContractHost.Proofs.FrameSteps
import ContractHost.Proofs.Sums
/-!
# What call trees make and take away

A program can ask its host to credit an amount to an account or to debit one. What a call tree makes and takes away in
this way counts only for the committed frames. If no program asks for it, then nothing is made or taken away.
-/
namespace ContractHost

/-! ## What requests make and take -/

namespace Request

def credited : Request → Nat
  | .credit _ amount => Bytes.toNat (amount.getD [])
  | _ => 0

def debited : Request → Nat
  | .debit amount => Bytes.toNat (amount.getD [])
  | _ => 0

/-- A request that neither makes nor takes away anything. -/
def Neutral (r : Request) : Prop :=
  r.credited = 0 ∧ r.debited = 0

end Request

namespace Exchange

def credited (x : Exchange) : Nat :=
  if x.reply.isOk then x.request.credited else 0

def debited (x : Exchange) : Nat :=
  if x.reply.isOk then x.request.debited else 0

end Exchange

namespace CallRecord

/-- A figure of exchanges, added up over the committed frames of call trees next to each other. -/
def flowAll (g : Exchange → Nat) (ts : List CallRecord) : Nat :=
  sumOf (fun r => sumOf g r.exchanges) (committedAll ts)

/-- A figure of exchanges, added up over the committed frames of a call tree. -/
def flow (g : Exchange → Nat) (t : CallRecord) : Nat :=
  sumOf (fun r => sumOf g r.exchanges) t.committed

theorem committedAll_append (ts : List CallRecord) (t : CallRecord) :
    committedAll (ts ++ [t]) = committedAll ts ++ committed t := by
  induction ts with
  | nil => simp [committedAll]
  | cons u ts ih => simp [committedAll, ih]

theorem flowAll_append (g : Exchange → Nat) (ts : List CallRecord) (t : CallRecord) :
    flowAll g (ts ++ [t]) = flowAll g ts + t.flow g := by
  simp [flowAll, flow, committedAll_append, sumOf_append]

theorem flow_of_failed (g : Exchange → Nat) {t : CallRecord} (h : t.success = false) : t.flow g = 0 := by
  obtain ⟨r, below⟩ := t
  have hr : r.result.success = false := h
  simp [flow, committed, hr]

theorem flow_of_success (g : Exchange → Nat) {r : FrameRecord} {below : List CallRecord} (h : r.result.success) :
    flow g (.node r below) = sumOf g r.exchanges + flowAll g below := by
  simp [flow, flowAll, committed, h]

end CallRecord

/-! ## Programs that ask for a kind of request only -/

namespace Program

variable {α β : Type} {P : Request → Prop}

/-- Every request of the program satisfies a condition, whatever it is told. -/
def Asks (P : Request → Prop) : Program α → Prop
  | done _ => True
  | crash _ => True
  | ask r next => P r ∧ ∀ reply, (next reply).Asks P

theorem Asks.bind {p : Program α} {f : α → Program β} (hp : p.Asks P) (hf : ∀ a, (f a).Asks P) :
    (p.bind f).Asks P := by
  induction p with
  | done a => exact hf a
  | crash reason => trivial
  | ask r next ih => exact ⟨hp.1, fun reply => ih reply (hp.2 reply)⟩

end Program

namespace Frame

variable {W : Type} [World W] {P : Request → Prop} {config : Config} {run : Runner W}

theorem play_asks {α : Type} {p : Program α} (hp : p.Asks P) (f : Frame W) :
    ∀ x ∈ (play config run p f).1, P x.request := by
  induction p generalizing f with
  | done a => simp [play]
  | crash reason => simp [play]
  | ask r next ih =>
    intro x hx
    simp only [play, List.mem_cons] at hx
    rcases hx with rfl | hx
    · rw [answer, exchange_request]
      exact hp.1
    · exact ih _ (hp.2 _) _ x hx

end Frame

open CallRecord (flow flowAll)

/-- Nothing flows in a call tree if no program asks for anything that would. -/
theorem runFrame_flow {W : Type} [World W] {vm : Vm} {P : Request → Prop}
    (hvm : ∀ i code gas, (vm.program i code gas).Asks P) {g : Exchange → Nat} (hg : ∀ x, P x.request → g x = 0)
    (config : Config) (room : Nat) (s : Scope W) (stack : CallStack) (i : Invocation) (amount : Amount) (gas : Gas) :
    (runFrame vm config room s stack i amount gas).record.flow g = 0 := by
  refine runFrame_induct (P := fun _ _ _ _ _ outcome => outcome.record.flow g = 0) ?_ ?_ room s stack i amount gas
  · intro s stack i amount gas e
    exact CallRecord.flow_of_failed g rfl
  · intro run hrun s stack i amount gas entered _
    let played := Frame.play config run (vm.program i s.own.code gas) (.start s entered gas)
    have hown : sumOf g played.1 = 0 :=
      sumOf_eq_zero fun x hx => hg x (Frame.play_asks (hvm i s.own.code gas) _ x hx)
    have hbelow : flowAll g played.2.2.children = 0 := by
      refine Frame.play_induct (P := fun _ f => flowAll g f.children = 0) ?_ ?_ (vm.program i s.own.code gas) []
        (.start s entered gas) rfl
      · intro _ f r e h _
        rw [Frame.exchange_children]
        exact h
      · intro _ f r c out h _ hmove
        rw [Frame.exchange_children]
        cases hmove with
        | done v hc hfunds => exact h
        | failed e hc => exact h
        | refused n why hc =>
          rw [Frame.record_children, CallRecord.flowAll_append, h, CallRecord.flow_of_failed g rfl]
        | ran n t hc hs =>
          rw [Frame.record_children, CallRecord.flowAll_append, hrun]
          exact h
    by_cases hok : (runEntered vm config run entered s stack i amount gas).record.success
    · have hflow : (runEntered vm config run entered s stack i amount gas).record.flow g =
          sumOf g played.1 + flowAll g played.2.2.children := CallRecord.flow_of_success g hok
      omega
    · exact CallRecord.flow_of_failed g (by simpa using hok)

end ContractHost
