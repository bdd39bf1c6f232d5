import ContractHost.Proofs.FaithfulRecords
import ContractHost.Proofs.ReadableResults
import ContractHost.Proofs.ScriptSessions
import ContractHost.Proofs.StepMachine
/-!
# Termination of orders

Every order comes to an end, also if the contracts call each other without end and if nothing has a price: what ends it is
the call stack. A frame that would not fit on the stack is refused, so the result of an order has no more levels than the
stack may have frames and one more, and nothing on the last level has succeeded.
-/
namespace ContractHost

/-! ## Levels of trees -/

namespace Tree

variable {α β : Type}

/-- The trees in a tree that are `n` levels below its root. -/
def atDepth : Nat → Tree α → List (Tree α)
  | 0, t => [t]
  | n + 1, t => t.children.flatMap (atDepth n)

theorem atDepth_map (f : α → β) (n : Nat) (t : Tree α) : (t.map f).atDepth n = (t.atDepth n).map (map f) := by
  induction n generalizing t with
  | zero => rfl
  | succ n ih => simp only [atDepth, children_map, List.flatMap_map, List.map_flatMap, ih]

theorem height_pos (t : Tree α) : 0 < t.height := by
  obtain ⟨a, cs⟩ := t
  rw [height]
  omega

theorem children_of_mem_atDepth {n : Nat} {t u : Tree α} (hheight : t.height ≤ n + 1) (hu : u ∈ t.atDepth n) :
    u.children = [] := by
  induction n generalizing t with
  | zero =>
    obtain ⟨a, cs⟩ := t
    cases List.mem_singleton.mp hu
    rw [height] at hheight
    cases cs with
    | nil => rfl
    | cons c cs =>
      have hpos := c.height_pos
      rw [heightAll] at hheight
      omega
  | succ n ih =>
    obtain ⟨a, cs⟩ := t
    obtain ⟨c, hc, hu⟩ := List.mem_flatMap.mp hu
    rw [height] at hheight
    exact ih (heightAll_le_iff.mp (show heightAll cs ≤ n + 1 by omega) c hc) hu

end Tree

/-! ## The last level of a call tree -/

namespace CallRecord

/-- A call tree of which no frame on a level has succeeded. -/
def FailsAt (n : Nat) (t : CallRecord) : Prop :=
  ∀ u ∈ t.atDepth n, success u = false

theorem failsAt_refused (n bound : Nat) (action : Action) (why : Refusal) : (refused bound action why).FailsAt n := by
  intro u hu
  cases n with
  | zero =>
    cases List.mem_singleton.mp hu
    rfl
  | succ n => cases hu

theorem failsAt_succ {n : Nat} {t : CallRecord} (h : ∀ c ∈ t.children, FailsAt n c) : t.FailsAt (n + 1) := by
  intro u hu
  obtain ⟨c, hc, hu⟩ := List.mem_flatMap.mp hu
  exact h c hc u hu

end CallRecord

open CallRecord (FailsAt)

variable {W : Type} [World W]

theorem Frame.Move.failsAt {config : Config} {run : Runner W} {n : Nat} {f : Frame W} {c : Command}
    {out : Except HostError Settled × Frame W}
    (hrun : ∀ s stack i amount gas, (run s stack i amount gas).record.FailsAt n) (hf : ∀ t ∈ f.children, FailsAt n t)
    (h : f.Move config run c out) : ∀ t ∈ out.2.children, FailsAt n t := by
  have hconcat : ∀ t : CallRecord, t.FailsAt n → ∀ u ∈ f.children ++ [t], FailsAt n u := by
    intro t ht u hu
    rcases List.mem_append.mp hu with hu | hu
    · exact hf u hu
    · rw [List.mem_singleton.mp hu]
      exact ht
  cases h with
  | done v hc hfunds => exact hf
  | failed e hc => exact hf
  | refused m why hc =>
    rw [record_children]
    exact hconcat _ (CallRecord.failsAt_refused n _ _ why)
  | ran m s hc hs =>
    rw [record_children]
    exact hconcat _ (hrun s f.stack _ _ _)

/-- A frame that is asked for when there is no room left on the stack fails. -/
theorem runFrame_failsAt (vm : Vm) (config : Config) (room : Nat) (s : Scope W) (stack : CallStack) (i : Invocation)
    (amount : Amount) (gas : Gas) : (runFrame vm config room s stack i amount gas).record.FailsAt room := by
  -- A nested frame has a room less and is a level nearer to the last one.
  induction room generalizing s stack i amount gas with
  | zero => exact CallRecord.failsAt_refused 0 _ _ _
  | succ room ih =>
    simp only [runFrame]
    cases stack.enter s.own.contract s.own.caller amount with
    | error e => exact CallRecord.failsAt_refused _ _ _ _
    | ok entered =>
      apply CallRecord.failsAt_succ
      have hstart : ∀ t ∈ (Frame.start s entered gas).children, FailsAt room t := by
        intro t ht
        cases ht
      refine Frame.play_induct (P := fun _ f => ∀ t ∈ f.children, FailsAt room t) ?_ ?_ (vm.program i s.own.code gas) []
        (.start s entered gas) hstart
      · intro _ f r e hf _
        rw [Frame.exchange_children]
        exact hf
      · intro _ f r c out hf _ hmove
        rw [Frame.exchange_children]
        exact hmove.failsAt ih hf

/-! ## Requests of frames -/

theorem Program.Course.length_le {α : Type} {p : Program α} {xs : List Exchange} {ending : Ending α}
    (h : p.Course xs ending) {n : Nat} (hn : p.AtMost n) : xs.length ≤ n := by
  induction h generalizing n with
  | done a => exact Nat.zero_le n
  | crash reason => exact Nat.zero_le n
  | ask x next h ih =>
    cases n with
    | zero => cases hn
    | succ n => exact Nat.succ_le_succ (ih (hn x.reply))

/-- A passage of a script with at most six exchanges for each line that it may run. -/
def Passage.Brief (p : Passage) : Prop :=
  p.exchanges.length ≤ 6 * (Script.linesOf p.code (Script.methodOf p.invocation)).length

theorem CallRecord.Faithful.brief {cost : Gas} {config : Config} {t : CallRecord}
    (h : t.Faithful (Script.vm cost) config) {p : Passage} (hp : t.label.passage = some p) : p.Brief :=
  (h.course p hp).length_le (Script.atMost_vm cost p.invocation p.code t.gasLimit)

/-! ## Orders -/

namespace Host

theorem carryOut_height {h : Host} {store : Store} {order : Order} {t : CallRecord}
    (ht : (h.carryOut store order).record = some t) :
    t.height ≤ h.config.maxCallDepth.toNat + 1 ∧ t.FailsAt h.config.maxCallDepth.toNat := by
  obtain ⟨-, ⟨why, rfl⟩ | ⟨s, -, rfl⟩⟩ := carryOut_record ht
  · exact ⟨Nat.le_add_left 1 _, CallRecord.failsAt_refused _ _ _ why⟩
  · exact ⟨runFrame_height h.vm h.config _ s h.stack _ _ _, runFrame_failsAt h.vm h.config _ s h.stack _ _ _⟩

theorem carryOut_shallow {h : Host} {store : Store} {order : Order} {outcome : Outcome}
    (houtcome : (h.carryOut store order).answer = .ok outcome) :
    outcome.result.height ≤ h.config.maxCallDepth.toNat + 1 ∧
      ∀ u ∈ outcome.result.atDepth h.config.maxCallDepth.toNat, u.children = [] ∧ u.label.success = false := by
  have hreports := h.carryOut_reports store order
  cases hrecord : (h.carryOut store order).record with
  | none =>
    rw [hrecord] at hreports
    obtain ⟨e, he⟩ := hreports
    rw [he] at houtcome
    cases houtcome
  | some t =>
    rw [hrecord] at hreports
    rw [hreports outcome houtcome]
    obtain ⟨hheight, hfails⟩ := carryOut_height hrecord
    have hresult : t.result.height ≤ h.config.maxCallDepth.toNat + 1 := by
      rw [CallRecord.result, Tree.height_map]
      exact hheight
    refine ⟨hresult, ?_⟩
    intro u hu
    refine ⟨Tree.children_of_mem_atDepth hresult hu, ?_⟩
    rw [CallRecord.result, Tree.atDepth_map] at hu
    obtain ⟨v, hv, rfl⟩ := List.mem_map.mp hu
    rw [Tree.label_map]
    exact hfails v hv

/-- An order comes to its end after finitely many steps, and on the way there are never more frames than the call stack
may have. No path of its result is longer than that by more than one, and whatever is on the last level has failed and
has asked for nothing. If contracts are scripts, then every frame has made at most six requests for each of its lines,
whatever they cost. -/
theorem carryOut_bounded (h : Host) (store : Store) (order : Order) :
    let bound := h.config.maxCallDepth.toNat
    let c := h.carryOut store order
    (∀ s, order.check h.config.limits = .ok () → order.scope h.config store (Layers.ofLedger store.ledger) = .ok s →
      (∃ n, (Machine.step h.vm h.config)^[n] (.start h order s) = .ended (h.outermost order s)) ∧
      (∀ n, ((Machine.step h.vm h.config)^[n] (.start h order s)).active ≤ bound) ∧
      c = finish store (h.outermost order s) order.deployed) ∧
    (∀ outcome, c.answer = .ok outcome → outcome.result.height ≤ bound + 1 ∧
      ∀ u ∈ outcome.result.atDepth bound, u.children = [] ∧ u.label.success = false) ∧
    ∀ cost, h.vm = Script.vm cost → ∀ t, c.record = some t →
      ∀ u ∈ t.subtrees, ∀ p, u.label.passage = some p → p.Brief := by
  refine ⟨?_, fun outcome => carryOut_shallow, ?_⟩
  · intro s hcheck hscope
    exact ⟨Machine.start_reaches h order s, Machine.start_active_le h order s, carryOut_of_scope hcheck hscope⟩
  · intro cost hvm t ht u hu p hp
    obtain ⟨-, hfaithful⟩ := h.carryOut_told store order ht
    have hu := hfaithful u hu
    rw [hvm] at hu
    exact hu.brief hp

/-- A host for scripts without a cost, on a stack of two frames. -/
def shallow : Host :=
  { vm := Script.vm 0, config := { maxCallDepth := 2 } }

end Host

def Ledger.looping : Ledger :=
  { accounts := OrderedMap.empty.insert .zero { code := some (Bytes.ofText "fn run\n self\n call $last run 500") } }

/-- The script has the levels that the stack allows and the one below that has failed, and it survives this. -/
theorem Host.looping_bounded :
    ∃ outcome, (shallow.carryOut { ledger := .looping } (.execute .atZero)).answer = .ok outcome ∧
      outcome.success = true ∧ outcome.result.height = 3 ∧
      ∀ u ∈ outcome.result.atDepth 2, u.children = [] ∧ u.label.success = false := by
  obtain ⟨-, hshallow, -⟩ := shallow.carryOut_bounded { ledger := .looping } (.execute .atZero)
  have hdeep : (shallow.carryOut { ledger := .looping } (.execute .atZero)).answer.toOption.any
      (fun outcome => outcome.success && outcome.result.height = 3) = true := by decide +kernel
  revert hshallow hdeep
  cases (shallow.carryOut { ledger := .looping } (.execute .atZero)).answer with
  | error e =>
    intro _ hdeep
    cases hdeep
  | ok outcome =>
    intro hshallow hdeep
    obtain ⟨hsuccess, hheight⟩ := Bool.and_eq_true_iff.mp hdeep
    exact ⟨outcome, rfl, hsuccess, of_decide_eq_true hheight, (hshallow outcome rfl).2⟩

end ContractHost
