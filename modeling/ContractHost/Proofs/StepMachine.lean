import Mathlib.Logic.Function.Iterate
import ContractHost.Order
import ContractHost.Proofs.Nesting
/-!
# Call trees one step at a time

`runFrame` runs nested frames by itself with one room less, and has no frame run when there is none left. Here the same
call trees are run by a machine without such a count: it holds the frame that runs and the callers that wait for it, and
goes on as long as there is a program to go on with. The machine comes to its end with the outcome that `runFrame` gives,
so the count is never what ends a run; the call stack does. On the way the machine never holds more frames than the
stack may have.
-/
namespace ContractHost

variable {W : Type}

/-- A frame in the course of its program. -/
structure Activation (W : Type) where
  /-- The scope in which it was entered. -/
  scope : Scope W
  /-- The stack on which it was entered. -/
  before : CallStack
  invocation : Invocation
  amount : Amount
  gasLimit : Gas
  /-- What its program has asked and was told so far. -/
  exchanges : List Exchange := []
  frame : Frame W

/-- A frame that waits for a nested one. -/
structure Waiting (W : Type) where
  activation : Activation W
  request : Request
  next : Reply → Program Output

/-- The state of a call tree. -/
inductive Machine (W : Type) where
  /-- A frame has a program to go on with, and callers wait for it, innermost first. -/
  | running (a : Activation W) (p : Program Output) (callers : List (Waiting W))
  | ended (outcome : FrameOutcome W)

/-- The number of frames that have been entered and not yet left. -/
def Machine.active : Machine W → Nat
  | running _ _ callers => callers.length + 1
  | ended _ => 0

/-! ## Frames and the stack -/

/-- The outcome of a frame whose program has ended. -/
def Activation.finish (config : Config) (a : Activation W) (ending : Ending Output) : FrameOutcome W :=
  let (result, status) :=
    a.frame.conclude config.maxArgsLength.toNat (a.invocation.action a.amount a.gasLimit) ending
  let passage : Passage :=
    { contract := a.scope.own.contract, caller := a.scope.own.caller, invocation := a.invocation
      code := a.scope.own.code, exchanges := a.exchanges, ending }
  { world := a.frame.scope.world, stack := a.frame.stack.unwindTo a.before.depth
    record := .node { result, status, passage := some passage } a.frame.children }

namespace Machine

variable {config : Config}

/-- A frame that the stack admitted and that has the stack which came of it. -/
structure Entered (config : Config) (a : Activation W) : Prop where
  counted : a.before.Counted
  maxDepth : a.before.maxDepth = config.maxCallDepth.toNat
  room : a.before.depth < a.before.maxDepth
  stack : a.frame.stack = a.before.push a.scope.own.contract a.scope.own.caller a.amount

/-- Callers that wait on a stack: it is the stack of the innermost of them, and each of them was entered on the stack of
the next. -/
def Suspended (config : Config) (stack : CallStack) : List (Waiting W) → Prop
  | [] => stack.depth = 0
  | w :: callers =>
    Entered config w.activation ∧ stack = w.activation.frame.stack ∧ Suspended config w.activation.before callers

theorem Suspended.depth {stack : CallStack} {callers : List (Waiting W)} (h : Suspended config stack callers) :
    stack.depth = callers.length := by
  induction callers generalizing stack with
  | nil => exact h
  | cons w callers ih =>
    obtain ⟨hentered, rfl, hbelow⟩ := h
    rw [hentered.stack, CallStack.depth_push, ih hbelow]
    rfl

theorem Entered.finish {a : Activation W} (h : Entered config a) (ending : Ending Output) :
    (a.finish config ending).stack = a.before := by
  show a.frame.stack.unwindTo a.before.depth = a.before
  rw [h.stack]
  exact h.counted.unwindTo_push _ _ _

/-- A state in which every frame stands on the stack of its caller. -/
def Sound (config : Config) : Machine W → Prop
  | .running a _ callers => Entered config a ∧ Suspended config a.before callers
  | .ended _ => True

/-- The frames of a sound state are those on the call stack, which are not too many. -/
theorem Sound.active_le {m : Machine W} (h : m.Sound config) : m.active ≤ config.maxCallDepth.toNat := by
  cases m with
  | ended outcome => exact Nat.zero_le _
  | running a p callers =>
    obtain ⟨hentered, hsuspended⟩ := h
    have hdepth := hsuspended.depth
    have hroom := hentered.room
    rw [hentered.maxDepth] at hroom
    show callers.length + 1 ≤ _
    omega

end Machine

variable [World W]

/-! ## Steps -/

namespace Frame

/-- The frame that a command asks for and the scope for it, if the frame is to be entered. -/
def admission? (f : Frame W) : Command → Option (Command.Nesting × Scope W)
  | .call c =>
    match f.callScope c with
    | .ok (.ok s) => (Command.call c).nesting.map fun n => (n, s)
    | _ => none
  | .deploy d =>
    match f.deploymentScope d with
    | .ok (.ok s) => (Command.deploy d).nesting.map fun n => (n, s)
    | _ => none
  | _ => none

/-- The frame that a request asks for and the scope for it, if the frame is to be entered. -/
def entered? (config : Config) (f : Frame W) (r : Request) : Option (Command.Nesting × Scope W) :=
  match r.check config.limits f.scope.own.contract with
  | .ok c => f.admission? c
  | .error _ => none

end Frame

namespace Machine

/-- Hands an outcome to the caller that waits for it. -/
def hand (outcome : FrameOutcome W) : List (Waiting W) → Machine W
  | [] => .ended outcome
  | w :: callers =>
    let f := w.activation.frame
    let (x, g) := f.exchange w.request ((f.resume outcome).record outcome.record)
    .running { w.activation with exchanges := w.activation.exchanges ++ [x], frame := g } (w.next x.reply) callers

def enter (vm : Vm) (config : Config) (s : Scope W) (stack : CallStack) (i : Invocation) (amount : Amount)
    (gasLimit : Gas) (callers : List (Waiting W)) : Machine W :=
  match stack.enter s.own.contract s.own.caller amount with
  | .error e => hand (.refused config s stack (i.action amount gasLimit) e) callers
  | .ok entered =>
    .running { scope := s, before := stack, invocation := i, amount, gasLimit, frame := .start s entered gasLimit }
      (vm.program i s.own.code gasLimit) callers

/-- Goes on by one request or by the end of a program. A request is answered on the spot unless a frame is entered for
it. -/
def step (vm : Vm) (config : Config) : Machine W → Machine W
  | .ended outcome => .ended outcome
  | .running a (.done output) callers => hand (a.finish config (.done output)) callers
  | .running a (.crash reason) callers => hand (a.finish config (.crash reason)) callers
  | .running a (.ask r next) callers =>
    match a.frame.entered? config r with
    | some (n, s) =>
      enter vm config s a.frame.stack n.invocation n.amount (Gas.least n.gas a.frame.meter.remaining)
        ({ activation := a, request := r, next } :: callers)
    | none =>
      let (x, f) := a.frame.answer config (runFrame vm config 0) r
      .running { a with exchanges := a.exchanges ++ [x], frame := f } (next x.reply) callers

def start (h : Host) (order : Order) (s : Scope W) : Machine W :=
  enter h.vm h.config s h.stack order.invocation order.amount order.gasLimit []

end Machine

/-! ## Requests for which a frame is entered -/

namespace Frame

variable {config : Config} {f : Frame W} {r : Request} {n : Command.Nesting} {s : Scope W}

theorem admission?_eq_some_iff {c : Command} :
    f.admission? c = some (n, s) ↔ c.nesting = some n ∧ f.opening c = .ok (.ok s) := by
  cases c with
  | call | deploy =>
    simp only [admission?, opening]
    split
    next t hmade => simp [hmade, Command.nesting]
    next hnot =>
      constructor
      · intro h
        cases h
      · rintro ⟨-, h⟩
        exact absurd h (hnot s)
  | _ =>
    constructor
    · intro h
      cases h
    · rintro ⟨hn, -⟩
      cases hn

theorem opening_of_admission?_none {c : Command} (hn : c.nesting = some n) (h : f.admission? c = none) :
    ∃ why, f.opening c = .error why := by
  rcases f.opening_cases c with hwhy | ⟨s, hs⟩
  · exact hwhy
  · have hsome := admission?_eq_some_iff.mpr ⟨hn, hs⟩
    rw [h] at hsome
    cases hsome

theorem perform_of_admission?_none {c : Command} (h : f.admission? c = none) (run run' : Runner W) :
    f.perform config run c = f.perform config run' c := by
  cases hn : c.nesting with
  | none => exact perform_of_nesting_none config run run' f hn
  | some n =>
    obtain ⟨why, hwhy⟩ := opening_of_admission?_none hn h
    rw [perform_refused config run hn hwhy, perform_refused config run' hn hwhy]

theorem perform_of_admission?_some {c : Command} (h : f.admission? c = some (n, s)) (run : Runner W) :
    f.perform config run c =
      let outcome := run s f.stack n.invocation n.amount (Gas.least n.gas f.meter.remaining)
      (f.resume outcome).record outcome.record := by
  obtain ⟨hn, hs⟩ := admission?_eq_some_iff.mp h
  exact perform_ran config run hn hs

theorem answer_of_entered?_none (h : f.entered? config r = none) (run run' : Runner W) :
    f.answer config run r = f.answer config run' r := by
  simp only [entered?] at h
  simp only [answer]
  cases hcheck : r.check config.limits f.scope.own.contract with
  | error e => rfl
  | ok c =>
    rw [hcheck] at h
    simp only [perform_of_admission?_none h run run']

theorem answer_of_entered?_some (h : f.entered? config r = some (n, s)) (run : Runner W) :
    f.answer config run r = f.exchange r (
      let outcome := run s f.stack n.invocation n.amount (Gas.least n.gas f.meter.remaining)
      (f.resume outcome).record outcome.record) := by
  simp only [entered?] at h
  simp only [answer]
  cases hcheck : r.check config.limits f.scope.own.contract with
  | error e =>
    rw [hcheck] at h
    cases h
  | ok c =>
    rw [hcheck] at h
    simp only [perform_of_admission?_some h run]

end Frame

/-! ## The end of a run -/

namespace Machine

variable {vm : Vm} {config : Config}

/-- Whether some number of steps leads from one state to another. -/
def Reaches (vm : Vm) (config : Config) (m m' : Machine W) : Prop :=
  ∃ n, (step vm config)^[n] m = m'

theorem Reaches.refl (m : Machine W) : Reaches vm config m m :=
  ⟨0, rfl⟩

theorem Reaches.head {m m' : Machine W} (h : Reaches vm config (step vm config m) m') : Reaches vm config m m' := by
  obtain ⟨n, hn⟩ := h
  exact ⟨n + 1, hn⟩

theorem Reaches.trans {m m' m'' : Machine W} (h : Reaches vm config m m') (h' : Reaches vm config m' m'') :
    Reaches vm config m m'' := by
  obtain ⟨n, hn⟩ := h
  obtain ⟨n', hn'⟩ := h'
  refine ⟨n' + n, ?_⟩
  rw [Function.iterate_add_apply, hn, hn']

theorem reaches_play (vm : Vm) {room : Nat}
    (hbelow : ∀ (s : Scope W) (stack : CallStack) (i : Invocation) (amount : Amount) (gas : Gas)
      (callers : List (Waiting W)), stack.InOrder config room →
      Reaches vm config (enter vm config s stack i amount gas callers)
        (hand (runFrame vm config room s stack i amount gas) callers))
    (p : Program Output) (a : Activation W) (ha : a.frame.InOrder config room) (callers : List (Waiting W)) :
    let (xs, ending, f) := Frame.play config (runFrame vm config room) p a.frame
    Reaches vm config (.running a p callers)
      (hand ({ a with exchanges := a.exchanges ++ xs, frame := f }.finish config ending) callers) := by
  induction p generalizing a with
  | done output =>
    apply Reaches.head
    simp only [List.append_nil]
    exact .refl _
  | crash reason =>
    apply Reaches.head
    simp only [List.append_nil]
    exact .refl _
  | ask r next ih =>
    let x := (a.frame.answer config (runFrame vm config room) r).1
    let f := (a.frame.answer config (runFrame vm config room) r).2
    have hrest := ih x.reply { a with exchanges := a.exchanges ++ [x], frame := f } (ha.answer r)
    simp only [List.append_assoc, List.singleton_append] at hrest
    apply Reaches.trans _ hrest
    apply Reaches.head
    cases hentered : a.frame.entered? config r with
    | none =>
      -- No frame is run for the request, so the machine can answer it with a runner without room.
      have hanswer := Frame.answer_of_entered?_none hentered (runFrame vm config room) (runFrame vm config 0)
      simp only [step, hentered, x, f, hanswer]
      exact .refl _
    | some found =>
      obtain ⟨n, s⟩ := found
      have hanswer := Frame.answer_of_entered?_some hentered (runFrame vm config room)
      have hran := hbelow s a.frame.stack n.invocation n.amount (Gas.least n.gas a.frame.meter.remaining)
        ({ activation := a, request := r, next } :: callers) ha.onStack
      simp only [hand] at hran
      simp only [step, hentered, x, f, hanswer]
      exact hran

/-- A frame for which the stack has `room` is run to the outcome that `runFrame` gives with that much room. -/
theorem reaches_enter (room : Nat) (s : Scope W) {stack : CallStack} (i : Invocation) (amount : Amount) (gas : Gas)
    (callers : List (Waiting W)) (hstack : stack.InOrder config room) :
    Reaches vm config (enter vm config s stack i amount gas callers)
      (hand (runFrame vm config room s stack i amount gas) callers) := by
  induction room generalizing s stack i amount gas callers with
  | zero =>
    -- The stack is full and says so before `runFrame` has to.
    have hmax := hstack.maxDepth
    have hroom := hstack.room
    have hfull : stack.enter s.own.contract s.own.caller amount = .error (.callDepth stack.depth) := by
      rw [CallStack.enter, CallStack.checkEnter, if_pos (by omega)]
      rfl
    simp only [enter, hfull]
    exact .refl _
  | succ room ih =>
    cases henter : stack.enter s.own.contract s.own.caller amount with
    | error e =>
      simp only [enter, runFrame, henter]
      exact .refl _
    | ok entered =>
      let a : Activation W :=
        { scope := s, before := stack, invocation := i, amount, gasLimit := gas, frame := .start s entered gas }
      have ha : a.frame.InOrder config room := Frame.inOrder_start hstack henter gas
      have hplay := reaches_play vm (fun s' _ i' amount' gas' callers' => ih s' i' amount' gas' callers')
        (vm.program i s.own.code gas) a ha callers
      simp only [enter, runFrame, henter]
      exact hplay

/-! ## The frames on the way -/

theorem sound_hand {outcome : FrameOutcome W} {callers : List (Waiting W)}
    (h : Suspended config outcome.stack callers) : (hand outcome callers).Sound config := by
  cases callers with
  | nil => trivial
  | cons w callers =>
    obtain ⟨hentered, hstack, hbelow⟩ := h
    refine ⟨⟨hentered.counted, hentered.maxDepth, hentered.room, ?_⟩, hbelow⟩
    let f := w.activation.frame
    have hresumed : (f.exchange w.request ((f.resume outcome).record outcome.record)).2.stack = outcome.stack := by
      rw [Frame.exchange_stack, Frame.record_stack]
      rfl
    exact hresumed.trans (hstack.trans hentered.stack)

theorem sound_enter (vm : Vm) (s : Scope W) {stack : CallStack} (i : Invocation) (amount : Amount) (gas : Gas)
    {callers : List (Waiting W)} (hcounted : stack.Counted) (hmax : stack.maxDepth = config.maxCallDepth.toNat)
    (h : Suspended config stack callers) : (enter vm config s stack i amount gas callers).Sound config := by
  rw [enter]
  cases henter : stack.enter s.own.contract s.own.caller amount with
  | error e => exact sound_hand h
  | ok entered =>
    obtain ⟨hcheck, rfl⟩ := CallStack.enter_ok henter
    exact ⟨⟨hcounted, hmax, (CallStack.checkEnter_ok_iff.mp hcheck).1, rfl⟩, h⟩

theorem Sound.step (vm : Vm) {m : Machine W} (h : m.Sound config) : (m.step vm config).Sound config := by
  match m with
  | .ended outcome => trivial
  | .running a p callers =>
    obtain ⟨hentered, hsuspended⟩ := h
    have hcounted : a.frame.stack.Counted := by
      rw [hentered.stack]
      exact hentered.counted.push _ _ _
    match p with
    | .done output =>
      apply sound_hand
      rw [hentered.finish]
      exact hsuspended
    | .crash reason =>
      apply sound_hand
      rw [hentered.finish]
      exact hsuspended
    | .ask r next =>
      rw [Machine.step]
      cases a.frame.entered? config r with
      | none =>
        refine ⟨⟨hentered.counted, hentered.maxDepth, hentered.room, ?_⟩, hsuspended⟩
        exact (Frame.answer_stack vm 0 hcounted r).trans hentered.stack
      | some found =>
        have hmax : a.frame.stack.maxDepth = config.maxCallDepth.toNat := by
          rw [hentered.stack]
          exact hentered.maxDepth
        exact sound_enter vm found.2 _ _ _ hcounted hmax ⟨hentered, rfl, hsuspended⟩

theorem Sound.steps (vm : Vm) {m : Machine W} (h : m.Sound config) (n : Nat) :
    ((Machine.step vm config)^[n] m).Sound config :=
  Function.Iterate.rec (Sound config) h (fun _ hm => hm.step vm) n

/-! ## Orders -/

variable (h : Host) (order : Order) (s : Scope W)

theorem start_reaches : Reaches h.vm h.config (start h order s) (.ended (h.outermost order s)) :=
  reaches_enter h.config.maxCallDepth.toNat s order.invocation order.amount order.gasLimit [] h.stack_inOrder

theorem start_active_le (n : Nat) :
    ((step h.vm h.config)^[n] (start h order s)).active ≤ h.config.maxCallDepth.toNat := by
  have hstart : (start h order s).Sound h.config :=
    sound_enter h.vm s order.invocation order.amount order.gasLimit (fun _ => rfl) rfl rfl
  exact (hstart.steps h.vm n).active_le

end Machine

end ContractHost
