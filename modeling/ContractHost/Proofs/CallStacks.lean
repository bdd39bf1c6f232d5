import ContractHost.Proofs.FrameSteps
/-!
# Call stacks during a run

The counts of a stack are those of its frames, so leaving the frame that was entered last gives the stack from before.
A frame therefore hands back the stack that it got, whatever the frames below it have entered and left.
-/
namespace ContractHost

namespace CallStack

def count (s : CallStack) (a : Address) : Nat :=
  s.frames.countP fun frame => frame.contract = a

/-- A stack that counts its frames right. -/
def Counted (s : CallStack) : Prop :=
  ∀ a, s.active.get? a = if s.count a = 0 then none else some (s.count a)

variable {s t : CallStack}

theorem count_push (contract caller : Address) (value : Nat) (a : Address) :
    (s.push contract caller value).count a = s.count a + if contract = a then 1 else 0 := by
  simp only [count, push, List.countP_cons, decide_eq_true_eq]

theorem Counted.getD (h : s.Counted) (a : Address) : (s.active.get? a).getD 0 = s.count a := by
  rw [h a]
  split
  · rename_i hnone
    exact hnone.symm
  · rfl

theorem Counted.push (h : s.Counted) (contract caller : Address) (value : Nat) :
    (s.push contract caller value).Counted := by
  intro a
  rw [count_push]
  by_cases ha : contract = a
  · subst ha
    have hentry : (s.push contract caller value).active.get? contract = some (s.count contract + 1) := by
      rw [CallStack.push, OrderedMap.get?_insert_self, h.getD]
    rw [hentry, if_pos rfl, if_neg (Nat.succ_ne_zero _)]
  · have hentry : (s.push contract caller value).active.get? a = s.active.get? a :=
      OrderedMap.get?_insert_of_ne _ _ ha
    rw [hentry, if_neg ha]
    exact h a

theorem Counted.contains_iff (h : s.Counted) (a : Address) :
    s.contains a = true ↔ ∃ frame ∈ s.frames, frame.contract = a := by
  have hcount : 0 < s.count a ↔ ∃ frame ∈ s.frames, frame.contract = a := by
    simp [count, List.countP_pos_iff]
  rw [contains, h a, ← hcount]
  by_cases hzero : s.count a = 0
  · simp [hzero]
  · simp [hzero, Nat.pos_of_ne_zero hzero]

theorem Counted.release_push (h : s.Counted) (contract caller : Address) (value : Nat) :
    release (s.push contract caller value).active contract = s.active := by
  have hentry : (s.push contract caller value).active.get? contract = some (s.count contract + 1) := by
    rw [CallStack.push, OrderedMap.get?_insert_self, h.getD]
  apply OrderedMap.ext_get?
  intro a
  simp only [release, hentry]
  by_cases hzero : s.count contract = 0
  · -- The frame was the only one of its contract, which is not counted any more.
    rw [if_pos (by omega)]
    by_cases ha : contract = a
    · subst ha
      rw [OrderedMap.get?_erase_self, h contract, if_pos hzero]
    · rw [OrderedMap.get?_erase_of_ne _ ha]
      exact OrderedMap.get?_insert_of_ne _ _ ha
  · rw [if_neg (by omega)]
    by_cases ha : contract = a
    · subst ha
      rw [OrderedMap.get?_insert_self, h contract, if_neg hzero]
      rfl
    · rw [OrderedMap.get?_insert_of_ne _ _ ha]
      exact OrderedMap.get?_insert_of_ne _ _ ha

theorem Counted.exit_push (h : s.Counted) (contract caller : Address) (value : Nat) :
    (s.push contract caller value).exit = .ok ({ contract, caller, value, depth := s.depth }, s) := by
  have hactive := h.release_push contract caller value
  rw [exit]
  simp only [CallStack.push] at hactive ⊢
  rw [hactive]

theorem depth_push (contract caller : Address) (value : Nat) : (s.push contract caller value).depth = s.depth + 1 :=
  List.length_cons

theorem Counted.unwindTo_push (h : s.Counted) (contract caller : Address) (value : Nat) :
    (s.push contract caller value).unwindTo s.depth = s := by
  have hone : (s.push contract caller value).depth - s.depth = 1 := by
    rw [depth_push]
    omega
  rw [unwindTo, hone, leave, h.exit_push]
  rfl

theorem checkEnter_ok_iff {contract : Address} :
    s.checkEnter contract = .ok () ↔
      s.depth < s.maxDepth ∧ (s.allowReentrancy = false → s.contains contract = false) := by
  by_cases hdepth : s.maxDepth ≤ s.depth
  · have hfull : ¬ s.depth < s.maxDepth := Nat.not_lt_of_le hdepth
    simp [checkEnter, hdepth, hfull]
  · have hroom : s.depth < s.maxDepth := Nat.lt_of_not_le hdepth
    cases hallow : s.allowReentrancy <;> cases hcontains : s.contains contract <;>
      simp [checkEnter, hdepth, hroom, hallow, hcontains]

theorem enter_ok {contract caller : Address} {value : Nat} (h : s.enter contract caller value = .ok t) :
    s.checkEnter contract = .ok () ∧ t = s.push contract caller value := by
  obtain ⟨u, hcheck, h⟩ := bind_ok h
  cases h
  exact ⟨hcheck, rfl⟩

theorem enter_of_check {contract : Address} (h : s.checkEnter contract = .ok ()) (caller : Address) (value : Nat) :
    s.enter contract caller value = .ok (s.push contract caller value) := by
  rw [enter, h]
  rfl

end CallStack

variable {W : Type}

namespace Frame

variable [World W] {config : Config} {run : Runner W} {f : Frame W}

theorem Move.stack (hrun : ∀ s stack i amount gas, stack.Counted → (run s stack i amount gas).stack = stack)
    (hf : f.stack.Counted) {c : Command} {out : Except HostError Settled × Frame W} (h : f.Move config run c out) :
    out.2.stack = f.stack := by
  cases h with
  | done v hc hfunds => rfl
  | failed e hc => rfl
  | refused n why hc => exact record_stack f _
  | ran n s hc hs =>
    let outcome := run s f.stack n.invocation n.amount (Gas.least n.gas f.meter.remaining)
    have hrecorded : ((f.resume outcome).record outcome.record).2.stack = outcome.stack := record_stack _ _
    exact hrecorded.trans (hrun s f.stack _ _ _ hf)

theorem play_stack (hrun : ∀ s stack i amount gas, stack.Counted → (run s stack i amount gas).stack = stack)
    {α : Type} (p : Program α) (hf : f.stack.Counted) : (play config run p f).2.2.stack = f.stack := by
  refine play_induct (P := fun _ g => g.stack = f.stack) ?_ ?_ p [] f rfl
  · intro _ g r e hg _
    rw [exchange_stack]
    exact hg
  · intro _ g r c out hg _ hmove
    have hcounted : g.stack.Counted := by
      rw [hg]
      exact hf
    rw [exchange_stack, hmove.stack hrun hcounted, hg]

end Frame

variable [World W]

/-- A frame hands back the stack that it got. -/
theorem runFrame_stack (vm : Vm) (config : Config) (room : Nat) (s : Scope W) {stack : CallStack} (hs : stack.Counted)
    (i : Invocation) (amount : Amount) (gas : Gas) : (runFrame vm config room s stack i amount gas).stack = stack := by
  refine runFrame_induct (P := fun _ stack _ _ _ outcome => stack.Counted → outcome.stack = stack) ?_ ?_ room s stack i
    amount gas hs
  · intro s stack i amount gas e _
    rfl
  · intro run hrun s stack i amount gas entered henter hcounted
    obtain ⟨-, rfl⟩ := CallStack.enter_ok henter
    let pushed := stack.push s.own.contract s.own.caller amount
    have hpushed : (Frame.start s pushed gas).stack.Counted := hcounted.push _ _ _
    have hplay : (Frame.play config run (vm.program i s.own.code gas) (.start s pushed gas)).2.2.stack = pushed :=
      Frame.play_stack hrun _ hpushed
    show CallStack.unwindTo _ stack.depth = stack
    rw [hplay]
    exact hcounted.unwindTo_push _ _ _

end ContractHost
