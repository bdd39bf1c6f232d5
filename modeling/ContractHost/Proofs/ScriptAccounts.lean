import ContractHost.Proofs.OutrunFrames
/-!
# The two accounts of a script's gas

The gas of a script is counted twice. The meter of its frame knows what the host has charged, and the script keeps an
account of its own, to which it adds the costs of its instructions and what it is told that the host has charged. The two
are kept in step by nothing but what passes between them: before each request the script says what it has left.

This is enough. At every request the meter is behind the account, and the account is within the limit; once the frame has
been told, it has left what the account has, and at the end the account is what the frame is reported to have used
(`Script.accounts_inStep`).
-/
namespace ContractHost

open Script (Setting Progress Halt Session)

variable {W : Type}

/-! ## Conditions along a program -/

namespace Frame

variable [World W] {α β : Type} {config : Config} {run : Runner W}

/-- Whether a condition holds at every request that a program makes in a frame, and another one at its end. The first one
is about the frame at the request, the request, and how the program goes on with the reply. -/
def Throughout (config : Config) (run : Runner W) (P : Frame W → Request → (Reply → Program α) → Prop)
    (Q : Ending α → Frame W → Prop) : Program α → Frame W → Prop
  | .done a, f => Q (.done a) f
  | .crash reason, f => Q (.crash reason) f
  | .ask r next, f =>
    P f r next ∧ Throughout config run P Q (next (f.answer config run r).1.reply) (f.answer config run r).2

variable {P : Frame W → Request → (Reply → Program α) → Prop} {Q Q' : Ending α → Frame W → Prop} {p : Program α}
  {f : Frame W}

theorem Throughout.ends (h : Throughout config run P Q p f) :
    Q (upshot config run p f).1 (upshot config run p f).2 := by
  induction p generalizing f with
  | done a => exact h
  | crash reason => exact h
  | ask r next ih => exact ih _ h.2

theorem Throughout.ending (h : Throughout config run P Q p f)
    (hend : Q' (upshot config run p f).1 (upshot config run p f).2) : Throughout config run P Q' p f := by
  induction p generalizing f with
  | done a => exact hend
  | crash reason => exact hend
  | ask r next ih => exact ⟨h.1, ih _ h.2 hend⟩

/-- A condition at every request goes over to programs in a row if it does not mind how the first one is continued. -/
theorem Throughout.bind {P' : Frame W → Request → (Reply → Program β) → Prop} {R : Ending β → Frame W → Prop}
    {k : α → Program β} (h : Throughout config run P Q p f)
    (hask : ∀ g r next, P g r next → P' g r fun reply => (next reply).bind k)
    (hdone : ∀ a g, Q (.done a) g → Throughout config run P' R (k a) g)
    (hcrash : ∀ reason g, Q (.crash reason) g → R (.crash reason) g) : Throughout config run P' R (p.bind k) f := by
  induction p generalizing f with
  | done a => exact hdone a f h
  | crash reason => exact hcrash reason f h
  | ask r next ih => exact ⟨hask f r next h.1, ih _ h.2⟩

end Frame

/-! ## Requests with a price -/

/-- Whether something can only fail for reasons other than gas. -/
def Solvent {α : Type} (x : Except HostError α) : Prop :=
  FailsBy (fun e => e.status ≠ .outOfGas) x

namespace Solvent

theorem identityState (s : Store) (a : Address) : Solvent (s.identityState a) := by
  simp only [Store.identityState]
  split
  · exact .error nofun
  · exact .ok _

theorem identity (s : Store) (a : Address) : Solvent (s.identity a) := by
  simp only [Store.identity]
  split
  · exact .error nofun
  · exact .ok _

theorem debit [World W] (s : Scope W) (amount : Amount) : Solvent (s.debit amount) := by
  have hrest : Solvent (s.rest s.own.contract amount) := by
    simp only [Scope.rest]
    cases Amount.minus? (s.balance s.own.contract) amount with
    | some rest => exact .ok rest
    | none => exact .error Status.noConfusion
  exact hrest.bind fun rest => .ok _

theorem settle {settled : Except HostError (Value × Scope W)} (h : Solvent settled) (f : Frame W) (m : Meter) :
    Solvent (f.settle m settled).1 := by
  cases settled with
  | error e => exact .error (h e rfl)
  | ok out => exact .ok _

theorem moveTo {made : Except HostError (Scope W)} (h : Solvent made) (f : Frame W) (m : Meter) :
    Solvent (f.moveTo (made, m)).1 := by
  rw [Frame.moveTo_eq_settle]
  exact settle (h.map _) f m

theorem moveTo_spend {f : Frame W} {m : Meter} {price : Gas} (hm : f.meter.charge price = (.ok (), m))
    {made : Except HostError (Scope W)} (h : Solvent made) : Solvent (f.moveTo (f.meter.spend price made)).1 := by
  rw [Frame.moveTo_spend hm]
  exact settle (h.map _) f m

end Solvent

namespace Frame

variable [World W] {config : Config} {run : Runner W} {f : Frame W} {r : Request} {c : Command} {m : Meter}

theorem solvent_of_paid (config : Config) (run : Runner W) (hc : c.nesting = none)
    (hm : f.meter.charge (c.price f.scope) = (.ok (), m)) : Solvent (f.perform config run c).1 := by
  cases c with
  | setStorage | removeStorage | event => exact .moveTo_spend hm (.ok _)
  | send payee amount => exact .moveTo_spend hm ((Solvent.debit f.scope amount).bind fun s => .ok _)
  | readStorage contract key =>
    rw [perform_readStorage hm]
    exact .ok _
  | debit amount => exact (Solvent.debit f.scope amount).moveTo f f.meter
  | burn amount => exact .moveTo ((Solvent.debit f.scope amount).bind fun s => .ok _) f f.meter
  | identityState a => exact ((Solvent.identityState f.scope.store a).map _).map _
  | identity a => exact ((Solvent.identity f.scope.store a).map _).map _
  | call | deploy => cases hc
  | _ => exact .ok _

/-- A command without a nested frame runs out of gas if and only if its price is more than what is left. -/
theorem answer_outOfGas_iff (run : Runner W) (hf : f.meter.Sound)
    (hcheck : r.check config.limits f.scope.own.contract = .ok c) (hc : c.nesting = none) :
    (f.answer config run r).1.reply.status = .outOfGas ↔ f.meter.remaining.toNat < (c.price f.scope).toNat := by
  have hconsumed := hf.consumed
  have hleft := f.meter.toNat_remaining
  by_cases hle : f.meter.consumed.toNat + (c.price f.scope).toNat ≤ f.meter.limit.toNat
  · have hsolvent := solvent_of_paid config run hc (Meter.charge_of_le hle)
    have hstatus : (f.answer config run r).1.reply.status ≠ .outOfGas := by
      rw [answer_checked hcheck]
      generalize f.perform config run c = out at hsolvent
      obtain ⟨(e | v | t), g⟩ := out
      · exact hsolvent e rfl
      · exact Status.noConfusion
      · simp only [exchange, Reply.nested]
        cases t.result.label.success with
        | true => exact Status.noConfusion
        | false => exact Status.noConfusion
    exact ⟨fun h => absurd h hstatus, fun h => by omega⟩
  · have hcharge := Meter.charge_of_lt (Nat.lt_of_not_le hle)
    have hstatus : (f.answer config run r).1.reply.status = .outOfGas := by
      rw [answer_checked hcheck, perform_unpaid hf hcharge]
      rfl
    exact ⟨fun _ => by omega, fun _ => hstatus⟩

/-- What comes of a request for a nested frame: it is recorded, whether it was refused or run, and it was granted what the
request offers, but no more than is left. -/
theorem answer_nested (vm : Vm) (config : Config) (room : Nat) (hf : f.meter.Sound)
    (hcheck : r.check config.limits f.scope.own.contract = .ok c) {n : Command.Nesting} (hn : c.nesting = some n) :
    let limit := Gas.least n.gas f.meter.remaining
    let out := f.answer config (runFrame vm config room) r
    ∃ t, f.Records out.2 n out.1.reply t ∧ t.gasLimit = limit ∧
      ((∃ why, t = CallRecord.refused config.maxArgsLength.toNat (n.invocation.action n.amount limit) why) ∨
        ∃ s, f.Entry c s ∧ t = (runFrame vm config room s f.stack n.invocation n.amount limit).record) := by
  intro limit out
  have hout : out = f.exchange r (f.perform config (runFrame vm config room) c) := answer_checked hcheck
  rw [hout]
  cases hadmission : f.admission? c with
  | none =>
    obtain ⟨why, hwhy⟩ := opening_of_admission?_none hn hadmission
    have hperform := perform_refused config (runFrame vm config room) hn hwhy
    let t := CallRecord.refused config.maxArgsLength.toNat (n.invocation.action n.amount limit) why
    have hlimit : t.gasLimit = limit := n.invocation.gasLimit_action n.amount limit
    have hle := f.used_le_limit n hlimit (CallRecord.allGasSound_refused _ _ why)
    rw [hperform]
    exact ⟨t, (records_of_le rfl rfl hf hle r).2, hlimit, .inl ⟨why, rfl⟩⟩
  | some found =>
    obtain ⟨n', s⟩ := found
    obtain ⟨hn', hentry⟩ := admission?_some hadmission
    cases hn.symm.trans hn'
    let outcome := runFrame vm config room s f.stack n.invocation n.amount limit
    obtain ⟨hlimit, hsound⟩ := runFrame_keepsGas vm config room s f.stack n.invocation n.amount limit
    have hle := f.used_le_limit n hlimit hsound
    rw [perform_of_admission?_some hadmission]
    obtain ⟨-, hrecords⟩ := records_of_le (f := f) (g := f.resume outcome) rfl rfl hf hle r
    exact ⟨outcome.record, hrecords, hlimit, .inr ⟨s, hentry, rfl⟩⟩

end Frame

/-! ## A meter behind an account -/

namespace Frame

/-- A frame whose meter is behind the account of its script, which is within the limit, and which was never told that it
is out of gas. -/
structure Aligned (limit used : Gas) (f : Frame W) : Prop where
  cap : f.meter.cap = limit
  meter : f.meter.Sound
  behind : f.meter.consumed.toNat ≤ used.toNat
  within : used.toNat ≤ limit.toNat
  unmarked : f.ranOut = false

variable {limit used : Gas} {f : Frame W} {r : Request}

theorem aligned_start (s : Scope W) (stack : CallStack) (gas : Gas) : (start s stack gas).Aligned gas 0 :=
  ⟨rfl, Meter.sound_ofLimit gas, Nat.le_refl _, Nat.zero_le _, rfl⟩

theorem Aligned.mono (h : f.Aligned limit used) {used' : Gas} (hle : used.toNat ≤ used'.toNat)
    (hwithin : used'.toNat ≤ limit.toNat) : f.Aligned limit used' :=
  ⟨h.cap, h.meter, Nat.le_trans h.behind hle, hwithin, h.unmarked⟩

theorem Aligned.sync (h : f.Aligned limit used) : (f.sync (Gas.minus limit used)).Aligned limit used :=
  ⟨h.cap, (h.meter.setRemaining _).sound, h.behind, h.within, h.unmarked⟩

theorem Aligned.remaining_sync (h : f.Aligned limit used) :
    (f.sync (Gas.minus limit used)).meter.remaining.toNat = limit.toNat - used.toNat :=
  Meter.toNat_remaining_told h.cap h.behind h.within

variable [World W] {config : Config} {run : Runner W}

theorem Aligned.answer (h : f.Aligned limit used)
    (hwithin : ¬ limit < Gas.plus used (f.answer config run r).1.reply.gasUsed)
    (hstatus : (f.answer config run r).1.reply.status ≠ .outOfGas) :
    (f.answer config run r).2.Aligned limit (Gas.plus used (f.answer config run r).1.reply.gasUsed) := by
  have honward := answer_onward config run h.meter r
  have hmetered := answer_metered config run h.meter r
  refine ⟨honward.cap.trans h.cap, honward.sound, ?_, ?_, ?_⟩
  · -- The sum is a word, so it is no larger than the saturated one.
    have hbehind := h.behind
    have hmost := Gas.toNat_le_most (f.answer config run r).2.meter.consumed
    rw [Gas.toNat_plus, hmetered] at *
    split <;> omega
  · rw [UInt64.lt_iff_toNat_lt] at hwithin
    exact Nat.le_of_not_lt hwithin
  · rw [answer_ranOut, h.unmarked, decide_eq_false hstatus]
    rfl

/-- A frame at a request, once its script has said what it has left. If the request is to say so, this is the frame after
it; every other request is made by a frame that was told. -/
def told (config : Config) (run : Runner W) (f : Frame W) : Request → Frame W
  | .setRemainingGas left => (f.answer config run (.setRemainingGas left)).2
  | _ => f

/-- How the meter of a frame and the account of its script stand at a request: the meter is behind the account, which is
within the limit, and what the frame has left is what the account has. So the account decides what can be paid for, and
what a nested frame is granted. -/
structure InStep (config : Config) (run : Runner W) (limit used : Gas) (f : Frame W) (r : Request) : Prop where
  behind : f.meter.consumed.toNat ≤ used.toNat
  within : used.toNat ≤ limit.toNat
  left : (f.told config run r).meter.remaining.toNat = limit.toNat - used.toNat
  refused : ∀ c, r.check config.limits f.scope.own.contract = .ok c → c.nesting = none →
    ((f.answer config run r).1.reply.status = .outOfGas ↔ limit.toNat - used.toNat < (c.price f.scope).toNat)
  granted : ∀ c n, r.check config.limits f.scope.own.contract = .ok c → c.nesting = some n →
    ∃ t, (f.answer config run r).2.children = f.children ++ [t] ∧
      t.gasLimit.toNat = min n.gas.toNat (limit.toNat - used.toNat)

theorem Aligned.inStep_sync (h : f.Aligned limit used) (config : Config) (run : Runner W) :
    f.InStep config run limit used (.setRemainingGas (Gas.minus limit used)) := by
  refine ⟨h.behind, h.within, ?_, ?_, ?_⟩
  · rw [told, Script.Session.answer_sync]
    exact h.remaining_sync
  · intro c hcheck hc
    cases hcheck
    rw [Script.Session.answer_sync]
    exact ⟨nofun, fun hlt => absurd hlt (Nat.not_lt_zero _)⟩
  · intro c n hcheck hn
    cases hcheck
    cases hn

theorem Aligned.inStep (h : f.Aligned limit used) (vm : Vm) (config : Config) (room : Nat)
    (hleft : f.meter.remaining.toNat = limit.toNat - used.toNat) (hr : ∀ left, r ≠ .setRemainingGas left) :
    f.InStep config (runFrame vm config room) limit used r := by
  refine ⟨h.behind, h.within, ?_, ?_, ?_⟩
  · unfold told
    split
    · exact absurd rfl (hr _)
    · exact hleft
  · intro c hcheck hc
    rw [← hleft]
    exact answer_outOfGas_iff _ h.meter hcheck hc
  · intro c n hcheck hn
    obtain ⟨t, hrecords, hgranted, -⟩ := answer_nested vm config room h.meter hcheck hn
    refine ⟨t, hrecords.children, ?_⟩
    rw [hgranted, f.toNat_limit n, hleft]

omit [World W] in
theorem conclude_of_kept {f : Frame W} (bound : Nat) {action : Action} {o : Output}
    (hout : f.isOut action.gasLimit (.done o) = false) (ho : o.status ≠ .outOfGas) :
    (f.conclude bound action (.done o)).2 ≠ .outOfGas ∧ (f.conclude bound action (.done o)).1.gasUsed = f.reported o := by
  simp only [conclude, hout, Bool.false_eq_true, if_false]
  refine ⟨?_, rfl⟩
  split
  · exact Status.noConfusion
  · split
    · exact Status.noConfusion
    · exact ho

end Frame

/-! ## Parts of scripts -/

namespace Script.Session

open ContractHost.Frame (Throughout Aligned InStep)

variable {α β : Type}

/-- Whether a script goes on from a request with an account: it has used as much in the end if the host breaks off at the
request and charges nothing for it. -/
def StandsAt (used : Gas) (next : Reply → Program (Except Halt α × Progress)) : Prop :=
  ∀ reply, reply.status = .hostFault → reply.gasUsed = 0 →
    ∃ last, next reply = .done (.error (.fault reply.errorText), { used, last })

/-- The account with which a script goes on is read off the program: there is no other one. -/
theorem StandsAt.unique {used used' : Gas} {next : Reply → Program (Except Halt α × Progress)} (h : StandsAt used next)
    (h' : StandsAt used' next) : used = used' := by
  let reply : Reply := { status := .hostFault, gasUsed := 0, value := .nothing, error := none }
  obtain ⟨last, hnext⟩ := h reply rfl rfl
  obtain ⟨last', hnext'⟩ := h' reply rfl rfl
  rw [hnext] at hnext'
  cases hnext'
  rfl

/-- How a part of a script goes on with what came of another part. -/
def goOn (k : α → Session β) : Except Halt α × Progress → Program (Except Halt β × Progress)
  | (.ok a, q) => (k a).run.run q
  | (.error halt, q) => .done (.error halt, q)

theorem StandsAt.bind {used : Gas} {next : Reply → Program (Except Halt α × Progress)} (h : StandsAt used next)
    (k : α → Session β) : StandsAt used fun reply => (next reply).bind (goOn k) := by
  intro reply hstatus hfree
  obtain ⟨last, hnext⟩ := h reply hstatus hfree
  exact ⟨last, congrArg (Program.bind · (goOn k)) hnext⟩

/-- A session that takes in a reply: it adds the gas of the reply to the account, and it is out of gas if that is too much
or if the reply says so. -/
def TakesIn (s : Setting) (k : Reply → Session α) : Prop :=
  ∀ reply p, ∃ out last, (k reply).run.run p = .done (out, { used := Gas.plus p.used reply.gasUsed, last }) ∧
    (out ≠ .error .outOfGas → ¬ s.gasLimit < Gas.plus p.used reply.gasUsed ∧ reply.status ≠ .outOfGas) ∧
    (¬ s.gasLimit < Gas.plus p.used reply.gasUsed → reply.status = .hostFault → out = .error (.fault reply.errorText))

theorem takesIn_absorb (s : Setting) : TakesIn s (absorb s) := by
  intro reply p
  rw [run_absorb]
  by_cases hout : s.gasLimit < Gas.plus p.used reply.gasUsed
  · rw [if_pos hout]
    exact ⟨_, _, rfl, fun h => absurd rfl h, fun h => absurd hout h⟩
  · rw [if_neg hout]
    refine ⟨_, _, rfl, fun h => ⟨hout, ?_⟩, fun _ hstatus => ?_⟩
    · intro hstatus
      rw [taken, hstatus] at h
      exact h rfl
    · rw [taken, hstatus]

theorem TakesIn.before {s : Setting} {k : Reply → Session α} (hk : TakesIn s k) {j : Reply → α → Session β}
    (hj : ∀ reply a p, ∃ b last, (j reply a).run.run p = .done (.ok b, { p with last })) :
    TakesIn s fun reply => k reply >>= j reply := by
  intro reply p
  obtain ⟨out, last, hrun, hstatus, hfault⟩ := hk reply p
  rw [run_bind, hrun]
  cases out with
  | error halt =>
    refine ⟨.error halt, last, rfl, fun h => hstatus fun hout => h ?_, fun hwithin hbroken => ?_⟩
    · rw [Except.error.inj hout]
    · rw [Except.error.inj (hfault hwithin hbroken)]
  | ok a =>
    obtain ⟨b, last', hafter⟩ := hj reply a { used := Gas.plus p.used reply.gasUsed, last }
    refine ⟨.ok b, last', hafter, fun _ => hstatus nofun, fun hwithin hbroken => ?_⟩
    cases hfault hwithin hbroken

theorem takesIn_discard (s : Setting) : TakesIn s fun reply => discard (absorb s reply) := by
  simp only [discard_eq]
  exact (takesIn_absorb s).before fun _ _ p => ⟨(), p.last, rfl⟩

theorem takesIn_absorbNested (s : Setting) (strict : Bool) : TakesIn s (absorbNested s strict) := by
  let first : Reply → Session Unit := fun reply =>
    if !strict && reply.status = .contractError then charge s reply.gasUsed else discard (absorb s reply)
  have hfirst : TakesIn s first := by
    intro reply p
    by_cases hlenient : (!strict && decide (reply.status = .contractError)) = true
    · -- A failure of the called frame alone is let pass, and only its gas is taken in.
      have hstatus : reply.status = .contractError := of_decide_eq_true (Bool.and_eq_true_iff.mp hlenient).2
      have hrun : (first reply).run.run p = (charge s reply.gasUsed).run.run p := by
        simp only [first, if_pos hlenient]
      rw [hrun, run_charge]
      refine ⟨_, p.last, rfl, fun h => ⟨fun hout => h (if_pos hout), ?_⟩, fun _ hbroken => ?_⟩
      · rw [hstatus]
        nofun
      · rw [hstatus] at hbroken
        cases hbroken
    · have hrun : (first reply).run.run p = (discard (absorb s reply)).run.run p := by
        simp only [first, if_neg hlenient]
      rw [hrun]
      exact takesIn_discard s reply p
  have hboth := hfirst.before (j := fun reply _ => remember (outputOf reply)) fun reply _ p =>
    ⟨(), outputOf reply, rfl⟩
  intro reply
  rw [absorbNested_eq]
  exact hboth reply

variable [World W] {vm : Vm} {config : Config} {room : Nat} {s : Setting} {gas : Gas} {n : Nat}

/-- What holds at every request of a script. -/
def Watched (config : Config) (run : Runner W) (limit : Gas) (f : Frame W) (r : Request)
    (next : Reply → Program (Except Halt α × Progress)) : Prop :=
  ∃ used, StandsAt used next ∧ f.InStep config run limit used r

/-- What holds at the end of a part of a script. -/
def Settled (limit : Gas) : Ending (Except Halt α × Progress) → Frame W → Prop
  | .done (out, q), g => out ≠ .error .outOfGas → g.Aligned limit q.used
  | .crash _, g => g.meter.consumed.toNat ≤ limit.toNat

/-- Whether a part of a script is watched throughout, wherever it starts. -/
def KeepsStep (config : Config) (run : Runner W) (s : Setting) (x : Session α) : Prop :=
  ∀ (p : Progress) (f : Frame W), f.Aligned s.gasLimit p.used →
    Throughout config run (Watched config run s.gasLimit) (Settled s.gasLimit) (x.run.run p) f

theorem KeepsStep.bind {run : Runner W} {x : Session α} {k : α → Session β} (hx : KeepsStep config run s x)
    (hk : ∀ a, KeepsStep config run s (k a)) : KeepsStep config run s (x >>= k) := by
  intro p f hf
  rw [run_bind]
  apply (hx p f hf).bind
  · rintro g r next ⟨used, hstands, hstep⟩
    exact ⟨used, hstands.bind k, hstep⟩
  · rintro ⟨(halt | a), q⟩ g hg
    · exact fun hout => hg fun h => hout (by rw [Except.error.inj h])
    · exact hk a q g (hg nofun)
  · exact fun reason g hg => hg

theorem keepsStep_of_run {run : Runner W} {x : Session α}
    (hx : ∀ p, ∃ out last, x.run.run p = .done (out, { p with last })) : KeepsStep config run s x := by
  intro p f hf
  obtain ⟨out, last, hrun⟩ := hx p
  rw [hrun]
  exact fun _ => hf

theorem keepsStep_charge {run : Runner W} (amount : UInt64) : KeepsStep config run s (charge s amount) := by
  intro p f hf
  rw [run_charge]
  intro hout
  have hwithin : ¬ s.gasLimit < Gas.plus p.used amount := fun h => hout (if_pos h)
  rw [UInt64.lt_iff_toNat_lt] at hwithin
  exact hf.mono (Gas.le_plus p.used amount) (Nat.le_of_not_lt hwithin)

theorem throughout_request {run : Runner W} {k : Reply → Session α} (hk : TakesIn s k) {p : Progress} {f : Frame W}
    {r : Request} (hf : f.Aligned s.gasLimit p.used) (hstep : f.InStep config run s.gasLimit p.used r) :
    Throughout config run (Watched config run s.gasLimit) (Settled s.gasLimit)
      (.ask r fun reply => (k reply).run.run p) f := by
  have hwithin : ¬ s.gasLimit < p.used := by
    rw [UInt64.lt_iff_toNat_lt]
    exact Nat.not_lt_of_le hf.within
  refine ⟨⟨p.used, ?_, hstep⟩, ?_⟩
  · intro reply hstatus hfree
    obtain ⟨out, last, hrun, -, hfault⟩ := hk reply p
    rw [hfree, Gas.plus_zero] at hrun hfault
    rw [hfault hwithin hstatus] at hrun
    exact ⟨last, hrun⟩
  · obtain ⟨out, last, hrun, hstatus, -⟩ := hk (f.answer config run r).1.reply p
    dsimp only
    rw [hrun]
    exact fun hout => hf.answer (hstatus hout).1 (hstatus hout).2

theorem keepsStep_query {r : Request} (hr : ∀ left, r ≠ .setRemainingGas left) {k : Reply → Session α}
    (hk : TakesIn s k) : KeepsStep (W := W) config (runFrame vm config room) s (query s r >>= k) := by
  intro p f hf
  let run : Runner W := runFrame vm config room
  let left := Gas.minus s.gasLimit p.used
  have hsync : Throughout config run (Watched config run s.gasLimit)
      (fun ending g => ending = .done (.ok (), p) ∧ g = f.sync left) ((sync s).run.run p) f := by
    refine (throughout_request (takesIn_discard s) hf (hf.inStep_sync config run)).ending ?_
    exact Prod.ext_iff.mp (upshot_sync config run hf.within f)
  rw [query, bind_assoc, run_bind]
  apply hsync.bind
  · rintro g r' next ⟨used, hstands, hstep⟩
    exact ⟨used, hstands.bind _, hstep⟩
  · rintro ⟨out, q⟩ g ⟨hending, rfl⟩
    cases hending
    exact throughout_request hk hf.sync (hf.sync.inStep vm config room hf.remaining_sync hr)
  · rintro reason g ⟨hending, -⟩
    cases hending

/-- Every part of a script that the instructions are made of keeps the two accounts in step. -/
theorem Paired.keepsStep {own : Bool} {x x' : Session α} (h : Paired own s gas n x x') :
    KeepsStep (W := W) config (runFrame vm config room) s x := by
  induction h with
  | pure a => exact keepsStep_of_run fun p => ⟨.ok a, p.last, rfl⟩
  | throw halt hhalt => exact keepsStep_of_run fun p => ⟨.error halt, p.last, rfl⟩
  | crash reason =>
    intro p f hf
    exact Nat.le_trans hf.behind hf.within
  | get => exact keepsStep_of_run fun p => ⟨.ok p, p.last, rfl⟩
  | remember b => exact keepsStep_of_run fun _ => ⟨.ok (), b, rfl⟩
  | charge amount hown => exact keepsStep_charge amount
  | demand r hr hneutral =>
    apply keepsStep_query _ (takesIn_absorb s)
    rintro left rfl
    cases hr
  | nested r strict hr =>
    apply keepsStep_query _ (takesIn_absorbNested s strict)
    rintro left rfl
    cases hr
  | bind hx hf ihx ihf => exact ihx.bind ihf
  | weaken hx hle ih => exact ih

end Script.Session

/-! ## Whole scripts -/

namespace Script

/-- What the record of a script's frame tells of its gas: what the account says, or the whole limit if the frame ran out
of gas or broke off. -/
def TellsGas (gas : Gas) (t : CallRecord) : Ending (Except Halt Unit × Progress) → Prop
  | .done (_, q) => t.gasUsed = if t.label.status = .outOfGas then gas else q.used
  | .crash _ => t.gasUsed = gas

theorem output_of_ne {s : Setting} {p : Progress} (hp : p.used.toNat ≤ s.gasLimit.toNat) {halt : Halt}
    (h : halt ≠ .outOfGas) : (output s p halt).gasUsed = p.used ∧ (output s p halt).status ≠ .outOfGas := by
  have hleast : Gas.least p.used s.gasLimit = p.used := if_pos (UInt64.le_iff_toNat_le.mpr hp)
  cases halt with
  | outOfGas => exact absurd rfl h
  | _ => exact ⟨hleast, nofun⟩

theorem tellsGas_conclude {f : Frame W} {cost : Gas} {i : Invocation} {gas : Gas} {out : Except Halt Unit} {q : Progress}
    (h : Session.Settled gas (.done (out, q)) f) (bound : Nat) (amount : Amount) :
    let o := output (settingOf cost i gas) q (haltOf out)
    let (result, status) := f.conclude bound (i.action amount gas) (.done o)
    result.gasUsed = if status = .outOfGas then gas else q.used := by
  intro o
  have hlimit := i.gasLimit_action amount gas
  by_cases hout : haltOf out = .outOfGas
  · have hisOut : f.isOut (i.action amount gas).gasLimit (.done o) = true := by
      have hstatus : o.status = .outOfGas := by
        simp only [o, hout]
        rfl
      simp [Frame.isOut, Ending.output, hstatus]
    have hstatus := (Frame.conclude_status_of_out bound hisOut).2
    simp only [hstatus, if_true, Frame.conclude_gasUsed_of_out bound hisOut]
    exact hlimit
  · have hf : f.Aligned gas q.used := by
      apply h
      rintro rfl
      exact hout rfl
    obtain ⟨hgas, hstatus⟩ := output_of_ne (s := settingOf cost i gas) hf.within hout
    have hwithin : f.meter.consumed.toNat ≤ (i.action amount gas).gasLimit.toNat := by
      rw [hlimit]
      exact Nat.le_trans hf.behind hf.within
    have hisOut : f.isOut (i.action amount gas).gasLimit (.done o) = false := by
      rw [← Bool.not_eq_true, Frame.isOut_done hwithin, hf.unmarked, hlimit]
      rintro (hmark | hstatus' | hover)
      · cases hmark
      · exact hstatus hstatus'
      · rw [hgas, UInt64.lt_iff_toNat_lt] at hover
        exact Nat.not_lt_of_le hf.within hover
    obtain ⟨hkept, hused⟩ := Frame.conclude_of_kept bound hisOut hstatus
    have hreported : f.reported o = q.used := (Frame.reported_of_account (hgas ▸ hf.behind)).trans hgas
    simp only [if_neg hkept, hused, hreported]

variable [World W]

theorem account_keepsStep (cost : Gas) (vm : Vm) (config : Config) (room : Nat) (i : Invocation) (code : Bytes)
    (gas : Gas) {f : Frame W} (hf : f.Aligned gas 0) :
    f.Throughout config (runFrame vm config room) (Session.Watched config (runFrame vm config room) gas)
      (Session.Settled gas) (account cost i code gas) := by
  have hpaired := paired_start (settingOf cost i gas) gas code (methodOf i)
  exact (hpaired _).keepsStep {} f hf

/-- How the program of a script ends when its run does. -/
def endingOf (cost : Gas) (i : Invocation) (gas : Gas) : Ending (Except Halt Unit × Progress) → Ending Output
  | .done (out, q) => .done (output (settingOf cost i gas) q (haltOf out))
  | .crash reason => .crash reason

theorem upshot_program {cost : Gas} {config : Config} {run : Runner W} {i : Invocation} {code : Bytes} {gas : Gas}
    {f g : Frame W} {ending : Ending (Except Halt Unit × Progress)}
    (h : Frame.upshot config run (account cost i code gas) f = (ending, g)) :
    Frame.upshot config run ((vm cost).program i code gas) f = (endingOf cost i gas ending, g) := by
  rw [program_account, Frame.upshot_bind, h]
  cases ending <;> rfl

/-- At the end the frame is reported to have used what the script's own account says. -/
theorem runEntered_tellsGas (cost : Gas) (config : Config) (room : Nat) (entered stack : CallStack) (s : Scope W)
    (i : Invocation) (amount : Amount) (gas : Gas) :
    let run := runFrame (vm cost) config room
    TellsGas gas (runEntered (vm cost) config run entered s stack i amount gas).record
      (Frame.upshot config run (account cost i s.own.code gas) (.start s entered gas)).1 := by
  intro run
  have hwatched := account_keepsStep cost (vm cost) config room i s.own.code gas (Frame.aligned_start s entered gas)
  have hsettled := hwatched.ends
  cases hend : Frame.upshot config run (account cost i s.own.code gas) (.start s entered gas) with
  | mk ending g =>
    rw [hend] at hsettled
    obtain ⟨passage, -, hrecord⟩ := runEntered_of_upshot (upshot_program hend) stack amount
    rw [hrecord]
    cases ending with
    | done result => exact tellsGas_conclude hsettled config.maxArgsLength.toNat amount
    | crash reason =>
      have hlimit := i.gasLimit_action amount gas
      have hwithin : g.meter.consumed.toNat ≤ (i.action amount gas).gasLimit.toNat := by
        rw [hlimit]
        exact hsettled
      exact (Frame.conclude_crash _ hwithin reason).2.trans hlimit

/-- The two accounts of a script are in step at every request, whatever the limit, the costs, the prices and the scope,
and at the end the frame is reported to have used what the script's own account says. -/
theorem accounts_inStep (cost : Gas) (config : Config) (room : Nat) (entered stack : CallStack) (s : Scope W)
    (i : Invocation) (amount : Amount) (gas : Gas) :
    let run := runFrame (vm cost) config room
    let outcome := runEntered (vm cost) config run entered s stack i amount gas
    Frame.Throughout config run (Session.Watched config run gas) (fun ending _ => TellsGas gas outcome.record ending)
      (account cost i s.own.code gas) (.start s entered gas) :=
  (account_keepsStep cost (vm cost) config room i s.own.code gas (Frame.aligned_start s entered gas)).ending
    (runEntered_tellsGas cost config room entered stack s i amount gas)

end Script

end ContractHost
