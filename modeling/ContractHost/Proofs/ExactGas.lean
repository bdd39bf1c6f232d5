import ContractHost.Proofs.NormalForms
import ContractHost.Proofs.ScriptExpenses
/-!
# Gas that is counted to the unit

Prices are held at the largest gas figure, the account of a script is held there as well, and the meter of the host adds
without holding. The three agree with the sum that is not held: what the frame of a script has used if it succeeds is its
own expenses, the full prices of its requests and the gas of its nested frames, as long as its limit is not the largest
figure itself (`Host.carryOut_exact`).

With that limit the account cannot pass it, and the script does not see that the sum has (`Host.scripts_inexact`).
-/
namespace ContractHost

open CallRecord (repliedGas totalGas)

/-! ## Prices -/

/-- The full price of a request that was met: by the byte of the key, of the value that was read, or of the name and the
arguments of the event, and of a transfer a flat one. The price of a nested frame is not its caller's. -/
def Exchange.price (prices : GasSchedule) (x : Exchange) : Nat :=
  match x.request with
  | .setStorage key _ => prices.writePerByte.toNat * (key.getD []).length
  | .removeStorage key => prices.removePerByte.toNat * (key.getD []).length
  | .getStorage _ | .readStorage _ _ => prices.readPerByte.toNat * x.reply.value.toBytes.length
  | .send _ _ => prices.transfer.toNat
  | .event name args =>
    prices.eventPerByte.toNat * ((name.getD []).length + (Arguments.unpack (args.getD [])).flatten.length)
  | _ => 0

theorem Exchange.price_of_nests {x : Exchange} (hx : x.request.nests = true) (prices : GasSchedule) :
    x.price prices = 0 := by
  rw [price]
  generalize x.request = r at hx
  cases r with
  | call | deploy => rfl
  | _ => cases hx

variable {W : Type} [World W]

namespace Frame

variable {config : Config} {run : Runner W} {f : Frame W} {r : Request} {c : Command} {m : Meter}

theorem answer_request (config : Config) (run : Runner W) (f : Frame W) (r : Request) :
    (f.answer config run r).1.request = r :=
  exchange_request f r _

theorem answer_read {contract : Address} {key : Bytes}
    (hcheck : r.check config.limits f.scope.own.contract = .ok (.readStorage contract key))
    (hm : f.meter.charge ((Command.readStorage contract key).price f.scope) = (.ok (), m)) :
    (f.answer config run r).1.reply.value = .bytes (f.scope.storage contract key) := by
  rw [answer_settled hcheck (perform_readStorage hm)]
  rfl

/-- The price of a command is the full price of its request, held at the largest figure. -/
theorem price_of_paid (run : Runner W) (hcheck : r.check config.limits f.scope.own.contract = .ok c)
    (hc : c.nesting = none) (hm : f.meter.charge (c.price f.scope) = (.ok (), m)) :
    c.price f.scope = Gas.saturate ((f.answer config run r).1.price f.scope.schedule) := by
  have hrequest := answer_request config run f r
  simp only [Exchange.price, hrequest]
  cases Request.check_reads hcheck with
  | setStorage hkey hvalue =>
    rw [(Input.requireBytes_ok hkey).1]
    rfl
  | removeStorage hkey =>
    rw [(Input.requireBytes_ok hkey).1]
    rfl
  | getStorage hkey =>
    simp only [answer_read hcheck hm]
    rfl
  | readStorage hcontract hkey =>
    simp only [answer_read hcheck hm]
    rfl
  | send hpayee hamount => exact (Gas.saturate_toNat _).symm
  | event hname hargs =>
    rw [(Input.text_ok hname).1, (Input.bytes_ok hargs).1]
    rfl
  | call | deploy => cases hc
  | _ => rfl

theorem answer_priced (run : Runner W) (hf : f.meter.Sound) (hr : r.nests = false)
    (hok : (f.answer config run r).1.reply.status = .ok) :
    (f.answer config run r).1.reply.gasUsed = Gas.saturate ((f.answer config run r).1.price f.scope.schedule) ∧
      (f.answer config run r).2.children = f.children := by
  cases hcheck : r.check config.limits f.scope.own.contract with
  | error e =>
    rw [answer_fault run hcheck] at hok
    exact absurd hok e.status_ne_ok
  | ok c =>
    have hc := (Request.check_reads hcheck).nesting_eq_none hr
    obtain ⟨m, hm⟩ := charge_of_answer_ok hf hcheck hok
    refine ⟨(gasUsed_of_paid run hf hcheck hc hm).trans (price_of_paid run hcheck hc hm), ?_⟩
    rw [answer_checked hcheck, exchange_children]
    exact (perform_alone config run f hc).2

theorem answer_nesting (vm : Vm) (config : Config) (room : Nat) (hf : f.meter.Sound) (hr : r.nests = true) :
    let out := f.answer config (runFrame vm config room) r
    ∃ ts, out.2.children = f.children ++ ts ∧ out.1.reply.gasUsed.toNat = totalGas ts := by
  intro out
  cases hcheck : r.check config.limits f.scope.own.contract with
  | error e =>
    have hout : out = f.exchange r (.error e, f) := answer_fault _ hcheck
    refine ⟨[], ?_, ?_⟩
    · rw [hout, exchange_children, List.append_nil]
    · rw [hout, exchange_gasUsed, Gas.minus_self]
      rfl
  | ok c =>
    obtain ⟨n, hn⟩ := (Request.check_reads hcheck).nests hr
    obtain ⟨t, hrecords, -⟩ := answer_nested vm config room hf hcheck hn
    exact ⟨[t], hrecords.children, congrArg UInt64.toNat hrecords.gasUsed⟩

/-! ## Runs of programs -/

/-- What the replies to a program have told is the full prices of its requests and the gas of its nested frames, if all
its requests without a nested frame were met. -/
theorem play_priced (vm : Vm) (config : Config) (room : Nat) (hf : f.meter.Sound) {α : Type} (p : Program α) :
    let out := play config (runFrame vm config room) p f
    (∀ x ∈ out.1, x.request.nests = false → x.reply.status = .ok) →
      ∃ ts, out.2.2.children = f.children ++ ts ∧
        Gas.saturate (repliedGas out.1) =
          Gas.saturate (sumOf (Exchange.price f.scope.schedule) out.1 + totalGas ts) := by
  induction p generalizing f with
  | done a => exact fun _ => ⟨[], (List.append_nil _).symm, rfl⟩
  | crash reason => exact fun _ => ⟨[], (List.append_nil _).symm, rfl⟩
  | ask r next ih =>
    intro out hmet
    let answered := f.answer config (runFrame vm config room) r
    let rest := play config (runFrame vm config room) (next answered.1.reply) answered.2
    have hrequest : answered.1.request = r := answer_request config _ f r
    have hsound : answered.2.meter.Sound := (answer_onward config (runFrame vm config room) hf r).sound
    have hschedule : answered.2.scope.schedule = f.scope.schedule := (answer_kin config _ f r).schedule
    obtain ⟨ts, hchildren, hrest⟩ := ih answered.1.reply hsound fun x hx => hmet x (List.mem_cons_of_mem _ hx)
    rw [hschedule] at hrest
    change Gas.saturate (repliedGas rest.1) =
      Gas.saturate (sumOf (Exchange.price f.scope.schedule) rest.1 + totalGas ts) at hrest
    show ∃ ts, rest.2.2.children = f.children ++ ts ∧
      Gas.saturate (answered.1.reply.gasUsed.toNat + repliedGas rest.1) =
        Gas.saturate (answered.1.price f.scope.schedule + sumOf (Exchange.price f.scope.schedule) rest.1 + totalGas ts)
    cases hr : r.nests with
    | false =>
      have hok : answered.1.reply.status = .ok := hmet answered.1 List.mem_cons_self (by rw [hrequest, hr])
      obtain ⟨hgas, hsame⟩ := answer_priced (runFrame vm config room) hf hr hok
      refine ⟨ts, hchildren.trans (by rw [hsame]), ?_⟩
      rw [hgas, Gas.saturate_add, Nat.add_assoc]
      exact Gas.saturate_congr hrest _
    | true =>
      obtain ⟨us, hnested, hgas⟩ := answer_nesting vm config room hf hr
      have hfree : answered.1.price f.scope.schedule = 0 := answered.1.price_of_nests (by rw [hrequest, hr]) _
      have hboth : totalGas (us ++ ts) = totalGas us + totalGas ts := sumOf_append _ us ts
      refine ⟨us ++ ts, ?_, ?_⟩
      · rw [hchildren, hnested, List.append_assoc]
      · rw [hgas, hfree, Nat.zero_add, hboth, Nat.add_left_comm]
        exact Gas.saturate_congr hrest _

theorem play_bind_done {α β : Type} (p : Program α) (g : α → β) (f : Frame W) :
    (play config run (p.bind fun a => .done (g a)) f).1 = (play config run p f).1 := by
  induction p generalizing f with
  | done a => rfl
  | crash reason => rfl
  | ask r next ih => exact congrArg _ (ih _ _)

end Frame

/-! ## Frames of scripts -/

namespace CallRecord

/-- What the frame of a script has spent, with nothing held at the largest figure: the costs of the lines that it has
stepped through and what its instructions spend, the full prices of its requests, and the gas of its nested frames. -/
def expenses (cost : Gas) (prices : GasSchedule) (t : CallRecord) : Nat :=
  match t.label.passage with
  | some p =>
    Script.ownExpenses cost (Script.linesOf p.code (Script.methodOf p.invocation)) +
      sumOf (Exchange.price prices) p.exchanges + totalGas t.children
  | none => 0

/-- A frame that has used what it has spent if it has succeeded. -/
def Exact (cost : Gas) (prices : GasSchedule) (t : CallRecord) : Prop :=
  t.success = true → t.gasUsed = Gas.saturate (t.expenses cost prices)

/-- A call tree whose frames have all used what they have spent if they have succeeded. -/
def AllExact (cost : Gas) (prices : GasSchedule) (t : CallRecord) : Prop :=
  ∀ u ∈ t.subtrees, Exact cost prices u

theorem allExact_refused (cost : Gas) (prices : GasSchedule) (bound : Nat) (action : Action) (why : Refusal) :
    (refused bound action why).AllExact cost prices := by
  refine Tree.forall_subtrees_iff.mpr ⟨?_, fun _ ht => absurd ht List.not_mem_nil⟩
  intro hsuccess
  cases hsuccess

end CallRecord

namespace Script

theorem play_program (cost : Gas) (config : Config) (run : Runner W) (i : Invocation) (code : Bytes) (gas : Gas)
    (f : Frame W) :
    let played := Frame.play config run (account cost i code gas) f
    Frame.play config run ((vm cost).program i code gas) f = (played.1, endingOf cost i gas played.2.1, played.2.2) := by
  refine Prod.ext ?_ (upshot_program rfl)
  rw [program_account]
  exact Frame.play_bind_done _ _ f

theorem record_runEntered {vm : Vm} {config : Config} {run : Runner W} {entered : CallStack} {s : Scope W}
    {i : Invocation} {gas : Gas} {xs : List Exchange} {ending : Ending Output} {g : Frame W}
    (h : Frame.play config run (vm.program i s.own.code gas) (.start s entered gas) = (xs, ending, g))
    (stack : CallStack) (amount : Amount) :
    (runEntered vm config run entered s stack i amount gas).record =
      let concluded := g.conclude config.maxArgsLength.toNat (i.action amount gas) ending
      let passage : Passage :=
        { contract := s.own.contract, caller := s.own.caller, invocation := i, code := s.own.code, exchanges := xs,
          ending }
      .node { result := concluded.1, status := concluded.2, passage := some passage } g.children := by
  simp only [runEntered, h]

/-- The frame of a script that has succeeded has used what it has spent. -/
theorem runEntered_exact (cost : Gas) (config : Config) (room : Nat) (entered stack : CallStack) (s : Scope W)
    (i : Invocation) (amount : Amount) (gas : Gas) :
    (runEntered (vm cost) config (runFrame (vm cost) config room) entered s stack i amount gas).record.Exact cost
      s.schedule := by
  intro hsuccess
  let run : Runner W := runFrame (vm cost) config room
  let start : Frame W := .start s entered gas
  let p := account cost i s.own.code gas
  let played := Frame.play config run p start
  have hsound : start.meter.Sound := Meter.sound_ofLimit gas
  have hcourse : p.Course played.1 played.2.1 := Frame.play_course config run p start
  have hpriced : (∀ x ∈ played.1, x.request.nests = false → x.reply.status = .ok) →
      ∃ ts, played.2.2.children = [] ++ ts ∧ Gas.saturate (repliedGas played.1) =
        Gas.saturate (sumOf (Exchange.price s.schedule) played.1 + totalGas ts) :=
    Frame.play_priced (vm cost) config room hsound p
  have hprogram : Frame.play config run ((vm cost).program i s.own.code gas) start =
      (played.1, endingOf cost i gas played.2.1, played.2.2) := play_program cost config run i s.own.code gas start
  have htells : TellsGas gas _ played.2.1 := runEntered_tellsGas cost config room entered stack s i amount gas
  clear_value played
  obtain ⟨xs, ending, g⟩ := played
  rw [record_runEntered hprogram stack amount] at hsuccess htells ⊢
  obtain ⟨-, hok⟩ := Frame.conclude_success hsuccess
  cases ending with
  | crash reason => cases hok
  | done last =>
    obtain ⟨out, q⟩ := last
    obtain ⟨hused, hmet⟩ := account_spent cost i s.own.code gas hcourse (proceeds_of_status hok)
    obtain ⟨ts, rfl, hreplied⟩ := hpriced hmet
    have hstatus := Frame.conclude_status_of_success hsuccess
    rw [TellsGas, Tree.label, if_neg (by rw [hstatus]; exact Status.noConfusion)] at htells
    rw [htells, hused]
    show Gas.saturate (0 + ownExpenses cost _ + repliedGas xs) =
      Gas.saturate (ownExpenses cost _ + sumOf (Exchange.price s.schedule) xs + totalGas _)
    rw [Nat.zero_add, Nat.add_assoc]
    exact Gas.saturate_congr hreplied _

end Script

/-! ## Frames below frames -/

theorem Frame.play_exact {config : Config} {run : Runner W} {cost : Gas} {α : Type}
    (hrun : ∀ s stack i amount gas, s.schedule = config.gas →
      (run s stack i amount gas).record.AllExact cost config.gas)
    (p : Program α) {f : Frame W} (hf : f.scope.schedule = config.gas)
    (hbelow : ∀ t ∈ f.children, t.AllExact cost config.gas) :
    ∀ t ∈ (play config run p f).2.2.children, t.AllExact cost config.gas := by
  refine (play_induct (P := fun _ g => g.scope.schedule = config.gas ∧ ∀ t ∈ g.children, t.AllExact cost config.gas)
    ?_ ?_ p [] f ⟨hf, hbelow⟩).2
  · rintro xs g r e ⟨hg, hchildren⟩ -
    rw [exchange_scope, exchange_children]
    exact ⟨hg, hchildren⟩
  · rintro xs g r c out ⟨hg, hchildren⟩ - hmove
    rw [exchange_scope, exchange_children]
    refine ⟨hmove.kin.schedule.trans hg, ?_⟩
    cases hmove with
    | done v hc hfunds => exact hchildren
    | failed e hc => exact hchildren
    | refused n why hc =>
      rw [record_children, List.forall_mem_append, List.forall_mem_singleton]
      exact ⟨hchildren, CallRecord.allExact_refused _ _ _ _ why⟩
    | ran n s hc hs =>
      rw [record_children, List.forall_mem_append, List.forall_mem_singleton]
      exact ⟨hchildren, hrun s g.stack n.invocation n.amount _ (hs.kin.schedule.trans hg)⟩

theorem Script.runFrame_exact (cost : Gas) (config : Config) (room : Nat) (s : Scope W) (stack : CallStack)
    (i : Invocation) (amount : Amount) (gas : Gas) (hs : s.schedule = config.gas) :
    (runFrame (vm cost) config room s stack i amount gas).record.AllExact cost config.gas := by
  induction room generalizing s stack i amount gas with
  | zero => exact CallRecord.allExact_refused _ _ _ _ _
  | succ room ih =>
    simp only [runFrame]
    cases stack.enter s.own.contract s.own.caller amount with
    | error e => exact CallRecord.allExact_refused _ _ _ _ _
    | ok entered =>
      refine Tree.forall_subtrees_iff.mpr ⟨?_, ?_⟩
      · rw [← hs]
        exact runEntered_exact cost config room entered stack s i amount gas
      · exact Frame.play_exact ih _ (f := .start s entered gas) hs fun _ ht => absurd ht List.not_mem_nil

/-! ## Orders -/

namespace Host

theorem carryOut_spent {cost : Gas} {config : Config} {store : Store} {order : Order} {t : CallRecord}
    (ht : ((⟨Script.vm cost, config⟩ : Host).carryOut store order).record = some t) :
    t.AllGasSound ∧ t.AllExact cost config.gas := by
  obtain ⟨-, ⟨why, rfl⟩ | ⟨s, hs, rfl⟩⟩ := carryOut_record ht
  · exact ⟨CallRecord.allGasSound_refused _ _ why, CallRecord.allExact_refused _ _ _ _ why⟩
  · exact ⟨(runFrame_keepsGas _ config _ s _ _ _ _).2, Script.runFrame_exact cost config _ s _ _ _ _ hs.schedule⟩

/-- Whatever the scripts, the prices, the cost of an instruction and the gas limits, every frame that has succeeded has
used what it has spent, held at the largest figure. If its limit is below that figure, then nothing was held, and what the
frame has spent is within the limit. -/
theorem carryOut_exact (cost : Gas) (config : Config) (store : Store) (order : Order) (t : CallRecord)
    (ht : ((⟨Script.vm cost, config⟩ : Host).carryOut store order).record = some t) :
    ∀ u : CallRecord, u ∈ t.subtrees → u.success = true →
      u.gasUsed = Gas.saturate (u.expenses cost config.gas) ∧
        (u.gasLimit.toNat < Gas.most →
          u.gasUsed.toNat = u.expenses cost config.gas ∧ u.expenses cost config.gas ≤ u.gasLimit.toNat) := by
  intro u hu hok
  obtain ⟨hsound, hexact⟩ := carryOut_spent ht
  refine ⟨hexact u hu hok, fun hlimit => ?_⟩
  have hused := (hsound u hu).used
  have hheld := congrArg UInt64.toNat (hexact u hu hok)
  rw [Gas.toNat_saturate] at hheld
  split at hheld <;> omega

/-- The script that calls itself uses seven units, three of them below: one for each line, and one for the key that is
stored. -/
theorem scripts_exact :
    ∃ t, (scripts.carryOut { ledger := .offering } (.execute .atZero)).record = some t ∧
      t.success = true ∧ t.gasUsed.toNat = 7 ∧ totalGas t.children = 3 ∧ t.expenses 1 {} = 7 := by
  have hran : (scripts.carryOut { ledger := .offering } (.execute .atZero)).record.any (fun t =>
      decide (t.success = true ∧ t.gasLimit.toNat < Gas.most ∧ t.gasUsed.toNat = 7 ∧ totalGas t.children = 3)) =
        true := by
    decide +kernel
  obtain ⟨t, ht, hdecided⟩ := (Option.any_eq_true _ _).mp hran
  obtain ⟨hok, hlimit, hused, hbelow⟩ := of_decide_eq_true hdecided
  obtain ⟨-, hexact⟩ := carryOut_exact 1 {} { ledger := .offering } (.execute .atZero) t ht t t.self_mem_subtrees hok
  exact ⟨t, ht, hok, hused, hbelow, (hexact hlimit).1.symm.trans hused⟩

end Host

/-- A ledger with a script that spends the largest gas figure and returns. -/
def Ledger.lavish : Ledger :=
  { accounts := OrderedMap.empty.insert .zero
      { code := some (Bytes.ofText "fn run\n gas 18446744073709551615\n return ok") } }

/-- The largest figure as a limit is passed by two lines that cost something on top of it. The frame succeeds all the
same. -/
theorem Host.scripts_inexact :
    ∃ t, (scripts.carryOut { ledger := .lavish } (Order.withGas 18446744073709551615 (.execute .atZero))).record =
        some t ∧
      t.success = true ∧ t.gasUsed = t.gasLimit ∧ t.gasLimit.toNat = Gas.most ∧ t.expenses 1 {} = Gas.most + 2 := by
  have hran : (scripts.carryOut { ledger := .lavish }
      (Order.withGas 18446744073709551615 (.execute .atZero))).record.any (fun t =>
        decide (t.success = true ∧ t.gasUsed = t.gasLimit ∧ t.gasLimit.toNat = Gas.most ∧
          t.expenses 1 {} = Gas.most + 2)) = true := by decide +kernel
  obtain ⟨t, ht, hspent⟩ := (Option.any_eq_true _ _).mp hran
  exact ⟨t, ht, of_decide_eq_true hspent⟩

end ContractHost
