import ContractHost.Proofs.Nesting
import ContractHost.Proofs.ResultCodec
import ContractHost.Script
/-!
# Results that can be read back

What is reported about a call tree can be read back from its bytes, and what a program is told about its nested frames
are the bytes of their results. This holds if the price of the gas limit fits 32 bytes and the call stack is not deeper
than records may be nested; without these bounds it fails.
-/
namespace ContractHost

variable {W : Type}

/-! ## Amounts and replies -/

theorem Input.amount_fits {limits : InputLimits} {input : Option Bytes} {n : Amount}
    (h : Input.amount limits input = .ok n) : n.Fits := by
  obtain ⟨b, -, hread⟩ := bind_ok h
  exact Amount.fits_of_ofBytes (mapError_ok hread)

theorem Request.Reads.nesting_fits {limits : InputLimits} {self : Address} {r : Request} {c : Command}
    (h : r.Reads limits self c) {n : Command.Nesting} (hn : c.nesting = some n) : n.amount.Fits := by
  cases h with
  | call htarget hmethod hargs hamount hgas hcontext =>
    cases hn
    exact Input.amount_fits hamount
  | deploy hcode hargs hnonce hamount hgas =>
    cases hn
    exact Input.amount_fits hamount
  | _ => cases hn

/-- The values that a program was told about nested frames. -/
def Exchange.nestedValues (xs : List Exchange) : List Value :=
  (xs.filter Exchange.nested).map fun x => x.reply.value

namespace CallRecord

/-- What is reported about a frame under a price of gas: its amount fits 32 bytes, no more gas is left than there was,
and its program was told the bytes of the results of its nested frames. -/
structure Reported (price : Amount) (t : CallRecord) : Prop where
  amount : t.label.result.action.amount.Fits
  remaining : t.label.result.remaining ≤ price * t.gasLimit.toNat
  told : ∀ p, t.label.passage = some p →
    Exchange.nestedValues p.exchanges = t.children.map fun c : CallRecord => .bytes (some c.result.toBytes)

def AllReported (price : Amount) (t : CallRecord) : Prop :=
  ∀ u ∈ t.subtrees, Reported price u

theorem allReported_refused {price : Amount} {bound : Nat} {action : Action} {why : Refusal} (h : action.amount.Fits) :
    (refused bound action why).AllReported price := by
  refine Tree.forall_subtrees_iff.mpr ⟨?_, ?_⟩
  · refine ⟨h, Nat.zero_le _, ?_⟩
    intro p hp
    cases hp
  · intro c hc
    cases hc

end CallRecord

open CallRecord (AllReported)

theorem Invocation.amount_action (i : Invocation) (amount : Amount) (gas : Gas) : (i.action amount gas).amount = amount := by
  cases i <;> rfl

/-- A frame that got an amount which fits, in a scope with a price of gas. -/
def FrameOutcome.Reported (s : Scope W) (amount : Amount) (outcome : FrameOutcome W) : Prop :=
  amount.Fits → outcome.record.AllReported s.chain.minFeePerGas

namespace Frame

/-- What holds of the children of a frame after any number of exchanges. -/
structure Telling (s : Scope W) (xs : List Exchange) (f : Frame W) : Prop where
  store : f.scope.store = s.store
  told : Exchange.nestedValues xs = f.children.map fun c : CallRecord => .bytes (some c.result.toBytes)
  below : ∀ t ∈ f.children, AllReported s.chain.minFeePerGas t

variable {s : Scope W} {xs : List Exchange} {f g : Frame W}

theorem nestedValues_concat (xs : List Exchange) (x : Exchange) :
    Exchange.nestedValues (xs ++ [x]) = Exchange.nestedValues xs ++ if x.nested then [x.reply.value] else [] := by
  simp only [Exchange.nestedValues, List.filter_append, List.map_append]
  cases hx : x.nested <;> simp [hx]

theorem Telling.same (h : f.Telling s xs) {x : Exchange} (hx : x.nested = false) (hstore : g.scope.store = f.scope.store)
    (hchildren : g.children = f.children) : g.Telling s (xs ++ [x]) where
  store := hstore.trans h.store
  told := by
    rw [nestedValues_concat, hx, hchildren, h.told]
    simp
  below := by
    rw [hchildren]
    exact h.below

theorem Telling.nest (h : f.Telling s xs) {t : CallRecord} (ht : t.AllReported s.chain.minFeePerGas) {x : Exchange}
    (hx : x.nested = true) (hvalue : x.reply.value = .bytes (some t.result.toBytes))
    (hstore : g.scope.store = f.scope.store) (hchildren : g.children = f.children ++ [t]) :
    g.Telling s (xs ++ [x]) where
  store := hstore.trans h.store
  told := by
    rw [nestedValues_concat, hx, hvalue, hchildren, List.map_append, h.told]
    rfl
  below := by
    intro u hu
    rw [hchildren, List.mem_append, List.mem_singleton] at hu
    rcases hu with hu | rfl
    · exact h.below u hu
    · exact ht

theorem Telling.record (h : f.Telling s xs) (hsound : f.meter.Sound) {t : CallRecord} {n : Command.Nesting}
    (ht : t.AllReported s.chain.minFeePerGas) (hle : t.gasUsed.toNat ≤ min n.gas.toNat f.meter.remaining.toNat)
    (hmeter : g.meter = f.meter) (hchildren : g.children = f.children) (hstore : g.scope.store = f.scope.store)
    (r : Request) : (f.exchange r (g.record t)).2.Telling s (xs ++ [(f.exchange r (g.record t)).1]) := by
  obtain ⟨hpaid, hrecords⟩ := records_of_le hmeter hchildren hsound hle r
  have hx : (f.exchange r (g.record t)).1.nested = true := by
    generalize g.record t = out at hpaid
    obtain ⟨settled, after⟩ := out
    cases hpaid
    rfl
  apply h.nest ht hx hrecords.value
  · rw [exchange_scope, record_scope, hstore]
  · exact hrecords.children

theorem conclude_remaining (f : Frame W) (bound : Nat) (action : Action) (ending : Ending Output) :
    (f.conclude bound action ending).1.remaining ≤ f.scope.chain.minFeePerGas * action.gasLimit.toNat := by
  apply Nat.mul_le_mul_left
  rw [Gas.toNat_minus]
  exact Nat.sub_le _ _

end Frame

variable [World W]

/-! ## Depth -/

namespace Frame

variable {config : Config} {run : Runner W} {f : Frame W}

theorem Move.children {n : Nat} (hrun : ∀ s stack i amount gas, (run s stack i amount gas).record.height ≤ n + 1)
    {c : Command} {out : Except HostError Settled × Frame W} (h : f.Move config run c out)
    (hf : Tree.heightAll f.children ≤ n + 1) : Tree.heightAll out.2.children ≤ n + 1 := by
  rw [Tree.heightAll_le_iff] at hf ⊢
  have hconcat : ∀ t : CallRecord, t.height ≤ n + 1 → ∀ u ∈ f.children ++ [t], u.height ≤ n + 1 := by
    intro t ht u hu
    rcases List.mem_append.mp hu with hu | hu
    · exact hf u hu
    · rw [List.mem_singleton.mp hu]
      exact ht
  cases h with
  | done v hc hfunds => exact hf
  | failed e hc => exact hf
  | refused m why hc =>
    rw [record_children]
    exact hconcat _ (Nat.le_add_left 1 n)
  | ran m s hc hs =>
    rw [record_children]
    exact hconcat _ (hrun s f.stack _ _ _)

end Frame

/-- The record of a frame with room below it is not higher than the room, with the frame itself. -/
theorem runFrame_height (vm : Vm) (config : Config) (room : Nat) (s : Scope W) (stack : CallStack) (i : Invocation)
    (amount : Amount) (gas : Gas) : (runFrame vm config room s stack i amount gas).record.height ≤ room + 1 := by
  induction room generalizing s stack i amount gas with
  | zero => exact Nat.le_refl 1
  | succ room ih =>
    simp only [runFrame]
    cases stack.enter s.own.contract s.own.caller amount with
    | error e => exact Nat.le_add_left 1 (room + 1)
    | ok entered =>
      let played := Frame.play config (runFrame vm config room) (vm.program i s.own.code gas) (.start s entered gas)
      have hplay : Tree.heightAll played.2.2.children ≤ room + 1 := by
        refine Frame.play_induct (P := fun _ f => Tree.heightAll f.children ≤ room + 1) ?_ ?_ (vm.program i s.own.code gas)
          [] (.start s entered gas) (Nat.zero_le _)
        · intro _ f r e hf _
          rw [Frame.exchange_children]
          exact hf
        · intro _ f r c out hf _ hmove
          rw [Frame.exchange_children]
          exact hmove.children ih hf
      show 1 + Tree.heightAll played.2.2.children ≤ room + 1 + 1
      omega

/-! ## Call trees -/

namespace Frame

variable {config : Config} {run : Runner W} {s : Scope W} {xs : List Exchange} {f g : Frame W}

theorem Telling.move (hgas : ∀ s stack i amount gas, (run s stack i amount gas).KeepsGas gas)
    (hrun : ∀ s stack i amount gas, (run s stack i amount gas).Reported s amount) (h : f.Telling s xs)
    (hsound : f.meter.Sound) {r : Request} {c : Command} {out : Except HostError Settled × Frame W}
    (hcheck : r.check config.limits f.scope.own.contract = .ok c) (hmove : f.Move config run c out) :
    (f.exchange r out).2.Telling s (xs ++ [(f.exchange r out).1]) := by
  cases hmove with
  | done v hc hfunds => exact h.same rfl (Scope.kin_writeAll _ _).store rfl
  | failed e hc => exact h.same rfl rfl rfl
  | refused n why hc =>
    let limit := Gas.least n.gas f.meter.remaining
    let t := CallRecord.refused config.maxArgsLength.toNat (n.invocation.action n.amount limit) why
    have hfits : (n.invocation.action n.amount limit).amount.Fits := by
      rw [Invocation.amount_action]
      exact (Request.check_reads hcheck).nesting_fits hc
    have hle : t.gasUsed.toNat ≤ min n.gas.toNat f.meter.remaining.toNat :=
      f.used_le_limit n (Invocation.gasLimit_action _ _ _) (CallRecord.allGasSound_refused _ _ why)
    exact h.record hsound (CallRecord.allReported_refused hfits) hle rfl rfl rfl r
  | ran n t hc hs =>
    let limit := Gas.least n.gas f.meter.remaining
    let outcome := run t f.stack n.invocation n.amount limit
    have hfits := (Request.check_reads hcheck).nesting_fits hc
    have hstore : t.store = s.store := hs.kin.store.trans h.store
    have hreported : outcome.record.AllReported s.chain.minFeePerGas := by
      have hbelow := hrun t f.stack n.invocation n.amount limit hfits
      rw [Scope.chain, hstore] at hbelow
      exact hbelow
    obtain ⟨hlimit, hkept⟩ := hgas t f.stack n.invocation n.amount limit
    have hle := f.used_le_limit n hlimit hkept
    have hresume : (f.resume outcome).scope.store = f.scope.store := by
      simp only [resume]
      split <;> rfl
    exact h.record (g := f.resume outcome) hsound hreported hle rfl rfl hresume r

theorem play_telling (hgas : ∀ s stack i amount gas, (run s stack i amount gas).KeepsGas gas)
    (hrun : ∀ s stack i amount gas, (run s stack i amount gas).Reported s amount) {α : Type} (p : Program α)
    (h : f.Telling s []) (hsound : f.meter.Sound) :
    (play config run p f).2.2.Telling s (play config run p f).1 := by
  have hboth : (play config run p f).2.2.Telling s (play config run p f).1 ∧ (play config run p f).2.2.meter.Sound := by
    refine play_induct (P := fun xs f => f.Telling s xs ∧ f.meter.Sound) ?_ ?_ p [] f ⟨h, hsound⟩
    · intro xs f r e hf _
      obtain ⟨b, hb⟩ := exchange_frame f r (.error e, f)
      rw [hb]
      exact ⟨hf.1.same rfl rfl rfl, hf.2⟩
    · intro xs f r c out hf hcheck hmove
      refine ⟨hf.1.move hgas hrun hf.2 hcheck hmove, ?_⟩
      rw [exchange_meter]
      exact (hmove.meter hf.2).sound
  exact hboth.1

end Frame

theorem runEntered_reported {vm : Vm} {config : Config} {run : Runner W}
    (hgas : ∀ s stack i amount gas, (run s stack i amount gas).KeepsGas gas)
    (hrun : ∀ s stack i amount gas, (run s stack i amount gas).Reported s amount) (entered : CallStack) (s : Scope W)
    (stack : CallStack) (i : Invocation) (amount : Amount) (gas : Gas) :
    (runEntered vm config run entered s stack i amount gas).Reported s amount := by
  intro hamount
  let played := Frame.play config run (vm.program i s.own.code gas) (.start s entered gas)
  have hstart : (Frame.start s entered gas).Telling s [] := by
    refine ⟨rfl, rfl, ?_⟩
    intro t ht
    cases ht
  have hplay : played.2.2.Telling s played.1 :=
    Frame.play_telling hgas hrun _ hstart (Meter.sound_ofLimit gas)
  refine Tree.forall_subtrees_iff.mpr ⟨?_, ?_⟩
  · constructor
    · show (i.action amount gas).amount.Fits
      rw [Invocation.amount_action]
      exact hamount
    · have hchain : played.2.2.scope.chain = s.chain := congrArg (fun store => store.ledger.chain) hplay.store
      rw [← hchain]
      exact played.2.2.conclude_remaining _ _ _
    · intro p hp
      cases hp
      exact hplay.told
  · exact hplay.below

theorem runFrame_reported (vm : Vm) (config : Config) (room : Nat) (s : Scope W) (stack : CallStack) (i : Invocation)
    (amount : Amount) (gas : Gas) : (runFrame vm config room s stack i amount gas).Reported s amount := by
  induction room generalizing s stack i amount gas with
  | zero =>
    intro hamount
    apply CallRecord.allReported_refused
    rw [Invocation.amount_action]
    exact hamount
  | succ room ih =>
    simp only [runFrame]
    cases stack.enter s.own.contract s.own.caller amount with
    | error e =>
      intro hamount
      apply CallRecord.allReported_refused
      rw [Invocation.amount_action]
      exact hamount
    | ok entered => exact runEntered_reported (runFrame_keepsGas vm config room) ih entered s stack i amount gas

/-! ## Reading results back -/

namespace CallRecord

mutual

theorem AllGasSound.gasLimit_le (t : CallRecord) (h : t.AllGasSound) {u : CallRecord} (hu : u ∈ t.subtrees) :
    u.gasLimit.toNat ≤ t.gasLimit.toNat := by
  match t with
  | .node r below =>
    rw [Tree.subtrees] at hu
    rcases List.mem_cons.mp hu with rfl | hbelow
    · exact Nat.le_refl _
    · have hsound : ∀ c ∈ below, AllGasSound c := by
        intro c hc v hv
        exact h v (List.mem_cons_of_mem _ (Tree.mem_subtreesAll.mpr ⟨c, hc, hv⟩))
      have hgranted : ∀ c ∈ below, (gasLimit c).toNat ≤ (gasLimit (.node r below)).toNat := by
        intro c hc
        obtain ⟨earlier, later, hsplit⟩ := List.append_of_mem hc
        have hle := (h _ (Tree.self_mem_subtrees _)).granted earlier c later hsplit
        omega
      exact gasLimit_le_all below hsound hgranted hbelow

theorem gasLimit_le_all (ts : List CallRecord) (h : ∀ t ∈ ts, t.AllGasSound) {limit : Nat}
    (hlimit : ∀ t ∈ ts, t.gasLimit.toNat ≤ limit) {u : CallRecord} (hu : u ∈ Tree.subtreesAll ts) :
    u.gasLimit.toNat ≤ limit := by
  match ts with
  | [] => cases hu
  | t :: ts =>
    rw [Tree.subtreesAll] at hu
    rcases List.mem_append.mp hu with hfirst | hrest
    · have hle := AllGasSound.gasLimit_le t (h t List.mem_cons_self) hfirst
      exact Nat.le_trans hle (hlimit t List.mem_cons_self)
    · have hsound := fun c hc => h c (List.mem_cons_of_mem _ hc)
      have hbelow := fun c hc => hlimit c (List.mem_cons_of_mem _ hc)
      exact gasLimit_le_all ts hsound hbelow hrest

end

variable {price : Amount} {t u : CallRecord}

theorem AllReported.fits (h : t.AllReported price) (hgas : t.AllGasSound)
    (hprice : Amount.Fits (price * t.gasLimit.toNat)) : t.result.Fits := by
  intro v hv
  rw [result, Tree.subtrees_map] at hv
  obtain ⟨w, hw, rfl⟩ := List.mem_map.mp hv
  have hle : price * (gasLimit w).toNat ≤ price * t.gasLimit.toNat :=
    Nat.mul_le_mul_left _ (AllGasSound.gasLimit_le t hgas hw)
  rw [Tree.label_map]
  exact ⟨(h w hw).amount, Nat.lt_of_le_of_lt (Nat.le_trans (h w hw).remaining hle) hprice⟩

/-- The result of every frame in a call tree is read back from its bytes. -/
theorem AllReported.ofBytes (h : t.AllReported price) (hgas : t.AllGasSound)
    (hprice : Amount.Fits (price * t.gasLimit.toNat)) (hheight : t.height ≤ Wire.maxDepth) (hu : u ∈ t.subtrees)
    (hsize : u.result.toBytes.length < 2 ^ 64) : ResultTree.ofBytes u.result.toBytes = .ok u.result := by
  have hfits := h.fits hgas hprice
  have hsub : u.result ∈ t.result.subtrees := by
    rw [result, result, Tree.subtrees_map]
    exact List.mem_map_of_mem hu
  apply ResultTree.ofBytes_toBytes
  · rw [result, Tree.height_map]
    exact Nat.le_trans (Tree.height_le_of_mem hu) hheight
  · intro v hv
    exact hfits v (Tree.subtrees_subset hsub hv)
  · exact hsize

/-- What can be read back of a frame: its result, and the results of its nested frames from what its program was told. -/
structure Readable (t : CallRecord) : Prop where
  result : t.result.toBytes.length < 2 ^ 64 → ResultTree.ofBytes t.result.toBytes = .ok t.result
  told : ∀ p, t.label.passage = some p →
    Exchange.nestedValues p.exchanges = t.children.map fun c : CallRecord => .bytes (some c.result.toBytes)

theorem AllReported.readable (h : t.AllReported price) (hgas : t.AllGasSound)
    (hprice : Amount.Fits (price * t.gasLimit.toNat)) (hheight : t.height ≤ Wire.maxDepth) (hu : u ∈ t.subtrees) :
    u.Readable :=
  ⟨h.ofBytes hgas hprice hheight hu, (h u hu).told⟩

end CallRecord

theorem runFrame_readable (vm : Vm) (config : Config) {room : Nat} (s : Scope W) (stack : CallStack) (i : Invocation)
    {amount : Amount} {gas : Gas} (hroom : room < Wire.maxDepth) (hamount : amount.Fits)
    (hprice : Amount.Fits (s.chain.minFeePerGas * gas.toNat)) :
    ∀ u ∈ (runFrame vm config room s stack i amount gas).record.subtrees, CallRecord.Readable u := by
  have hheight := runFrame_height vm config room s stack i amount gas
  have hreported := runFrame_reported vm config room s stack i amount gas hamount
  obtain ⟨hlimit, hgas⟩ := runFrame_keepsGas vm config room s stack i amount gas
  rw [← hlimit] at hprice
  intro u hu
  exact hreported.readable hgas hprice (Nat.le_trans hheight hroom) hu

theorem Order.Entry.schedule {config : Config} {store : Store} {world : W} {order : Order} {s : Scope W}
    (h : Order.Entry config store world order s) : s.schedule = config.gas := by
  cases h with
  | execute o b code s hcode hmethod hs => exact (Scope.receive_kin hs).schedule
  | deploy o s hcode hs => exact (Scope.receive_kin hs).schedule

namespace Host

theorem outermost_readable {h : Host} {store : Store} {world : W} {order : Order} {s : Scope W}
    (hs : Order.Entry h.config store world order s) (hdepth : h.config.maxCallDepth.toNat < Wire.maxDepth)
    (hamount : order.amount.Fits)
    (hprice : Amount.Fits (store.ledger.chain.minFeePerGas * order.gasLimit.toNat)) :
    ∀ u ∈ (h.outermost order s).record.subtrees, CallRecord.Readable u := by
  rw [← hs.store] at hprice
  exact runFrame_readable h.vm h.config s h.stack order.invocation hdepth hamount hprice

/-- The reported result of an order is read back from its bytes, and so are the bytes that programs are told about their
nested frames, if the call stack is not too deep and if the amount and the price of the gas limit fit 32 bytes. -/
theorem carryOut_readable (h : Host) (store : Store) (order : Order)
    (hdepth : h.config.maxCallDepth.toNat < Wire.maxDepth) (hamount : order.amount.Fits)
    (hprice : Amount.Fits (store.ledger.chain.minFeePerGas * order.gasLimit.toNat)) :
    match (h.carryOut store order).answer with
    | .error _ => True
    | .ok outcome =>
      (outcome.resultBytes.length < 2 ^ 64 → ResultTree.ofBytes outcome.resultBytes = .ok outcome.result) ∧
      ∃ record, (h.carryOut store order).record = some record ∧ outcome.result = record.result ∧
        ∀ u ∈ record.subtrees, CallRecord.Readable u := by
  have hran : ∀ s : Scope Ledger, Order.Entry h.config store store.ledger order s →
      ∀ u ∈ (h.outermost order s).record.subtrees, CallRecord.Readable u :=
    fun s hs => outermost_readable hs hdepth hamount hprice
  have hend := h.carryOut_end store order
  generalize h.carryOut store order = c at hend ⊢
  cases hend with
  | barred e hcheck => trivial
  | rejected s reason hcheck hs hok hstore => trivial
  | refused why hcheck hscope =>
    let action := order.invocation.action order.amount order.gasLimit
    let t := CallRecord.refused h.config.maxArgsLength.toNat action why
    have hfits : action.amount.Fits := by
      rw [Invocation.amount_action]
      exact hamount
    have hlimit : t.gasLimit = order.gasLimit := order.invocation.gasLimit_action order.amount order.gasLimit
    rw [← hlimit] at hprice
    have hheight : t.height ≤ Wire.maxDepth := by
      show 1 ≤ 100
      decide
    have hreadable : ∀ u ∈ t.subtrees, CallRecord.Readable u := fun u hu =>
      (CallRecord.allReported_refused hfits).readable (CallRecord.allGasSound_refused _ _ why) hprice hheight hu
    exact ⟨(hreadable t t.self_mem_subtrees).result, t, rfl, rfl, hreadable⟩
  | failed s hcheck hs hfail =>
    have hreadable := hran s hs
    exact ⟨(hreadable _ (Tree.self_mem_subtrees _)).result, _, rfl, rfl, hreadable⟩
  | committed s hcheck hs hok hstore =>
    have hreadable := hran s hs
    exact ⟨(hreadable _ (Tree.self_mem_subtrees _)).result, _, rfl, rfl, hreadable⟩

def scripts : Host :=
  { vm := Script.vm 1, config := {} }

end Host

/-- A ledger with a price of gas and a script that returns at once. -/
def Ledger.returning (price : Amount) : Ledger :=
  { chain := { minFeePerGas := price }
    accounts := OrderedMap.empty.insert .zero { code := some (Bytes.ofText "fn run\n return ok") } }

def ExecuteOrder.atZero : ExecuteOrder :=
  { contract := .zero, caller := .zero, method := "run", gasLimit := 1000 }

namespace Host

theorem scripts_readable :
    match (scripts.carryOut { ledger := .returning 1 } (.execute .atZero)).answer with
    | .error _ => False
    | .ok outcome => ResultTree.ofBytes outcome.resultBytes = .ok outcome.result := by
  have hreadable := scripts.carryOut_readable { ledger := .returning 1 } (.execute .atZero) (by decide) (by decide)
    (by decide)
  have hsmall : (match (scripts.carryOut { ledger := .returning 1 } (.execute .atZero)).answer with
    | .error _ => false
    | .ok outcome => decide (outcome.resultBytes.length < 2 ^ 64)) = true := by decide +kernel
  revert hreadable hsmall
  cases (scripts.carryOut { ledger := .returning 1 } (.execute .atZero)).answer with
  | error e =>
    intro _ hsmall
    cases hsmall
  | ok outcome =>
    intro hreadable hsmall
    exact hreadable.1 (of_decide_eq_true hsmall)

/-- The price of the gas that is left may take more than 32 bytes even if every amount of the ledger fits: the bytes that
the host reports are then no result. -/
theorem scripts_unreadable :
    scripts.config.validate = .ok () ∧ (Ledger.returning (2 ^ 256 - 1)).chain.minFeePerGas.Fits ∧
      (∀ a, ((Ledger.returning (2 ^ 256 - 1)).balance a).Fits) ∧
      ∃ outcome, (scripts.carryOut { ledger := .returning (2 ^ 256 - 1) } (.execute .atZero)).answer = .ok outcome ∧
        outcome.success = true ∧ ∀ t, ResultTree.ofBytes outcome.resultBytes ≠ .ok t := by
  refine ⟨rfl, by decide, ?_, ?_⟩
  · intro a
    have hblank : (Ledger.returning (2 ^ 256 - 1)).balance a = 0 := by
      simp only [Ledger.balance, Ledger.accountAt, Ledger.account?, Ledger.returning]
      by_cases ha : a = .zero
      · rw [ha, OrderedMap.get?_insert_self]
        rfl
      · rw [OrderedMap.get?_insert_of_ne _ _ (Ne.symm ha)]
        rfl
    rw [hblank]
    decide
  · have hnone : (scripts.carryOut { ledger := .returning (2 ^ 256 - 1) } (.execute .atZero)).answer.toOption.any
        (fun outcome => outcome.success && (ResultTree.ofBytes outcome.resultBytes).toOption.isNone) = true := by
      decide +kernel
    generalize (scripts.carryOut { ledger := .returning (2 ^ 256 - 1) } (.execute .atZero)).answer = answer at hnone
    cases answer with
    | error e => cases hnone
    | ok outcome =>
      obtain ⟨hsuccess, hread⟩ := Bool.and_eq_true_iff.mp hnone
      refine ⟨outcome, rfl, hsuccess, ?_⟩
      intro t ht
      rw [ht] at hread
      cases hread

end Host

end ContractHost
