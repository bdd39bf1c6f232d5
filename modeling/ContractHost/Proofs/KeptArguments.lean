import ContractHost.Proofs.ArglessRecords
import ContractHost.Proofs.GasSufficiency
/-!
# How many arguments are kept

Results hold at most so many argument bytes as the configuration says. The results of nested frames are cut before their
callers get them, so the bound is at work during a run and not only in what is reported at its end. But a script takes
nothing but the output from a result. So two runs that differ in the bound differ in the arguments of their results and in
nothing else.
-/
namespace ContractHost

open CallRecord (Encodable)

/-- The configuration with another bound on the arguments that are kept. -/
def Config.keeping (bound : UInt64) (config : Config) : Config :=
  { config with maxArgsLength := bound }

/-! ## Frames -/

variable {W : Type}

/-- Exchanges about one request that differ at most in the arguments which the result of a nested frame holds. -/
structure Exchange.Alike (x x' : Exchange) : Prop where
  unquoted : x'.unquoted = x.unquoted
  agrees : x.reply.Agrees x'.reply
  same : x.request.nests = false → x' = x

/-- What comes of a command, and what comes of it if another number of arguments is kept. -/
inductive Settled.Alike : Except HostError Settled → Except HostError Settled → Prop
  | same (s : Except HostError Settled) : Alike s s
  | nested (t t' : CallRecord) (h : t'.argless = t.argless) (ht : t.Encodable) (ht' : t'.Encodable) :
      Alike (.ok (.nested t)) (.ok (.nested t'))

/-- Outcomes that differ at most in arguments of results. -/
structure FrameOutcome.Alike (o o' : FrameOutcome W) : Prop where
  world : o'.world = o.world
  stack : o'.stack = o.stack
  record : o'.record.argless = o.record.argless

/-- Ways to run frames of which the outcomes are alike if their results can be written. -/
def Runner.Alike (run run' : Runner W) : Prop :=
  ∀ s stack i amount gas, (run s stack i amount gas).record.Encodable → (run' s stack i amount gas).record.Encodable →
    (run s stack i amount gas).Alike (run' s stack i amount gas)

namespace Frame

def withChildren (f : Frame W) (ts : List CallRecord) : Frame W :=
  { f with children := ts }

/-- Frames that differ at most in arguments in the results of their nested frames. -/
def Alike (f f' : Frame W) : Prop :=
  ∃ ts : List CallRecord, ts.map CallRecord.argless = f.children.map CallRecord.argless ∧ f' = f.withChildren ts

theorem Alike.refl (f : Frame W) : f.Alike f :=
  ⟨f.children, rfl, rfl⟩

variable {f f' : Frame W}

theorem Alike.record (hf : f.Alike f') {t t' : CallRecord} (h : t'.argless = t.argless) (ht : t.Encodable)
    (ht' : t'.Encodable) :
    Settled.Alike (f.record t).1 (f'.record t').1 ∧ (f.record t).2.Alike (f'.record t').2 := by
  obtain ⟨ts, hts, rfl⟩ := hf
  have hgas := CallRecord.gasUsed_of_argless h
  have hchildren : (ts ++ [t']).map CallRecord.argless = (f.children ++ [t]).map CallRecord.argless := by
    rw [List.map_append, List.map_append, hts, List.map_singleton, List.map_singleton, h]
  simp only [Frame.record, withChildren, hgas]
  cases f.meter.charge t.gasUsed with
  | mk paid m =>
    cases paid with
    | error e => exact ⟨.same _, _, hchildren, rfl⟩
    | ok u => exact ⟨.nested t t' h ht ht', _, hchildren, rfl⟩

theorem Alike.exchange (hf : f.Alike f') (r : Request) (out out' : Except HostError Settled × Frame W)
    (hout : Settled.Alike out.1 out'.1 ∧ out.2.Alike out'.2) (hsame : r.nests = false → out'.1 = out.1) :
    (f.exchange r out).1.Alike (f'.exchange r out').1 ∧ (f.exchange r out).2.Alike (f'.exchange r out').2 := by
  obtain ⟨-, -, rfl⟩ := hf
  obtain ⟨settled, after⟩ := out
  obtain ⟨settled', after'⟩ := out'
  obtain ⟨hsettled, ts, hts, rfl⟩ := hout
  cases hsettled with
  | same =>
    obtain (e | v | t) := settled
    all_goals exact ⟨⟨rfl, .refl _, fun _ => rfl⟩, ts, hts, rfl⟩
  | nested t t' h ht ht' =>
    have hagrees := CallRecord.agrees_of_argless h ht ht' (Gas.minus after.meter.consumed f.meter.consumed)
    refine ⟨⟨congrArg (Exchange.mk r · true) hagrees.withoutValue, hagrees, ?_⟩, ts, hts, rfl⟩
    intro hr
    cases hsame hr
    rfl

theorem encodable_of_record {t : CallRecord} (h : (f.record t).2.Encodes) : t.Encodable := by
  apply h t
  rw [record_children]
  exact List.mem_append_right _ (List.mem_singleton_self t)

theorem Alike.conclude (hf : f.Alike f') (bound bound' : Nat) (action : Action) (ending : Ending Output) :
    (f'.conclude bound' action ending).1.argless = (f.conclude bound action ending).1.argless ∧
      (f'.conclude bound' action ending).2 = (f.conclude bound action ending).2 := by
  obtain ⟨ts, -, rfl⟩ := hf
  exact ⟨rfl, rfl⟩

variable [World W] {config : Config} {bound : UInt64} {run run' : Runner W}

theorem perform_withChildren (config config' : Config) (run run' : Runner W) (f : Frame W) (ts : List CallRecord)
    {c : Command} (hc : c.nesting = none) :
    (f.withChildren ts).perform config' run' c = Prod.map id (withChildren · ts) (f.perform config run c) := by
  have hmove : ∀ r, (f.withChildren ts).moveTo r = Prod.map id (withChildren · ts) (f.moveTo r) := by
    rintro ⟨(e | s), m⟩ <;> rfl
  cases c with
  | call | deploy => cases hc
  | setStorage | removeStorage | send | debit | burn | event => exact hmove _
  | fact x => cases x <;> rfl
  | _ => rfl

/-- A command makes the scope of its frame of what the frame sees, which has nothing to do with the records. -/
theorem opening_withChildren (f : Frame W) (ts : List CallRecord) (c : Command) :
    (f.withChildren ts).opening c = f.opening c := by
  cases c <;> rfl

theorem Alike.resume (hf : f.Alike f') {o o' : FrameOutcome W} (h : o.Alike o') : (f.resume o).Alike (f'.resume o') := by
  obtain ⟨ts, hts, rfl⟩ := hf
  refine ⟨ts, hts, ?_⟩
  simp only [Frame.resume, withChildren, h.world, h.stack, CallRecord.success_of_argless h.record]

theorem Alike.nest (hrun : run.Alike run') (hf : f.Alike f') (entry : Except Refusal (Except HostError (Scope W)))
    (i : Invocation) (amount : Nat) (offered : UInt64) :
    let out := f.nest config run entry i amount offered
    let out' := f'.nest (config.keeping bound) run' entry i amount offered
    out.2.Encodes → out'.2.Encodes → Settled.Alike out.1 out'.1 ∧ out.2.Alike out'.2 := by
  intro out out' hencodes hencodes'
  have hsame := hf
  obtain ⟨ts, -, rfl⟩ := hsame
  obtain (why | e | s) := entry
  · exact hf.record rfl (encodable_of_record hencodes) (encodable_of_record hencodes')
  · exact ⟨.same _, hf⟩
  · have ht := encodable_of_record hencodes
    have ht' := encodable_of_record hencodes'
    have hinner := hrun s f.stack i amount _ ht ht'
    exact (hf.resume hinner).record hinner.record ht ht'

theorem Alike.perform (hrun : run.Alike run') (hf : f.Alike f') (c : Command) :
    let out := f.perform config run c
    let out' := f'.perform (config.keeping bound) run' c
    out.2.Encodes → out'.2.Encodes →
      (Settled.Alike out.1 out'.1 ∧ out.2.Alike out'.2) ∧ (c.nesting = none → out'.1 = out.1) := by
  intro out out' hencodes hencodes'
  have hsame := hf
  obtain ⟨ts, hts, rfl⟩ := hsame
  cases hc : c.nesting with
  | none =>
    have hchildren : out.2.children = f.children := (perform_alone config run f hc).2
    have hout : out' = Prod.map id (withChildren · ts) out :=
      perform_withChildren config (config.keeping bound) run run' f ts hc
    rw [hout]
    exact ⟨⟨.same _, ts, hchildren ▸ hts, rfl⟩, fun _ => rfl⟩
  | some n =>
    have hout : out = f.nest config run (f.opening c) n.invocation n.amount n.gas := perform_nest config run f hc
    have hout' : out' = (f.withChildren ts).nest (config.keeping bound) run' (f.opening c) n.invocation n.amount n.gas :=
      f.opening_withChildren ts c ▸ perform_nest (config.keeping bound) run' (f.withChildren ts) hc
    rw [hout] at hencodes ⊢
    rw [hout'] at hencodes' ⊢
    exact ⟨hf.nest hrun (f.opening c) n.invocation n.amount n.gas hencodes hencodes', nofun⟩

theorem Alike.answer (hrun : run.Alike run') (hf : f.Alike f') (r : Request) :
    let answered := f.answer config run r
    let answered' := f'.answer (config.keeping bound) run' r
    answered.2.Encodes → answered'.2.Encodes → answered.1.Alike answered'.1 ∧ answered.2.Alike answered'.2 := by
  intro answered answered' hencodes hencodes'
  have hcheck' : r.check (config.keeping bound).limits f'.scope.own.contract =
      r.check config.limits f.scope.own.contract := by
    obtain ⟨ts, -, rfl⟩ := hf
    rfl
  cases hcheck : r.check config.limits f.scope.own.contract with
  | error e =>
    have hstep : answered = f.exchange r (.error e, f) := answer_fault run hcheck
    have hstep' : answered' = f'.exchange r (.error e, f') := answer_fault run' (hcheck'.trans hcheck)
    rw [hstep, hstep']
    exact hf.exchange r (.error e, f) (.error e, f') ⟨.same _, hf⟩ fun _ => rfl
  | ok c =>
    have hstep : answered = f.exchange r (f.perform config run c) := answer_checked hcheck
    have hstep' : answered' = f'.exchange r (f'.perform (config.keeping bound) run' c) :=
      answer_checked (hcheck'.trans hcheck)
    have hkept : (f.perform config run c).2.Encodes := by
      rw [hstep, Encodes, exchange_children] at hencodes
      exact hencodes
    have hkept' : (f'.perform (config.keeping bound) run' c).2.Encodes := by
      rw [hstep', Encodes, exchange_children] at hencodes'
      exact hencodes'
    obtain ⟨hout, hsame⟩ := hf.perform hrun c hkept hkept'
    rw [hstep, hstep']
    exact hf.exchange r _ _ hout fun hr => hsame ((Request.check_reads hcheck).nesting_eq_none hr)

variable {α : Type}

/-- A program that takes nothing but outputs from results asks for the same and ends in the same way. -/
theorem Alike.play (hrun : run.Alike run') {p : Program α} (hp : p.OutputOnly) (hf : f.Alike f') :
    let played := play config run p f
    let played' := play (config.keeping bound) run' p f'
    played.2.2.Encodes → played'.2.2.Encodes →
      played'.1.map Exchange.unquoted = played.1.map Exchange.unquoted ∧ played'.2.1 = played.2.1 ∧
        played.2.2.Alike played'.2.2 := by
  induction p generalizing f f' with
  | done a => exact fun _ _ => ⟨rfl, rfl, hf⟩
  | crash reason => exact fun _ _ => ⟨rfl, rfl, hf⟩
  | ask r next ih =>
    intro played played' hencodes hencodes'
    let answered := f.answer config run r
    let answered' := f'.answer (config.keeping bound) run' r
    -- The results of all frames below can be written at the end, so they can after every request.
    have hkept : answered.2.Encodes := Encodes.of_prefix hencodes (upshot_keeps config run (next answered.1.reply) _)
    have hkept' : answered'.2.Encodes :=
      Encodes.of_prefix hencodes' (upshot_keeps (config.keeping bound) run' (next answered'.1.reply) _)
    obtain ⟨hx, hg⟩ := hf.answer hrun r hkept hkept'
    have hnext : next answered'.1.reply = next answered.1.reply := by
      cases hr : r.nests with
      | true => exact hp.1 hr _ _ hx.agrees
      | false =>
        have hrequest : answered.1.request = r := exchange_request f r _
        rw [hx.same (by rw [hrequest, hr])]
    let rest' := fun q : Program α => play (config.keeping bound) run' q answered'.2
    have hplayed' : played' = (answered'.1 :: (rest' (next answered.1.reply)).1, (rest' (next answered.1.reply)).2) :=
      congrArg (fun q => (answered'.1 :: (rest' q).1, (rest' q).2)) hnext
    rw [hplayed'] at hencodes' ⊢
    obtain ⟨hxs, hending, hframe⟩ := ih answered.1.reply (hp.2 _) hg hencodes hencodes'
    exact ⟨congrArg₂ List.cons hx.unquoted hxs, hending, hframe⟩

end Frame

/-! ## Frames below frames -/

section

variable [World W] {vm : Vm} (hvm : ∀ i code gas, (vm.program i code gas).OutputOnly) (config : Config) (bound : UInt64)
include hvm

theorem runEntered_alike {run run' : Runner W} (hrun : run.Alike run') (entered : CallStack) :
    Runner.Alike (runEntered vm config run entered) (runEntered vm (config.keeping bound) run' entered) := by
  intro s stack i amount gas hsize hsize'
  obtain ⟨hxs, hending, hframe⟩ := (Frame.Alike.refl (.start s entered gas)).play hrun (hvm i s.own.code gas)
    (fun t ht => hsize.child ht) (fun t ht => hsize'.child ht)
  obtain ⟨hresult, hstatus⟩ := hframe.conclude config.maxArgsLength.toNat (config.keeping bound).maxArgsLength.toNat
    (i.action amount gas) (Frame.play config run (vm.program i s.own.code gas) (.start s entered gas)).2.1
  obtain ⟨ts, hts, hg⟩ := hframe
  refine ⟨congrArg (fun g => g.scope.world) hg, congrArg (fun g => g.stack.unwindTo stack.depth) hg, ?_⟩
  rw [hg] at hresult hstatus
  simp only [runEntered, CallRecord.argless_node, FrameRecord.argless, Option.map_some, hending, hxs, hg, hresult, hstatus]
  simp only [Frame.withChildren, hts]

theorem runFrame_alike (room : Nat) :
    Runner.Alike (W := W) (runFrame vm config room) (runFrame vm (config.keeping bound) room) := by
  induction room with
  | zero => exact fun s stack i amount gas _ _ => ⟨rfl, rfl, rfl⟩
  | succ room ih =>
    intro s stack i amount gas
    simp only [runFrame]
    cases stack.enter s.own.contract s.own.caller amount with
    | error e => exact fun _ _ => ⟨rfl, rfl, rfl⟩
    | ok entered => exact runEntered_alike hvm config bound ih entered s stack i amount gas

end

/-! ## Orders -/

/-- A completion of which the record, if there is one, has a result with a length that can be written. -/
def Completion.Encodable (c : Completion) : Prop :=
  ∀ t ∈ c.record, CallRecord.Encodable t

instance (c : Completion) : Decidable c.Encodable :=
  inferInstanceAs (Decidable (∀ t ∈ c.record, t.result.toBytes.length < 2 ^ 64))

def Outcome.argless (o : Outcome) : Outcome :=
  { o with result := o.result.argless }

theorem Outcome.told_of_argless {o o' : Outcome} (h : o'.argless = o.argless) :
    o'.status = o.status ∧ o'.success = o.success ∧ o'.error = o.error ∧ o'.gasUsed = o.gasUsed ∧
      o'.output = o.output ∧ o'.events = o.events ∧ o'.deployed = o.deployed := by
  simp only [argless, Outcome.mk.injEq] at h
  obtain ⟨hstatus, hresult, hevents, hdeployed⟩ := h
  exact ⟨hstatus, Tree.told_of_map_eq hresult FrameResult.success fun _ => rfl,
    Tree.told_of_map_eq hresult FrameResult.error fun _ => rfl,
    Tree.told_of_map_eq hresult FrameResult.gasUsed fun _ => rfl,
    Tree.told_of_map_eq hresult FrameResult.output fun _ => rfl, hevents, hdeployed⟩

/-- Completions that differ at most in arguments of results. -/
structure Completion.Alike (c c' : Completion) : Prop where
  answer : c'.answer.map Outcome.argless = c.answer.map Outcome.argless
  store : c'.store = c.store
  record : c'.record.map CallRecord.argless = c.record.map CallRecord.argless

theorem FrameOutcome.Alike.tell {o o' : FrameOutcome W} (h : o.Alike o') (events : List Event)
    (deployed : Option Address) : (o'.tell events deployed).argless = (o.tell events deployed).argless := by
  have hstatus := Tree.told_of_map_eq h.record FrameRecord.status fun _ => rfl
  simp only [FrameOutcome.tell, Outcome.argless, hstatus, CallRecord.result_of_argless h.record]

namespace Host

/-- The host with another bound on the arguments that are kept. -/
def keeping (h : Host) (bound : UInt64) : Host :=
  { h with config := h.config.keeping bound }

theorem scope_keeping [World W] (order : Order) (config : Config) (bound : UInt64) (store : Store) (world : W) :
    order.scope (config.keeping bound) store world = order.scope config store world := by
  cases order <;> rfl

theorem record_finish (store : Store) (o : FrameOutcome Layers) (deployed : Option Address) :
    (finish store o deployed).record = some o.record := by
  simp only [finish]
  split
  · split <;> rfl
  · rfl

theorem finish_alike (store : Store) {o o' : FrameOutcome Layers} (h : o.Alike o') (deployed : Option Address) :
    (finish store o deployed).Alike (finish store o' deployed) := by
  have hsuccess := CallRecord.success_of_argless h.record
  have hrecord := congrArg some h.record
  cases hok : o.record.success with
  | false =>
    rw [finish_failed hok, finish_failed (hsuccess.trans hok)]
    exact ⟨congrArg Except.ok (h.tell [] none), rfl, hrecord⟩
  | true =>
    cases hstore : store.refusal with
    | some reason =>
      rw [finish_refusing hstore hok, finish_refusing hstore (hsuccess.trans hok)]
      exact ⟨rfl, rfl, hrecord⟩
    | none =>
      rw [finish_of_open hstore hok, finish_of_open hstore (hsuccess.trans hok), h.world]
      exact ⟨congrArg Except.ok (h.tell _ deployed), rfl, hrecord⟩

variable {h : Host} (hvm : ∀ i code gas, (h.vm.program i code gas).OutputOnly) (store : Store) (bound : UInt64)
include hvm

theorem run_alike (entry : Except Refusal (Scope Layers)) (i : Invocation) (amount : Nat) (gas : UInt64)
    (deployed : Option Address) (hsize : (h.run store entry i amount gas deployed).Encodable)
    (hsize' : ((h.keeping bound).run store entry i amount gas deployed).Encodable) :
    (h.run store entry i amount gas deployed).Alike ((h.keeping bound).run store entry i amount gas deployed) := by
  cases entry with
  | error why => exact ⟨rfl, rfl, rfl⟩
  | ok s =>
    apply finish_alike
    apply runFrame_alike hvm h.config bound h.config.maxCallDepth.toNat s h.stack i amount gas
    · exact hsize _ (record_finish store _ deployed)
    · exact hsize' _ (record_finish store _ deployed)

theorem carryOut_alike (order : Order) (hsize : (h.carryOut store order).Encodable)
    (hsize' : ((h.keeping bound).carryOut store order).Encodable) :
    (h.carryOut store order).Alike ((h.keeping bound).carryOut store order) := by
  have hcheck : order.check (h.keeping bound).config.limits = order.check h.config.limits := rfl
  have hscope : order.scope (h.keeping bound).config store (Layers.ofLedger store.ledger) =
      order.scope h.config store (Layers.ofLedger store.ledger) := scope_keeping order h.config bound store _
  revert hsize hsize'
  rw [carryOut_def, carryOut_def (h.keeping bound), hcheck, hscope]
  cases order.check h.config.limits with
  | error e => exact fun _ _ => ⟨rfl, rfl, rfl⟩
  | ok u => exact run_alike hvm store bound _ _ _ _ _

end Host

/-- An outcome tells what its record does, with all arguments of the record cut to the bound. -/
theorem Host.carryOut_result {h : Host} {store : Store} {order : Order} {outcome : Outcome}
    (hanswer : (h.carryOut store order).answer = .ok outcome) :
    ∃ t, (h.carryOut store order).record = some t ∧
      outcome.result = (t.whole h.config.limits order.grant.action).truncateArgs h.config.maxArgsLength.toNat := by
  have hreports := h.carryOut_reports store order
  cases ht : (h.carryOut store order).record with
  | none =>
    rw [ht] at hreports
    obtain ⟨e, he⟩ := hreports
    rw [hanswer] at he
    cases he
  | some t =>
    rw [ht] at hreports
    obtain ⟨hanswers, hall⟩ := h.carryOut_told store order ht
    exact ⟨t, rfl, (hreports outcome hanswer).trans (CallRecord.result_eq_truncateArgs t hanswers hall)⟩

/-- The bound on the arguments that are kept affects the report only. An order on scripts does the same to the store under
every bound and is answered in the same way, and the arguments at a node of either result are cut from the same ones: from
those with which the frame was asked for. Both results must have a length that can be written. -/
theorem Host.carryOut_keeping (h : Host) (store : Store) (order : Order) (bound : UInt64) {cost : Gas}
    (hvm : h.vm = Script.vm cost) (hsize : (h.carryOut store order).Encodable)
    (hsize' : ((h.keeping bound).carryOut store order).Encodable) :
    let c := h.carryOut store order
    let c' := (h.keeping bound).carryOut store order
    c'.store = c.store ∧
      match c.answer, c'.answer with
      | .error e, .error e' => e' = e
      | .ok o, .ok o' =>
        (o'.status = o.status ∧ o'.success = o.success ∧ o'.error = o.error ∧ o'.gasUsed = o.gasUsed ∧
          o'.output = o.output ∧ o'.events = o.events ∧ o'.deployed = o.deployed) ∧
        ∃ t, c.record = some t ∧
          let whole := t.whole h.config.limits order.grant.action
          o.result = whole.truncateArgs h.config.maxArgsLength.toNat ∧ o'.result = whole.truncateArgs bound.toNat
      | _, _ => False := by
  intro c c'
  have halike : c.Alike c' := carryOut_alike (hvm ▸ Script.outputOnly_vm cost) store bound order hsize hsize'
  refine ⟨halike.store, ?_⟩
  have hanswers := halike.answer
  cases hanswer : c.answer with
  | error e =>
    cases hanswer' : c'.answer with
    | error e' =>
      rw [hanswer, hanswer'] at hanswers
      exact Except.error.inj hanswers
    | ok o' =>
      rw [hanswer, hanswer'] at hanswers
      cases hanswers
  | ok o =>
    cases hanswer' : c'.answer with
    | error e' =>
      rw [hanswer, hanswer'] at hanswers
      cases hanswers
    | ok o' =>
      rw [hanswer, hanswer'] at hanswers
      refine ⟨Outcome.told_of_argless (Except.ok.inj hanswers), ?_⟩
      obtain ⟨t, ht, hresult⟩ := carryOut_result hanswer
      obtain ⟨t', ht', hresult'⟩ := carryOut_result (h := h.keeping bound) hanswer'
      -- The records of both runs tell of the same requests, so they tell of the same arguments.
      have hrecords := halike.record
      rw [ht, ht'] at hrecords
      have hwhole := t'.whole_argless h.config.limits order.grant.action
      rw [Option.some.inj hrecords, CallRecord.whole_argless] at hwhole
      refine ⟨t, ht, hresult, ?_⟩
      rw [hwhole]
      exact hresult'

/-- A ledger with a script that calls itself with an argument and returns what the call does. -/
def Ledger.relaying : Ledger :=
  { chain := { minFeePerGas := 1 }
    accounts := OrderedMap.empty.insert .zero
      { code := some (Bytes.ofText
          "fn run\n self\n call $last step 500 abcdef\n return $last\nfn step\n return $0") } }

/-- The argument of the call is kept under the first bound and cut under the second one, and the script returns it under
both. -/
theorem Host.scripts_keeping :
    let c := scripts.carryOut { ledger := .relaying } (.execute .atZero)
    let c' := (scripts.keeping 2).carryOut { ledger := .relaying } (.execute .atZero)
    c'.store = c.store ∧
      ∃ o o', c.answer = .ok o ∧ c'.answer = .ok o' ∧ o'.success = o.success ∧ o'.output = o.output ∧
        o'.gasUsed = o.gasUsed ∧ o.success = true ∧ o.output = Bytes.ofText "abcdef" ∧ o'.result ≠ o.result := by
  intro c c'
  have hran : (c.answer.toOption.any fun o => o.success && o.output = Bytes.ofText "abcdef") = true := by
    decide +kernel
  have hdiffer : c'.answer.toOption.map Outcome.result ≠ c.answer.toOption.map Outcome.result := by decide +kernel
  obtain ⟨hstore, hanswers⟩ := scripts.carryOut_keeping { ledger := .relaying } (.execute .atZero) 2 rfl
    (by decide +kernel) (by decide +kernel)
  refine ⟨hstore, ?_⟩
  cases hanswer : c.answer with
  | error e =>
    rw [hanswer] at hran
    cases hran
  | ok o =>
    cases hanswer' : c'.answer with
    | error e' =>
      rw [hanswer, hanswer'] at hanswers
      cases hanswers
    | ok o' =>
      rw [hanswer, hanswer'] at hanswers hdiffer
      rw [hanswer] at hran
      obtain ⟨⟨-, hsuccess, -, hgas, houtput, -, -⟩, -⟩ := hanswers
      obtain ⟨hok, htext⟩ := Bool.and_eq_true_iff.mp hran
      exact ⟨o, o', rfl, rfl, hsuccess, houtput, hgas, hok, of_decide_eq_true htext,
        fun hsame => hdiffer (congrArg some hsame)⟩

end ContractHost
