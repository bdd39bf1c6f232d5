import ContractHost.Proofs.Nesting
/-!
# What a failed request leaves behind

A request that is answered with anything but success has written nothing: the frame goes on in the scope that it was in.
Its charge stays, and the reply tells of it to the unit, as every reply does.

A nested frame is the hard case, since its writes are taken over before it is recorded and paid for. The payment cannot
fail in a frame that occurs, as what was used below was left. So a reply that is not a success there means that the
nested frame itself failed, and its writes are not taken over.
-/
namespace ContractHost

variable {W : Type}

namespace Frame

/-- What a reply says of the frame `f` that asked and of what that frame is afterwards, `g`: no success, no write, and
the gas of the reply is what was consumed in between. -/
structure Accounts (f g : Frame W) (reply : Reply) : Prop where
  unwritten : reply.status ≠ .ok → g.scope = f.scope
  metered : g.meter.consumed.toNat = f.meter.consumed.toNat + reply.gasUsed.toNat

variable {f g : Frame W}

theorem exchange_metered (r : Request) {out : Except HostError Settled × Frame W}
    (h : f.meter.Onward out.2.meter) :
    (f.exchange r out).2.meter.consumed.toNat =
      f.meter.consumed.toNat + (f.exchange r out).1.reply.gasUsed.toNat := by
  have hmoved := h.consumed
  rw [exchange_meter, exchange_gasUsed, Gas.toNat_minus]
  omega

theorem success_of_records {n : Command.Nesting} {reply : Reply} {t : CallRecord} (h : f.Records g n reply t)
    (hreply : reply.status ≠ .ok) : t.success = false := by
  have hstatus := h.status
  cases hsuccess : t.success with
  | false => rfl
  | true =>
    rw [hsuccess] at hstatus
    exact absurd hstatus hreply

variable [World W] {config : Config} {run : Runner W} {room : Nat}

theorem resume_scope_of_failed {outcome : FrameOutcome W} (h : outcome.record.success = false) :
    (f.resume outcome).scope = f.scope := by
  simp only [resume, h]
  rfl

/-- A command that comes to no success leaves the scope as it was, if the nested frames keep to their gas. -/
theorem Move.unwritten (hf : f.meter.Sound)
    (hrun : ∀ s stack i amount gas, (run s stack i amount gas).KeepsGas gas) {c : Command}
    {out : Except HostError Settled × Frame W} (h : f.Move config run c out) (r : Request)
    (hreply : (f.exchange r out).1.reply.status ≠ .ok) : (f.exchange r out).2.scope = f.scope := by
  cases h with
  | done v hc hfunds => exact absurd rfl hreply
  | failed e hc => exact exchange_scope f r _
  | refused n why hc => rw [exchange_scope, record_scope]
  | ran n s hc hs =>
    let limit := Gas.least n.gas f.meter.remaining
    let outcome := run s f.stack n.invocation n.amount limit
    obtain ⟨hlimit, hsound⟩ := hrun s f.stack n.invocation n.amount limit
    have hle := f.used_le_limit n hlimit hsound
    obtain ⟨-, hrecords⟩ := records_of_le (f := f) (g := f.resume outcome) rfl rfl hf hle r
    have hfailed : outcome.record.success = false := success_of_records hrecords hreply
    rw [exchange_scope, record_scope]
    exact resume_scope_of_failed hfailed

theorem answer_metered (config : Config) (run : Runner W) (hf : f.meter.Sound) (r : Request) :
    (f.answer config run r).2.meter.consumed.toNat =
      f.meter.consumed.toNat + (f.answer config run r).1.reply.gasUsed.toNat := by
  apply exchange_metered
  have honward := answer_onward config run hf r
  rw [answer, exchange_meter] at honward
  exact honward

theorem answer_accounts (vm : Vm) (config : Config) (room : Nat) (hf : f.meter.Sound) (r : Request) :
    let out := f.answer config (runFrame vm config room) r
    f.Accounts out.2 out.1.reply := by
  refine ⟨?_, answer_metered config _ hf r⟩
  simp only [answer]
  cases r.check config.limits f.scope.own.contract with
  | error e => exact fun _ => exchange_scope f r _
  | ok c => exact (perform_move config (runFrame vm config room) f c).unwritten hf (runFrame_keepsGas vm config room) r

end Frame

variable [World W]

namespace Host.Reachable

variable {h : Host} {store : Store} {world : W} {room : Nat} {f : Frame W}

/-- Over a whole program the meter moves on by the gas of the replies, and a program none of whose requests succeeds
writes nothing. -/
theorem play_accounts (hf : h.Reachable store world room f) {α : Type} (p : Program α) :
    let out := Frame.play h.config (runFrame h.vm h.config room) p f
    ((∀ x ∈ out.1, x.reply.status ≠ .ok) → out.2.2.scope = f.scope) ∧
      out.2.2.meter.consumed.toNat = f.meter.consumed.toNat + CallRecord.repliedGas out.1 := by
  induction p generalizing f with
  | done a => exact ⟨fun _ => rfl, rfl⟩
  | crash reason => exact ⟨fun _ => rfl, rfl⟩
  | ask r next ih =>
    have hfirst := Frame.answer_accounts h.vm h.config room hf.inOrder.meter r
    obtain ⟨hunwritten, hmetered⟩ := ih (f.answer h.config (runFrame h.vm h.config room) r).1.reply (hf.answer room f r)
    refine ⟨fun hall => ?_, ?_⟩
    · have hrest := hunwritten fun x hx => hall x (List.mem_cons_of_mem _ hx)
      exact hrest.trans (hfirst.unwritten (hall _ List.mem_cons_self))
    · refine hmetered.trans ?_
      rw [hfirst.metered]
      exact Nat.add_assoc _ _ _

/-- In every frame that occurs, and whatever it asks for, a request without success leaves no trace but its charge, and
every reply names the exact charge. -/
theorem answer_traceless (hf : h.Reachable store world room f) (r : Request) :
    let out := f.answer h.config (runFrame h.vm h.config room) r
    (out.1.reply.status ≠ .ok → out.2.scope = f.scope) ∧
      out.2.meter.consumed.toNat = f.meter.consumed.toNat + out.1.reply.gasUsed.toNat := by
  obtain ⟨hunwritten, hmetered⟩ := Frame.answer_accounts h.vm h.config room hf.inOrder.meter r
  exact ⟨hunwritten, hmetered⟩

end Host.Reachable

/-- The frame calls a contract that is not there and offers 500 gas for it. -/
theorem Host.idle_traceless :
    let r : Request := .call (some (List.replicate 20 7)) (some []) none none 500 none
    let out := (Frame.byte {}).answer {} (runFrame Host.idle.vm {} 63) r
    out.1.reply.status = .contractError ∧ out.2.scope = (Frame.byte {}).scope ∧
      out.2.meter.consumed.toNat = 500 := by
  intro r out
  have hstatus : out.1.reply.status = .contractError := by decide +kernel
  have hgas : out.1.reply.gasUsed.toNat = 500 := by decide +kernel
  obtain ⟨hunwritten, hmetered⟩ := (Host.idle_reachable {}).answer_traceless r
  refine ⟨hstatus, hunwritten ?_, ?_⟩
  · show out.1.reply.status ≠ .ok
    rw [hstatus]
    decide
  · show out.2.meter.consumed.toNat = 500
    rw [← hgas]
    exact hmetered.trans (Nat.zero_add _)

end ContractHost
