import ContractHost.Proofs.PaidCommands
import ContractHost.Proofs.ScriptSessions
/-!
# What comes of a part of a script

The upshot of a program in a frame is how it ends and the frame at its end. The upshot of a script comes of those of its
parts: before each request the frame is told what is left, and afterwards the reply is taken in.
-/
namespace ContractHost

variable {W : Type}

namespace Frame

def sync (f : Frame W) (left : Gas) : Frame W :=
  { f with meter := f.meter.setRemaining left }

variable [World W] {α β : Type} {config : Config} {run : Runner W}

/-- How a program ends in a frame, and the frame at its end. -/
def upshot (config : Config) (run : Runner W) (p : Program α) (f : Frame W) : Ending α × Frame W :=
  (play config run p f).2

theorem upshot_ask (r : Request) (next : Reply → Program α) (f : Frame W) :
    upshot config run (.ask r next) f =
      upshot config run (next (f.answer config run r).1.reply) (f.answer config run r).2 :=
  rfl

theorem upshot_bind (p : Program α) (k : α → Program β) (f : Frame W) :
    upshot config run (p.bind k) f =
      match upshot config run p f with
      | (.done a, g) => upshot config run (k a) g
      | (.crash reason, g) => (.crash reason, g) := by
  induction p generalizing f with
  | done a => rfl
  | crash reason => rfl
  | ask r next ih =>
    rw [Program.bind, upshot_ask, ih, ← upshot_ask]

theorem upshot_yields {P : α → Prop} {p : Program α} (h : p.Yields P) {f g : Frame W} {a : α}
    (hend : upshot config run p f = (.done a, g)) : P a := by
  induction p generalizing f with
  | done b =>
    cases hend
    exact h
  | crash reason => cases hend
  | ask r next ih => exact ih _ (h _) hend

/-! ## What a frame keeps -/

theorem upshot_keeps (config : Config) (run : Runner W) (p : Program α) (f : Frame W) :
    f.children <+: (upshot config run p f).2.children := by
  refine play_induct (P := fun _ g => f.children <+: g.children) ?_ ?_ p [] f (List.prefix_refl _)
  · intro xs g r e hchildren _
    rw [exchange_children]
    exact hchildren
  · intro xs g r c out hchildren _ hmove
    rw [exchange_children]
    cases hmove with
    | done v hc hfunds => exact hchildren
    | failed e hc => exact hchildren
    | refused n why hc =>
      rw [record_children]
      exact hchildren.trans (List.prefix_append _ _)
    | ran n s hc hs =>
      rw [record_children]
      exact hchildren.trans (List.prefix_append _ _)

theorem upshot_bind_children {p : Program α} {k : α → Program β} {f g h : Frame W} {first : Ending α} {ending : Ending β}
    (hfirst : upshot config run p f = (first, h)) (hend : upshot config run (p.bind k) f = (ending, g)) :
    h.children <+: g.children := by
  rw [upshot_bind, hfirst] at hend
  cases first with
  | crash reason =>
    cases hend
    exact List.prefix_refl _
  | done a =>
    have hkept := upshot_keeps config run (k a) h
    dsimp only at hend
    rw [hend] at hkept
    exact hkept

end Frame

/-! ## Parts of scripts -/

namespace Script.Session

variable {s : Setting} {p : Progress}

/-- What a script makes of a reply that it can pay for. -/
def taken (reply : Reply) : Except Halt Value :=
  match reply.status with
  | .ok => .ok reply.value
  | .outOfGas => .error .outOfGas
  | .contractError => .error (.fail reply.errorText)
  | .hostFault => .error (.fault reply.errorText)

theorem run_absorb (s : Setting) (reply : Reply) (p : Progress) :
    (absorb s reply).run.run p =
      .done (if s.gasLimit < Gas.plus p.used reply.gasUsed then .error .outOfGas else taken reply,
        { p with used := Gas.plus p.used reply.gasUsed }) := by
  rw [absorb, run_bind, run_charge]
  by_cases hout : s.gasLimit < Gas.plus p.used reply.gasUsed
  · simp only [if_pos hout, Program.bind]
  · simp only [if_neg hout, Program.bind, taken]
    cases reply.status <;> rfl

theorem run_absorb_free {reply : Reply} (hfree : reply.gasUsed = 0) (hp : p.used.toNat ≤ s.gasLimit.toNat) :
    (absorb s reply).run.run p = .done (taken reply, p) := by
  have hwithin : ¬ s.gasLimit < p.used := by
    rw [UInt64.lt_iff_toNat_lt]
    exact Nat.not_lt_of_le hp
  rw [run_absorb, hfree, Gas.plus_zero, if_neg hwithin]

theorem run_sync (s : Setting) (p : Progress) :
    (sync s).run.run p =
      .ask (.setRemainingGas (Gas.minus s.gasLimit p.used)) fun reply => (discard (absorb s reply)).run.run p :=
  rfl

/-- Whether a reply to a nested call lets the script go on. -/
def Takes (strict : Bool) (reply : Reply) : Prop :=
  reply.status = .ok ∨ strict = false ∧ reply.status = .contractError

theorem taken_of_ok {reply : Reply} (h : reply.status = .ok) : taken reply = .ok reply.value := by
  rw [taken, h]

theorem not_proceeds_taken {reply : Reply} (h : reply.status ≠ .ok) :
    ∃ halt, taken reply = .error halt ∧ halt.returns = false := by
  rw [taken]
  cases hstatus : reply.status with
  | ok => exact absurd hstatus h
  | outOfGas => exact ⟨_, rfl, rfl⟩
  | contractError => exact ⟨_, rfl, rfl⟩
  | hostFault => exact ⟨_, rfl, rfl⟩

/-- A script goes on after a nested call if it can pay for it and if the reply lets it. -/
theorem run_absorbNested (strict : Bool) (reply : Reply) (p : Progress) :
    ∃ out, (absorbNested s strict reply).run.run p = .done out ∧
      (Proceeds out.1 → Takes strict reply ∧ ¬ s.gasLimit < Gas.plus p.used reply.gasUsed) ∧
      (Takes strict reply → ¬ s.gasLimit < Gas.plus p.used reply.gasUsed →
        out = (.ok (), { used := Gas.plus p.used reply.gasUsed, last := outputOf reply })) := by
  rw [absorbNested_eq, run_bind]
  by_cases hlenient : (!strict && decide (reply.status = .contractError)) = true
  · have htakes : Takes strict reply := by
      obtain ⟨hstrict, hstatus⟩ := Bool.and_eq_true_iff.mp hlenient
      exact .inr ⟨by simpa using hstrict, of_decide_eq_true hstatus⟩
    rw [if_pos hlenient, run_charge]
    by_cases hout : s.gasLimit < Gas.plus p.used reply.gasUsed
    · rw [if_pos hout]
      refine ⟨_, rfl, ?_, fun _ hfits => absurd hout hfits⟩
      intro hproceeds
      cases hproceeds
    · rw [if_neg hout]
      exact ⟨_, rfl, fun _ => ⟨htakes, hout⟩, fun _ _ => rfl⟩
  · rw [if_neg hlenient, discard_eq, run_bind, run_absorb]
    by_cases hout : s.gasLimit < Gas.plus p.used reply.gasUsed
    · rw [if_pos hout]
      refine ⟨_, rfl, ?_, fun _ hfits => absurd hout hfits⟩
      intro hproceeds
      cases hproceeds
    · rw [if_neg hout]
      by_cases hok : reply.status = .ok
      · rw [taken_of_ok hok]
        exact ⟨_, rfl, fun _ => ⟨.inl hok, hout⟩, fun _ _ => rfl⟩
      · obtain ⟨halt, htaken, hreturns⟩ := not_proceeds_taken hok
        rw [htaken]
        refine ⟨_, rfl, ?_, ?_⟩
        · intro hproceeds
          have hreturned : halt.returns = true := hproceeds
          rw [hreturns] at hreturned
          cases hreturned
        · rintro (hstatus | ⟨hstrict, hstatus⟩) _
          · exact absurd hstatus hok
          · rw [hstrict, hstatus] at hlenient
            exact absurd rfl hlenient

/-! ## Requests of scripts -/

variable {W : Type} [World W] (config : Config) (run : Runner W)

/-- The exchange about a request of a script, which says before how much is left, and the frame afterwards. -/
def consult (s : Setting) (p : Progress) (f : Frame W) (r : Request) : Exchange × Frame W :=
  (f.sync (Gas.minus s.gasLimit p.used)).answer config run r

theorem answer_sync (f : Frame W) (left : Gas) :
    f.answer config run (.setRemainingGas left) =
      ({ request := .setRemainingGas left, reply := .ok .nothing 0, nested := false }, f.sync left) := by
  rw [← Gas.minus_self f.meter.consumed]
  rfl

theorem upshot_sync (hp : p.used.toNat ≤ s.gasLimit.toNat) (f : Frame W) :
    Frame.upshot config run ((sync s).run.run p) f = (.done (.ok (), p), f.sync (Gas.minus s.gasLimit p.used)) := by
  rw [run_sync, Frame.upshot_ask, answer_sync]
  show Frame.upshot config run ((discard (absorb s (.ok .nothing 0))).run.run p) _ = _
  rw [discard_eq, run_bind, run_absorb_free rfl hp]
  rfl

theorem upshot_query (r : Request) (hp : p.used.toNat ≤ s.gasLimit.toNat) (f : Frame W) :
    Frame.upshot config run ((query s r).run.run p) f =
      (.done (.ok (consult config run s p f r).1.reply, p), (consult config run s p f r).2) := by
  rw [query, run_bind, Frame.upshot_bind, upshot_sync config run hp f]
  rfl

theorem upshot_demand (r : Request) (hp : p.used.toNat ≤ s.gasLimit.toNat) (f : Frame W) :
    let (x, g) := consult config run s p f r
    Frame.upshot config run ((demand s r).run.run p) f =
      (.done (if s.gasLimit < Gas.plus p.used x.reply.gasUsed then .error .outOfGas else taken x.reply,
        { p with used := Gas.plus p.used x.reply.gasUsed }), g) := by
  dsimp only
  rw [demand, run_bind, Frame.upshot_bind, upshot_query config run r hp f]
  show Frame.upshot config run ((absorb s _).run.run p) _ = _
  rw [run_absorb]
  rfl

theorem upshot_nested (r : Request) (strict : Bool) (hp : p.used.toNat ≤ s.gasLimit.toNat) (f : Frame W) :
    let (x, g) := consult config run s p f r
    Frame.upshot config run ((query s r >>= absorbNested s strict).run.run p) f =
      Frame.upshot config run ((absorbNested s strict x.reply).run.run p) g := by
  dsimp only
  rw [run_bind, Frame.upshot_bind, upshot_query config run r hp f]

end Script.Session

end ContractHost
