import ContractHost.Proofs.Atomicity
import ContractHost.Proofs.Budgets
import ContractHost.Proofs.FrameEnds
/-!
# Gas that suffices

If an order succeeds under some gas limit together with all its nested frames, it comes to the same under every limit that
is not below what it has used. Only the budgets in its result are others.
-/
namespace ContractHost

open Script (Setting Progress Halt Session)
open CallRecord (Thriving Encodable Resembles)

variable {W : Type}

/-! ## Scripts under two gas limits -/

namespace Frame

theorem Thrives.of_prefix {f g : Frame W} (hg : g.Thrives) (h : f.children <+: g.children) : f.Thrives :=
  fun t ht => hg t (h.subset ht)

theorem Encodes.of_prefix {f g : Frame W} (hg : g.Encodes) (h : f.children <+: g.children) : f.Encodes :=
  fun t ht => hg t (h.subset ht)

end Frame

namespace Script.Session

open ContractHost.Frame (Abreast Ready upshot)

variable [World W] {vm : Vm} {config : Config} {room : Nat} {s : Setting} {gas : Gas} {α : Type}

/-- Whether a part of a script comes to the same under another gas limit, from frames that are abreast to frames that are
abreast again: if the script goes on, if its account is within the other limit, and if the nested frames succeed. -/
def Follows (W : Type) [World W] (vm : Vm) (config : Config) (room : Nat) (s : Setting) (gas : Gas)
    (x x' : Session α) : Prop :=
  ∀ (p q : Progress) (f f' g g' : Frame W) (out : Except Halt α) (ending' : Ending (Except Halt α × Progress)),
    Abreast config room s.gasLimit gas p.used f f' → p.used.toNat ≤ s.gasLimit.toNat →
    upshot config (runFrame vm config room) (x.run.run p) f = (.done (out, q), g) →
    upshot config (runFrame vm config room) (x'.run.run p) f' = (ending', g') →
    Proceeds out → q.used.toNat ≤ gas.toNat → g.Thrives → g'.Encodes →
    ending' = .done (out, q) ∧ Abreast config room s.gasLimit gas q.used g g'

theorem follows_of_run {x : Session α} (hx : ∀ p, ∃ r last, x.run.run p = .done (r, { p with last })) :
    Follows W vm config room s gas x x := by
  intro p q f f' g g' out ending' habreast hp hend hend' hproceeds hq hthrives hencodes
  obtain ⟨r, last, hrun⟩ := hx p
  rw [hrun] at hend hend'
  cases hend
  cases hend'
  exact ⟨rfl, habreast⟩

theorem follows_charge (amount : UInt64) :
    Follows W vm config room s gas (charge s amount) (charge (s.grant gas) amount) := by
  intro p q f f' g g' out ending' habreast hp hend hend' hproceeds hq hthrives hencodes
  rw [run_charge] at hend hend'
  by_cases hout : s.gasLimit < Gas.plus p.used amount
  · rw [if_pos hout] at hend
    cases hend
    cases hproceeds
  · rw [if_neg hout] at hend
    cases hend
    have hwithin : ¬ (s.grant gas).gasLimit < Gas.plus p.used amount := by
      rw [UInt64.lt_iff_toNat_lt]
      exact Nat.not_lt_of_le hq
    rw [if_neg hwithin] at hend'
    cases hend'
    exact ⟨rfl, habreast.mono (Gas.le_plus p.used amount)⟩

theorem follows_demand {r : Request} (hr : r.steady = true) :
    Follows W vm config room s gas (demand s r) (demand (s.grant gas) r) := by
  intro p q f f' g g' out ending' habreast hp hend hend' hproceeds hq hthrives hencodes
  have hdemand := upshot_demand config (runFrame vm config room) r hp f
  cases hx : consult config (runFrame vm config room) s p f r with
  | mk x h =>
    rw [hx] at hdemand
    cases hend.symm.trans hdemand
    have hgrown := Gas.le_plus p.used x.reply.gasUsed
    have hused : p.used.toNat ≤ (s.grant gas).gasLimit.toNat := Nat.le_trans hgrown hq
    by_cases hout : s.gasLimit < Gas.plus p.used x.reply.gasUsed
    · rw [if_pos hout] at hproceeds
      cases hproceeds
    · rw [if_neg hout] at hproceeds ⊢
      have hok : x.reply.status = .ok := by
        by_contra hnot
        obtain ⟨halt, htaken, hreturns⟩ := not_proceeds_taken hnot
        rw [htaken] at hproceeds
        exact absurd (hreturns.symm.trans hproceeds) Bool.false_ne_true
      obtain ⟨x', h', hx', hreply, hafter⟩ := (habreast.ready hp hused).answer_steady hr hx hok hq
      have hdemand' := upshot_demand (s := s.grant gas) config (runFrame vm config room) r hused f'
      have hconsult : consult config (runFrame vm config room) (s.grant gas) p f' r = (x', h') := hx'
      have hwithin : ¬ (s.grant gas).gasLimit < Gas.plus p.used x.reply.gasUsed := by
        rw [UInt64.lt_iff_toNat_lt]
        exact Nat.not_lt_of_le hq
      rw [hconsult] at hdemand'
      dsimp only at hdemand'
      rw [hreply, if_neg hwithin] at hdemand'
      cases hend'.symm.trans hdemand'
      exact ⟨rfl, hafter⟩

theorem follows_nested (hroom : room < Wire.maxDepth) (hbelow : Sufficient W vm config room) {r : Request}
    (hr : r.nests = true) (strict : Bool) :
    Follows W vm config room s gas (query s r >>= absorbNested s strict)
      (query (s.grant gas) r >>= absorbNested (s.grant gas) strict) := by
  intro p q f f' g g' out ending' habreast hp hend hend' hproceeds hq hthrives hencodes
  have hnested := upshot_nested config (runFrame vm config room) r strict hp f
  cases hx : consult config (runFrame vm config room) s p f r with
  | mk x h =>
    obtain ⟨⟨out, q⟩, hrun, hgoes, hdone⟩ := run_absorbNested (s := s) strict x.reply p
    rw [hx] at hnested
    dsimp only at hnested
    rw [hrun] at hnested
    cases hend.symm.trans hnested
    obtain ⟨htakes, hout⟩ := hgoes hproceeds
    cases hdone htakes hout
    have hused : p.used.toNat ≤ (s.grant gas).gasLimit.toNat := Nat.le_trans (Gas.le_plus p.used x.reply.gasUsed) hq
    have hnested' := upshot_nested (s := s.grant gas) config (runFrame vm config room) r strict hused f'
    cases hx' : consult config (runFrame vm config room) (s.grant gas) p f' r with
    | mk x' h' =>
      obtain ⟨⟨out', q'⟩, hrun', -, hdone'⟩ := run_absorbNested (s := s.grant gas) strict x'.reply p
      rw [hx'] at hnested'
      dsimp only at hnested'
      rw [hrun'] at hnested'
      cases hend'.symm.trans hnested'
      obtain ⟨hstatus, hgas, houtput, hafter⟩ :=
        (habreast.ready hp hused).answer_nested hroom hbelow hr hx hx' hthrives hencodes hq
      -- The two replies tell of trees with other budgets, but the script looks at the output only.
      have htakes' : Takes strict x'.reply := by
        rw [Takes, hstatus]
        exact htakes
      have hwithin : ¬ (s.grant gas).gasLimit < Gas.plus p.used x'.reply.gasUsed := by
        rw [hgas, UInt64.lt_iff_toNat_lt]
        exact Nat.not_lt_of_le hq
      cases hdone' htakes' hwithin
      rw [hgas, houtput]
      exact ⟨rfl, hafter⟩

theorem Follows.bind {β : Type} {x x' : Session α} {k k' : α → Session β} (hx : Follows W vm config room s gas x x')
    (hk : ∀ a, Follows W vm config room s gas (k a) (k' a)) (haccounts : Accounts s x)
    (haccounts' : ∀ a, Accounts s (k a)) : Follows W vm config room s gas (x >>= k) (x' >>= k') := by
  intro p q f f' g g' out ending' habreast hp hend hend' hproceeds hq hthrives hencodes
  let run : Runner W := runFrame vm config room
  rw [run_bind] at hend hend'
  cases hfirst : upshot config run (x.run.run p) f with
  | mk first h =>
    cases hfirst' : upshot config run (x'.run.run p) f' with
    | mk first' h' =>
      have hkept := Frame.upshot_bind_children hfirst hend
      have hkept' := Frame.upshot_bind_children hfirst' hend'
      rw [Frame.upshot_bind, hfirst] at hend
      rw [Frame.upshot_bind, hfirst'] at hend'
      match first with
      | .crash reason => cases hend
      | .done (.error halt, q₁) =>
        cases hend
        obtain ⟨rfl, hafter⟩ := hx p q f f' g h' (.error halt) first' habreast hp hfirst hfirst' hproceeds hq hthrives
          (hencodes.of_prefix hkept')
        cases hend'
        exact ⟨rfl, hafter⟩
      | .done (.ok a, q₁) =>
        -- What holds of the end holds after the first part already: the account only grows, and what was recorded stays.
        obtain ⟨hgrown, hwithin⟩ := Frame.upshot_yields (haccounts p hp) hfirst trivial
        obtain ⟨hgrown', -⟩ := Frame.upshot_yields (haccounts' a q₁ hwithin) hend hproceeds
        obtain ⟨rfl, hafter⟩ := hx p q₁ f f' h h' (.ok a) first' habreast hp hfirst hfirst' trivial
          (Nat.le_trans hgrown' hq) (hthrives.of_prefix hkept) (hencodes.of_prefix hkept')
        exact hk a q₁ q h h' g g' out ending' hafter hwithin hend hend' hproceeds hq hthrives hencodes

theorem Paired.follows (hroom : room < Wire.maxDepth) (hbelow : Sufficient W vm config room) {own : Bool} {n : Nat}
    {x x' : Session α} (h : Paired own s gas n x x') : Follows W vm config room s gas x x' := by
  induction h with
  | pure a => exact follows_of_run fun p => ⟨.ok a, p.last, rfl⟩
  | throw halt hhalt => exact follows_of_run fun p => ⟨.error halt, p.last, rfl⟩
  | get => exact follows_of_run fun p => ⟨.ok p, p.last, rfl⟩
  | remember b => exact follows_of_run fun _ => ⟨.ok (), b, rfl⟩
  | crash reason =>
    intro p q f f' g g' out ending' habreast hp hend
    cases hend
  | charge amount hown => exact follows_charge amount
  | demand r hr hneutral => exact follows_demand hr
  | nested r strict hr => exact follows_nested hroom hbelow hr strict
  | bind hx hk ihx ihk => exact ihx.bind ihk hx.accounts fun a => (hk a).accounts
  | weaken hx hle ih => exact ih

end Script.Session

/-! ## Ends of frames -/

namespace Script

theorem proceeds_of_status {s : Setting} {p : Progress} {r : Except Halt Unit}
    (h : (output s p (haltOf r)).status = .ok) : Session.Proceeds r := by
  cases r with
  | ok u => trivial
  | error halt =>
    cases halt with
    | ret b => rfl
    | fail | outOfGas | fault => cases h

def returned : Except Halt Unit → Bytes
  | .error (.ret b) => b
  | _ => []

theorem output_of_proceeds {s : Setting} {p : Progress} {r : Except Halt Unit} (h : Session.Proceeds r)
    (hp : p.used.toNat ≤ s.gasLimit.toNat) :
    output s p (haltOf r) = Output.report p.used .ok (returned r) "" := by
  have hleast : Gas.least p.used s.gasLimit = p.used := by
    rw [Gas.least, if_pos (UInt64.le_iff_toNat_le.mpr hp)]
  cases r with
  | ok u => simp only [haltOf, output, hleast, returned]
  | error halt =>
    cases halt with
    | ret b => simp only [haltOf, output, hleast, returned]
    | fail | outOfGas | fault => cases h

variable [World W] {vm : Vm} {config : Config} {room : Nat} {gas gas' : Gas} {f f' g g' : Frame W}
  {ending ending' : Ending Output}

/-- A script that ends well under one gas limit ends in the same way under another one that suffices for it. -/
theorem program_follows (hroom : room < Wire.maxDepth) (hbelow : Sufficient W vm config room) {s : Setting} {code : Bytes}
    {method : String} {required : Bool} (habreast : Frame.Abreast config room s.gasLimit gas 0 f f')
    (hend : Frame.upshot config (runFrame vm config room) (program s (start s code method required)) f = (ending, g))
    (hend' : Frame.upshot config (runFrame vm config room)
      (program (s.grant gas) (start (s.grant gas) code method required)) f' = (ending', g'))
    (hok : (ending.output s.gasLimit).status = .ok) (hfits : (ending.output s.gasLimit).gasUsed.toNat ≤ gas.toNat)
    (hthrives : g.Thrives) (hencodes : g'.Encodes) :
    ∃ used b, ending = .done (Output.report used .ok b "") ∧ ending' = ending ∧ used.toNat ≤ s.gasLimit.toNat ∧
      Frame.Abreast config room s.gasLimit gas used g g' := by
  have hpaired := paired_start s gas code method required
  rw [program_eq] at hend hend'
  cases hfirst : Frame.upshot config (runFrame vm config room) ((start s code method required).run.run {}) f with
  | mk first h =>
    rw [Frame.upshot_bind, hfirst] at hend
    cases first with
    | crash reason =>
      cases hend
      cases hok
    | done last =>
      obtain ⟨r, q⟩ := last
      cases hend
      have hproceeds : Session.Proceeds r := proceeds_of_status hok
      have hstart : (0 : Gas).toNat ≤ s.gasLimit.toNat := Nat.zero_le _
      obtain ⟨-, hwithin⟩ := Frame.upshot_yields (hpaired.accounts {} hstart) hfirst hproceeds
      have houtput := output_of_proceeds hproceeds hwithin
      have hused : q.used.toNat ≤ gas.toNat := by
        change (output s q (haltOf r)).gasUsed.toNat ≤ gas.toNat at hfits
        rw [houtput] at hfits
        exact hfits
      cases hfirst' : Frame.upshot config (runFrame vm config room)
          ((start (s.grant gas) code method required).run.run {}) f' with
      | mk first' h' =>
        have hkept := Frame.upshot_bind_children hfirst' hend'
        obtain ⟨rfl, hafter⟩ := hpaired.follows hroom hbelow {} q f f' g h' r first' habreast hstart hfirst hfirst'
          hproceeds hused hthrives (hencodes.of_prefix hkept)
        rw [Frame.upshot_bind, hfirst'] at hend'
        cases hend'
        have houtput' : output (s.grant gas) q (haltOf r) = Output.report q.used .ok (returned r) "" :=
          output_of_proceeds hproceeds hused
        refine ⟨q.used, returned r, ?_, ?_, hwithin, hafter⟩
        · rw [houtput]
        · rw [houtput, houtput']

theorem vm_follows {cost : Gas} (hroom : room < Wire.maxDepth) (hbelow : Sufficient W vm config room) (i : Invocation)
    (code : Bytes) (habreast : Frame.Abreast config room gas gas' 0 f f')
    (hend : Frame.upshot config (runFrame vm config room) ((Script.vm cost).program i code gas) f = (ending, g))
    (hend' : Frame.upshot config (runFrame vm config room) ((Script.vm cost).program i code gas') f' = (ending', g'))
    (hok : (ending.output gas).status = .ok) (hfits : (ending.output gas).gasUsed.toNat ≤ gas'.toNat)
    (hthrives : g.Thrives) (hencodes : g'.Encodes) :
    ∃ used b, ending = .done (Output.report used .ok b "") ∧ ending' = ending ∧ used.toNat ≤ gas.toNat ∧
      Frame.Abreast config room gas gas' used g g' := by
  cases i with
  | call method args context =>
    let s : Setting := { args := Arguments.unpack args, cost, gasLimit := gas }
    exact program_follows (s := s) hroom hbelow habreast hend hend' hok hfits hthrives hencodes
  | deploy args nonce =>
    let s : Setting := { args := Arguments.unpack args, cost, gasLimit := gas }
    exact program_follows (s := s) hroom hbelow habreast hend hend' hok hfits hthrives hencodes

end Script

/-! ## Frames -/

namespace Frame

theorem le_gasUsed_of_success {f : Frame W} {bound : Nat} {action : Action} {ending : Ending Output}
    (h : (f.conclude bound action ending).1.success = true) :
    (ending.output action.gasLimit).gasUsed.toNat ≤ (f.conclude bound action ending).1.gasUsed.toNat := by
  have hused : (f.conclude bound action ending).1.gasUsed = f.reported (ending.output action.gasLimit) := by
    simp only [conclude, (conclude_success h).1, Bool.false_eq_true, if_false]
  rw [hused, reported, Gas.toNat_greatest]
  split <;> omega

variable {config : Config} {room : Nat} {gas gas' used : Gas} {f f' : Frame W}

theorem reported_of_account {o : Output} (h : f.meter.consumed.toNat ≤ o.gasUsed.toNat) : f.reported o = o.gasUsed := by
  apply UInt64.toNat_inj.mp
  rw [reported, Gas.toNat_greatest]
  split <;> omega

theorem Abreast.conclude (h : Abreast config room gas gas' used f f') {o : Output} (ho : o.gasUsed = used)
    (hused : used.toNat ≤ gas'.toNat) (bound : Nat) (i : Invocation) (amount : Amount)
    (hsuccess : (f.conclude bound (i.action amount gas) (.done o)).1.success = true) :
    (f'.conclude bound (i.action amount gas') (.done o)).1.unbudgeted =
        (f.conclude bound (i.action amount gas) (.done o)).1.unbudgeted ∧
      (f'.conclude bound (i.action amount gas') (.done o)).2 = (f.conclude bound (i.action amount gas) (.done o)).2 := by
  obtain ⟨hout, hok⟩ := conclude_success hsuccess
  have haccount := h.account
  rw [← ho] at haccount hused
  have hreported := reported_of_account haccount
  rw [← h.consumed] at haccount
  have hreported' := reported_of_account haccount
  rw [Invocation.gasLimit_action] at hout
  have hout' : f'.isOut gas' (.done o) = false := by
    obtain ⟨hearlier, -⟩ := Bool.or_eq_false_iff.mp hout
    have hlater : ¬ gas' < f'.reported o := by
      rw [hreported', UInt64.lt_iff_toNat_lt]
      exact Nat.not_lt_of_le hused
    rw [← h.ranOut] at hearlier
    exact Bool.or_eq_false_iff.mpr ⟨hearlier, decide_eq_false hlater⟩
  constructor
  · simp only [Frame.conclude, Invocation.gasLimit_action, Ending.output, hout, hout', hreported, hreported',
      Bool.false_eq_true, if_false, FrameResult.unbudgeted]
    cases i <;> rfl
  · simp only [Frame.conclude, Invocation.gasLimit_action, Ending.output, hout, hout', Bool.false_eq_true, if_false]

end Frame

/-! ## Call trees -/

namespace CallRecord

theorem Resembles.node {r r' : FrameRecord} {ts ts' : List CallRecord}
    (hlabel : r'.result.unbudgeted = r.result.unbudgeted) (h : List.Forall₂ Resembles ts' ts) :
    Resembles (.node r' ts') (.node r ts) := by
  have hchildren : ts'.map (fun t : CallRecord => t.result.unbudgeted) = ts.map fun t : CallRecord => t.result.unbudgeted := by
    induction h with
    | nil => rfl
    | cons ht hts ih => rw [List.map_cons, List.map_cons, ht, ih]
  simp only [Resembles, result, ResultTree.unbudgeted, Tree.map, Tree.mapAll_eq_map, List.map_map, hlabel]
  exact congrArg (Tree.node r.result.unbudgeted) hchildren

end CallRecord

theorem Frame.abreast_start {config : Config} {room : Nat} {s : Scope W} {before entered : CallStack} {amount : Nat}
    (hstack : before.InOrder config (room + 1)) (henter : before.enter s.own.contract s.own.caller amount = .ok entered)
    {gas gas' : Gas} (hprice : Amount.Fits (s.chain.minFeePerGas * max gas.toNat gas'.toNat)) :
    Abreast config room gas gas' 0 (.start s entered gas) (.start s entered gas') where
  scope := rfl
  stack := rfl
  consumed := rfl
  account := Nat.le_refl _
  cap := rfl
  cap' := rfl
  inOrder := inOrder_start hstack henter gas
  inOrder' := inOrder_start hstack henter gas'
  ranOut := rfl
  children := .nil
  price := hprice

variable [World W]

theorem runEntered_of_upshot {vm : Vm} {config : Config} {run : Runner W} {entered : CallStack} {s : Scope W}
    {i : Invocation} {gas : Gas} {ending : Ending Output} {g : Frame W}
    (h : Frame.upshot config run (vm.program i s.own.code gas) (.start s entered gas) = (ending, g)) (stack : CallStack)
    (amount : Amount) :
    let (result, status) := g.conclude config.maxArgsLength.toNat (i.action amount gas) ending
    let o := runEntered vm config run entered s stack i amount gas
    ∃ passage, o.world = g.scope.world ∧ o.record = .node { result, status, passage } g.children := by
  obtain rfl : (Frame.upshot config run (vm.program i s.own.code gas) (.start s entered gas)).1 = ending := by rw [h]
  obtain rfl : (Frame.upshot config run (vm.program i s.own.code gas) (.start s entered gas)).2 = g := by rw [h]
  exact ⟨_, rfl, rfl⟩

theorem runEntered_sufficient {cost : Gas} {config : Config} {room : Nat} (hroom : room < Wire.maxDepth)
    (hbelow : Sufficient W (Script.vm cost) config room) {s : Scope W} {stack entered : CallStack} {i : Invocation}
    {amount : Amount} {gas gas' : Gas} (hstack : stack.InOrder config (room + 1))
    (henter : stack.enter s.own.contract s.own.caller amount = .ok entered)
    (hprice : Amount.Fits (s.chain.minFeePerGas * max gas.toNat gas'.toNat)) :
    let run := runFrame (Script.vm cost) config room
    let o := runEntered (Script.vm cost) config run entered s stack i amount gas
    let o' := runEntered (Script.vm cost) config run entered s stack i amount gas'
    o.record.Thriving → o.record.Encodable → o'.record.Encodable → o.record.gasUsed.toNat ≤ gas'.toNat → o.Matches o' := by
  intro run o o' hthriving hencodable hencodable' hfits
  have hstart := Frame.abreast_start hstack henter hprice
  cases hend : Frame.upshot config run ((Script.vm cost).program i s.own.code gas) (.start s entered gas) with
  | mk ending g =>
    cases hend' : Frame.upshot config run ((Script.vm cost).program i s.own.code gas') (.start s entered gas') with
    | mk ending' g' =>
      obtain ⟨passage, hworld, hrecord⟩ := runEntered_of_upshot hend stack amount
      obtain ⟨passage', hworld', hrecord'⟩ := runEntered_of_upshot hend' stack amount
      change o.record = _ at hrecord
      change o'.record = _ at hrecord'
      rw [hrecord] at hthriving hencodable hfits
      rw [hrecord'] at hencodable'
      have hthrives : g.Thrives := fun t ht => ⟨hthriving.child ht, hencodable.child ht⟩
      have hencodes : g'.Encodes := fun t ht => hencodable'.child ht
      have hsuccess := hthriving _ (Tree.self_mem_subtrees _)
      obtain ⟨-, hok⟩ := Frame.conclude_success hsuccess
      have hused := Nat.le_trans (Frame.le_gasUsed_of_success hsuccess) hfits
      rw [Invocation.gasLimit_action] at hok hused
      obtain ⟨used, b, rfl, rfl, -, hafter⟩ := Script.vm_follows hroom hbelow i s.own.code hstart hend hend' hok hused
        hthrives hencodes
      obtain ⟨hresult, hstatus⟩ := hafter.conclude rfl hused config.maxArgsLength.toNat i amount hsuccess
      refine ⟨?_, ?_, ?_⟩
      · exact hworld'.trans ((congrArg Scope.world hafter.scope).trans hworld.symm)
      · rw [hrecord, hrecord']
        exact .node hresult hafter.children
      · rw [hrecord, hrecord']
        exact hstatus

/-- A frame with room for no more frames below it than results can be nested needs no more gas than it uses. -/
theorem runFrame_sufficient {cost : Gas} {config : Config} (hdepth : config.maxCallDepth.toNat < Wire.maxDepth)
    (room : Nat) : Sufficient W (Script.vm cost) config room := by
  induction room with
  | zero =>
    -- A frame that is not entered has not succeeded.
    intro s stack i amount gas gas' hstack hprice o o' hthriving
    exact absurd hthriving (CallRecord.not_thriving_refused _ _ _)
  | succ room ih =>
    intro s stack i amount gas gas' hstack hprice
    have hroom := hstack.room
    simp only [runFrame]
    cases henter : stack.enter s.own.contract s.own.caller amount with
    | error e =>
      intro hthriving
      exact absurd hthriving (CallRecord.not_thriving_refused _ _ _)
    | ok entered => exact runEntered_sufficient (by omega) ih hstack henter hprice

/-! ## Orders -/

namespace Order

def withGas (gas : UInt64) : Order → Order
  | execute o => execute { o with gasLimit := gas }
  | deploy o => deploy { o with gasLimit := gas }

@[simp] theorem check_withGas (limits : InputLimits) (gas : Gas) (order : Order) :
    (order.withGas gas).check limits = order.check limits := by
  cases order <;> rfl

@[simp] theorem scope_withGas (config : Config) (store : Store) (world : W) (gas : Gas) (order : Order) :
    (order.withGas gas).scope config store world = order.scope config store world := by
  cases order <;> rfl

@[simp] theorem deployed_withGas (gas : Gas) (order : Order) : (order.withGas gas).deployed = order.deployed := by
  cases order <;> rfl

end Order

/-- A completion of which the result has a length that can be written. -/
def Completion.Storable (c : Completion) : Prop :=
  ∀ outcome, c.answer = .ok outcome → outcome.resultBytes.length < 2 ^ 64

instance (c : Completion) : Decidable c.Storable :=
  decidable_of_iff (∀ outcome ∈ c.answer.toOption, outcome.resultBytes.length < 2 ^ 64) <| by
    rw [Completion.Storable]
    cases c.answer with
    | error e => simp [Except.toOption]
    | ok outcome => simp [Except.toOption]

namespace Host

variable {h : Host} {store : Store} {order : Order}

theorem outermost_withGas (gas : Gas) (s : Scope W) : h.outermost (order.withGas gas) s =
    runFrame h.vm h.config h.config.maxCallDepth.toNat s h.stack order.invocation order.amount gas := by
  cases order <;> rfl

theorem finish_of_open (hopen : store.refusal = none) {o : FrameOutcome Layers} (hok : o.record.success = true)
    (deployed : Option Address) :
    finish store o deployed =
      { answer := .ok (o.tell o.world.own.events deployed)
        store := { store with ledger := store.ledger.apply o.world.own }
        record := some o.record } := by
  simp only [finish, Store.apply, hopen, hok, if_true]

theorem finish_tells (hopen : store.refusal = none) (o : FrameOutcome Layers) (deployed : Option Address) :
    ∃ events deployed', (finish store o deployed).answer = .ok (o.tell events deployed') := by
  cases hok : o.record.success with
  | true => exact ⟨_, _, by rw [finish_of_open hopen hok]⟩
  | false => exact ⟨_, _, by rw [finish_failed hok]⟩

theorem scope_of_success {outcome : Outcome} (hanswer : (h.carryOut store order).answer = .ok outcome)
    (hsuccess : outcome.success = true) :
    store.refusal = none ∧ order.check h.config.limits = .ok () ∧
      ∃ s, order.scope h.config store (Layers.ofLedger store.ledger) = .ok s := by
  cases hcheck : order.check h.config.limits with
  | error e =>
    rw [carryOut_def, hcheck] at hanswer
    cases hanswer
  | ok u =>
    cases hscope : order.scope h.config store (Layers.ofLedger store.ledger) with
    | error why =>
      rw [carryOut_def, hcheck] at hanswer
      dsimp only at hanswer
      rw [hscope] at hanswer
      cases hanswer
      cases hsuccess
    | ok s =>
      refine ⟨?_, rfl, s, rfl⟩
      rw [carryOut_of_scope hcheck hscope] at hanswer
      cases hrefusal : store.refusal with
      | none => rfl
      | some reason =>
        cases hok : (h.outermost order s).record.success with
        | true =>
          rw [finish_refusing hrefusal hok] at hanswer
          cases hanswer
        | false =>
          rw [finish_failed hok] at hanswer
          cases hanswer
          rw [FrameOutcome.success_tell, hok] at hsuccess
          cases hsuccess

theorem outermost_matches {cost : Gas} (hvm : h.vm = Script.vm cost) (hdepth : h.config.maxCallDepth.toNat ≤ 64)
    {s : Scope W} {gas : Gas} (hprice : Amount.Fits (s.chain.minFeePerGas * max order.gasLimit.toNat gas.toNat))
    (hthriving : (h.outermost order s).record.Thriving) (hencodable : (h.outermost order s).record.Encodable)
    (hencodable' : (h.outermost (order.withGas gas) s).record.Encodable)
    (hused : (h.outermost order s).record.gasUsed.toNat ≤ gas.toNat) :
    (h.outermost order s).Matches (h.outermost (order.withGas gas) s) := by
  have hlevels : h.config.maxCallDepth.toNat < Wire.maxDepth := Nat.lt_of_le_of_lt hdepth (by decide)
  have hsufficient : Sufficient W h.vm h.config h.config.maxCallDepth.toNat := by
    rw [hvm]
    exact runFrame_sufficient hlevels _
  rw [outermost_withGas] at hencodable' ⊢
  exact hsufficient s h.stack order.invocation order.amount order.gasLimit gas h.stack_inOrder hprice hthriving hencodable
    hencodable' hused

/-- An order on scripts that succeeds with all its nested frames comes to the same under every gas limit that is not below
what it has used, but for the gas limits of the frames and what is left of them. -/
theorem carryOut_sufficient (h : Host) (store : Store) (order : Order) (gas : Gas) {cost : Gas}
    (hvm : h.vm = Script.vm cost) (hdepth : h.config.maxCallDepth.toNat ≤ 64)
    (hprice : Amount.Fits (store.ledger.chain.minFeePerGas * max order.gasLimit.toNat gas.toNat))
    {outcome : Outcome} (hanswer : (h.carryOut store order).answer = .ok outcome)
    (hsuccess : ∀ u ∈ outcome.result.subtrees, u.label.success = true) (hused : outcome.gasUsed.toNat ≤ gas.toNat)
    (hstorable : (h.carryOut store order).Storable) (hstorable' : (h.carryOut store (order.withGas gas)).Storable) :
    (h.carryOut store (order.withGas gas)).store = (h.carryOut store order).store ∧
      ∃ outcome', (h.carryOut store (order.withGas gas)).answer = .ok outcome' ∧
        outcome'.success = true ∧ outcome'.status = outcome.status ∧ outcome'.gasUsed = outcome.gasUsed ∧
        outcome'.output = outcome.output ∧ outcome'.events = outcome.events ∧ outcome'.deployed = outcome.deployed ∧
        outcome'.result.unbudgeted = outcome.result.unbudgeted := by
  obtain ⟨hopen, hcheck, s, hscope⟩ := scope_of_success hanswer (hsuccess _ (Tree.self_mem_subtrees _))
  let o := h.outermost order s
  let o' := h.outermost (order.withGas gas) s
  have hc : h.carryOut store order = finish store o order.deployed := carryOut_of_scope hcheck hscope
  have hc' : h.carryOut store (order.withGas gas) = finish store o' (order.withGas gas).deployed := by
    apply carryOut_of_scope
    · rw [Order.check_withGas, hcheck]
    · rw [Order.scope_withGas, hscope]
  rw [Order.deployed_withGas] at hc'
  rw [hc] at hanswer hstorable ⊢
  rw [hc'] at hstorable' ⊢
  obtain ⟨events, deployed, htold⟩ := finish_tells hopen o order.deployed
  obtain ⟨events', deployed', htold'⟩ := finish_tells hopen o' order.deployed
  cases hanswer.symm.trans htold
  have hthriving : o.record.Thriving := CallRecord.thriving_of_result hsuccess
  have hok : o.record.success = true := hthriving _ (Tree.self_mem_subtrees _)
  rw [FrameOutcome.gasUsed_tell] at hused
  rw [← (Order.scope_ok hscope).store] at hprice
  have hmatches : o.Matches o' := outermost_matches hvm hdepth hprice hthriving (hstorable _ htold) (hstorable' _ htold') hused
  have hok' : o'.record.success = true := hmatches.record.success.trans hok
  rw [finish_of_open hopen hok] at hanswer ⊢
  rw [finish_of_open hopen hok', hmatches.world]
  cases hanswer
  refine ⟨rfl, _, rfl, ?_, hmatches.status, ?_, ?_, rfl, rfl, hmatches.record⟩
  · rw [FrameOutcome.success_tell, hok']
  · rw [FrameOutcome.gasUsed_tell, FrameOutcome.gasUsed_tell, hmatches.record.gasUsed]
  · rw [FrameOutcome.output_tell, FrameOutcome.output_tell, hmatches.record.output]

end Host

/-- A ledger with a script that calls itself and offers the call more gas than it needs. -/
def Ledger.offering : Ledger :=
  { chain := { minFeePerGas := 1 }
    accounts := OrderedMap.empty.insert .zero
      { code := some (Bytes.ofText
          "fn run\n self\n call $last step 500\n emit told $last\n return $last\nfn step\n store k v\n return ok") } }

/-- The script uses seven of a thousand units, so seven suffice, though its call is then granted less than it is offered. -/
theorem Host.scripts_sufficient :
    ∃ outcome outcome', (scripts.carryOut { ledger := .offering } (.execute .atZero)).answer = .ok outcome ∧
      (scripts.carryOut { ledger := .offering } (Order.withGas 7 (.execute .atZero))).answer = .ok outcome' ∧
      outcome'.success = true ∧ outcome'.output = outcome.output ∧
      outcome'.result.unbudgeted = outcome.result.unbudgeted := by
  have hran : (scripts.carryOut { ledger := .offering } (.execute .atZero)).answer.toOption.any
      (fun outcome => outcome.result.subtrees.all (fun u : ResultTree => u.label.success) && outcome.gasUsed.toNat ≤ 7) =
        true := by decide +kernel
  cases hanswer : (scripts.carryOut { ledger := .offering } (.execute .atZero)).answer with
  | error e =>
    rw [hanswer] at hran
    cases hran
  | ok outcome =>
    rw [hanswer] at hran
    obtain ⟨hsuccess, hused⟩ := Bool.and_eq_true_iff.mp hran
    obtain ⟨-, outcome', hanswer', hsuccess', -, -, houtput, -, -, hresult⟩ :=
      scripts.carryOut_sufficient { ledger := .offering } (.execute .atZero) 7 rfl (by decide) (by decide) hanswer
        (List.all_eq_true.mp hsuccess) (of_decide_eq_true hused) (by decide +kernel) (by decide +kernel)
    exact ⟨outcome, outcome', rfl, hanswer', hsuccess', houtput, hresult⟩

end ContractHost
