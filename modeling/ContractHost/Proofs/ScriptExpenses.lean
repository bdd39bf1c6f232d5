import ContractHost.Proofs.FaithfulRecords
import ContractHost.Proofs.ScriptAccounts
/-!
# What a script has spent

A script spends gas in three ways: every line that it steps through has a cost, some instructions spend gas of their own,
and the host charges for requests. If the script comes to its end or to a return, then its account is the sum of the
three, held at the largest figure. The first two are read off the lines; for the third it is what the replies have told.

On the way every request without a nested frame has been met, since the script would have stopped at any other reply.
-/
namespace ContractHost

theorem Decimal.word?_lt {width : Nat} {digits : List Char} {n : Nat} (h : word? width digits = some n) :
    n < 2 ^ width := by
  rw [word?] at h
  split at h
  · split at h
    next hlt =>
      cases h
      exact hlt
    next => cases h
  · cases h

namespace Gas

theorem saturate_toNat (a : UInt64) : saturate a.toNat = a :=
  UInt64.toNat_inj.mp (toNat_saturate_of_le (toNat_le_most a))

/-- A sum that is held at the largest figure is not freed by what is added to it. -/
theorem saturate_add (m n : Nat) : saturate ((saturate m).toNat + n) = saturate (m + n) := by
  apply UInt64.toNat_inj.mp
  have hfirst := toNat_saturate m
  have hthen := toNat_saturate ((saturate m).toNat + n)
  have hall := toNat_saturate (m + n)
  split at hfirst <;> split at hthen <;> split at hall <;> omega

theorem saturate_congr {m n : Nat} (h : saturate m = saturate n) (k : Nat) : saturate (k + m) = saturate (k + n) := by
  rw [Nat.add_comm, ← saturate_add, h, saturate_add, Nat.add_comm]

end Gas

/-! ## Programs in a row -/

theorem Program.Course.of_bind {α β : Type} {p : Program α} {k : α → Program β} {xs : List Exchange} {b : β}
    (h : (p.bind k).Course xs (.done b)) :
    ∃ a ys zs, xs = ys ++ zs ∧ p.Course ys (.done a) ∧ (k a).Course zs (.done b) := by
  induction p generalizing xs with
  | done a => exact ⟨a, [], xs, rfl, .done a, h⟩
  | crash reason => cases h
  | ask r next ih =>
    cases h with
    | ask x next h =>
      obtain ⟨a, ys, zs, rfl, hfirst, hrest⟩ := ih x.reply h
      exact ⟨a, x :: ys, zs, rfl, .ask x next hfirst, hrest⟩

theorem CallRecord.repliedGas_append (xs ys : List Exchange) :
    repliedGas (xs ++ ys) = repliedGas xs + repliedGas ys :=
  sumOf_append _ xs ys

namespace Script

/-! ## What is read off the lines -/

/-- The gas that an instruction spends of its own. -/
def Instruction.spent : Instruction → Nat
  | .spend amount => (Decimal.word? 64 amount.toList).getD 0
  | _ => 0

def Instruction.returns : Instruction → Bool
  | .ret _ => true
  | _ => false

/-- The gas that the instruction on a line spends of its own. -/
def spentOn (line : List Char) : Nat :=
  ((Instruction.ofLine? line).map Instruction.spent).getD 0

def returnsOn (line : List Char) : Bool :=
  ((Instruction.ofLine? line).map Instruction.returns).getD false

/-- The lines that a script steps through that nothing else stops than its return. -/
def stepped : List (List Char) → List (List Char)
  | [] => []
  | line :: rest => line :: if returnsOn line then [] else stepped rest

/-- What a script spends of its own: the cost of every line that it steps through, and what the instructions spend. -/
def ownExpenses (cost : Gas) (lines : List (List Char)) : Nat :=
  cost.toNat * (stepped lines).length + sumOf spentOn (stepped lines)

theorem ownExpenses_cons (cost : Gas) (line : List Char) (rest : List (List Char)) :
    ownExpenses cost (line :: rest) =
      cost.toNat + spentOn line + if returnsOn line then 0 else ownExpenses cost rest := by
  simp only [ownExpenses, stepped, List.length_cons, sumOf_cons, Nat.mul_add, Nat.mul_one]
  cases returnsOn line with
  | true => simp
  | false =>
    simp only [Bool.false_eq_true, if_false]
    omega

namespace Session

variable {α β : Type} {s : Setting} {gas : Gas} {m n : Nat} {goesOn : Bool}

/-! ## Parts of scripts -/

/-- What is said of a part of a script that went from `p` to `q` with exchanges `xs`: the account has grown by `own` and
by what the replies have told, and every request without a nested frame was met. -/
structure Spent (own : Nat) (p : Progress) (xs : List Exchange) (q : Progress) : Prop where
  used : q.used = Gas.saturate (p.used.toNat + own + CallRecord.repliedGas xs)
  met : ∀ x ∈ xs, x.request.nests = false → x.reply.status = .ok

theorem Spent.trans {p q r : Progress} {xs ys : List Exchange} (h : Spent m p xs q) (h' : Spent n q ys r) :
    Spent (m + n) p (xs ++ ys) r where
  used := by
    rw [h'.used, h.used, Nat.add_assoc, Gas.saturate_add, CallRecord.repliedGas_append]
    congr 1
    omega
  met x hx := (List.mem_append.mp hx).elim (h.met x) (h'.met x)

theorem spent_refl (p : Progress) (last : Bytes) : Spent 0 p [] { p with last } where
  used := by rw [Nat.add_zero, CallRecord.repliedGas, sumOf_nil, Nat.add_zero, Gas.saturate_toNat]
  met _ hx := absurd hx List.not_mem_nil

/-- A part of a script that spends `own` whenever the script proceeds through it, which is when it goes on to the next
part or when it returns, as is said. -/
def Spends (own : Nat) (goesOn : Bool) (x : Session α) : Prop :=
  ∀ p xs out q, (x.run.run p).Course xs (.done (out, q)) → Proceeds out → Spent own p xs q ∧ out.isOk = goesOn

theorem spends_of_run {x : Session α}
    (hx : ∀ p, ∃ out q, x.run.run p = .done (out, q) ∧ (Proceeds out → Spent m p [] q ∧ out.isOk = goesOn)) :
    Spends m goesOn x := by
  intro p xs out q hcourse
  obtain ⟨out', q', hrun, hspent⟩ := hx p
  rw [hrun] at hcourse
  cases hcourse
  exact hspent

theorem spends_pure (a : α) : Spends 0 true (pure a : Session α) :=
  spends_of_run fun p => ⟨.ok a, p, rfl, fun _ => ⟨spent_refl p p.last, rfl⟩⟩

theorem spends_get : Spends 0 true get :=
  spends_of_run fun p => ⟨.ok p, p, rfl, fun _ => ⟨spent_refl p p.last, rfl⟩⟩

theorem spends_remember (b : Bytes) : Spends 0 true (remember b) :=
  spends_of_run fun p => ⟨.ok (), { p with last := b }, rfl, fun _ => ⟨spent_refl p b, rfl⟩⟩

theorem spends_ret (b : Bytes) : Spends 0 false (throw (.ret b) : Session α) :=
  spends_of_run fun p => ⟨.error (.ret b), p, rfl, fun _ => ⟨spent_refl p p.last, rfl⟩⟩

theorem spends_throw {halt : Halt} (hhalt : halt.returns = false) : Spends m goesOn (throw halt : Session α) := by
  refine spends_of_run fun p => ⟨.error halt, p, rfl, fun hproceeds => ?_⟩
  have hreturns : halt.returns = true := hproceeds
  rw [hhalt] at hreturns
  cases hreturns

theorem spends_crash (reason : Option String) :
    Spends m goesOn (ExceptT.lift (StateT.lift (.crash reason)) : Session α) := by
  intro p xs out q hcourse
  cases hcourse

theorem spends_charge (s : Setting) (amount : Gas) : Spends amount.toNat true (charge s amount) := by
  refine spends_of_run fun p => ⟨_, _, run_charge s amount p, fun hproceeds => ?_⟩
  by_cases hout : s.gasLimit < Gas.plus p.used amount
  · rw [if_pos hout] at hproceeds
    cases hproceeds
  · rw [if_neg hout]
    refine ⟨⟨?_, fun _ hx => absurd hx List.not_mem_nil⟩, rfl⟩
    rw [CallRecord.repliedGas, sumOf_nil, Nat.add_zero, Gas.plus]

theorem Spends.bind {x : Session α} {k : α → Session β} (hx : Spends m true x) (hk : ∀ a, Spends n goesOn (k a)) :
    Spends (m + n) goesOn (x >>= k) := by
  intro p xs out q hcourse hproceeds
  rw [run_bind] at hcourse
  obtain ⟨⟨first, r⟩, ys, zs, rfl, hfirst, hrest⟩ := hcourse.of_bind
  cases first with
  | error halt =>
    -- The first part does not return, so nothing proceeds through both.
    cases hrest
    obtain ⟨-, hgoesOn⟩ := hx p ys _ _ hfirst hproceeds
    cases hgoesOn
  | ok a =>
    obtain ⟨hspent, -⟩ := hx p ys _ _ hfirst trivial
    obtain ⟨hspent', hgoesOn⟩ := hk a r zs _ _ hrest hproceeds
    exact ⟨hspent.trans hspent', hgoesOn⟩

theorem Spends.return {x : Session α} (hx : Spends m false x) (k : α → Session β) : Spends m false (x >>= k) := by
  intro p xs out q hcourse hproceeds
  rw [run_bind] at hcourse
  obtain ⟨⟨first, r⟩, ys, zs, rfl, hfirst, hrest⟩ := hcourse.of_bind
  cases first with
  | error halt =>
    cases hrest
    rw [List.append_nil]
    exact ⟨(hx p ys _ _ hfirst hproceeds).1, rfl⟩
  | ok a =>
    obtain ⟨-, hgoesOn⟩ := hx p ys _ _ hfirst trivial
    cases hgoesOn

theorem spends_reading {f : Progress → Except Halt α} (hstops : ∀ p, Stops (f p)) {k : α → Session β}
    (hk : ∀ p a, f p = .ok a → Spends n goesOn (k a)) : Spends n goesOn (Session.read f >>= k) := by
  rw [Session.read, bind_assoc, ← Nat.zero_add n]
  apply spends_get.bind
  intro p
  have hstop := hstops p
  cases hp : f p with
  | error halt =>
    show Spends n goesOn (throw halt : Session β)
    exact spends_throw (hstop halt hp)
  | ok a => exact hk p a hp

/-! ## Requests -/

/-- A session that proceeds after a reply only if the request was met, or if it was one for a nested frame. -/
def Insists (r : Request) (k : Reply → Session α) : Prop :=
  ∀ reply p out q, (k reply).run.run p = .done (out, q) → Proceeds out →
    out.isOk = true ∧ (r.nests = false → reply.status = .ok)

theorem spends_request {r : Request} {k : Reply → Session α} (hk : TakesIn s k) (hinsists : Insists r k) :
    Spends 0 true (request r >>= k) := by
  intro p xs out q hcourse hproceeds
  have hrun : (request r >>= k).run.run p = .ask r fun reply => (k reply).run.run p := by
    rw [run_bind]
    rfl
  rw [hrun] at hcourse
  cases hcourse with
  | ask x _ hrest =>
    obtain ⟨out', last, hafter, -⟩ := hk x.reply p
    dsimp only at hrest
    rw [hafter] at hrest
    cases hrest
    obtain ⟨hok, hmet⟩ := hinsists x.reply p _ _ hafter hproceeds
    refine ⟨⟨?_, ?_⟩, hok⟩
    · rw [CallRecord.repliedGas, sumOf_cons, sumOf_nil, Nat.add_zero, Nat.add_zero, Gas.plus]
    · intro y hy hnests
      cases List.mem_singleton.mp hy
      exact hmet hnests

theorem insists_absorb (s : Setting) (r : Request) : Insists r (absorb s) := by
  intro reply p out q hrun hproceeds
  rw [run_absorb] at hrun
  cases hrun
  by_cases hout : s.gasLimit < Gas.plus p.used reply.gasUsed
  · rw [if_pos hout] at hproceeds
    cases hproceeds
  · rw [if_neg hout] at hproceeds ⊢
    by_cases hstatus : reply.status = .ok
    · rw [taken_of_ok hstatus]
      exact ⟨rfl, fun _ => hstatus⟩
    · obtain ⟨halt, htaken, hreturns⟩ := not_proceeds_taken hstatus
      rw [htaken] at hproceeds
      have hreturned : halt.returns = true := hproceeds
      rw [hreturns] at hreturned
      cases hreturned

theorem insists_discard (s : Setting) (r : Request) : Insists r fun reply => discard (absorb s reply) := by
  intro reply p out q hrun hproceeds
  obtain ⟨first, last, hfirst, -⟩ := takesIn_absorb s reply p
  dsimp only at hrun
  rw [discard_eq, run_bind, hfirst] at hrun
  cases first with
  | error halt =>
    cases hrun
    exact insists_absorb s r reply p (.error halt) _ hfirst hproceeds
  | ok v =>
    cases hrun
    exact insists_absorb s r reply p (.ok v) _ hfirst trivial

theorem insists_absorbNested (s : Setting) (strict : Bool) {r : Request} (hr : r.nests = true) :
    Insists r (absorbNested s strict) := by
  intro reply p out q hrun hproceeds
  obtain ⟨out', hrun', htakes, hgoes⟩ := run_absorbNested (s := s) strict reply p
  rw [hrun'] at hrun
  cases hrun
  obtain ⟨htaken, hfits⟩ := htakes hproceeds
  cases hgoes htaken hfits
  exact ⟨rfl, fun hsteady => absurd (hr.symm.trans hsteady) Bool.noConfusion⟩

theorem spends_query {r : Request} {k : Reply → Session α} (hk : TakesIn s k) (hinsists : Insists r k) :
    Spends 0 true (query s r >>= k) := by
  have hsync : Spends 0 true (sync s) := by
    apply Spends.bind (n := 0) spends_get
    intro p
    exact spends_request (takesIn_discard s) (insists_discard s _)
  rw [query, bind_assoc]
  exact hsync.bind (n := 0) fun _ => spends_request hk hinsists

/-! ## Instructions -/

/-- A part of a script without an account of its own spends nothing, and it does not return. -/
theorem Paired.spends {x x' : Session α} (h : Paired false s gas n x x') : Spends 0 true x := by
  induction h with
  | pure a => exact spends_pure a
  | throw halt hhalt => exact spends_throw (hhalt.resolve_left nofun)
  | crash reason => exact spends_crash reason
  | get => exact spends_get
  | remember b => exact spends_remember b
  | charge amount hown => cases hown
  | demand r hr hneutral => exact spends_query (takesIn_absorb _) (insists_absorb _ r)
  | nested r strict hr => exact spends_query (takesIn_absorbNested _ strict) (insists_absorbNested _ strict hr)
  | bind hx hf ihx ihf => exact ihx.bind (n := 0) ihf
  | weaken hx hle ih => exact ih

end Session

open Session (Spends)

variable {s : Setting}

theorem spends_perform (i : Instruction) : Spends i.spent (!i.returns) (Session.perform s i) := by
  cases hi : i.isPlain with
  | true =>
    have hpaired : Session.Paired false s 0 6 _ _ := Session.paired_perform i (.inr hi)
    have hspends := hpaired.spends
    cases i with
    | spend | ret => cases hi
    | _ => exact hspends
  | false =>
    cases i with
    | spend amount =>
      apply Session.spends_reading fun _ => stops_gasFigure "amount" amount
      intro _ gas hgas
      have hspent : (Instruction.spend amount).spent = gas.toNat := by
        simp only [gasFigure] at hgas
        split at hgas
        next n hn =>
          cases hgas
          rw [Instruction.spent, hn]
          exact (Nat.mod_eq_of_lt (Decimal.word?_lt hn)).symm
        next => cases hgas
      rw [hspent]
      exact Session.spends_charge s gas
    | ret value =>
      cases value with
      | none => exact Session.spends_get.bind (n := 0) fun p => Session.spends_ret p.last
      | some value =>
        exact Session.spends_reading (stops_operand s · value) fun _ b _ => Session.spends_ret b
    | _ => cases hi

theorem spends_step (line : List Char) :
    Spends (s.cost.toNat + spentOn line) (!returnsOn line) (Session.step s line) := by
  apply (Session.spends_charge s s.cost).bind
  intro _
  rw [spentOn, returnsOn]
  cases Instruction.ofLine? line with
  | some i => exact spends_perform i
  | none => exact Session.spends_throw rfl

theorem spends_runLines (lines : List (List Char)) :
    Spends (ownExpenses s.cost lines) (lines.all fun line => !returnsOn line) (Session.runLines s lines) := by
  induction lines with
  | nil => exact Session.spends_pure ()
  | cons line rest ih =>
    have hstep : Spends _ _ (Session.step s line) := spends_step line
    rw [ownExpenses_cons, List.all_cons]
    show Spends _ _ (Session.step s line >>= fun _ => Session.runLines s rest)
    cases hreturns : returnsOn line with
    | true =>
      rw [hreturns] at hstep
      exact hstep.return _
    | false =>
      rw [hreturns] at hstep
      exact hstep.bind fun _ => ih

/-- A script that comes to its end or to a return has spent what its lines say and what the replies have told. -/
theorem account_spent (cost : Gas) (i : Invocation) (code : Bytes) (gas : Gas) {xs : List Exchange}
    {out : Except Halt Unit} {q : Progress} (h : (account cost i code gas).Course xs (.done (out, q)))
    (hproceeds : Session.Proceeds out) :
    Session.Spent (ownExpenses cost (linesOf code (methodOf i))) {} xs q := by
  have hstart : ∀ required, ∃ goesOn,
      Spends (ownExpenses cost (linesOf code (methodOf i))) goesOn
        (start (settingOf cost i gas) code (methodOf i) required) := by
    intro required
    simp only [start, linesOf]
    cases Bytes.text? code with
    | none => exact ⟨true, Session.spends_throw rfl⟩
    | some source =>
      dsimp only
      cases lookUp source.toList (methodOf i).toList with
      | some body => exact ⟨_, spends_runLines (s := settingOf cost i gas) body⟩
      | none =>
        cases required with
        | true => exact ⟨true, Session.spends_throw rfl⟩
        | false => exact ⟨true, Session.spends_pure ()⟩
  obtain ⟨goesOn, hspends⟩ := hstart _
  exact (hspends {} xs out q h hproceeds).1

end Script

end ContractHost
