import ContractHost.Proofs.Flow
import ContractHost.Script
/-!
# What a script does with its gas limit

A session looks at the gas limit in three ways only: it stops when its account passes the limit, it tells the host what is
left before a request, and it offers what is left to the frames it asks for. `Session.Paired` says so of two sessions
that are the same but for the limit, by the parts that they are made of. The instructions are gone through once, here;
what is said of paired sessions is then shown part by part.

The parts are counted by the requests that they make, which gives the bound on the requests of a script.
-/
namespace ContractHost

instance : LawfulMonad Program :=
  .mk' Program Program.bind_done (fun _ _ => rfl) Program.bind_assoc

/-- Whether a request neither asks for a nested frame nor has to do with the gas that is left. -/
def Request.steady : Request → Bool
  | .setRemainingGas _ | .fact .gasLimit | .fact .gasLeft | .call _ _ _ _ _ _ | .deploy _ _ _ _ _ => false
  | _ => true

def Request.nests : Request → Bool
  | .call _ _ _ _ _ _ | .deploy _ _ _ _ _ => true
  | _ => false

def Invocation.args : Invocation → Bytes
  | .call _ args _ => args
  | .deploy args _ => args

/-! ## Programs -/

namespace Program

variable {α β : Type}

/-- A program that makes at most `n` requests, whatever it is told. -/
def AtMost : Nat → Program α → Prop
  | _, .done _ => True
  | _, .crash _ => True
  | 0, .ask _ _ => False
  | n + 1, .ask _ next => ∀ reply, AtMost n (next reply)

/-- A program all results of which satisfy a condition, whatever it is told. -/
def Yields (P : α → Prop) : Program α → Prop
  | .done a => P a
  | .crash _ => True
  | .ask _ next => ∀ reply, Yields P (next reply)

theorem atMost_done (a : α) (n : Nat) : (Program.done a).AtMost n := by
  cases n <;> trivial

theorem atMost_crash (reason : Option String) (n : Nat) : (Program.crash reason : Program α).AtMost n := by
  cases n <;> trivial

theorem AtMost.mono {m n : Nat} {p : Program α} (h : p.AtMost m) (hle : m ≤ n) : p.AtMost n := by
  induction p generalizing m n with
  | done a => exact atMost_done a n
  | crash reason => exact atMost_crash reason n
  | ask r next ih =>
    cases m with
    | zero => cases h
    | succ m =>
      obtain ⟨n, rfl⟩ : ∃ k, n = k + 1 := ⟨n - 1, by omega⟩
      exact fun reply => ih reply (h reply) (by omega)

theorem AtMost.bind {m n : Nat} {p : Program α} {f : α → Program β} (hp : p.AtMost m) (hf : ∀ a, (f a).AtMost n) :
    (p.bind f).AtMost (m + n) := by
  induction p generalizing m with
  | done a => exact (hf a).mono (Nat.le_add_left n m)
  | crash reason => exact atMost_crash reason _
  | ask r next ih =>
    cases m with
    | zero => cases hp
    | succ m =>
      rw [Nat.succ_add]
      exact fun reply => ih reply (hp reply)

theorem Yields.mono {P Q : α → Prop} {p : Program α} (h : p.Yields P) (himp : ∀ a, P a → Q a) : p.Yields Q := by
  induction p with
  | done a => exact himp a h
  | crash reason => trivial
  | ask r next ih => exact fun reply => ih reply (h reply)

theorem Yields.bind {P : α → Prop} {Q : β → Prop} {p : Program α} {f : α → Program β} (hp : p.Yields P)
    (hf : ∀ a, P a → (f a).Yields Q) : (p.bind f).Yields Q := by
  induction p with
  | done a => exact hf a hp
  | crash reason => trivial
  | ask r next ih => exact fun reply => ih reply (hp reply)

end Program

namespace Script

def Halt.returns : Halt → Bool
  | .ret _ => true
  | _ => false

def Setting.grant (s : Setting) (gas : UInt64) : Setting :=
  { s with gasLimit := gas }

/-- Whether an instruction neither spends gas of its own nor returns. -/
def Instruction.isPlain : Instruction → Bool
  | .spend _ | .ret _ => false
  | _ => true

/-! ## Operands -/

/-- Whether a script stops without a return if this fails. -/
def Stops {α : Type} (x : Except Halt α) : Prop :=
  FailsBy (fun halt => halt.returns = false) x

section

variable (s : Setting) (p : Progress)

theorem stops_operand (token : String) : Stops (operand s p token) := by
  simp only [operand]
  split
  · exact .ok _
  · split
    · exact .error rfl
    · split
      · exact .ok _
      · exact .error rfl
  · split
    · exact .ok _
    · exact .error rfl
  · exact .ok _
  · exact .ok _

theorem stops_operands (tokens : List String) : Stops (operands s p tokens) :=
  FailsBy.mapM (stops_operand s p) tokens

theorem stops_address (token : String) : Stops (address s p token) := by
  simp only [address]
  split
  · split
    · exact .ok _
    · exact .error rfl
  · exact stops_operand s p token

theorem stops_amount (token : String) : Stops (amount s p token) := by
  simp only [amount]
  split
  · split
    · exact .ok _
    · exact .error rfl
  · exact stops_operand s p token

theorem stops_gasFigure (what token : String) : Stops (gasFigure what token) := by
  simp only [gasFigure]
  split
  · exact .ok _
  · exact .error rfl

theorem stops_amountAndArgs (tokens : List String) : Stops (amountAndArgs s p tokens) := by
  simp only [amountAndArgs]
  split
  · exact .ok _
  · split
    · exact (stops_amount s p _).bind fun paid => (stops_operands s p _).bind fun args => .ok _
    · exact (stops_operands s p _).bind fun args => .ok _

end

namespace Session

/-! ## Paired sessions -/

/-- Two sessions of a script which differ by the gas limit alone, that of the second one being `gas`, and which make at
most `n` requests. Unless the account is their `own`, they charge nothing but what the host does, and do not return. -/
inductive Paired (own : Bool) (s : Setting) (gas : UInt64) : {α : Type} → Nat → Session α → Session α → Prop
  | pure {α : Type} (a : α) : Paired own s gas 0 (pure a) (pure a)
  | throw {α : Type} (halt : Halt) (hhalt : own = true ∨ halt.returns = false) :
      Paired own s gas 0 (throw halt : Session α) (throw halt)
  | crash {α : Type} (reason : Option String) :
      Paired own s gas 0 (ExceptT.lift (StateT.lift (.crash reason)) : Session α)
        (ExceptT.lift (StateT.lift (.crash reason)))
  | get : Paired own s gas 0 get get
  | remember (b : Bytes) : Paired own s gas 0 (remember b) (remember b)
  | charge (amount : UInt64) (hown : own = true) : Paired own s gas 0 (charge s amount) (charge (s.grant gas) amount)
  | demand (r : Request) (hr : r.steady = true) (hneutral : r.Neutral) :
      Paired own s gas 2 (demand s r) (demand (s.grant gas) r)
  | nested (r : Request) (strict : Bool) (hr : r.nests = true) :
      Paired own s gas 2 (query s r >>= absorbNested s strict)
        (query (s.grant gas) r >>= absorbNested (s.grant gas) strict)
  | bind {α β : Type} {m n : Nat} {x x' : Session α} {f f' : α → Session β} (hx : Paired own s gas m x x')
      (hf : ∀ a, Paired own s gas n (f a) (f' a)) : Paired own s gas (m + n) (x >>= f) (x' >>= f')
  | weaken {α : Type} {m n : Nat} {x x' : Session α} (hx : Paired own s gas m x x') (hle : m ≤ n) :
      Paired own s gas n x x'

variable {own : Bool} {s : Setting} {gas : UInt64} {α β : Type} {m n : Nat} {x x' : Session α}

theorem discard_eq (x : Session α) : discard x = x >>= fun _ => pure () := by
  rw [bind_pure_comp]
  rfl

theorem run_bind (x : Session α) (f : α → Session β) (p : Progress) :
    (x >>= f).run.run p = (x.run.run p).bind fun
      | (.ok a, q) => (f a).run.run q
      | (.error halt, q) => .done (.error halt, q) := by
  show Program.bind _ _ = _
  congr 1
  funext out
  obtain ⟨(halt | a), q⟩ := out <;> rfl

theorem run_charge (s : Setting) (amount : UInt64) (p : Progress) :
    (charge s amount).run.run p =
      .done (if s.gasLimit < Gas.plus p.used amount then .error .outOfGas else .ok (),
        { p with used := Gas.plus p.used amount }) := by
  by_cases hout : s.gasLimit < Gas.plus p.used amount
  · rw [if_pos hout]
    show ((if s.gasLimit < Gas.plus p.used amount then throw .outOfGas else pure () : Session Unit).run.run _) = _
    rw [if_pos hout]
    rfl
  · rw [if_neg hout]
    show ((if s.gasLimit < Gas.plus p.used amount then throw .outOfGas else pure () : Session Unit).run.run _) = _
    rw [if_neg hout]
    rfl

/-- The output that a reply to a nested call tells of. -/
def outputOf (reply : Reply) : Bytes :=
  match ResultTree.ofBytes reply.value.toBytes with
  | .ok t => t.label.output
  | .error _ => []

theorem absorbNested_eq (s : Setting) (strict : Bool) (reply : Reply) :
    absorbNested s strict reply =
      (if !strict && reply.status = .contractError then charge s reply.gasUsed else discard (absorb s reply)) >>=
        fun _ => remember (outputOf reply) := by
  rw [absorbNested]
  split
  · simp only [outputOf]
    cases ResultTree.ofBytes reply.value.toBytes <;> rfl
  · simp only [outputOf]
    cases ResultTree.ofBytes reply.value.toBytes <;> rfl

theorem Paired.reading {f : Progress → Except Halt α} (hf : own = true ∨ ∀ p, Stops (f p)) {g g' : α → Session β}
    (hg : ∀ a, Paired own s gas n (g a) (g' a)) :
    Paired own s gas n (Session.read f >>= g) (Session.read f >>= g') := by
  have hread : Paired own s gas 0 (Session.read f) (Session.read f) := by
    apply Paired.bind (n := 0) .get
    intro p
    cases hp : f p with
    | error halt => exact .throw halt (hf.imp_right fun hstops => hstops p halt hp)
    | ok a => exact .pure a
  exact (hread.bind hg).weaken (Nat.le_of_eq (Nat.zero_add n))

theorem Paired.discard (hx : Paired own s gas n x x') : Paired own s gas n (discard x) (discard x') := by
  rw [discard_eq, discard_eq]
  exact hx.bind fun _ => .pure ()

theorem Paired.fetch {r : Request} (hr : r.steady = true) (hneutral : r.Neutral) :
    Paired own s gas 2 (fetch s r) (fetch (s.grant gas) r) :=
  (Paired.demand r hr hneutral).bind fun value => .remember value.toBytes

/-- No instruction makes more than six requests, and a plain one does without an account of its own. -/
theorem paired_perform (i : Instruction) (hi : own = true ∨ i.isPlain = true) :
    Paired own s gas 6 (perform s i) (perform (s.grant gas) i) := by
  cases i with
  | store key value =>
    apply Paired.reading (.inr (stops_operand s · key))
    intro key
    apply Paired.reading (.inr (stops_operand s · value))
    intro value
    exact ((Paired.demand _ rfl ⟨rfl, rfl⟩).discard).weaken (by decide)
  | load key =>
    apply Paired.reading (.inr (stops_operand s · key))
    intro key
    exact (Paired.fetch rfl ⟨rfl, rfl⟩).weaken (by decide)
  | remove key =>
    apply Paired.reading (.inr (stops_operand s · key))
    intro key
    exact ((Paired.demand _ rfl ⟨rfl, rfl⟩).discard).weaken (by decide)
  | read contract key =>
    apply Paired.reading (.inr (stops_address s · contract))
    intro contract
    apply Paired.reading (.inr (stops_operand s · key))
    intro key
    exact (Paired.fetch rfl ⟨rfl, rfl⟩).weaken (by decide)
  | balance owner =>
    cases owner with
    | none => exact (Paired.fetch rfl ⟨rfl, rfl⟩).weaken (by decide)
    | some owner =>
      apply Paired.reading (.inr (stops_address s · owner))
      intro owner
      exact (Paired.fetch rfl ⟨rfl, rfl⟩).weaken (by decide)
  | send payee paid =>
    apply Paired.reading (.inr (stops_address s · payee))
    intro payee
    apply Paired.reading (.inr (stops_amount s · paid))
    intro paid
    exact ((Paired.demand _ rfl ⟨rfl, rfl⟩).discard).weaken (by decide)
  | burn burnt =>
    apply Paired.reading (.inr (stops_amount s · burnt))
    intro burnt
    exact ((Paired.demand _ rfl ⟨rfl, rfl⟩).discard).weaken (by decide)
  | emit name args =>
    apply Paired.reading (.inr (stops_operands s · args))
    intro args
    exact ((Paired.demand _ rfl ⟨rfl, rfl⟩).discard).weaken (by decide)
  | debug words => exact ((Paired.demand _ rfl ⟨rfl, rfl⟩).discard).weaken (by decide)
  | call strict target method limit args =>
    apply Paired.reading (.inr (stops_address s · target))
    intro target
    apply Paired.reading (.inr fun _ => stops_gasFigure "limit" limit)
    intro limit
    apply Paired.reading (.inr (stops_amountAndArgs s · args))
    rintro ⟨paid, args⟩
    exact (Paired.nested _ strict rfl).weaken (by decide)
  | deploy nonce limit args =>
    apply Paired.reading (.inr (stops_operand s · nonce))
    intro nonce
    apply Paired.reading (.inr fun _ => stops_gasFigure "limit" limit)
    intro limit
    apply Paired.reading (.inr (stops_amountAndArgs s · args))
    rintro ⟨paid, args⟩
    apply (Paired.demand (.fact .code) rfl ⟨rfl, rfl⟩).bind (n := 4)
    intro code
    -- The reply is taken in at once, before the address of the new contract is asked for.
    show Paired own s gas 4 (query s _ >>= fun reply => absorbNested s true reply >>= _) (query (s.grant gas) _ >>= _)
    rw [← bind_assoc, ← bind_assoc]
    exact (Paired.nested _ true rfl).bind fun _ => Paired.fetch rfl ⟨rfl, rfl⟩
  | identityState owner =>
    apply Paired.reading (.inr (stops_address s · owner))
    intro owner
    exact ((Paired.demand _ rfl ⟨rfl, rfl⟩).bind fun state => .remember [UInt8.ofNat state.toInt.toNat]).weaken (by decide)
  | block =>
    exact ((Paired.demand _ rfl ⟨rfl, rfl⟩).bind fun number =>
      .remember (Bytes.ofText (Decimal.integerText number.toInt))).weaken (by decide)
  | require left right =>
    apply Paired.reading (.inr (stops_operand s · left))
    intro l
    apply Paired.reading (.inr (stops_operand s · right))
    intro r
    split
    · exact (Paired.throw _ (.inr rfl)).weaken (by decide)
    · exact (Paired.pure ()).weaken (by decide)
  | fail words => exact (Paired.throw _ (.inr rfl)).weaken (by decide)
  | panic => exact (Paired.crash _).weaken (by decide)
  | spend amount =>
    have hown : own = true := hi.resolve_right nofun
    apply Paired.reading (.inl hown)
    intro amount
    exact (Paired.charge amount hown).weaken (by decide)
  | ret value =>
    have hown : own = true := hi.resolve_right nofun
    cases value with
    | none => exact (Paired.get.bind fun p => .throw (.ret p.last) (.inl hown)).weaken (by decide)
    | some value =>
      apply Paired.reading (.inl hown)
      intro value
      exact (Paired.throw _ (.inl hown)).weaken (by decide)
  | caller | origin | self | pay => exact (Paired.fetch rfl ⟨rfl, rfl⟩).weaken (by decide)

theorem paired_step (line : List Char) : Paired true s gas 6 (step s line) (step (s.grant gas) line) := by
  apply ((Paired.charge s.cost rfl).bind (n := 6) ?_).weaken (by decide)
  intro _
  split
  · exact paired_perform _ (.inl rfl)
  · exact (Paired.throw _ (.inl rfl)).weaken (by decide)

theorem paired_runLines (lines : List (List Char)) :
    Paired true s gas (6 * lines.length) (runLines s lines) (runLines (s.grant gas) lines) := by
  induction lines with
  | nil => exact .pure ()
  | cons line rest ih =>
    have hfirst : Paired true s gas 6 (step s line) (step (s.grant gas) line) := paired_step line
    exact (hfirst.bind fun _ => ih).weaken (by rw [List.length_cons]; omega)

/-! ## Requests -/

/-- A session that makes at most `n` requests, however far the script has come. -/
def AtMost (n : Nat) (x : Session α) : Prop :=
  ∀ p : Progress, (x.run.run p).AtMost n

theorem AtMost.bind {x : Session α} {f : α → Session β} (hx : AtMost m x) (hf : ∀ a, AtMost n (f a)) :
    AtMost (m + n) (x >>= f) := by
  intro p
  rw [run_bind]
  apply (hx p).bind
  rintro ⟨(halt | a), q⟩
  · exact Program.atMost_done _ n
  · exact hf a q

theorem atMost_request (r : Request) : AtMost 1 (request r) :=
  fun _ _ => Program.atMost_done _ 0

theorem atMost_charge (amount : UInt64) : AtMost 0 (charge s amount) := by
  intro p
  rw [run_charge]
  exact Program.atMost_done _ 0

theorem atMost_absorb (reply : Reply) : AtMost 0 (absorb s reply) := by
  apply (atMost_charge reply.gasUsed).bind (n := 0)
  intro _ p
  split <;> exact Program.atMost_done _ 0

theorem atMost_query (r : Request) : AtMost 2 (query s r) := by
  apply AtMost.bind (m := 1) (n := 1) _ fun _ => atMost_request r
  apply AtMost.bind (m := 0) (n := 1) fun p => Program.atMost_done _ 0
  intro p
  apply (atMost_request _).bind (n := 0)
  intro reply
  rw [discard_eq]
  exact (atMost_absorb reply).bind (n := 0) fun _ q => Program.atMost_done _ 0

theorem atMost_absorbNested (strict : Bool) (reply : Reply) : AtMost 0 (absorbNested s strict reply) := by
  rw [absorbNested_eq]
  apply AtMost.bind (m := 0) (n := 0) _ fun _ q => Program.atMost_done _ 0
  split
  · exact atMost_charge reply.gasUsed
  · rw [discard_eq]
    exact (atMost_absorb reply).bind (n := 0) fun _ q => Program.atMost_done _ 0

theorem Paired.atMost (h : Paired own s gas n x x') : AtMost n x := by
  induction h with
  | pure | throw | get | remember => exact fun p => Program.atMost_done _ 0
  | crash reason => exact fun p => Program.atMost_crash _ 0
  | charge amount hown => exact atMost_charge amount
  | demand r hr hneutral => exact (atMost_query r).bind (n := 0) atMost_absorb
  | nested r strict hr => exact (atMost_query r).bind (n := 0) (atMost_absorbNested strict)
  | bind hx hf ihx ihf => exact ihx.bind ihf
  | weaken hx hle ih => exact fun p => (ih p).mono hle

/-! ## Accounts -/

/-- Whether a part of a script has come to its end or to a return. -/
def Proceeds : Except Halt α → Prop
  | .ok _ => True
  | .error halt => halt.returns = true

/-- A result of a part that began at `p`: if the script proceeds, its account has not shrunk and is within the limit. -/
def Counted (s : Setting) (p : Progress) (out : Except Halt α × Progress) : Prop :=
  Proceeds out.1 → p.used.toNat ≤ out.2.used.toNat ∧ out.2.used.toNat ≤ s.gasLimit.toNat

/-- A session with an account that does not shrink and that stays within the limit while the script proceeds. -/
def Accounts (s : Setting) (x : Session α) : Prop :=
  ∀ p : Progress, p.used.toNat ≤ s.gasLimit.toNat → (x.run.run p).Yields (Counted s p)

theorem Accounts.bind {x : Session α} {f : α → Session β} (hx : Accounts s x) (hf : ∀ a, Accounts s (f a)) :
    Accounts s (x >>= f) := by
  intro p hp
  rw [run_bind]
  apply (hx p hp).bind
  rintro ⟨(halt | a), q⟩ hq
  · exact hq
  · obtain ⟨hgrown, hwithin⟩ := hq trivial
    apply (hf a q hwithin).mono
    intro out hout hproceeds
    obtain ⟨hgrown', hwithin'⟩ := hout hproceeds
    exact ⟨Nat.le_trans hgrown hgrown', hwithin'⟩

theorem accounts_of_run {x : Session α} (hx : ∀ p, ∃ r last, x.run.run p = .done (r, { p with last })) : Accounts s x := by
  intro p hp
  obtain ⟨r, last, hrun⟩ := hx p
  rw [hrun]
  exact fun _ => ⟨Nat.le_refl _, hp⟩

theorem accounts_pure (a : α) : Accounts s (pure a : Session α) :=
  accounts_of_run fun p => ⟨.ok a, p.last, rfl⟩

theorem accounts_remember (b : Bytes) : Accounts s (remember b) :=
  accounts_of_run fun _ => ⟨.ok (), b, rfl⟩

theorem accounts_throw (halt : Halt) : Accounts s (throw halt : Session α) :=
  accounts_of_run fun p => ⟨.error halt, p.last, rfl⟩

theorem accounts_get : Accounts s get :=
  accounts_of_run fun p => ⟨.ok p, p.last, rfl⟩

theorem accounts_request (r : Request) : Accounts s (request r) :=
  fun _ hp _ _ => ⟨Nat.le_refl _, hp⟩

theorem accounts_charge (amount : UInt64) : Accounts s (charge s amount) := by
  intro p hp
  rw [run_charge]
  intro hproceeds
  by_cases hout : s.gasLimit < Gas.plus p.used amount
  · rw [if_pos hout] at hproceeds
    cases hproceeds
  · rw [UInt64.lt_iff_toNat_lt] at hout
    exact ⟨Gas.le_plus p.used amount, Nat.le_of_not_lt hout⟩

theorem accounts_absorb (reply : Reply) : Accounts s (absorb s reply) := by
  apply (accounts_charge reply.gasUsed).bind
  intro _
  split
  · exact accounts_pure _
  · exact accounts_throw _
  · exact accounts_throw _
  · exact accounts_throw _

theorem accounts_discard {x : Session α} (hx : Accounts s x) : Accounts s (discard x) := by
  rw [discard_eq]
  exact hx.bind fun _ => accounts_pure ()

theorem accounts_query (r : Request) : Accounts s (query s r) := by
  have hsync : Accounts s (sync s) := by
    apply accounts_get.bind
    intro p
    apply (accounts_request _).bind
    intro reply
    exact accounts_discard (accounts_absorb reply)
  exact hsync.bind fun _ => accounts_request r

theorem accounts_absorbNested (strict : Bool) (reply : Reply) : Accounts s (absorbNested s strict reply) := by
  rw [absorbNested_eq]
  apply Accounts.bind _ fun _ => accounts_remember _
  split
  · exact accounts_charge reply.gasUsed
  · exact accounts_discard (accounts_absorb reply)

theorem Paired.accounts (h : Paired own s gas n x x') : Accounts s x := by
  induction h with
  | pure a => exact accounts_pure a
  | throw halt hhalt => exact accounts_throw halt
  | crash reason => exact fun p _ => trivial
  | get => exact accounts_get
  | remember b => exact accounts_remember b
  | charge amount hown => exact accounts_charge amount
  | demand r hr hneutral => exact (accounts_query r).bind accounts_absorb
  | nested r strict hr => exact (accounts_query r).bind (accounts_absorbNested strict)
  | bind hx hf ihx ihf => exact ihx.bind ihf
  | weaken hx hle ih => exact ih

end Session

/-! ## Whole scripts -/

/-- The lines that run for a method of a script. -/
def linesOf (code : Bytes) (method : String) : List (List Char) :=
  match Bytes.text? code with
  | none => []
  | some source => (lookUp source.toList method.toList).getD []

theorem paired_start (s : Setting) (gas : UInt64) (code : Bytes) (method : String) (required : Bool) :
    Session.Paired true s gas (6 * (linesOf code method).length) (start s code method required)
      (start (s.grant gas) code method required) := by
  simp only [start, linesOf]
  cases Bytes.text? code with
  | none => exact (Session.Paired.throw _ (.inl rfl)).weaken (Nat.zero_le _)
  | some source =>
    dsimp only
    cases lookUp source.toList method.toList with
    | some body => exact Session.paired_runLines body
    | none =>
      cases required with
      | true => exact (Session.Paired.throw _ (.inl rfl)).weaken (Nat.zero_le _)
      | false => exact (Session.Paired.pure ()).weaken (Nat.zero_le _)

/-- Why a script has stopped. One that comes to its end returns nothing. -/
def haltOf : Except Halt Unit → Halt
  | .ok _ => .ret []
  | .error halt => halt

theorem program_eq (s : Setting) (session : Session Unit) :
    program s session = (session.run.run {}).bind fun out => .done (output s out.2 (haltOf out.1)) := by
  show Program.bind _ _ = _
  congr 1
  funext out
  obtain ⟨(halt | a), q⟩ := out <;> rfl

def methodOf : Invocation → String
  | .call method _ _ => method
  | .deploy _ _ => constructorName

/-- What stays the same while a script runs for an invocation. -/
def settingOf (cost : Gas) (i : Invocation) (gas : Gas) : Setting :=
  { args := Arguments.unpack i.args, cost, gasLimit := gas }

/-- The run of a script, with its account at the end and before an output is made of it. -/
def account (cost : Gas) (i : Invocation) (code : Bytes) (gas : Gas) : Program (Except Halt Unit × Progress) :=
  let required := match i with
    | .call _ _ _ => true
    | .deploy _ _ => false
  (start (settingOf cost i gas) code (methodOf i) required).run.run {}

theorem program_account (cost : Gas) (i : Invocation) (code : Bytes) (gas : Gas) :
    (vm cost).program i code gas =
      (account cost i code gas).bind fun out => .done (output (settingOf cost i gas) out.2 (haltOf out.1)) := by
  cases i with
  | call method args context => exact program_eq _ _
  | deploy args nonce => exact program_eq _ _

/-- A script makes at most six requests for each of its lines. -/
theorem atMost_vm (cost : UInt64) (i : Invocation) (code : Bytes) (gas : UInt64) :
    ((vm cost).program i code gas).AtMost (6 * (linesOf code (methodOf i)).length) := by
  have hstart := fun required => (paired_start (settingOf cost i gas) gas code (methodOf i) required).atMost {}
  rw [program_account]
  exact (hstart _).bind (n := 0) fun out => Program.atMost_done _ 0

end Script

end ContractHost
