import ContractHost.Command
/-!
# Inputs that were read

A request that passes its check has become the command of the same kind, and each input of that command was read from
the one of the request. `Request.check_reads` says so once for all requests.
-/
namespace ContractHost

theorem bind_ok {ε α β : Type} {x : Except ε α} {f : α → Except ε β} {b : β} (h : x >>= f = .ok b) :
    ∃ a, x = .ok a ∧ f a = .ok b := by
  cases x with
  | error e => cases h
  | ok a => exact ⟨a, rfl, h⟩

/-- Whether something can fail for reasons of one kind only. -/
def FailsBy {ε α : Type} (P : ε → Prop) (x : Except ε α) : Prop :=
  ∀ e, x = .error e → P e

namespace FailsBy

variable {ε α β : Type} {P : ε → Prop}

theorem ok (a : α) : FailsBy P (.ok a) :=
  fun _ => nofun

theorem error {e : ε} (he : P e) : FailsBy P (.error e : Except ε α) := by
  rintro _ ⟨⟩
  exact he

theorem bind {x : Except ε α} {k : α → Except ε β} (hx : FailsBy P x) (hk : ∀ a, FailsBy P (k a)) :
    FailsBy P (x >>= k) := by
  cases x with
  | error e => exact error (hx e rfl)
  | ok a => exact hk a

theorem map {x : Except ε α} (hx : FailsBy P x) (g : α → β) : FailsBy P (x.map g) := by
  cases x with
  | error e => exact error (hx e rfl)
  | ok a => exact ok (g a)

theorem mapM {k : α → Except ε β} (hk : ∀ a, FailsBy P (k a)) (as : List α) : FailsBy P (as.mapM k) := by
  induction as with
  | nil => exact ok []
  | cons a as ih =>
    rw [List.mapM_cons]
    exact (hk a).bind fun b => ih.bind fun bs => ok (b :: bs)

end FailsBy

theorem mapError_ok {ε ε' α : Type} {x : Except ε α} {f : ε → ε'} {a : α} (h : x.mapError f = .ok a) :
    x = .ok a := by
  cases x with
  | error e => cases h
  | ok b =>
    cases h
    rfl

namespace Input

theorem check_ok {what : String} {b : Bytes} {bound : Gas} {u : Unit} (h : InputLimits.check what b bound = .ok u) :
    b.length ≤ bound.toNat := by
  by_cases hlt : bound.toNat < b.length
  · simp [InputLimits.check, hlt] at h
  · exact Nat.le_of_not_lt hlt

theorem bytes_ok {what : String} {bound : Gas} {input : Option Bytes} {b : Bytes} (h : bytes what bound input = .ok b) :
    b = input.getD [] ∧ b.length ≤ bound.toNat := by
  obtain ⟨u, hcheck, h⟩ := bind_ok h
  cases h
  exact ⟨rfl, check_ok hcheck⟩

theorem requireBytes_ok {what : String} {bound : Gas} {input : Option Bytes} {b : Bytes}
    (h : requireBytes what bound input = .ok b) : input = some b ∧ b.length ≤ bound.toNat := by
  obtain ⟨b', hb, h⟩ := bind_ok h
  obtain ⟨u, hcheck, h⟩ := bind_ok h
  cases h
  cases input with
  | none => cases hb
  | some b'' =>
    cases hb
    exact ⟨rfl, check_ok hcheck⟩

theorem text_ok {what : String} {bound : Gas} {input : Option Bytes} {s : String}
    (h : text what bound input = .ok s) :
    input = some (Bytes.ofText s) ∧ (Bytes.ofText s).length ≤ bound.toNat := by
  obtain ⟨b, hb, h⟩ := bind_ok h
  split at h
  next s' hs =>
    cases h
    rw [Bytes.ofText_of_text? hs]
    exact requireBytes_ok hb
  next => cases h

theorem amount_ok {limits : InputLimits} {input : Option Bytes} {n : Amount} (h : amount limits input = .ok n) :
    n = Bytes.toNat (input.getD []) := by
  obtain ⟨b, hb, h⟩ := bind_ok h
  obtain ⟨rfl, _⟩ := bytes_ok hb
  have hread := mapError_ok h
  simp only [Amount.ofBytes] at hread
  split at hread
  · cases hread
  · cases hread
    rfl

end Input

namespace Request

/-- The command that a request becomes, with where its inputs come from. -/
inductive Reads (limits : InputLimits) (self : Address) : Request → Command → Prop
  | setRemainingGas (remaining : Gas) : Reads limits self (.setRemainingGas remaining) (.setRemainingGas remaining)
  | fact (f : Fact) : Reads limits self (.fact f) (.fact f)
  | setStorage {key value : Option Bytes} {k v : Bytes}
      (hkey : Input.requireBytes "storage key" limits.storageKey key = .ok k)
      (hvalue : Input.bytes "storage value" limits.storageValue value = .ok v) :
      Reads limits self (.setStorage key value) (.setStorage k v)
  | getStorage {key : Option Bytes} {k : Bytes} (hkey : Input.requireBytes "storage key" limits.storageKey key = .ok k) :
      Reads limits self (.getStorage key) (.readStorage self k)
  | removeStorage {key : Option Bytes} {k : Bytes}
      (hkey : Input.requireBytes "storage key" limits.storageKey key = .ok k) :
      Reads limits self (.removeStorage key) (.removeStorage k)
  | readStorage {contract key : Option Bytes} {a : Address} {k : Bytes}
      (hcontract : Input.addressOr self contract = .ok a)
      (hkey : Input.requireBytes "storage key" limits.storageKey key = .ok k) :
      Reads limits self (.readStorage contract key) (.readStorage a k)
  | balance {address : Option Bytes} {a : Address} (haddress : Input.addressOr self address = .ok a) :
      Reads limits self (.balance address) (.balance a)
  | send {payee amount : Option Bytes} {a : Address} {n : Amount} (hpayee : Input.address payee = .ok a)
      (hamount : Input.amount limits amount = .ok n) : Reads limits self (.send payee amount) (.send a n)
  | debit {amount : Option Bytes} {n : Amount} (hamount : Input.amount limits amount = .ok n) :
      Reads limits self (.debit amount) (.debit n)
  | credit {payee amount : Option Bytes} {a : Address} {n : Amount} (hpayee : Input.address payee = .ok a)
      (hamount : Input.amount limits amount = .ok n) : Reads limits self (.credit payee amount) (.credit a n)
  | burn {amount : Option Bytes} {n : Amount} (hamount : Input.amount limits amount = .ok n) :
      Reads limits self (.burn amount) (.burn n)
  | identityState {address : Option Bytes} {a : Address} (haddress : Input.address address = .ok a) :
      Reads limits self (.identityState address) (.identityState a)
  | identity {address : Option Bytes} {a : Address} (haddress : Input.address address = .ok a) :
      Reads limits self (.identity address) (.identity a)
  | code {address : Option Bytes} {a : Address} (haddress : Input.address address = .ok a) :
      Reads limits self (.code address) (.code a)
  | contractAddress {code args nonce : Option Bytes} {c as n : Bytes} (hcode : Input.bytes "code" limits.code code = .ok c)
      (hargs : Input.bytes "arguments" limits.args args = .ok as)
      (hnonce : Input.bytes "nonce" limits.text nonce = .ok n) :
      Reads limits self (.contractAddress code args nonce) (.contractAddress c as n)
  | event {name args : Option Bytes} {s : String} {as : Bytes} (hname : Input.text "event name" limits.text name = .ok s)
      (hargs : Input.bytes "event arguments" limits.args args = .ok as) :
      Reads limits self (.event name args) (.event s (Arguments.unpack as))
  | debug {message : Option Bytes} {m : Bytes} (hmessage : Input.bytes "debug message" limits.text message = .ok m) :
      Reads limits self (.debug message) .debug
  | call {target method args amount context : Option Bytes} {gas : Gas} {c : Call}
      (htarget : Input.address target = .ok c.target) (hmethod : Input.text "method" limits.text method = .ok c.method)
      (hargs : Input.bytes "arguments" limits.args args = .ok c.args)
      (hamount : Input.amount limits amount = .ok c.amount) (hgas : c.gas = gas)
      (hcontext : Input.bytes "invocation context" limits.args context = .ok c.context) :
      Reads limits self (.call target method args amount gas context) (.call c)
  | deploy {code args nonce amount : Option Bytes} {gas : Gas} {d : Deployment}
      (hcode : Input.requireBytes "code" limits.code code = .ok d.code)
      (hargs : Input.bytes "arguments" limits.args args = .ok d.args)
      (hnonce : Input.bytes "nonce" limits.text nonce = .ok d.nonce)
      (hamount : Input.amount limits amount = .ok d.amount) (hgas : d.gas = gas) :
      Reads limits self (.deploy code args nonce amount gas) (.deploy d)

theorem check_reads {limits : InputLimits} {self : Address} {r : Request} {c : Command}
    (h : r.check limits self = .ok c) : r.Reads limits self c := by
  cases r with
  | setRemainingGas remaining =>
    cases h
    exact .setRemainingGas remaining
  | fact f =>
    cases h
    exact .fact f
  | setStorage key value =>
    obtain ⟨k, hkey, h⟩ := bind_ok h
    obtain ⟨v, hvalue, h⟩ := bind_ok h
    cases h
    exact .setStorage hkey hvalue
  | getStorage key =>
    obtain ⟨k, hkey, h⟩ := bind_ok h
    cases h
    exact .getStorage hkey
  | removeStorage key =>
    obtain ⟨k, hkey, h⟩ := bind_ok h
    cases h
    exact .removeStorage hkey
  | readStorage contract key =>
    obtain ⟨a, hcontract, h⟩ := bind_ok h
    obtain ⟨k, hkey, h⟩ := bind_ok h
    cases h
    exact .readStorage hcontract hkey
  | balance address =>
    obtain ⟨a, haddress, h⟩ := bind_ok h
    cases h
    exact .balance haddress
  | send payee amount =>
    obtain ⟨a, hpayee, h⟩ := bind_ok h
    obtain ⟨n, hamount, h⟩ := bind_ok h
    cases h
    exact .send hpayee hamount
  | debit amount =>
    obtain ⟨n, hamount, h⟩ := bind_ok h
    cases h
    exact .debit hamount
  | credit payee amount =>
    obtain ⟨a, hpayee, h⟩ := bind_ok h
    obtain ⟨n, hamount, h⟩ := bind_ok h
    cases h
    exact .credit hpayee hamount
  | burn amount =>
    obtain ⟨n, hamount, h⟩ := bind_ok h
    cases h
    exact .burn hamount
  | identityState address =>
    obtain ⟨a, haddress, h⟩ := bind_ok h
    cases h
    exact .identityState haddress
  | identity address =>
    obtain ⟨a, haddress, h⟩ := bind_ok h
    cases h
    exact .identity haddress
  | code address =>
    obtain ⟨a, haddress, h⟩ := bind_ok h
    cases h
    exact .code haddress
  | contractAddress code args nonce =>
    obtain ⟨c, hcode, h⟩ := bind_ok h
    obtain ⟨as, hargs, h⟩ := bind_ok h
    obtain ⟨n, hnonce, h⟩ := bind_ok h
    cases h
    exact .contractAddress hcode hargs hnonce
  | event name args =>
    obtain ⟨s, hname, h⟩ := bind_ok h
    obtain ⟨as, hargs, h⟩ := bind_ok h
    cases h
    exact .event hname hargs
  | debug message =>
    obtain ⟨m, hmessage, h⟩ := bind_ok h
    cases h
    exact .debug hmessage
  | call target method args amount gas context =>
    obtain ⟨a, htarget, h⟩ := bind_ok h
    obtain ⟨m, hmethod, h⟩ := bind_ok h
    obtain ⟨as, hargs, h⟩ := bind_ok h
    obtain ⟨n, hamount, h⟩ := bind_ok h
    obtain ⟨x, hcontext, h⟩ := bind_ok h
    cases h
    exact .call htarget hmethod hargs hamount rfl hcontext
  | deploy code args nonce amount gas =>
    obtain ⟨c, hcode, h⟩ := bind_ok h
    obtain ⟨as, hargs, h⟩ := bind_ok h
    obtain ⟨n, hnonce, h⟩ := bind_ok h
    obtain ⟨m, hamount, h⟩ := bind_ok h
    cases h
    exact .deploy hcode hargs hnonce hamount rfl

end Request

end ContractHost
