/-!
# Finite maps in key order

A map is the list of its entries in strictly increasing order of keys, so equal look-ups mean equal maps
(`OrderedMap.ext_get?`). Each operation has one lemma that says what it does to `get?`.
-/
namespace ContractHost

universe u v

/-- A strict total order on keys. -/
class OrderedKey (κ : Type u) where
  /-- Whether the first key stands before the second. -/
  before : κ → κ → Bool
  irrefl : ∀ a, before a a = false
  trans : ∀ {a b c}, before a b = true → before b c = true → before a c = true
  total : ∀ a b, a = b ∨ before a b = true ∨ before b a = true

namespace OrderedKey

variable {κ : Type u} [OrderedKey κ]

theorem asymm {a b : κ} (h : before a b = true) : before b a = false := by
  by_cases h' : before b a = true
  · have := trans h h'
    simp [irrefl] at this
  · simpa using h'

theorem ne {a b : κ} (h : before a b = true) : a ≠ b := by
  rintro rfl
  simp [irrefl] at h

end OrderedKey

open OrderedKey (before)

instance : OrderedKey UInt8 where
  before a b := decide (a < b)
  irrefl a := by simp
  trans h h' := by
    simp only [decide_eq_true_eq, UInt8.lt_iff_toNat_lt] at *
    omega
  total a b := by
    simp only [decide_eq_true_eq, UInt8.lt_iff_toNat_lt, ← UInt8.toNat_inj]
    omega

/-- Lists are ordered by the first place where they differ; what is left of the shorter one stands first. -/
def listBefore {κ : Type u} [OrderedKey κ] : List κ → List κ → Bool
  | [], [] => false
  | [], _ :: _ => true
  | _ :: _, [] => false
  | a :: as, b :: bs => if before a b then true else if before b a then false else listBefore as bs

theorem listBefore_cons {κ : Type u} [OrderedKey κ] {a b : κ} {as bs : List κ} :
    listBefore (a :: as) (b :: bs) = true ↔ before a b = true ∨ a = b ∧ listBefore as bs = true := by
  rw [listBefore]
  rcases OrderedKey.total a b with rfl | h | h
  · simp [OrderedKey.irrefl]
  · simp [h]
  · simp [h, OrderedKey.asymm h, (OrderedKey.ne h).symm]

instance {κ : Type u} [OrderedKey κ] : OrderedKey (List κ) where
  before := listBefore
  irrefl as := by
    induction as with
    | nil => rfl
    | cons a as ih => simp [listBefore, OrderedKey.irrefl, ih]
  trans {as bs cs} h h' := by
    induction as generalizing bs cs with
    | nil =>
      cases cs with
      | nil => cases bs <;> simp [listBefore] at h'
      | cons => rfl
    | cons a as ih =>
      cases bs with
      | nil => simp [listBefore] at h
      | cons b bs =>
        cases cs with
        | nil => simp [listBefore] at h'
        | cons c cs =>
          rw [listBefore_cons] at *
          rcases h with h | ⟨rfl, h⟩ <;> rcases h' with h' | ⟨rfl, h'⟩
          · exact .inl (OrderedKey.trans h h')
          · exact .inl h
          · exact .inl h'
          · exact .inr ⟨rfl, ih h h'⟩
  total as bs := by
    induction as generalizing bs with
    | nil => cases bs <;> simp [listBefore]
    | cons a as ih =>
      cases bs with
      | nil => simp [listBefore]
      | cons b bs =>
        rw [listBefore_cons, listBefore_cons]
        rcases OrderedKey.total a b with rfl | h | h
        · rcases ih bs with h | h | h <;> simp [h]
        · simp [h]
        · simp [h]

/-- Pairs are ordered by the first part, then by the second. -/
def pairBefore {κ : Type u} {μ : Type v} [OrderedKey κ] [OrderedKey μ] (p q : κ × μ) : Bool :=
  if before p.1 q.1 then true else if before q.1 p.1 then false else before p.2 q.2

theorem pairBefore_iff {κ : Type u} {μ : Type v} [OrderedKey κ] [OrderedKey μ] {p q : κ × μ} :
    pairBefore p q = true ↔ before p.1 q.1 = true ∨ p.1 = q.1 ∧ before p.2 q.2 = true := by
  rw [pairBefore]
  rcases OrderedKey.total p.1 q.1 with h | h | h
  · simp [h, OrderedKey.irrefl]
  · simp [h]
  · simp [h, OrderedKey.asymm h, (OrderedKey.ne h).symm]

instance {κ : Type u} {μ : Type v} [OrderedKey κ] [OrderedKey μ] : OrderedKey (κ × μ) where
  before := pairBefore
  irrefl p := by simp [pairBefore, OrderedKey.irrefl]
  trans {p q r} hpq hqr := by
    rw [pairBefore_iff] at hpq hqr ⊢
    rcases hpq with h | ⟨e, h⟩ <;> rcases hqr with h' | ⟨e', h'⟩
    · exact .inl (OrderedKey.trans h h')
    · exact .inl (e' ▸ h)
    · exact .inl (e ▸ h')
    · exact .inr ⟨e.trans e', OrderedKey.trans h h'⟩
  total p q := by
    rw [pairBefore_iff, pairBefore_iff, Prod.ext_iff]
    rcases OrderedKey.total p.1 q.1 with e | h | h
    · rcases OrderedKey.total p.2 q.2 with e' | h | h
      · exact .inl ⟨e, e'⟩
      · exact .inr (.inl (.inr ⟨e, h⟩))
      · exact .inr (.inr (.inr ⟨e.symm, h⟩))
    · exact .inr (.inl (.inl h))
    · exact .inr (.inr (.inl h))

/-- A map from keys to values, in key order. -/
structure OrderedMap (κ : Type u) (β : Type v) [OrderedKey κ] where
  /-- The entries in key order. -/
  toList : List (κ × β)
  increasing : toList.Pairwise fun a b => before a.1 b.1 = true
  deriving DecidableEq

namespace OrderedMap

variable {κ : Type u} {β : Type v} [OrderedKey κ]

def empty : OrderedMap κ β :=
  ⟨[], List.Pairwise.nil⟩

instance : Inhabited (OrderedMap κ β) := ⟨empty⟩

def find? (k : κ) : List (κ × β) → Option β
  | [] => none
  | (k', v) :: rest => if before k' k then find? k rest else if before k k' then none else some v

/-- Entries in key order with one entry added or replaced. -/
def put (k : κ) (v : β) : List (κ × β) → List (κ × β)
  | [] => [(k, v)]
  | (k', v') :: rest =>
    if before k' k then (k', v') :: put k v rest
    else if before k k' then (k, v) :: (k', v') :: rest
    else (k, v) :: rest

def drop (k : κ) : List (κ × β) → List (κ × β)
  | [] => []
  | (k', v') :: rest =>
    if before k' k then (k', v') :: drop k rest
    else if before k k' then (k', v') :: rest
    else rest

theorem mem_put {k : κ} {v : β} {es : List (κ × β)} {e : κ × β} (h : e ∈ put k v es) :
    e = (k, v) ∨ e ∈ es := by
  induction es with
  | nil => simpa [put] using h
  | cons e' es ih =>
    simp only [put] at h
    split at h
    · rcases List.mem_cons.1 h with rfl | h
      · simp
      · rcases ih h with rfl | h <;> simp_all
    · split at h <;> simp only [List.mem_cons] at h ⊢
      · rcases h with h | h | h <;> simp [h]
      · rcases h with h | h <;> simp [h]

theorem mem_of_mem_drop {k : κ} {es : List (κ × β)} {e : κ × β} (h : e ∈ drop k es) : e ∈ es := by
  induction es with
  | nil => simp [drop] at h
  | cons e' es ih =>
    simp only [drop] at h
    split at h
    · rcases List.mem_cons.1 h with rfl | h
      · simp
      · exact List.mem_cons_of_mem _ (ih h)
    · split at h
      · exact h
      · exact List.mem_cons_of_mem _ h

theorem pairwise_put (k : κ) (v : β) {es : List (κ × β)}
    (h : es.Pairwise fun a b => before a.1 b.1 = true) :
    (put k v es).Pairwise fun a b => before a.1 b.1 = true := by
  induction es with
  | nil => simp [put]
  | cons e es ih =>
    obtain ⟨he, hes⟩ := List.pairwise_cons.1 h
    simp only [put]
    split
    · rename_i hk
      refine List.pairwise_cons.2 ⟨fun e' he' => ?_, ih hes⟩
      rcases mem_put he' with rfl | he'
      · exact hk
      · exact he e' he'
    · rename_i hk
      split
      · rename_i hk'
        refine List.pairwise_cons.2 ⟨fun e' he' => ?_, h⟩
        rcases List.mem_cons.1 he' with rfl | he'
        · exact hk'
        · exact OrderedKey.trans hk' (he e' he')
      · rename_i hk'
        have : k = e.1 := by
          rcases OrderedKey.total k e.1 with e | e | e
          · exact e
          · exact absurd e hk'
          · exact absurd e hk
        exact List.pairwise_cons.2 ⟨fun e' he' => this ▸ he e' he', hes⟩

theorem pairwise_drop (k : κ) {es : List (κ × β)}
    (h : es.Pairwise fun a b => before a.1 b.1 = true) :
    (drop k es).Pairwise fun a b => before a.1 b.1 = true := by
  induction es with
  | nil => simp [drop]
  | cons e es ih =>
    obtain ⟨he, hes⟩ := List.pairwise_cons.1 h
    simp only [drop]
    split
    · exact List.pairwise_cons.2 ⟨fun e' he' => he e' (mem_of_mem_drop he'), ih hes⟩
    · split
      · exact h
      · exact hes

/-- The value of a key. -/
def get? (m : OrderedMap κ β) (k : κ) : Option β :=
  find? k m.toList

def insert (m : OrderedMap κ β) (k : κ) (v : β) : OrderedMap κ β :=
  ⟨put k v m.toList, pairwise_put k v m.increasing⟩

def erase (m : OrderedMap κ β) (k : κ) : OrderedMap κ β :=
  ⟨drop k m.toList, pairwise_drop k m.increasing⟩

def insertAll (m : OrderedMap κ β) (es : List (κ × β)) : OrderedMap κ β :=
  es.foldl (fun m (k, v) => m.insert k v) m

/-- The map of entries in any order; of two with one key the later one counts. -/
def ofList (es : List (κ × β)) : OrderedMap κ β :=
  empty.insertAll es

/-- The first map overwritten by the entries of the second. -/
def merge (m later : OrderedMap κ β) : OrderedMap κ β :=
  m.insertAll later.toList

/-! ## Look-ups -/

theorem find?_eq_none_of_lt {k : κ} {es : List (κ × β)} (h : ∀ e ∈ es, before k e.1 = true) :
    find? k es = none := by
  cases es with
  | nil => rfl
  | cons e es =>
    have := h e (by simp)
    simp [find?, this, OrderedKey.asymm this]

theorem find?_put (k k' : κ) (v : β) {es : List (κ × β)}
    (h : es.Pairwise fun a b => before a.1 b.1 = true) :
    find? k' (put k v es) = if before k k' = false ∧ before k' k = false then some v else find? k' es := by
  induction es with
  | nil => cases h : before k k' <;> cases h' : before k' k <;> simp [put, find?, h, h']
  | cons e es ih =>
    obtain ⟨he, hes⟩ := List.pairwise_cons.1 h
    obtain ⟨ek, ev⟩ := e
    simp only [put]
    rcases OrderedKey.total ek k with rfl | hk | hk
    · simp only [OrderedKey.irrefl, Bool.false_eq_true, if_false, find?]
      rcases OrderedKey.total ek k' with rfl | h1 | h1
      · simp [OrderedKey.irrefl]
      · simp [h1]
      · simp [h1, OrderedKey.asymm h1]
    · simp only [hk, if_true, find?, ih hes]
      rcases OrderedKey.total k k' with rfl | h1 | h1
      · simp [OrderedKey.irrefl, hk]
      · simp [h1]
      · simp [h1]
    · simp only [OrderedKey.asymm hk, Bool.false_eq_true, if_false, hk, if_true, find?]
      rcases OrderedKey.total k k' with rfl | h1 | h1
      · simp [OrderedKey.irrefl]
      · simp [h1]
      · simp [h1, OrderedKey.asymm h1, OrderedKey.trans h1 hk, OrderedKey.asymm (OrderedKey.trans h1 hk)]

theorem find?_drop (k k' : κ) {es : List (κ × β)}
    (h : es.Pairwise fun a b => before a.1 b.1 = true) :
    find? k' (drop k es) = if before k k' = false ∧ before k' k = false then none else find? k' es := by
  induction es with
  | nil => simp [drop, find?]
  | cons e es ih =>
    obtain ⟨he, hes⟩ := List.pairwise_cons.1 h
    obtain ⟨ek, ev⟩ := e
    simp only [drop]
    rcases OrderedKey.total ek k with rfl | hk | hk
    · simp only [OrderedKey.irrefl, Bool.false_eq_true, if_false, find?]
      rcases OrderedKey.total ek k' with rfl | h1 | h1
      · simp only [OrderedKey.irrefl, and_self, if_true]
        exact find?_eq_none_of_lt he
      · simp [h1]
      · simp only [h1, OrderedKey.asymm h1]
        simp only [Bool.false_eq_true, if_false, if_true]
        refine find?_eq_none_of_lt fun e' he' => OrderedKey.trans h1 (he e' he')
    · simp only [hk, if_true, find?, ih hes]
      rcases OrderedKey.total k k' with rfl | h1 | h1
      · simp [OrderedKey.irrefl, hk]
      · simp [h1]
      · simp [h1]
    · simp only [OrderedKey.asymm hk, Bool.false_eq_true, if_false, hk, if_true, find?]
      rcases OrderedKey.total k k' with rfl | h1 | h1
      · simp [OrderedKey.irrefl, hk, OrderedKey.asymm hk]
      · simp [h1]
      · simp [h1, OrderedKey.asymm h1, OrderedKey.trans h1 hk, OrderedKey.asymm (OrderedKey.trans h1 hk)]

@[simp] theorem get?_empty (k : κ) : (empty : OrderedMap κ β).get? k = none := rfl

@[simp] theorem get?_insert_self (m : OrderedMap κ β) (k : κ) (v : β) : (m.insert k v).get? k = some v := by
  simp [get?, insert, find?_put k k v m.increasing, OrderedKey.irrefl]

theorem get?_insert_of_ne (m : OrderedMap κ β) {k k' : κ} (v : β) (h : k ≠ k') :
    (m.insert k v).get? k' = m.get? k' := by
  rw [get?, insert, find?_put k k' v m.increasing, if_neg, get?]
  rcases OrderedKey.total k k' with e | e | e
  · exact absurd e h
  · simp [e]
  · simp [e]

@[simp] theorem get?_erase_self (m : OrderedMap κ β) (k : κ) : (m.erase k).get? k = none := by
  simp [get?, erase, find?_drop k k m.increasing, OrderedKey.irrefl]

theorem get?_erase_of_ne (m : OrderedMap κ β) {k k' : κ} (h : k ≠ k') :
    (m.erase k).get? k' = m.get? k' := by
  rw [get?, erase, find?_drop k k' m.increasing, if_neg, get?]
  rcases OrderedKey.total k k' with e | e | e
  · exact absurd e h
  · simp [e]
  · simp [e]

theorem mem_toList_iff {m : OrderedMap κ β} {k : κ} {v : β} : (k, v) ∈ m.toList ↔ m.get? k = some v := by
  obtain ⟨es, h⟩ := m
  simp only [get?]
  induction es with
  | nil => simp [find?]
  | cons e es ih =>
    obtain ⟨he, hes⟩ := List.pairwise_cons.1 h
    obtain ⟨ek, ev⟩ := e
    simp only [List.mem_cons, Prod.mk.injEq, ih hes, find?]
    rcases OrderedKey.total ek k with rfl | hk | hk
    · have : find? ek es = none := find?_eq_none_of_lt he
      simp [OrderedKey.irrefl, this, eq_comm]
    · simp [hk, (OrderedKey.ne hk).symm]
    · have : find? k es = none := find?_eq_none_of_lt fun e' he' => OrderedKey.trans hk (he e' he')
      simp [hk, OrderedKey.asymm hk, OrderedKey.ne hk, this]

/-- Maps with equal look-ups are equal. -/
theorem ext_get? {m n : OrderedMap κ β} (h : ∀ k, m.get? k = n.get? k) : m = n := by
  have key : ∀ (as bs : List (κ × β)), as.Pairwise (fun a b => before a.1 b.1 = true) →
      bs.Pairwise (fun a b => before a.1 b.1 = true) → (∀ e, e ∈ as ↔ e ∈ bs) → as = bs := by
    intro as
    induction as with
    | nil =>
      intro bs _ _ hm
      cases bs with
      | nil => rfl
      | cons b bs => simpa using (hm b).2 (by simp)
    | cons a as ih =>
      intro bs ha hb hm
      cases bs with
      | nil => simpa using (hm a).1 (by simp)
      | cons b bs =>
        obtain ⟨ha', has⟩ := List.pairwise_cons.1 ha
        obtain ⟨hb', hbs⟩ := List.pairwise_cons.1 hb
        have hab : a = b := by
          rcases List.mem_cons.1 ((hm a).1 (by simp)) with h | h
          · exact h
          · rcases List.mem_cons.1 ((hm b).2 (by simp)) with h' | h'
            · exact h'.symm
            · have := OrderedKey.trans (hb' a h) (ha' b h')
              simp [OrderedKey.irrefl] at this
        subst hab
        congr 1
        refine ih bs has hbs fun e => ⟨fun he => ?_, fun he => ?_⟩
        · rcases List.mem_cons.1 ((hm e).1 (List.mem_cons_of_mem _ he)) with rfl | h
          · simpa [OrderedKey.irrefl] using ha' e he
          · exact h
        · rcases List.mem_cons.1 ((hm e).2 (List.mem_cons_of_mem _ he)) with rfl | h
          · simpa [OrderedKey.irrefl] using hb' e he
          · exact h
  have hl : m.toList = n.toList := key _ _ m.increasing n.increasing fun (k, v) => by
    rw [mem_toList_iff, mem_toList_iff, h k]
  cases m
  cases n
  simpa using hl

end OrderedMap

end ContractHost
