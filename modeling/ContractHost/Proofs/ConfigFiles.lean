import ContractHost.Config.File
import ContractHost.Proofs.TomlDocuments
/-!
# Configuration files that were saved

A configuration that passes validation is saved and loaded again without loss, whatever its texts are, if its numbers fit
into the integers of the format, which have a sign. A configuration with a larger number is refused.
-/
namespace ContractHost

variable (p : Json.Positions)

/-! ## Records -/

theorem GasSchedule.ofJson?_toJson (s : GasSchedule) : ofJson? p s.toJson = some s := by
  rw [ofJson?, toJson, Json.fields?_object]
  · simp [Json.orElse, Json.asWord_ofNat]
  · rfl
  · decide

theorem InputLimits.ofJson?_toJson (l : InputLimits) : ofJson? p l.toJson = some l := by
  rw [ofJson?, toJson, Json.fields?_object]
  · simp [named, Json.orElse, Json.asWord_ofNat]
  · rfl
  · decide

theorem Logging.ofJson?_toJson (l : Logging) : ofJson? p l.toJson = some l := by
  rw [ofJson?, toJson, Json.fields?_object]
  · rfl
  · rfl
  · decide

theorem Config.ofJson?_toJson (c : Config) : ofJson? p c.toJson = some c := by
  rw [ofJson?, toJson, Json.fields?_object]
  · simp [Json.orElse, Json.asWord_ofNat, Json.asBool, GasSchedule.ofJson?_toJson, InputLimits.ofJson?_toJson,
      Logging.ofJson?_toJson]
  · rfl
  · decide

/-! ## Documents -/

def GasSchedule.named (s : GasSchedule) : List (String × Gas) :=
  [("storage_read_per_byte", s.readPerByte), ("storage_write_per_byte", s.writePerByte),
    ("storage_remove_per_byte", s.removePerByte), ("transfer", s.transfer), ("event_per_byte", s.eventPerByte)]

def Logging.texts (l : Logging) : List (String × Json) :=
  [("level", .text l.level), ("format", .text l.format)]

namespace Config

def words (ns : List (String × UInt64)) : List (String × Json) :=
  ns.map fun (name, n) => (name, Json.ofNat n.toNat)

/-- The numbers outside of tables with their names in configuration files. -/
def named (c : Config) : List (String × UInt64) :=
  [("max_call_depth", c.maxCallDepth), ("max_args_length", c.maxArgsLength)]

def values (c : Config) : List (String × Json) :=
  words c.named ++ [("allow_reentrancy", .bool c.allowReentrancy)]

def tables (c : Config) : List Toml.Table :=
  [("gas", words c.gas.named), ("limits", words c.limits.named), ("logging", c.logging.texts)]

variable (c : Config)

theorem toText?_eq : c.toText? = Toml.document? (c.values ++ c.tables.map Toml.Table.member) :=
  rfl

theorem orderly : Toml.Orderly c.values c.tables where
  names := .of_names ["max_call_depth", "max_args_length", "allow_reentrancy", "gas", "limits", "logging"] rfl (by decide)
  inner := by
    have hgas : Toml.Named (words c.gas.named) := .of_names
      ["storage_read_per_byte", "storage_write_per_byte", "storage_remove_per_byte", "transfer", "event_per_byte"] rfl
      (by decide)
    have hlimits : Toml.Named (words c.limits.named) := .of_names
      ["max_storage_key", "max_storage_value", "max_code", "max_args", "max_amount", "max_string"] rfl (by decide)
    have hlogging : Toml.Named c.logging.texts := .of_names ["level", "format"] rfl (by decide)
    simp [tables, hgas, hlimits, hlogging]
  flat := by simp [values, named, words, Json.ofNat]

/-- The text of a configuration holds just this configuration. -/
theorem ofText?_toText? {text : String} (h : c.toText? = some text) : ofText? text = some c := by
  rw [ofText?, Toml.parse?_document? c.orderly h]
  exact ofJson?_toJson .any c

def numbers (c : Config) : List UInt64 :=
  (c.named ++ (c.gas.named ++ c.limits.named)).map Prod.snd

/-- Whether all numbers are integers of the file format, which take 64 bits with their sign. -/
def Fits (c : Config) : Prop :=
  ∀ n ∈ c.numbers, n.toNat < 2 ^ 63

-- Only the numbers in the list are to be looked at, not all words.
instance : Decidable c.Fits :=
  List.decidableBAll (fun n : UInt64 => n.toNat < 2 ^ 63) c.numbers

theorem isSome_scalar?_words {ns : List (String × UInt64)} :
    (∀ m ∈ words ns, (Toml.scalar? m.2).isSome) ↔ ∀ n ∈ ns.map Prod.snd, n.toNat < 2 ^ 63 := by
  rw [words, List.forall_mem_map, List.forall_mem_map]
  exact forall₂_congr fun _ _ => Toml.isSome_scalar?_ofNat

/-- A configuration has a text exactly if its numbers fit. Its texts do not matter. -/
theorem isSome_toText?_iff : c.toText?.isSome ↔ c.Fits := by
  have hbool : (Toml.scalar? (.bool c.allowReentrancy)).isSome := by
    cases c.allowReentrancy <;> rfl
  have hvalues : (∀ m ∈ c.values, (Toml.scalar? m.2).isSome) ↔
      ∀ n ∈ c.named.map Prod.snd, n.toNat < 2 ^ 63 := by
    rw [values, List.forall_mem_append, isSome_scalar?_words]
    exact and_iff_left (List.forall_mem_singleton.mpr hbool)
  have htables : (∀ t ∈ c.tables, ∀ m ∈ t.2, (Toml.scalar? m.2).isSome) ↔
      (∀ n ∈ c.gas.named.map Prod.snd, n.toNat < 2 ^ 63) ∧ ∀ n ∈ c.limits.named.map Prod.snd, n.toNat < 2 ^ 63 := by
    have htexts : ∀ m ∈ c.logging.texts, (Toml.scalar? m.2).isSome :=
      List.forall_mem_cons.mpr ⟨rfl, List.forall_mem_singleton.mpr rfl⟩
    rw [tables, List.forall_mem_cons, List.forall_mem_cons, List.forall_mem_singleton, isSome_scalar?_words,
      isSome_scalar?_words]
    exact and_congr_right fun _ => and_iff_left htexts
  rw [toText?_eq, Toml.isSome_document?_iff c.orderly, hvalues, htables, Fits, numbers, List.map_append, List.map_append,
    List.forall_mem_append, List.forall_mem_append]

/-! ## Paths -/

theorem climbs_iff (cs : List Char) : climbs cs = true ↔ ['.', '.'] <:+: cs := by
  fun_induction climbs cs with
  | case1 rest => exact iff_of_true rfl ⟨[], rest, rfl⟩
  | case2 c rest hdots ih =>
    -- The dots do not stand at the beginning, so they stand in the rest or nowhere.
    rw [ih, List.infix_cons_iff]
    refine ⟨.inr, fun h => h.resolve_left ?_⟩
    rintro ⟨more, hmore⟩
    obtain ⟨rfl, rfl⟩ := List.cons.inj hmore
    exact hdots more rfl rfl
  | case3 => simp

theorem checkPath_eq_ok_iff {path : String} : checkPath path = .ok () ↔ ¬ ['.', '.'] <:+: path.toList := by
  rw [← climbs_iff, checkPath]
  split <;> simp_all

/-! ## Files -/

variable {c} {path : String}

theorem save_of_toText? (hpath : checkPath path = .ok ()) {text : String} (h : c.toText? = some text) :
    save path true c = .ok text := by
  rw [save, hpath, h]
  rfl

theorem load_of_ofText? (hpath : checkPath path = .ok ()) {text : String} (h : ofText? text = some c)
    (hvalid : c.validate = .ok ()) : load path (some text) = .ok c := by
  simp only [load, hpath, h, hvalid]
  rfl

/-- A valid configuration is saved and loaded again as it was if its numbers fit, and otherwise it is not saved at all. -/
theorem save_lossless (hvalid : c.validate = .ok ()) (hpath : ¬ ['.', '.'] <:+: path.toList) :
    (c.Fits → ∃ text, save path true c = .ok text ∧ load path (some text) = .ok c) ∧
      (¬ c.Fits → ∀ writable, save path writable c = .error .unwritableNumber) := by
  have hpath := checkPath_eq_ok_iff.mpr hpath
  constructor
  · intro hfits
    obtain ⟨text, htext⟩ := Option.isSome_iff_exists.mp ((isSome_toText?_iff c).mpr hfits)
    exact ⟨text, save_of_toText? hpath htext, load_of_ofText? hpath (ofText?_toText? c htext) hvalid⟩
  · intro hfits writable
    have htext : c.toText? = none := by
      rw [← Option.not_isSome_iff_eq_none, isSome_toText?_iff]
      exact hfits
    rw [save, hpath, htext]
    rfl

/-- The largest number that fits, and texts that need quotes of every kind. -/
def extreme : Config :=
  { maxCallDepth := 9223372036854775807, logging := { level := "a \"b\"\n'''c'", format := "\\ '" } }

/-- A depth that is valid and too large for a file. -/
def tooDeep : Config :=
  { maxCallDepth := 9223372036854775808 }

/-- The one is loaded again as it was, the other is not saved. -/
theorem extreme_lossless :
    (∃ text, save "host.toml" true extreme = .ok text ∧ load "host.toml" (some text) = .ok extreme) ∧
      ∀ writable, save "host.toml" writable tooDeep = .error .unwritableNumber := by
  have hpath : ¬ ['.', '.'] <:+: "host.toml".toList := mt (climbs_iff _).mpr (by decide)
  exact ⟨(save_lossless (by simp [validate, extreme, InputLimits.named]) hpath).1 (by decide),
    (save_lossless (by simp [validate, tooDeep, InputLimits.named]) hpath).2 (by decide)⟩

/-- Not every valid configuration is saved. -/
theorem valid_unsaved : ¬ ∀ (c : Config) (path : String), c.validate = .ok () → ¬ ['.', '.'] <:+: path.toList →
    ∃ text, save path true c = .ok text ∧ load path (some text) = .ok c := by
  intro h
  have hpath : ¬ ['.', '.'] <:+: "host.toml".toList := mt (climbs_iff _).mpr (by decide)
  obtain ⟨text, hsave, -⟩ := h tooDeep "host.toml" (by simp [validate, tooDeep, InputLimits.named]) hpath
  have htext : tooDeep.toText? = none := by
    rw [← Option.not_isSome_iff_eq_none, isSome_toText?_iff]
    decide
  rw [save, checkPath_eq_ok_iff.mpr hpath, htext] at hsave
  cases hsave

end Config

end ContractHost
