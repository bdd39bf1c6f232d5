import ContractHost.Proofs.Budgets
import ContractHost.Proofs.FaithfulRecords
import ContractHost.Proofs.LegibleResults
import ContractHost.Proofs.NestedReplies
/-!
# Records without arguments

Results and records are compared here but for the arguments in results. Whether a result can be read has nothing to do
with its arguments, so a script learns the same from results that differ in nothing else. And what all arguments of a call
tree were can be told from its record without those in its results.
-/
namespace ContractHost

open CallRecord (Encodable)
open Script.Session (outputOf)

/-! ## Results without arguments -/

namespace ResultTree

def argless (t : ResultTree) : ResultTree :=
  t.map FrameResult.argless

variable {t t' : ResultTree}

theorem fits_argless (t : ResultTree) : t.argless.Fits ↔ t.Fits := by
  simp only [Fits, argless, Tree.subtrees_map, List.forall_mem_map, Tree.label_map]
  exact forall₂_congr fun u _ => ⟨fun h => ⟨h.action, h.remaining⟩, fun h => ⟨h.action, h.remaining⟩⟩

/-- Whether a tree can be read back has nothing to do with the arguments in it. -/
theorem ofBytes_toBytes_of_argless (h : t'.argless = t.argless) (hsize : t.toBytes.length < 2 ^ 64)
    (hsize' : t'.toBytes.length < 2 ^ 64) {u : ResultTree} (hread : ofBytes t.toBytes = .ok u) :
    u = t ∧ ofBytes t'.toBytes = .ok t' := by
  obtain ⟨hu, hfits, hheight⟩ := ofBytes_toBytes_ok hsize hread
  have hlevel : t'.height = t.height := by
    rw [← Tree.height_map FrameResult.argless t', ← Tree.height_map FrameResult.argless t]
    exact congrArg Tree.height h
  refine ⟨hu, ofBytes_toBytes (hlevel ▸ hheight) ?_ hsize'⟩
  rw [← fits_argless, h, fits_argless]
  exact hfits

end ResultTree

namespace Reply

variable {t t' : ResultTree}

theorem value_nested (t : ResultTree) (gas : Gas) : (nested t gas).value = .bytes (some t.toBytes) := by
  simp only [nested]
  split <;> rfl

theorem outputOf_nested (h : t'.argless = t.argless) (hsize : t.toBytes.length < 2 ^ 64)
    (hsize' : t'.toBytes.length < 2 ^ 64) : outputOf (nested t' gas) = outputOf (nested t gas) := by
  simp only [outputOf, value_nested, Value.toBytes, Option.getD_some]
  cases hread : ResultTree.ofBytes t.toBytes with
  | ok u =>
    obtain ⟨rfl, hread'⟩ := ResultTree.ofBytes_toBytes_of_argless h hsize hsize' hread
    rw [hread']
    exact Tree.told_of_map_eq h FrameResult.output fun _ => rfl
  | error e =>
    cases hread' : ResultTree.ofBytes t'.toBytes with
    | ok u =>
      obtain ⟨-, hok⟩ := ResultTree.ofBytes_toBytes_of_argless h.symm hsize' hsize hread'
      rw [hread] at hok
      cases hok
    | error e' => rfl

theorem agrees_nested (h : t'.argless = t.argless) (hsize : t.toBytes.length < 2 ^ 64)
    (hsize' : t'.toBytes.length < 2 ^ 64) (gas : Gas) : (nested t gas).Agrees (nested t' gas) := by
  have hsuccess := Tree.told_of_map_eq h FrameResult.success fun _ => rfl
  have herror := Tree.told_of_map_eq h FrameResult.error fun _ => rfl
  refine ⟨?_, ?_, ?_, outputOf_nested h hsize hsize'⟩
  all_goals
    simp only [nested, hsuccess, herror]
    split <;> rfl

end Reply

/-! ## Records without arguments -/

/-- An exchange without the result of a nested frame. -/
def Exchange.unquoted (x : Exchange) : Exchange :=
  if x.nested then { x with reply := { x.reply with value := .nothing } } else x

theorem Reply.Agrees.withoutValue {reply reply' : Reply} (h : reply.Agrees reply') :
    { reply' with value := .nothing } = { reply with value := .nothing } := by
  obtain ⟨status', gasUsed', value', error'⟩ := reply'
  obtain ⟨rfl, rfl, rfl, -⟩ := h
  rfl

/-- A record without the arguments in its result and in those that it was told. -/
def FrameRecord.argless (r : FrameRecord) : FrameRecord :=
  { r with
    result := r.result.argless
    passage := r.passage.map fun p => { p with exchanges := p.exchanges.map Exchange.unquoted } }

theorem Exchange.request_unquoted (x : Exchange) : x.unquoted.request = x.request := by
  simp only [unquoted]
  split <;> rfl

theorem Exchange.gasUsed_unquoted (x : Exchange) : x.unquoted.reply.gasUsed = x.reply.gasUsed := by
  simp only [unquoted]
  split <;> rfl

theorem grants_unquoted (limits : InputLimits) (self : Address) (m : Meter) (xs : List Exchange) :
    grants limits self m (xs.map Exchange.unquoted) = grants limits self m xs := by
  induction xs generalizing m with
  | nil => rfl
  | cons x xs ih =>
    have hafter : m.after x.unquoted = m.after x := by
      simp only [Meter.after, x.request_unquoted, x.gasUsed_unquoted]
    have hgrant : x.unquoted.grant limits self m = x.grant limits self m := by
      simp only [Exchange.grant, x.request_unquoted]
    rw [List.map_cons, grants, grants, hafter, hgrant, ih]

namespace CallRecord

def argless (t : CallRecord) : CallRecord :=
  t.map FrameRecord.argless

theorem argless_node (r : FrameRecord) (ts : List CallRecord) :
    argless (.node r ts) = .node r.argless (ts.map argless) := by
  rw [argless, Tree.map, Tree.mapAll_eq_map]
  rfl

theorem result_argless (t : CallRecord) : t.argless.result = t.result.argless := by
  rw [result, argless, result, ResultTree.argless, Tree.map_map, Tree.map_map]
  rfl

theorem grants_argless (limits : InputLimits) (r : FrameRecord) (ts ts' : List CallRecord) :
    grants limits (.node r.argless ts') = grants limits (.node r ts) := by
  obtain ⟨result, status, (_ | p)⟩ := r
  · rfl
  · exact grants_unquoted limits p.contract _ p.exchanges

mutual

theorem whole_argless (limits : InputLimits) (action : Action) (t : CallRecord) :
    t.argless.whole limits action = t.whole limits action := by
  match t with
  | .node r below =>
    show whole limits action (.node r.argless (Tree.mapAll FrameRecord.argless below)) = _
    rw [whole, whole, grants_argless limits r below, wholeAll_argless]
    rfl

theorem wholeAll_argless (limits : InputLimits) (gs : List Grant) (ts : List CallRecord) :
    wholeAll limits gs (Tree.mapAll FrameRecord.argless ts) = wholeAll limits gs ts := by
  match gs, ts with
  | _, [] => rw [Tree.mapAll]
  | [], t :: ts => rfl
  | g :: gs, t :: ts =>
    have hfirst : whole limits g.action (t.map FrameRecord.argless) = whole limits g.action t :=
      whole_argless limits g.action t
    rw [Tree.mapAll, wholeAll, wholeAll, hfirst, wholeAll_argless limits gs ts]

end

variable {t t' : CallRecord}

theorem gasUsed_of_argless (h : t'.argless = t.argless) : t'.gasUsed = t.gasUsed :=
  Tree.told_of_map_eq h (fun r => r.result.gasUsed) fun _ => rfl

theorem success_of_argless (h : t'.argless = t.argless) : t'.success = t.success :=
  Tree.told_of_map_eq h (fun r => r.result.success) fun _ => rfl

theorem result_of_argless (h : t'.argless = t.argless) : t'.result.argless = t.result.argless := by
  rw [← result_argless, ← result_argless, h]

/-- A caller that is told of a nested frame learns the same, whatever arguments are kept. -/
theorem agrees_of_argless (h : t'.argless = t.argless) (ht : t.Encodable) (ht' : t'.Encodable) (gas : Gas) :
    (Reply.nested t.result gas).Agrees (.nested t'.result gas) :=
  Reply.agrees_nested (result_of_argless h) ht ht' gas

end CallRecord

end ContractHost
