import ProtobufMq.Foundation.Run
import ProtobufMq.Server.Binding

namespace ProtobufMq

open Foundation

/-!
# `binding_table` under failing statements

A binding does not remember whether it was made as durable, so the manager is
looked at together with a ledger that does.  Each of the three ways to remove
bindings takes them out of the map whatever becomes of its delete statement;
the rows follow only if the statement takes effect.  A restart builds the map
from the rows again.
-/

namespace BindingManager

/-- The calls that remove bindings. -/
inductive Removal where
  | unBind (ename qname : Bytes)
  | removeExchangeBindings (ename : Bytes)
  | removeMsgQueueBindings (qname : Bytes)

namespace Removal

/-- Perform a removal. -/
def apply (manager : BindingManager) (takesEffect : Bool) : Removal → BindingManager
  | .unBind ename qname => manager.unBind takesEffect ename qname
  | .removeExchangeBindings ename => manager.removeExchangeBindings takesEffect ename
  | .removeMsgQueueBindings qname => manager.removeMsgQueueBindings takesEffect qname

/-- The removal is for the binding of these names. -/
def selects : Removal → Bytes → Bytes → Bool
  | .unBind ename qname, otherE, otherQ => otherE = ename && otherQ = qname
  | .removeExchangeBindings ename, otherE, _ => otherE = ename
  | .removeMsgQueueBindings qname, _, otherQ => otherQ = qname

variable (manager : BindingManager) (takesEffect : Bool)

/-- The map loses the bindings that the removal is for, and no other. -/
theorem getBinding_apply (removal : Removal) (ename qname : Bytes) :
    (removal.apply manager takesEffect).getBinding ename qname =
      if removal.selects ename qname then none else manager.getBinding ename qname := by
  cases removal with
  | unBind otherE otherQ =>
      simp only [apply, getBinding_unBind, selects, Bool.and_eq_true, decide_eq_true_eq]
  | removeExchangeBindings otherE =>
      simp only [apply, getBinding_removeExchangeBindings, selects, decide_eq_true_eq]
  | removeMsgQueueBindings otherQ =>
      simp only [apply, getBinding_removeMsgQueueBindings, selects, decide_eq_true_eq]

/-- The table is asked to delete the rows of these names, or is left alone
because the map has no such binding. -/
theorem mapper_apply (removal : Removal) :
    (removal.apply manager takesEffect).mapper = manager.mapper.deleteWhere takesEffect
      (fun row => removal.selects row.exchangeName row.msgqueueName) ∨
    ((removal.apply manager takesEffect).mapper = manager.mapper ∧
      ∀ ename qname, removal.selects ename qname = true →
        manager.getBinding ename qname = none) := by
  cases removal with
  | unBind ename qname =>
      simp only [apply, BindingManager.unBind]
      cases found : manager.getBinding ename qname with
      | some binding => exact Or.inl rfl
      | none =>
          refine Or.inr ⟨rfl, fun otherE otherQ selected => ?_⟩
          simp only [selects, Bool.and_eq_true, decide_eq_true_eq] at selected
          rw [selected.1, selected.2]
          exact found
  | removeExchangeBindings ename =>
      simp only [apply, BindingManager.removeExchangeBindings]
      cases found : manager.bindings.lookup ename with
      | some bound => exact Or.inl rfl
      | none =>
          refine Or.inr ⟨rfl, fun otherE otherQ selected => ?_⟩
          simp only [selects, decide_eq_true_eq] at selected
          rw [selected, getBinding, BindingMapper.boundIn, found]
          rfl
  | removeMsgQueueBindings qname => exact Or.inl rfl

/-- A statement that fails leaves the rows. -/
theorem mapper_apply_failed (removal : Removal) :
    (removal.apply manager false).mapper = manager.mapper := by
  rcases removal.mapper_apply manager false with deleted | ⟨same, _⟩
  · exact deleted
  · exact same

end Removal

/-! ## The ledger -/

/-- A manager, and for each pair of names whether its binding was made with
`durable = true`. -/
structure Ledger where
  manager : BindingManager
  durable : Bytes → Bytes → Bool

/-- A call with what becomes of its statement, or a restart of the server. -/
inductive Call where
  | bind (takesEffect : Bool) (ename qname key : Bytes) (durable : Bool)
  | remove (takesEffect : Bool) (removal : Removal)
  | restart

namespace Ledger

/-- The ledger after a binding was made. -/
def note (ledger : Ledger) (ename qname : Bytes) (durable : Bool) : Bytes → Bytes → Bool :=
  match ledger.manager.getBinding ename qname with
  | some _ => ledger.durable
  | none => fun otherE otherQ =>
      if otherE = ename ∧ otherQ = qname then durable else ledger.durable otherE otherQ

/-- Perform a call.  What a restart brings back was stored. -/
def perform (ledger : Ledger) : Call → Except Empty Ledger
  | .bind takesEffect ename qname key durable =>
      .ok ⟨(ledger.manager.bind takesEffect ename qname key durable).2,
        ledger.note ename qname durable⟩
  | .remove takesEffect removal =>
      .ok { ledger with manager := removal.apply ledger.manager takesEffect }
  | .restart => .ok ⟨new ledger.manager.mapper, fun _ _ => true⟩

/-- The manager over an empty database. -/
def fresh : Ledger :=
  ⟨new {}, fun _ _ => false⟩

/-- A pair is bound, by a binding that was made as durable. -/
def BoundDurably (ledger : Ledger) (ename qname : Bytes) (binding : Binding) : Prop :=
  ledger.manager.getBinding ename qname = some binding ∧ ledger.durable ename qname = true

/-- The rows are exactly the durable bindings, each once, and a restart brings
back exactly these. -/
structure Stored (ledger : Ledger) : Prop where
  rows : ∀ row, row ∈ ledger.manager.mapper.bindingTable ↔
    ledger.BoundDurably row.exchangeName row.msgqueueName row
  once : ledger.manager.mapper.bindingTable.Nodup
  restart : ∀ ename qname binding,
    BindingMapper.boundIn ledger.manager.mapper.recovery ename qname = some binding ↔
      ledger.BoundDurably ename qname binding

/-- The condition on a call: a removal that is for a durable binding has its
statement take effect. -/
def DeletesRows (ledger : Ledger) : Call → Prop
  | .remove takesEffect removal => ∀ ename qname binding,
      ledger.BoundDurably ename qname binding → removal.selects ename qname = true →
        takesEffect = true
  | _ => True

/-- The invariant: the bindings of the map carry their names. -/
structure Tracked (ledger : Ledger) : Prop where
  rows : ∀ row, row ∈ ledger.manager.mapper.bindingTable ↔
    ledger.BoundDurably row.exchangeName row.msgqueueName row
  once : ledger.manager.mapper.bindingTable.Nodup
  named : ∀ ename qname binding, ledger.manager.getBinding ename qname = some binding →
    binding.exchangeName = ename ∧ binding.msgqueueName = qname

section Steps

variable {ledger next : Ledger} {ename qname key : Bytes} {binding : Binding}

/-- With one row for each pair, the first row with a pair of names is the only
one. -/
theorem Tracked.boundIn_recovery_iff (tracked : Tracked ledger) :
    BindingMapper.boundIn ledger.manager.mapper.recovery ename qname = some binding ↔
      ledger.BoundDurably ename qname binding := by
  have from_row : ∀ found,
      BindingMapper.boundIn ledger.manager.mapper.recovery ename qname = some found →
        ledger.BoundDurably ename qname found := by
    intro found recovered
    rcases BindingMapper.boundIn_foldl recovered with empty | ⟨member, sameE, sameQ⟩
    · cases empty
    · have bound := (tracked.rows found).mp member
      rw [sameE, sameQ] at bound
      exact bound
  constructor
  · exact from_row binding
  · rintro ⟨bound, durable⟩
    rcases tracked.named ename qname binding bound with ⟨sameE, sameQ⟩
    have member : binding ∈ ledger.manager.mapper.bindingTable := by
      apply (tracked.rows binding).mpr
      rw [sameE, sameQ]
      exact ⟨bound, durable⟩
    rcases BindingMapper.boundIn_recovery member with ⟨found, recovered⟩
    rw [sameE, sameQ] at recovered
    cases bound.symm.trans (from_row found recovered).1
    exact recovered

theorem Tracked.stored (tracked : Tracked ledger) : Stored ledger :=
  ⟨tracked.rows, tracked.once, fun _ _ _ => tracked.boundIn_recovery_iff⟩

/-- What the map has for every pair after a binding was added. -/
theorem getBinding_added (manager : BindingManager) (mapper : BindingMapper)
    (ename qname key otherE otherQ : Bytes) :
    ((⟨mapper, manager.bindings⟩ : BindingManager).withBindings ename
      ((manager.getExchangeBindings ename).insert qname ⟨ename, qname, key⟩)).getBinding
        otherE otherQ =
      if otherE = ename ∧ otherQ = qname then some ⟨ename, qname, key⟩
      else manager.getBinding otherE otherQ := by
  rw [getBinding_withBindings, Dictionary.lookup_insert]
  by_cases sameE : otherE = ename
  · by_cases sameQ : otherQ = qname
    · rw [if_pos sameE, if_pos sameQ, if_pos ⟨sameE, sameQ⟩]
    · rw [if_pos sameE, if_neg sameQ, if_neg fun both => sameQ both.2, ← getBinding_eq, sameE]
  · rw [if_neg sameE, if_neg fun both => sameE both.1]
    rfl

/-- A binding for a free pair comes with its row if it is durable. -/
theorem tracked_added (tracked : Tracked ledger)
    (free : ledger.manager.getBinding ename qname = none) {durable : Bool} {table : List Binding}
    (table_eq : table = if durable then ledger.manager.mapper.bindingTable ++ [⟨ename, qname, key⟩]
      else ledger.manager.mapper.bindingTable) :
    Tracked ⟨(⟨⟨table⟩, ledger.manager.bindings⟩ : BindingManager).withBindings ename
      ((ledger.manager.getExchangeBindings ename).insert qname ⟨ename, qname, key⟩),
        ledger.note ename qname durable⟩ := by
  have noted : ∀ otherE otherQ, ledger.note ename qname durable otherE otherQ =
      if otherE = ename ∧ otherQ = qname then durable else ledger.durable otherE otherQ := by
    intro otherE otherQ
    rw [note, free]
  have unlisted : ∀ row ∈ ledger.manager.mapper.bindingTable,
      ¬ (row.exchangeName = ename ∧ row.msgqueueName = qname) := by
    rintro row member ⟨sameE, sameQ⟩
    have bound := ((tracked.rows row).mp member).1
    rw [sameE, sameQ, free] at bound
    cases bound
  constructor
  · intro row
    simp only [BoundDurably, getBinding_added, noted]
    change row ∈ table ↔ _
    rw [table_eq]
    by_cases same : row.exchangeName = ename ∧ row.msgqueueName = qname
    · have absent : row ∉ ledger.manager.mapper.bindingTable :=
        fun member => unlisted row member same
      cases durable with
      | true => simp [same, absent, eq_comm]
      | false => simp [same, absent]
    · have other : row ≠ ⟨ename, qname, key⟩ := by
        intro equal
        rw [equal] at same
        exact same ⟨rfl, rfl⟩
      have kept := tracked.rows row
      rw [BoundDurably] at kept
      cases durable with
      | true => simpa [same, other] using kept
      | false => simpa [same] using kept
  · change table.Nodup
    rw [table_eq]
    cases durable with
    | false => exact tracked.once
    | true =>
        apply List.Nodup.append tracked.once (List.nodup_singleton _)
        intro row member single
        cases List.mem_singleton.mp single
        exact unlisted _ member ⟨rfl, rfl⟩
  · intro otherE otherQ found bound
    simp only [getBinding_added] at bound
    by_cases same : otherE = ename ∧ otherQ = qname
    · rw [if_pos same] at bound
      cases bound
      exact ⟨same.1.symm, same.2.symm⟩
    · rw [if_neg same] at bound
      exact tracked.named otherE otherQ found bound

theorem tracked_bind (tracked : Tracked ledger) {takesEffect durable : Bool}
    (stepped : ledger.perform (.bind takesEffect ename qname key durable) = .ok next) :
    Tracked next := by
  cases stepped
  rcases ledger.manager.bind_cases takesEffect ename qname key durable with
    ⟨⟨binding, found⟩, result⟩ | ⟨free, transient, result⟩ | ⟨free, stored, _, result⟩ |
    ⟨free, _, _, result⟩
  all_goals rw [result]
  · rw [note, found]
    exact tracked
  · subst transient
    exact tracked_added tracked free rfl
  · subst stored
    exact tracked_added tracked free rfl
  · -- the pair stays free, so what the ledger says of it does not matter
    have other : ∀ otherE otherQ found, ledger.manager.getBinding otherE otherQ = some found →
        ledger.note ename qname durable otherE otherQ = ledger.durable otherE otherQ := by
      intro otherE otherQ found bound
      rw [note, free]
      apply if_neg
      rintro ⟨sameE, sameQ⟩
      rw [sameE, sameQ, free] at bound
      cases bound
    refine ⟨fun row => ?_, tracked.once, tracked.named⟩
    rw [tracked.rows row, BoundDurably, BoundDurably]
    constructor
    · rintro ⟨bound, stored⟩
      exact ⟨bound, (other _ _ _ bound).trans stored⟩
    · rintro ⟨bound, stored⟩
      exact ⟨bound, (other _ _ _ bound).symm.trans stored⟩

/-- The rows after a removal whose statement takes effect if it has rows to
delete. -/
theorem mem_removed (tracked : Tracked ledger) {takesEffect : Bool} {removal : Removal}
    (meets : ledger.DeletesRows (.remove takesEffect removal)) (row : Binding) :
    row ∈ (removal.apply ledger.manager takesEffect).mapper.bindingTable ↔
      row ∈ ledger.manager.mapper.bindingTable ∧
        removal.selects row.exchangeName row.msgqueueName = false := by
  rcases removal.mapper_apply ledger.manager takesEffect with deleted | ⟨same, unbound⟩
  · rw [deleted, BindingMapper.deleteWhere]
    cases takesEffect with
    | true => simp [List.mem_filter]
    | false =>
        refine ⟨fun member => ⟨member, ?_⟩, And.left⟩
        rw [← Bool.not_eq_true]
        intro selected
        cases meets _ _ row ((tracked.rows row).mp member) selected
  · rw [same]
    refine ⟨fun member => ⟨member, ?_⟩, And.left⟩
    rw [← Bool.not_eq_true]
    intro selected
    have bound := ((tracked.rows row).mp member).1
    rw [unbound _ _ selected] at bound
    cases bound

theorem tracked_remove (tracked : Tracked ledger) {takesEffect : Bool} {removal : Removal}
    (meets : ledger.DeletesRows (.remove takesEffect removal))
    (stepped : ledger.perform (.remove takesEffect removal) = .ok next) : Tracked next := by
  cases stepped
  constructor
  · intro row
    rw [mem_removed tracked meets, tracked.rows row]
    simp only [BoundDurably, Removal.getBinding_apply]
    cases removal.selects row.exchangeName row.msgqueueName with
    | true => simp
    | false => simp
  · rcases removal.mapper_apply ledger.manager takesEffect with deleted | ⟨same, _⟩
    · simp only [deleted, BindingMapper.deleteWhere]
      cases takesEffect with
      | true => exact tracked.once.filter _
      | false => exact tracked.once
    · simp only [same]
      exact tracked.once
  · intro otherE otherQ found bound
    simp only [Removal.getBinding_apply] at bound
    cases selected : removal.selects otherE otherQ with
    | true =>
        rw [selected] at bound
        cases bound
    | false =>
        rw [selected] at bound
        exact tracked.named otherE otherQ found bound

/-- A restart keeps the rows, and binds what they say. -/
theorem tracked_restart (tracked : Tracked ledger)
    (stepped : ledger.perform .restart = .ok next) : Tracked next := by
  cases stepped
  have bound_iff : ∀ ename qname found,
      (new ledger.manager.mapper).getBinding ename qname = some found ↔
        ledger.BoundDurably ename qname found := fun _ _ _ => tracked.boundIn_recovery_iff
  constructor
  · intro row
    rw [BoundDurably, bound_iff, ← tracked.rows row]
    exact (and_iff_left rfl).symm
  · exact tracked.once
  · intro ename qname found bound
    exact tracked.named ename qname found ((bound_iff ename qname found).mp bound).1

theorem tracked_step {call : Call} (tracked : Tracked ledger) (meets : ledger.DeletesRows call)
    (stepped : ledger.perform call = .ok next) : Tracked next := by
  cases call with
  | bind takesEffect ename qname key durable => exact tracked_bind tracked stepped
  | remove takesEffect removal => exact tracked_remove tracked meets stepped
  | restart => exact tracked_restart tracked stepped

/-- A row whose delete statement failed is left behind. -/
theorem deletesRows_of_stored {call : Call} (tracked : Tracked ledger)
    (stepped : ledger.perform call = .ok next) (stored : Stored next) :
    ledger.DeletesRows call := by
  cases call with
  | bind takesEffect ename qname key durable => exact trivial
  | restart => exact trivial
  | remove takesEffect removal =>
      intro ename qname binding bound selected
      cases takesEffect with
      | true => rfl
      | false =>
          cases stepped
          rcases tracked.named ename qname binding bound.1 with ⟨sameE, sameQ⟩
          have row : binding ∈ ledger.manager.mapper.bindingTable := by
            apply (tracked.rows binding).mpr
            rw [sameE, sameQ]
            exact bound
          rw [← removal.mapper_apply_failed] at row
          have left := ((stored.rows binding).mp row).1
          simp only [Removal.getBinding_apply, sameE, sameQ, selected, if_true] at left
          cases left

end Steps

/-- In every run over an empty database, restarts included, the rows are the
durable bindings in every state, if and only if every removal of a durable
binding has its delete statement take effect. -/
theorem stored_throughout_iff (calls : List Call) :
    Throughout perform Stored fresh calls ↔ Along perform DeletesRows fresh calls := by
  have start : Tracked fresh := by
    refine ⟨fun row => ⟨fun listed => ?_, fun bound => ?_⟩, List.nodup_nil, ?_⟩
    · cases listed
    · cases bound.1
    · intro ename qname binding bound
      cases bound
  have total : ∀ (ledger : Ledger) (call : Call), ∃ next, ledger.perform call = .ok next := by
    intro ledger call
    cases call <;> exact ⟨_, rfl⟩
  rcases run_completes total fresh calls with ⟨final, completes⟩
  exact throughout_iff_along (fun _ tracked => tracked.stored)
    (fun _ _ _ tracked meets stepped => tracked_step tracked meets stepped)
    (fun _ _ _ tracked stepped stored => deletesRows_of_stored tracked stepped stored)
    start completes

/-- A binding that was removed while its delete statement failed keeps its row,
and a restart binds it again. -/
theorem removed_binding_comes_back :
    ¬ ∀ calls : List Call, Throughout perform Stored fresh calls := by
  intro always
  have everywhere := always [.bind true (ascii "e") (ascii "q") (ascii "k") true,
    .remove false (.unBind (ascii "e") (ascii "q")), .restart]
  have stored := everywhere.2 _ rfl |>.2 _ rfl |>.first
  have back := (stored.restart (ascii "e") (ascii "q") ⟨ascii "e", ascii "q", ascii "k"⟩).mp rfl
  cases back.1

end Ledger

end BindingManager

end ProtobufMq
