import ProtobufMq.Server.BindingTable
import ProtobufMq.Server.Specification

namespace ProtobufMq

open Foundation

/-!
# The managers as recoverable maps

What a map has under a key, and what the constructor would find there, are all
that a client can know of a manager.  The calls of the three managers are read
here as the changes of these maps that the specification names.

That a queue which is not in the map has no row is taken for granted by the
source, and is an invariant.
-/

/-! ## Exchanges and queues -/

/-- What is there, and what the constructor would find. -/
def ExchangeManager.view (manager : ExchangeManager) : Recoverable Bytes Exchange :=
  .ofTable Exchange.ofRow manager.exchanges manager.mapper.exchangeTable

/-- What is there, and what the constructor would find. -/
def MsgQueueManager.view (manager : MsgQueueManager) : Recoverable Bytes MsgQueue :=
  .ofTable MsgQueue.ofRow manager.msgQueues manager.mapper.queueTable

section Maps

variable (broker : Broker) {takesEffect : Bool}

theorem ExchangeManager.view_declare (manager : ExchangeManager) (exchange : Exchange) :
    { broker with exchanges := manager.view }.declareExchange takesEffect exchange =
      ((manager.declareExchange takesEffect exchange).1,
        { broker with exchanges := (manager.declareExchange takesEffect exchange).2.view }) := by
  have current : manager.view.current exchange.name = manager.exchanges.lookup exchange.name := rfl
  have free : (takesEffect && (manager.view.lasting exchange.name).isNone) = true ↔
      takesEffect = true ∧ exchange.name ∉ manager.mapper.exchangeTable := by
    rw [Bool.and_eq_true, Option.isNone_iff_eq_none, ← AList.lookup_eq_none]
    exact and_congr_right fun _ => Option.map_eq_none_iff
  simp only [Broker.declareExchange, current, free]
  unfold ExchangeManager.declareExchange
  cases manager.exchanges.lookup exchange.name with
  | some present => rfl
  | none =>
      simp only [Option.isSome_none, Bool.false_eq_true, if_false, ne_eq, ite_not,
        ExchangeMapper.insert]
      by_cases durable : exchange.durable = .durable
      · simp only [durable, if_true]
        by_cases inserts : takesEffect = true ∧ exchange.name ∉ manager.mapper.exchangeTable
        · simp only [inserts, not_false_eq_true, and_self, if_true, view,
            Recoverable.ofTable_insert_row _ _ _ inserts.2, Exchange.ofRow_row]
        · simp only [inserts, if_false, Bool.false_eq_true]
      · simp only [durable, if_false, view, Recoverable.ofTable_insert]

theorem ExchangeManager.view_delete (manager : ExchangeManager) (name : Bytes) :
    { broker with exchanges := manager.view }.dropExchange takesEffect name =
      ((manager.deleteExchange takesEffect name).1,
        { broker with exchanges := (manager.deleteExchange takesEffect name).2.view }) := by
  have current : manager.view.current name = manager.exchanges.lookup name := rfl
  simp only [Broker.dropExchange, current]
  unfold ExchangeManager.deleteExchange
  cases manager.exchanges.lookup name with
  | none => rfl
  | some exchange =>
      have isOne : exchange.durable.code = true.toNat ↔ exchange.durable = .undurable := by
        cases mode : exchange.durable <;> simp [DeliveryMode.code]
      simp only [isOne, ne_eq, ite_not, ExchangeMapper.remove]
      by_cases undurable : exchange.durable = .undurable
      · simp only [undurable, if_true]
        cases takesEffect with
        | true => simp only [if_true, view, Recoverable.ofTable_erase_row]
        | false => simp only [Bool.false_eq_true, if_false]
      · simp only [undurable, if_false, view, Recoverable.ofTable_erase]

theorem MsgQueueManager.view_declare {manager : MsgQueueManager} (tracked : manager.Tracked)
    (queue : MsgQueue) :
    { broker with queues := manager.view }.declareQueue takesEffect queue =
      ((manager.declareQueue takesEffect queue).1,
        { broker with queues := (manager.declareQueue takesEffect queue).2.view }) := by
  have current : manager.view.current queue.name = manager.msgQueues.lookup queue.name := rfl
  simp only [Broker.declareQueue, current]
  unfold MsgQueueManager.declareQueue
  cases found : manager.msgQueues.lookup queue.name with
  | some present => rfl
  | none =>
      have free : queue.name ∉ manager.mapper.queueTable := by
        intro stored
        rcases (tracked.mem_table_iff queue.name).mp stored with ⟨other, there, _⟩
        cases found.symm.trans there
      simp only [Option.isSome_none, Bool.false_eq_true, if_false, MsgQueueMapper.insert, free,
        not_false_eq_true, and_true]
      cases queue.durable with
      | false =>
          simp only [if_true, Bool.false_eq_true, if_false, view, Recoverable.ofTable_insert]
      | true =>
          cases takesEffect with
          | true =>
              simp only [Bool.true_eq_false, if_true, if_false, view,
                Recoverable.ofTable_insert_row _ _ _ free, MsgQueue.ofRow_row]
              rfl
          | false => simp only [Bool.true_eq_false, if_true, if_false, Bool.false_eq_true]

theorem MsgQueueManager.view_delete {manager : MsgQueueManager} (tracked : manager.Tracked)
    (name : Bytes) :
    { broker with queues := manager.view }.dropQueue takesEffect name =
      ((manager.deleteQueue takesEffect name).1,
        { broker with queues := (manager.deleteQueue takesEffect name).2.view }) := by
  have current : manager.view.current name = manager.msgQueues.lookup name := rfl
  simp only [Broker.dropQueue, current]
  unfold MsgQueueManager.deleteQueue
  cases found : manager.msgQueues.lookup name with
  | none => rfl
  | some queue =>
      simp only [MsgQueueMapper.remove]
      cases durable : queue.durable with
      | true =>
          cases takesEffect with
          | true =>
              simp only [Bool.not_true, Bool.and_false, Bool.false_eq_true, if_false, if_true, view,
                Recoverable.ofTable_erase_row]
          | false => simp only [Bool.not_false, Bool.and_true, if_true, Bool.false_eq_true, if_false]
      | false =>
          -- it had no row, so removing it for good is removing it
          have unstored : name ∉ manager.mapper.queueTable := by
            intro stored
            rcases (tracked.mem_table_iff name).mp stored with ⟨other, there, stays⟩
            cases found.symm.trans there
            rw [durable] at stays
            cases stays
          simp only [Bool.false_and, Bool.false_eq_true, if_false, view,
            Recoverable.ofTable_erase_unstored _ _ _ unstored]

end Maps

/-! ## Bindings -/

/-- The row is for this exchange and this queue. -/
def Binding.isFor (pair : Bytes × Bytes) (row : Binding) : Bool :=
  row.exchangeName = pair.1 && row.msgqueueName = pair.2

theorem Binding.isFor_iff {pair : Bytes × Bytes} {row : Binding} :
    row.isFor pair = true ↔ (row.exchangeName, row.msgqueueName) = pair := by
  rw [isFor, Bool.and_eq_true, decide_eq_true_eq, decide_eq_true_eq, Prod.ext_iff]

namespace BindingMapper

/-- The first row for a pair counts, if the pair is not bound already. -/
theorem boundIn_foldl_eq (rows : List Binding) (result : BindingMap) (pair : Bytes × Bytes) :
    boundIn (rows.foldl selectCallback result) pair.1 pair.2 =
      (boundIn result pair.1 pair.2).or (rows.find? (Binding.isFor pair)) := by
  induction rows generalizing result with
  | nil => exact (Option.or_none).symm
  | cons row rest inductionHypothesis =>
      rw [List.foldl_cons, inductionHypothesis, boundIn_selectCallback, List.find?_cons]
      by_cases isFor : row.isFor pair = true
      · cases Binding.isFor_iff.mp isFor
        rw [if_pos ⟨rfl, rfl⟩, isFor]
        cases boundIn result row.exchangeName row.msgqueueName <;> rfl
      · have other : ¬ (pair.1 = row.exchangeName ∧ pair.2 = row.msgqueueName) :=
          fun same => isFor (Binding.isFor_iff.mpr (Prod.ext same.1.symm same.2.symm))
        rw [Bool.not_eq_true] at isFor
        rw [if_neg other, isFor]

/-- An exchange has an entry if it had one or there is a row for it. -/
theorem mem_foldl (rows : List Binding) (result : BindingMap) (ename : Bytes) :
    ename ∈ rows.foldl selectCallback result ↔
      ename ∈ result ∨ ∃ row ∈ rows, row.exchangeName = ename := by
  induction rows generalizing result with
  | nil => simp
  | cons row rest inductionHypothesis =>
      rw [List.foldl_cons, inductionHypothesis, selectCallback, AList.mem_insert]
      simp only [List.exists_mem_cons_iff, or_assoc, or_left_comm, eq_comm]

end BindingMapper

namespace BindingManager

/-- What is there, and what the constructor would find. -/
def view (manager : BindingManager) : Recoverable (Bytes × Bytes) Bytes :=
  ⟨fun pair => (manager.getBinding pair.1 pair.2).map Binding.bindingKey,
    fun pair => ((new manager.mapper).getBinding pair.1 pair.2).map Binding.bindingKey⟩

/-- The exchanges that the map has an entry for. -/
def grouped (manager : BindingManager) : Set Bytes :=
  {ename | ename ∈ manager.bindings}

variable (manager : BindingManager) (takesEffect : Bool)

/-- The constructor finds the first row for a pair. -/
theorem lasting_eq (pair : Bytes × Bytes) : manager.view.lasting pair =
    (manager.mapper.bindingTable.find? (Binding.isFor pair)).map Binding.bindingKey := by
  have recovered := BindingMapper.boundIn_foldl_eq manager.mapper.bindingTable ∅ pair
  exact congrArg (Option.map Binding.bindingKey) recovered

/-- A restart finds what lasts. -/
theorem view_new : (new manager.mapper).view = manager.view.restart := rfl

theorem grouped_new : (new manager.mapper).grouped =
    {ename | ∃ qname, manager.view.lasting (ename, qname) ≠ none} := by
  ext ename
  have stored := BindingMapper.mem_foldl manager.mapper.bindingTable ∅ ename
  refine stored.trans ?_
  simp only [Set.mem_ofPred_eq, lasting_eq, ne_eq, Option.map_eq_none_iff, List.find?_eq_none,
    not_forall, not_not, Binding.isFor_iff]
  constructor
  · rintro (impossible | ⟨row, member, same⟩)
    · cases impossible
    · exact ⟨row.msgqueueName, row, member, congrArg (·, row.msgqueueName) same⟩
  · rintro ⟨qname, row, member, isFor⟩
    exact Or.inr ⟨row, member, congrArg Prod.fst isFor⟩

theorem grouped_withBindings (ename : Bytes) (bound : MsgQueueBindingMap) :
    (manager.withBindings ename bound).grouped = insert ename manager.grouped := by
  ext other
  exact AList.mem_insert manager.bindings

variable {manager takesEffect}

/-- Bindings go from the map and, if the statement takes effect, from the table. -/
theorem view_removed {next : BindingManager} {selects : Bytes × Bytes → Bool}
    (map : ∀ pair : Bytes × Bytes, next.getBinding pair.1 pair.2 =
      if selects pair then none else manager.getBinding pair.1 pair.2)
    (mapper : next.mapper = manager.mapper.deleteWhere takesEffect fun row =>
      selects (row.exchangeName, row.msgqueueName)) :
    next.view = manager.view.remove selects takesEffect := by
  ext1
  · funext pair
    simp only [view, Recoverable.remove, map]
    by_cases selected : selects pair = true
    · rw [if_pos selected, if_pos selected, Option.map_none]
    · rw [if_neg selected, if_neg selected]
  · funext pair
    simp only [Recoverable.remove, lasting_eq, mapper, BindingMapper.deleteWhere]
    cases takesEffect with
    | false => simp only [Bool.false_and, Bool.false_eq_true, if_false]
    | true =>
        simp only [Bool.true_and, if_true, List.find?_filter]
        -- the rows of a pair are all selected or all not
        have alike : ∀ row : Binding, row.isFor pair = true →
            selects (row.exchangeName, row.msgqueueName) = selects pair :=
          fun row isFor => congrArg selects (Binding.isFor_iff.mp isFor)
        cases selected : selects pair with
        | true =>
            rw [if_pos rfl, Option.map_eq_none_iff, List.find?_eq_none]
            intro row _ both
            rw [decide_eq_true_eq] at both
            rw [alike row both.2, selected] at both
            cases both.1
        | false =>
            rw [if_neg Bool.false_ne_true]
            congr 2
            funext row
            cases isFor : row.isFor pair with
            | false => exact decide_eq_false fun both => Bool.false_ne_true both.2
            | true =>
                rw [alike row isFor, selected]
                rfl

theorem view_removeMsgQueueBindings (qname : Bytes) :
    (manager.removeMsgQueueBindings takesEffect qname).view =
      manager.view.remove (fun pair => pair.2 = qname) takesEffect := by
  refine view_removed (fun pair => ?_) rfl
  rw [getBinding_removeMsgQueueBindings]
  simp only [decide_eq_true_eq]

/-- The entries of the exchanges stay, if only without bindings. -/
theorem grouped_removeMsgQueueBindings (qname : Bytes) :
    (manager.removeMsgQueueBindings takesEffect qname).grouped = manager.grouped := by
  ext ename
  exact Dictionary.mem_mapValues _ manager.bindings ename

open Classical in
/-- An exchange without an entry has no bindings, but may have rows, which stay. -/
theorem view_removeExchangeBindings (ename : Bytes) :
    (manager.removeExchangeBindings takesEffect ename).view =
      manager.view.remove (fun pair => pair.1 = ename)
        (takesEffect && decide (ename ∈ manager.grouped)) := by
  refine view_removed (fun pair => ?_) ?_
  · rw [getBinding_removeExchangeBindings]
    simp only [decide_eq_true_eq]
  · unfold removeExchangeBindings
    cases found : manager.bindings.lookup ename with
    | none =>
        have absent : ename ∉ manager.grouped := AList.lookup_eq_none.mp found
        rw [decide_eq_false absent, Bool.and_false]
        rfl
    | some bound =>
        have present : ename ∈ manager.grouped := Dictionary.lookup_eq_some_mem found
        rw [decide_eq_true present, Bool.and_true]
        rfl

theorem grouped_removeExchangeBindings (ename : Bytes) :
    (manager.removeExchangeBindings takesEffect ename).grouped = manager.grouped \ {ename} := by
  ext other
  unfold removeExchangeBindings
  cases found : manager.bindings.lookup ename with
  | none =>
      have absent : ename ∉ manager.grouped := AList.lookup_eq_none.mp found
      rw [Set.sdiff_singleton_eq_self absent]
  | some bound =>
      exact AList.mem_erase.trans and_comm

/-- A pair that is not bound may have a row, which stays. -/
theorem view_unBind (ename qname : Bytes) :
    (manager.unBind takesEffect ename qname).view =
      manager.view.remove (fun pair => pair.1 = ename && pair.2 = qname)
        (takesEffect && (manager.view.current (ename, qname)).isSome) := by
  refine view_removed (fun pair => ?_) ?_
  · rw [getBinding_unBind]
    simp only [Bool.and_eq_true, decide_eq_true_eq]
  · simp only [view, unBind]
    cases found : manager.getBinding ename qname with
    | none =>
        rw [Option.map_none, Option.isSome_none, Bool.and_false]
        rfl
    | some binding =>
        rw [Option.map_some, Option.isSome_some, Bool.and_true]
        rfl

theorem grouped_unBind (ename qname : Bytes) :
    (manager.unBind takesEffect ename qname).grouped = manager.grouped := by
  unfold unBind
  cases found : manager.getBinding ename qname with
  | none => rfl
  | some binding =>
      have present : ename ∈ manager.grouped := by
        rcases Option.bind_eq_some_iff.mp found with ⟨bound, there, _⟩
        exact Dictionary.lookup_eq_some_mem there
      rw [grouped_withBindings]
      exact Set.insert_eq_of_mem present

/-- A binding is added to the map, and a row after the rows that are there. -/
theorem view_added {ename qname key : Bytes} {mapper : BindingMapper} (lasts : Bool)
    (rows : mapper.bindingTable = manager.mapper.bindingTable ++
      if lasts then [⟨ename, qname, key⟩] else []) :
    ((⟨mapper, manager.bindings⟩ : BindingManager).withBindings ename
      ((manager.getExchangeBindings ename).insert qname ⟨ename, qname, key⟩)).view =
        manager.view.enter (ename, qname) key (if lasts then some key else none) := by
  ext1
  · funext pair
    have bound := Ledger.getBinding_added manager mapper ename qname key pair.1 pair.2
    simp only [view, Recoverable.enter, bound, Function.update_apply, Prod.ext_iff]
    by_cases same : pair.1 = ename ∧ pair.2 = qname
    · rw [if_pos same, if_pos same, Option.map_some]
    · rw [if_neg same, if_neg same]
  · funext pair
    have rest : ((if lasts then [⟨ename, qname, key⟩] else [] : List Binding).find?
        (Binding.isFor pair)).map Binding.bindingKey =
          if pair = (ename, qname) then if lasts then some key else none else none := by
      cases lasts with
      | false => exact (ite_self none).symm
      | true =>
          simp only [if_true, List.find?_singleton, Binding.isFor_iff]
          by_cases same : pair = (ename, qname)
          · rw [if_pos same.symm, if_pos same, Option.map_some]
          · rw [if_neg (Ne.symm same), if_neg same, Option.map_none]
    simp only [Recoverable.enter, lasting_eq, Function.update_apply]
    change ((mapper.bindingTable.find? _).map _) = _
    rw [rows, List.find?_append, Option.map_or, rest]
    by_cases same : pair = (ename, qname)
    · rw [if_pos same, if_pos same, same]
    · rw [if_neg same, if_neg same, Option.or_none]

/-- A binding comes into the map, and into the table if it is to last. -/
theorem view_bind (ename qname key : Bytes) (lasts : Bool) :
    ((manager.bind takesEffect ename qname key lasts).1,
        (manager.bind takesEffect ename qname key lasts).2.view,
        (manager.bind takesEffect ename qname key lasts).2.grouped) =
      if (manager.view.current (ename, qname)).isSome then (true, manager.view, manager.grouped)
      else if lasts && !takesEffect then (false, manager.view, manager.grouped)
      else (true, manager.view.enter (ename, qname) key (if lasts then some key else none),
        insert ename manager.grouped) := by
  rcases manager.bind_cases takesEffect ename qname key lasts with ⟨⟨binding, found⟩, result⟩ |
    ⟨free, transient, result⟩ | ⟨free, stored, effective, result⟩ | ⟨free, stored, fails, result⟩
  · have there : (manager.view.current (ename, qname)).isSome = true := by
      simp only [view, found, Option.map_some, Option.isSome_some]
    rw [result, if_pos there]
  all_goals
    have absent : ¬ (manager.view.current (ename, qname)).isSome = true := by
      simp only [view, free, Option.map_none, Option.isSome_none, Bool.false_eq_true,
        not_false_eq_true]
    rw [result, if_neg absent]
  · subst transient
    rw [Bool.false_and, if_neg Bool.false_ne_true, grouped_withBindings]
    exact congrArg (fun added => (true, added, _))
      (view_added false (List.append_nil _).symm)
  · subst stored effective
    rw [Bool.not_true, Bool.and_false, if_neg Bool.false_ne_true, grouped_withBindings]
    exact congrArg (fun added => (true, added, _)) (view_added true rfl)
  · rw [stored, fails, Bool.not_false, Bool.and_true, if_pos rfl]

end BindingManager

end ProtobufMq
