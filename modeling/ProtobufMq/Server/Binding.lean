import ProtobufMq.Common.Msg
import ProtobufMq.Foundation.Dictionary

namespace ProtobufMq

open Foundation

/-!
# `BindingManager`: which queues an exchange feeds

The bindings are a map of maps: for each exchange name the bound queues, each
with its binding key.  A binding that was made as durable is also a row of
`binding_table`, which has no primary key.

The results of the delete statements are not looked at.  Removing the bindings
of an exchange asks the map first and leaves the table alone when the map has
no entry for the exchange; removing those of a queue goes to the table always.
-/

/-- `struct Binding`, which is also a row of `binding_table`. -/
structure Binding where
  exchangeName : Bytes
  msgqueueName : Bytes
  bindingKey : Bytes
  deriving DecidableEq, Repr

/-- The bindings of one exchange, by the name of the queue. -/
abbrev MsgQueueBindingMap := Dictionary Bytes Binding

/-- The bindings of every exchange. -/
abbrev BindingMap := Dictionary Bytes MsgQueueBindingMap

/-- `BindingMapper`: the table. -/
structure BindingMapper where
  bindingTable : List Binding := []

namespace BindingMapper

/-- `BindingMapper::insert`. -/
def insert (mapper : BindingMapper) (takesEffect : Bool) (binding : Binding) :
    Bool × BindingMapper :=
  if takesEffect then (true, ⟨mapper.bindingTable ++ [binding]⟩) else (false, mapper)

/-- A delete statement: the rows that it does not select stay. -/
def deleteWhere (mapper : BindingMapper) (takesEffect : Bool) (selects : Binding → Bool) :
    BindingMapper :=
  if takesEffect then ⟨mapper.bindingTable.filter fun row => !selects row⟩ else mapper

/-- `BindingMapper::remove`. -/
def remove (mapper : BindingMapper) (takesEffect : Bool) (ename qname : Bytes) : BindingMapper :=
  mapper.deleteWhere takesEffect fun row => row.exchangeName = ename && row.msgqueueName = qname

/-- `BindingMapper::removeExchangeBinding`. -/
def removeExchangeBinding (mapper : BindingMapper) (takesEffect : Bool) (ename : Bytes) :
    BindingMapper :=
  mapper.deleteWhere takesEffect fun row => row.exchangeName = ename

/-- `BindingMapper::removeMsgQueueBinding`. -/
def removeMsgQueueBinding (mapper : BindingMapper) (takesEffect : Bool) (qname : Bytes) :
    BindingMapper :=
  mapper.deleteWhere takesEffect fun row => row.msgqueueName = qname

/-- `BindingMapper::selectCallback`.  Of two rows with the same names the first
counts. -/
def selectCallback (result : BindingMap) (row : Binding) : BindingMap :=
  result.insert row.exchangeName
    (Dictionary.insertNew row.msgqueueName row ((result.lookup row.exchangeName).getD ∅))

/-- `BindingMapper::recovery`. -/
def recovery (mapper : BindingMapper) : BindingMap :=
  mapper.bindingTable.foldl selectCallback ∅

theorem mem_deleteWhere {mapper : BindingMapper} {takesEffect : Bool} {selects : Binding → Bool}
    {row : Binding} (stays : row ∈ (mapper.deleteWhere takesEffect selects).bindingTable) :
    row ∈ mapper.bindingTable ∧ (takesEffect = true → selects row = false) := by
  cases takesEffect with
  | false => exact ⟨stays, fun effect => by cases effect⟩
  | true =>
      rcases List.mem_filter.mp stays with ⟨member, unselected⟩
      exact ⟨member, fun _ => by simpa using unselected⟩

/-- The binding that a map has for an exchange and a queue. -/
def boundIn (bindings : BindingMap) (ename qname : Bytes) : Option Binding :=
  (bindings.lookup ename).bind fun bound => bound.lookup qname

/-- A row binds its pair unless the pair is bound, and no other pair. -/
theorem boundIn_selectCallback (result : BindingMap) (row : Binding) (ename qname : Bytes) :
    boundIn (selectCallback result row) ename qname =
      if ename = row.exchangeName ∧ qname = row.msgqueueName then
        some ((boundIn result ename qname).getD row)
      else boundIn result ename qname := by
  have inner : ((result.lookup row.exchangeName).getD ∅).lookup qname =
      boundIn result row.exchangeName qname := by
    rw [boundIn]
    cases result.lookup row.exchangeName <;> rfl
  rw [boundIn, selectCallback, Dictionary.lookup_insert]
  by_cases sameE : ename = row.exchangeName
  · rw [if_pos sameE, Option.bind_some, Dictionary.lookup_insertNew, sameE]
    by_cases sameQ : qname = row.msgqueueName
    · rw [if_pos sameQ, if_pos ⟨rfl, sameQ⟩, ← sameQ, inner]
    · rw [if_neg sameQ, if_neg fun both => sameQ both.2, inner]
  · rw [if_neg sameE, if_neg fun both => sameE both.1]
    rfl

/-- What is bound comes from the map at the start or from a row. -/
theorem boundIn_foldl {rows : List Binding} {result : BindingMap} {ename qname : Bytes}
    {binding : Binding}
    (found : boundIn (rows.foldl selectCallback result) ename qname = some binding) :
    boundIn result ename qname = some binding ∨
      (binding ∈ rows ∧ binding.exchangeName = ename ∧ binding.msgqueueName = qname) := by
  induction rows generalizing result with
  | nil => exact Or.inl found
  | cons row rest inductionHypothesis =>
      rcases inductionHypothesis found with earlier | ⟨member, names⟩
      · rw [boundIn_selectCallback] at earlier
        by_cases same : ename = row.exchangeName ∧ qname = row.msgqueueName
        · rw [if_pos same] at earlier
          cases old : boundIn result ename qname with
          | some stored =>
              rw [old] at earlier
              exact Or.inl earlier
          | none =>
              rw [old] at earlier
              cases earlier
              exact Or.inr ⟨List.mem_cons_self, same.1.symm, same.2.symm⟩
        · rw [if_neg same] at earlier
          exact Or.inl earlier
      · exact Or.inr ⟨List.mem_cons_of_mem _ member, names⟩

/-- What is bound stays bound. -/
theorem boundIn_foldl_mono (rows : List Binding) {result : BindingMap} {ename qname : Bytes}
    (bound : ∃ binding, boundIn result ename qname = some binding) :
    ∃ binding, boundIn (rows.foldl selectCallback result) ename qname = some binding := by
  induction rows generalizing result with
  | nil => exact bound
  | cons row rest inductionHypothesis =>
      apply inductionHypothesis
      rcases bound with ⟨binding, found⟩
      rw [boundIn_selectCallback]
      by_cases same : ename = row.exchangeName ∧ qname = row.msgqueueName
      · exact ⟨_, if_pos same⟩
      · exact ⟨binding, (if_neg same).trans found⟩

/-- Every row of the table is bound after a restart. -/
theorem boundIn_recovery {mapper : BindingMapper} {row : Binding}
    (member : row ∈ mapper.bindingTable) :
    ∃ binding, boundIn mapper.recovery row.exchangeName row.msgqueueName = some binding := by
  rcases List.append_of_mem member with ⟨before, after, split⟩
  rw [recovery, split, List.foldl_append, List.foldl_cons]
  apply boundIn_foldl_mono
  rw [boundIn_selectCallback]
  exact ⟨_, if_pos ⟨rfl, rfl⟩⟩

end BindingMapper

/-- `BindingManager`. -/
structure BindingManager where
  mapper : BindingMapper := {}
  bindings : BindingMap := ∅

namespace BindingManager

/-- The constructor, over a database. -/
def new (mapper : BindingMapper) : BindingManager :=
  ⟨mapper, mapper.recovery⟩

/-- `BindingManager::getExchangeBindings`. -/
def getExchangeBindings (manager : BindingManager) (ename : Bytes) : MsgQueueBindingMap :=
  (manager.bindings.lookup ename).getD ∅

/-- `BindingManager::getBinding`. -/
def getBinding (manager : BindingManager) (ename qname : Bytes) : Option Binding :=
  BindingMapper.boundIn manager.bindings ename qname

/-- `_bindings[ename]` is given another map. -/
def withBindings (manager : BindingManager) (ename : Bytes) (bound : MsgQueueBindingMap) :
    BindingManager :=
  { manager with bindings := manager.bindings.insert ename bound }

/-- `BindingManager::bind`. -/
def bind (manager : BindingManager) (takesEffect : Bool) (ename qname key : Bytes)
    (durable : Bool) : Bool × BindingManager :=
  match manager.getBinding ename qname with
  | some _ => (true, manager)
  | none =>
      let binding : Binding := ⟨ename, qname, key⟩
      let bound := (manager.getExchangeBindings ename).insert qname binding
      if durable then
        let inserted := manager.mapper.insert takesEffect binding
        if inserted.1 then
          (true, { manager with mapper := inserted.2 }.withBindings ename bound)
        else
          (false, { manager with mapper := inserted.2 })
      else
        (true, manager.withBindings ename bound)

/-- `BindingManager::unBind`. -/
def unBind (manager : BindingManager) (takesEffect : Bool) (ename qname : Bytes) :
    BindingManager :=
  match manager.getBinding ename qname with
  | none => manager
  | some _ =>
      { manager with mapper := manager.mapper.remove takesEffect ename qname }.withBindings ename
        ((manager.getExchangeBindings ename).erase qname)

/-- `BindingManager::removeExchangeBindings`. -/
def removeExchangeBindings (manager : BindingManager) (takesEffect : Bool) (ename : Bytes) :
    BindingManager :=
  match manager.bindings.lookup ename with
  | none => manager
  | some _ =>
      ⟨manager.mapper.removeExchangeBinding takesEffect ename, manager.bindings.erase ename⟩

/-- `BindingManager::removeMsgQueueBindings`. -/
def removeMsgQueueBindings (manager : BindingManager) (takesEffect : Bool) (qname : Bytes) :
    BindingManager :=
  ⟨manager.mapper.removeMsgQueueBinding takesEffect qname,
    Dictionary.mapValues (fun _ bound => bound.erase qname) manager.bindings⟩

/-! ## Which bindings there are after a call -/

section Lookup

variable (manager : BindingManager) (takesEffect : Bool) (ename qname key : Bytes)

/-- Both lookups are made in the map of the exchange. -/
theorem getBinding_eq : manager.getBinding ename qname =
    (manager.getExchangeBindings ename).lookup qname := by
  rw [getBinding, BindingMapper.boundIn, getExchangeBindings]
  cases manager.bindings.lookup ename <;> rfl

theorem getBinding_withBindings (bound : MsgQueueBindingMap) (otherE otherQ : Bytes) :
    (manager.withBindings ename bound).getBinding otherE otherQ =
      if otherE = ename then bound.lookup otherQ else manager.getBinding otherE otherQ := by
  rw [getBinding, BindingMapper.boundIn, withBindings, Dictionary.lookup_insert]
  by_cases same : otherE = ename
  · rw [if_pos same, if_pos same]
    rfl
  · rw [if_neg same, if_neg same]
    rfl

/-- Binding finds the pair bound, or adds it to the map and, if it is durable,
to the table, or is refused by the table. -/
theorem bind_cases (durable : Bool) :
    ((∃ binding, manager.getBinding ename qname = some binding) ∧
      manager.bind takesEffect ename qname key durable = (true, manager)) ∨
    (manager.getBinding ename qname = none ∧ durable = false ∧
      manager.bind takesEffect ename qname key durable = (true, manager.withBindings ename
        ((manager.getExchangeBindings ename).insert qname ⟨ename, qname, key⟩))) ∨
    (manager.getBinding ename qname = none ∧ durable = true ∧ takesEffect = true ∧
      manager.bind takesEffect ename qname key durable =
        (true, (⟨⟨manager.mapper.bindingTable ++ [⟨ename, qname, key⟩]⟩,
          manager.bindings⟩ : BindingManager).withBindings ename
            ((manager.getExchangeBindings ename).insert qname ⟨ename, qname, key⟩))) ∨
    (manager.getBinding ename qname = none ∧ durable = true ∧ takesEffect = false ∧
      manager.bind takesEffect ename qname key durable = (false, manager)) := by
  unfold bind
  cases found : manager.getBinding ename qname with
  | some binding => exact Or.inl ⟨⟨binding, rfl⟩, rfl⟩
  | none =>
      cases durable with
      | false => exact Or.inr (Or.inl ⟨rfl, rfl, rfl⟩)
      | true =>
          cases takesEffect with
          | true => exact Or.inr (Or.inr (Or.inl ⟨rfl, rfl, rfl, rfl⟩))
          | false => exact Or.inr (Or.inr (Or.inr ⟨rfl, rfl, rfl, rfl⟩))

/-- After a bind the pair may be bound; no other pair changes. -/
theorem getBinding_bind {durable : Bool} {otherE otherQ : Bytes} {binding : Binding}
    (found : (manager.bind takesEffect ename qname key durable).2.getBinding otherE otherQ =
      some binding) :
    manager.getBinding otherE otherQ = some binding ∨ (otherE = ename ∧ otherQ = qname) := by
  have added : (if otherE = ename then
      ((manager.getExchangeBindings ename).insert qname ⟨ename, qname, key⟩).lookup otherQ
      else manager.getBinding otherE otherQ) = some binding →
      manager.getBinding otherE otherQ = some binding ∨ (otherE = ename ∧ otherQ = qname) := by
    intro lookup
    by_cases sameE : otherE = ename
    · rw [if_pos sameE, Dictionary.lookup_insert] at lookup
      by_cases sameQ : otherQ = qname
      · exact Or.inr ⟨sameE, sameQ⟩
      · rw [if_neg sameQ, ← getBinding_eq, ← sameE] at lookup
        exact Or.inl lookup
    · rw [if_neg sameE] at lookup
      exact Or.inl lookup
  rcases manager.bind_cases takesEffect ename qname key durable with ⟨_, result⟩ |
    ⟨_, _, result⟩ | ⟨_, _, _, result⟩ | ⟨_, _, _, result⟩
  all_goals rw [result] at found
  · exact Or.inl found
  · rw [getBinding_withBindings] at found
    exact added found
  · rw [getBinding_withBindings] at found
    exact added found
  · exact Or.inl found

theorem getBinding_unBind (otherE otherQ : Bytes) :
    (manager.unBind takesEffect ename qname).getBinding otherE otherQ =
      if otherE = ename ∧ otherQ = qname then none else manager.getBinding otherE otherQ := by
  unfold unBind
  cases found : manager.getBinding ename qname with
  | none =>
      by_cases same : otherE = ename ∧ otherQ = qname
      · rw [if_pos same, same.1, same.2]
        exact found
      · rw [if_neg same]
  | some binding =>
      simp only [getBinding_withBindings, Dictionary.lookup_erase]
      by_cases sameE : otherE = ename
      · by_cases sameQ : otherQ = qname
        · rw [if_pos sameE, if_pos sameQ, if_pos ⟨sameE, sameQ⟩]
        · rw [if_pos sameE, if_neg sameQ, if_neg fun both => sameQ both.2, ← getBinding_eq, sameE]
      · rw [if_neg sameE, if_neg fun both => sameE both.1]
        rfl

theorem getBinding_removeExchangeBindings (otherE otherQ : Bytes) :
    (manager.removeExchangeBindings takesEffect ename).getBinding otherE otherQ =
      if otherE = ename then none else manager.getBinding otherE otherQ := by
  unfold removeExchangeBindings
  cases found : manager.bindings.lookup ename with
  | none =>
      by_cases same : otherE = ename
      · rw [if_pos same, same, getBinding, BindingMapper.boundIn, found]
        rfl
      · rw [if_neg same]
  | some bound =>
      rw [getBinding, BindingMapper.boundIn, Dictionary.lookup_erase]
      by_cases same : otherE = ename
      · rw [if_pos same, if_pos same]
        rfl
      · rw [if_neg same, if_neg same]
        rfl

theorem getBinding_removeMsgQueueBindings (otherE otherQ : Bytes) :
    (manager.removeMsgQueueBindings takesEffect qname).getBinding otherE otherQ =
      if otherQ = qname then none else manager.getBinding otherE otherQ := by
  rw [removeMsgQueueBindings, getBinding, getBinding, BindingMapper.boundIn, BindingMapper.boundIn,
    Dictionary.lookup_mapValues]
  cases manager.bindings.lookup otherE with
  | none =>
      by_cases same : otherQ = qname
      · rw [if_pos same]
        rfl
      · rw [if_neg same]
        rfl
  | some bound => exact Dictionary.lookup_erase qname bound otherQ

end Lookup

end BindingManager

end ProtobufMq
