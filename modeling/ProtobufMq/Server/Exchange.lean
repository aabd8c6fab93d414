import ProtobufMq.Common.Args
import ProtobufMq.Foundation.Mirror
import ProtobufMq.Foundation.Run

namespace ProtobufMq

open Foundation

/-!
# `ExchangeManager`: exchanges in memory and in the database

An exchange is kept in a map and, when it is durable, also in a row of
`exchange_table`.  The two copies are updated by branches that each decide
for themselves whether the exchange is durable: declaring asks for the mode
`DURABLE`, and deleting compares the mode, an enumeration whose listed values
are 0, 1 and 2, with `true`.

A statement is taken for what it is meant to say here; its text is looked at in
`Server.SqlText`.  It either takes effect or fails and leaves the table as it
was; which of the two is a parameter of the call, except that inserting a
present primary key fails always.
-/

/-! ## The classes -/

/-- `struct Exchange`. -/
structure Exchange where
  name : Bytes
  type : ExchangeType
  durable : DeliveryMode
  autoDelete : Bool
  args : Args := ∅

/-- The columns of `exchange_table` next to the name, which is its primary key. -/
structure ExchangeRow where
  type : Nat
  durable : Nat
  autoDelete : Nat
  args : Bytes
  deriving DecidableEq, Repr

namespace Exchange

/-- `Exchange::getArgs`. -/
def getArgs (exchange : Exchange) : Bytes :=
  exchange.args.getArgs

/-- `Exchange::setArgs`. -/
def setArgs (exchange : Exchange) (text : Bytes) : Exchange :=
  { exchange with args := exchange.args.setArgs text }

/-- The values of the insert statement for an exchange. -/
def row (exchange : Exchange) : ExchangeRow :=
  ⟨exchange.type.code, exchange.durable.code, exchange.autoDelete.toNat,
    exchange.args.getArgs⟩

/-- `ExchangeMapper::selectCallback`: the exchange of a row. -/
def ofRow (name : Bytes) (row : ExchangeRow) : Exchange :=
  ⟨name, .ofCode row.type, .ofCode row.durable, row.autoDelete ≠ 0,
    Args.setArgs ∅ row.args⟩

/-- What a restart makes of an exchange: the same but for the args, which went
through their text. -/
def restored (exchange : Exchange) : Exchange :=
  { exchange with args := Args.setArgs ∅ exchange.args.getArgs }

theorem ofRow_row (exchange : Exchange) :
    ofRow exchange.name exchange.row = exchange.restored := by
  rcases exchange with ⟨name, type, mode, autoDelete, args⟩
  cases autoDelete <;> simp [ofRow, row, restored]

/-- The column tells whether the exchange is `DURABLE`. -/
theorem row_durable_eq (exchange : Exchange) :
    exchange.row.durable = DeliveryMode.durable.code ↔ exchange.durable = .durable := by
  cases mode : exchange.durable <;> simp [row, mode, DeliveryMode.code]

end Exchange

/-- `ExchangeMapper`: the table. -/
structure ExchangeMapper where
  exchangeTable : Dictionary Bytes ExchangeRow := ∅

namespace ExchangeMapper

/-- `ExchangeMapper::insert`. -/
def insert (mapper : ExchangeMapper) (takesEffect : Bool) (exchange : Exchange) :
    Bool × ExchangeMapper :=
  if takesEffect ∧ exchange.name ∉ mapper.exchangeTable then
    (true, ⟨mapper.exchangeTable.insert exchange.name exchange.row⟩)
  else
    (false, mapper)

/-- `ExchangeMapper::remove`. -/
def remove (mapper : ExchangeMapper) (takesEffect : Bool) (name : Bytes) : Bool × ExchangeMapper :=
  if takesEffect then (true, ⟨mapper.exchangeTable.erase name⟩) else (false, mapper)

/-- `ExchangeMapper::recovery`. -/
def recovery (mapper : ExchangeMapper) : Dictionary Bytes Exchange :=
  Dictionary.mapValues Exchange.ofRow mapper.exchangeTable

end ExchangeMapper

/-- `ExchangeManager`. -/
structure ExchangeManager where
  mapper : ExchangeMapper := {}
  exchanges : Dictionary Bytes Exchange := ∅

namespace ExchangeManager

/-- The constructor, over a database. -/
def new (mapper : ExchangeMapper) : ExchangeManager :=
  ⟨mapper, mapper.recovery⟩

/-- `ExchangeManager::declareExchange`. -/
def declareExchange (manager : ExchangeManager) (takesEffect : Bool) (exchange : Exchange) :
    Bool × ExchangeManager :=
  match manager.exchanges.lookup exchange.name with
  | some _ => (true, manager)
  | none =>
      if exchange.durable = .durable then
        let inserted := manager.mapper.insert takesEffect exchange
        if inserted.1 then
          (true, ⟨inserted.2, manager.exchanges.insert exchange.name exchange⟩)
        else
          (false, ⟨inserted.2, manager.exchanges⟩)
      else
        (true, { manager with exchanges := manager.exchanges.insert exchange.name exchange })

/-- `ExchangeManager::deleteExchange`.  `durable == true` compares the number of
the mode with one. -/
def deleteExchange (manager : ExchangeManager) (takesEffect : Bool) (name : Bytes) :
    Bool × ExchangeManager :=
  match manager.exchanges.lookup name with
  | none => (true, manager)
  | some exchange =>
      if exchange.durable.code = true.toNat then
        let removed := manager.mapper.remove takesEffect name
        if removed.1 then
          (true, ⟨removed.2, manager.exchanges.erase name⟩)
        else
          (false, ⟨removed.2, manager.exchanges⟩)
      else
        (true, { manager with exchanges := manager.exchanges.erase name })

/-- `ExchangeManager::selectExchange`. -/
def selectExchange (manager : ExchangeManager) (name : Bytes) : Option Exchange :=
  manager.exchanges.lookup name

/-! ## What the calls can do -/

/-- Declaring finds the name, or adds the exchange to the map and, if it is
durable, to the table, or is refused by the table. -/
theorem declareExchange_cases (manager : ExchangeManager) (takesEffect : Bool)
    (exchange : Exchange) :
    (exchange.name ∈ manager.exchanges ∧
      manager.declareExchange takesEffect exchange = (true, manager)) ∨
    (exchange.name ∉ manager.exchanges ∧ exchange.durable ≠ .durable ∧
      manager.declareExchange takesEffect exchange =
        (true, ⟨manager.mapper, manager.exchanges.insert exchange.name exchange⟩)) ∨
    (exchange.name ∉ manager.exchanges ∧ exchange.durable = .durable ∧
      manager.declareExchange takesEffect exchange =
        (true, ⟨⟨manager.mapper.exchangeTable.insert exchange.name exchange.row⟩,
          manager.exchanges.insert exchange.name exchange⟩)) ∨
    (exchange.name ∉ manager.exchanges ∧ exchange.durable = .durable ∧
      (takesEffect = false ∨ exchange.name ∈ manager.mapper.exchangeTable) ∧
      manager.declareExchange takesEffect exchange = (false, manager)) := by
  unfold declareExchange
  cases found : manager.exchanges.lookup exchange.name with
  | some present => exact Or.inl ⟨Dictionary.lookup_eq_some_mem found, rfl⟩
  | none =>
      have absent := AList.lookup_eq_none.mp found
      by_cases durable : exchange.durable = .durable
      · by_cases inserts : takesEffect = true ∧ exchange.name ∉ manager.mapper.exchangeTable
        · refine Or.inr (Or.inr (Or.inl ⟨absent, durable, ?_⟩))
          simp only [durable, ExchangeMapper.insert, inserts, if_true, and_self, not_false_eq_true]
        · refine Or.inr (Or.inr (Or.inr ⟨absent, durable, ?_, ?_⟩))
          · by_cases effect : takesEffect = true
            · exact Or.inr (not_not.mp fun missing => inserts ⟨effect, missing⟩)
            · exact Or.inl (Bool.not_eq_true _ ▸ effect)
          · simp only [durable, ExchangeMapper.insert, inserts, if_true, if_false,
              Bool.false_eq_true]
      · refine Or.inr (Or.inl ⟨absent, durable, ?_⟩)
        simp only [durable, if_false]

/-- Deleting finds nothing, or takes the exchange out of the map and, when the
number of its mode is one, its row out of the table, or is refused by the
table. -/
theorem deleteExchange_cases (manager : ExchangeManager) (takesEffect : Bool) (name : Bytes) :
    (manager.exchanges.lookup name = none ∧
      manager.deleteExchange takesEffect name = (true, manager)) ∨
    (∃ exchange, manager.exchanges.lookup name = some exchange ∧
      ((exchange.durable ≠ .undurable ∧ manager.deleteExchange takesEffect name =
        (true, ⟨manager.mapper, manager.exchanges.erase name⟩)) ∨
      (exchange.durable = .undurable ∧ manager.deleteExchange takesEffect name =
        (true, ⟨⟨manager.mapper.exchangeTable.erase name⟩, manager.exchanges.erase name⟩)) ∨
      (exchange.durable = .undurable ∧ takesEffect = false ∧
        manager.deleteExchange takesEffect name = (false, manager)))) := by
  unfold deleteExchange
  cases found : manager.exchanges.lookup name with
  | none => exact Or.inl ⟨rfl, rfl⟩
  | some exchange =>
      refine Or.inr ⟨exchange, rfl, ?_⟩
      have isOne : exchange.durable.code = true.toNat ↔ exchange.durable = .undurable := by
        cases mode : exchange.durable <;> simp [DeliveryMode.code]
      simp only [isOne]
      by_cases undurable : exchange.durable = .undurable
      · cases takesEffect with
        | true =>
            refine Or.inr (Or.inl ⟨undurable, ?_⟩)
            simp only [undurable, ExchangeMapper.remove, if_true]
        | false =>
            refine Or.inr (Or.inr ⟨undurable, rfl, ?_⟩)
            simp only [undurable, ExchangeMapper.remove, if_true, Bool.false_eq_true, if_false]
      · refine Or.inl ⟨undurable, ?_⟩
        simp only [undurable, if_false]

/-! ## The table and the map -/

/-- The two calls that change exchanges, with what becomes of their statement. -/
inductive Call where
  | declareExchange (takesEffect : Bool) (exchange : Exchange)
  | deleteExchange (takesEffect : Bool) (name : Bytes)

/-- Perform one call.  No call stops the program. -/
def perform (manager : ExchangeManager) : Call → Except Empty ExchangeManager
  | .declareExchange takesEffect exchange => .ok (manager.declareExchange takesEffect exchange).2
  | .deleteExchange takesEffect name => .ok (manager.deleteExchange takesEffect name).2

/-- The rows are exactly the durable exchanges, and a restart recovers exactly
these. -/
structure Mirrored (manager : ExchangeManager) : Prop where
  rows : ∀ name row, manager.mapper.exchangeTable.lookup name = some row ↔
    ∃ exchange, manager.exchanges.lookup name = some exchange ∧ exchange.durable = .durable ∧
      exchange.row = row
  restart : ∀ name exchange, (new manager.mapper).exchanges.lookup name = some exchange ↔
    ∃ declared, manager.exchanges.lookup name = some declared ∧ declared.durable = .durable ∧
      declared.restored = exchange

/-- The condition on a call: no `DURABLE` exchange is deleted. -/
def DeletesNoDurable (manager : ExchangeManager) : Call → Prop
  | .declareExchange _ _ => True
  | .deleteExchange _ name => ∀ exchange, manager.exchanges.lookup name = some exchange →
      exchange.durable ≠ .durable

/-- The invariant: the map is keyed by the names of the exchanges. -/
structure Tracked (manager : ExchangeManager) : Prop where
  rows : ∀ name row, manager.mapper.exchangeTable.lookup name = some row ↔
    ∃ exchange, manager.exchanges.lookup name = some exchange ∧ exchange.durable = .durable ∧
      exchange.row = row
  named : ∀ name exchange, manager.exchanges.lookup name = some exchange → exchange.name = name

theorem mirrored_of_tracked {manager : ExchangeManager} (tracked : Tracked manager) :
    Mirrored manager := by
  refine ⟨tracked.rows, fun name exchange => ?_⟩
  have lookup : (new manager.mapper).exchanges.lookup name =
      (manager.mapper.exchangeTable.lookup name).map (Exchange.ofRow name) :=
    Dictionary.lookup_mapValues _ _ _
  rw [lookup, Option.map_eq_some_iff]
  constructor
  · rintro ⟨row, stored, same⟩
    rcases (tracked.rows name row).mp stored with ⟨declared, found, durable, rowEq⟩
    have restored := declared.ofRow_row
    rw [tracked.named name declared found, rowEq, same] at restored
    exact ⟨declared, found, durable, restored.symm⟩
  · rintro ⟨declared, found, durable, same⟩
    have restored := declared.ofRow_row
    rw [tracked.named name declared found] at restored
    exact ⟨declared.row, (tracked.rows name declared.row).mpr ⟨declared, found, durable, rfl⟩,
      restored.trans same⟩

section Steps

variable {manager next : ExchangeManager}

theorem Tracked.mirrors (tracked : Tracked manager) :
    Mirrors (fun exchange : Exchange => exchange.durable = .durable) Exchange.row
      manager.exchanges manager.mapper.exchangeTable :=
  tracked.rows

/-- A new entry is under its own name. -/
theorem Tracked.named_insert (tracked : Tracked manager) (exchange : Exchange) (name : Bytes)
    (found : Exchange)
    (stored : (manager.exchanges.insert exchange.name exchange).lookup name = some found) :
    found.name = name := by
  rw [Dictionary.lookup_insert] at stored
  by_cases same : name = exchange.name
  · rw [if_pos same] at stored
    cases stored
    exact same.symm
  · rw [if_neg same] at stored
    exact tracked.named name found stored

theorem Tracked.named_erase (tracked : Tracked manager) (gone name : Bytes) (found : Exchange)
    (stored : (manager.exchanges.erase gone).lookup name = some found) : found.name = name := by
  rw [Dictionary.lookup_erase] at stored
  by_cases same : name = gone
  · rw [if_pos same] at stored
    cases stored
  · rw [if_neg same] at stored
    exact tracked.named name found stored

theorem tracked_declareExchange {takesEffect : Bool} {exchange : Exchange}
    (tracked : Tracked manager)
    (stepped : perform manager (.declareExchange takesEffect exchange) = .ok next) :
    Tracked next := by
  rcases manager.declareExchange_cases takesEffect exchange with ⟨_, result⟩ |
    ⟨absent, transient, result⟩ | ⟨_, durable, result⟩ | ⟨_, _, _, result⟩
  all_goals
    rw [perform, result] at stepped
    cases stepped
  · exact tracked
  · refine ⟨?_, tracked.named_insert exchange⟩
    exact tracked.mirrors.insert_unkept (AList.lookup_eq_none.mpr absent) transient
  · exact ⟨tracked.mirrors.insert durable, tracked.named_insert exchange⟩
  · exact tracked

theorem tracked_deleteExchange {takesEffect : Bool} {name : Bytes} (tracked : Tracked manager)
    (meets : DeletesNoDurable manager (.deleteExchange takesEffect name))
    (stepped : perform manager (.deleteExchange takesEffect name) = .ok next) :
    Tracked next := by
  rcases manager.deleteExchange_cases takesEffect name with ⟨_, result⟩ |
    ⟨exchange, found, ⟨_, result⟩ | ⟨_, result⟩ | ⟨_, _, result⟩⟩
  all_goals
    rw [perform, result] at stepped
    cases stepped
  · exact tracked
  · -- the entry is not durable, so there was no row to remove
    refine ⟨?_, tracked.named_erase name⟩
    exact tracked.mirrors.erase_unkept found (meets exchange found)
  · exact ⟨tracked.mirrors.erase name, tracked.named_erase name⟩
  · exact tracked

theorem tracked_step {call : Call} (tracked : Tracked manager)
    (meets : DeletesNoDurable manager call) (stepped : perform manager call = .ok next) :
    Tracked next := by
  cases call with
  | declareExchange takesEffect exchange => exact tracked_declareExchange tracked stepped
  | deleteExchange takesEffect name => exact tracked_deleteExchange tracked meets stepped

/-- Deleting a `DURABLE` exchange leaves its row behind: the number of the mode
is two, which is not one. -/
theorem deletesNoDurable_of_mirrored {call : Call} (tracked : Tracked manager)
    (stepped : perform manager call = .ok next) (mirrored : Mirrored next) :
    DeletesNoDurable manager call := by
  cases call with
  | declareExchange takesEffect exchange => exact trivial
  | deleteExchange takesEffect name =>
      intro exchange found durable
      have row := (tracked.rows name exchange.row).mpr ⟨exchange, found, durable, rfl⟩
      rcases manager.deleteExchange_cases takesEffect name with ⟨absent, _⟩ |
        ⟨other, otherFound, ⟨_, result⟩ | ⟨undurable, _⟩ | ⟨undurable, _, _⟩⟩
      · rw [found] at absent
        cases absent
      · rw [perform, result] at stepped
        cases stepped
        rcases (mirrored.rows name exchange.row).mp row with ⟨left, leftFound, _⟩
        rw [AList.lookup_erase] at leftFound
        cases leftFound
      all_goals
        cases found.symm.trans otherFound
        rw [durable] at undurable
        cases undurable

end Steps

/-- In every run over an empty database, the table mirrors the durable exchanges
in every state, if and only if no `DURABLE` exchange is ever deleted. -/
theorem mirrored_throughout_iff (calls : List Call) :
    Throughout perform Mirrored (new {}) calls ↔ Along perform DeletesNoDurable (new {}) calls := by
  have start : Tracked (new {}) := by
    refine ⟨Mirrors.empty _ _, fun name exchange found => ?_⟩
    cases found
  have total : ∀ (manager : ExchangeManager) (call : Call),
      ∃ next, perform manager call = .ok next := by
    intro manager call
    cases call <;> exact ⟨_, rfl⟩
  rcases run_completes total (new {}) calls with ⟨final, completes⟩
  exact throughout_iff_along (fun _ tracked => mirrored_of_tracked tracked)
    (fun _ _ _ tracked meets stepped => tracked_step tracked meets stepped)
    (fun _ _ _ tracked stepped mirrored => deletesNoDurable_of_mirrored tracked stepped mirrored)
    start completes

/-- A deleted `DURABLE` exchange keeps its row, and a restart recovers it. -/
theorem deleted_exchange_keeps_its_row :
    ¬ ∀ calls : List Call, Throughout perform Mirrored (new {}) calls := by
  intro always
  have everywhere := always
    [.declareExchange true ⟨ascii "e", .direct, .durable, false, ∅⟩, .deleteExchange true (ascii "e")]
  have mirrored := everywhere.last rfl
  rcases (mirrored.rows (ascii "e") ⟨1, 2, 0, []⟩).mp rfl with ⟨exchange, found, _⟩
  cases found

end ExchangeManager

end ProtobufMq
