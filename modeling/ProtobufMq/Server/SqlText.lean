import ProtobufMq.Common.Path
import ProtobufMq.Foundation.Quoted
import ProtobufMq.Server.Binding
import ProtobufMq.Server.Exchange
import ProtobufMq.Server.Queue

namespace ProtobufMq

open Foundation

/-!
# What goes to the database as text

The args of an exchange or a queue are one text in a column.  The statements
are texts too, with each name written between apostrophes as it is.  SQL ends a
literal at an apostrophe, so a name with one in it says something else than
itself, and `sqlite3_exec` gets a C string, so it reads up to the first NUL.
-/

/-! ## Args -/

/-- The text of args, in whatever order, brings the args back exactly if they are
safe; setting it on an exchange or a queue without args does the same. -/
theorem setArgs_getArgs_order (args order : Args) (enumerates : order.entries.Perm args.entries) :
    (Args.Same (Args.setArgs ∅ order.getArgs) args ↔ args.Safe) ∧
    (∀ exchange : Exchange, exchange.args = order →
      (Args.Same ({ exchange with args := ∅ }.setArgs exchange.getArgs).args args ↔ args.Safe)) ∧
    (∀ queue : MsgQueue, queue.args = order →
      (Args.Same ({ queue with args := ∅ }.setArgs queue.getArgs).args args ↔ args.Safe)) := by
  have lookups : ∀ key, order.lookup key = args.lookup key := fun key =>
    AList.perm_lookup enumerates
  have codec : Args.Same (Args.setArgs ∅ order.getArgs) args ↔ args.Safe := by
    have known := Args.setArgs_getArgs_iff order
    simp only [Args.Same, Args.Safe, lookups] at known ⊢
    exact known
  refine ⟨codec, ?_, ?_⟩
  · intro exchange same
    rw [Exchange.setArgs, Exchange.getArgs, same]
    exact codec
  · intro queue same
    rw [MsgQueue.setArgs, MsgQueue.getArgs, same]
    exact codec

/-- Args with an empty key and with a `=` in a value, read back from the text of
another order. -/
theorem setArgs_getArgs_two :
    Args.Same
      (Args.setArgs ∅ (Args.getArgs
        (((∅ : Args).insert (ascii "k") (ascii "v=w")).insert [] [])))
      (((∅ : Args).insert [] []).insert (ascii "k") (ascii "v=w")) := by
  apply (setArgs_getArgs_order _ _ (List.Perm.swap ..)).1.mpr
  intro key value found
  rw [Dictionary.lookup_insert, Dictionary.lookup_insert, AList.lookup_empty] at found
  by_cases first : key = ascii "k"
  · rw [if_pos first] at found
    cases found
    rw [first]
    exact ⟨by decide, by decide, by decide⟩
  · rw [if_neg first] at found
    by_cases second : key = []
    · rw [if_pos second] at found
      cases found
      rw [second]
      exact ⟨List.not_mem_nil, List.not_mem_nil, List.not_mem_nil⟩
    · rw [if_neg second] at found
      cases found

/-! ## Statements -/

/-- A number of type `int` on a stream. -/
def printInt : Int → Bytes
  | .ofNat number => ascii number.repr
  | .negSucc number => ascii "-" ++ ascii (number + 1).repr

/-- The number of an enumeration constant as an `int`, which is how a stream
shows it. -/
def enumInt (code : Nat) : Int :=
  (BitVec.ofNat 32 code).toInt

/-- The byte that SQL puts around its literals. -/
def apostrophe : UInt8 := 39

/-- The byte that SQL puts at the end of a statement. -/
def semicolon : UInt8 := UInt8.ofNat ';'.toNat

/-- The text of a statement, from what is written before each name, the names,
and what is written after the last of them. -/
def sqlText (fields : List (Bytes × Bytes)) (tail : Bytes) : Bytes :=
  spliced apostrophe semicolon fields tail

/-- `ExchangeMapper::insert`. -/
def ExchangeMapper.insertText (exchange : Exchange) : Bytes :=
  sqlText
    [(ascii "insert into exchange_table values(", exchange.name),
      (ascii "," ++ printInt (enumInt exchange.type.code) ++ ascii "," ++
        printInt (enumInt exchange.durable.code) ++ ascii "," ++
        printInt exchange.autoDelete.toNat ++ ascii ",", exchange.getArgs)]
    (ascii ")")

/-- `ExchangeMapper::remove`. -/
def ExchangeMapper.removeText (name : Bytes) : Bytes :=
  sqlText [(ascii "delete from exchange_table where name=", name)] []

/-- `MsgQueueMapper::insert`. -/
def MsgQueueMapper.insertText (queue : MsgQueue) : Bytes :=
  sqlText
    [(ascii "insert into queue_table values(", queue.name),
      (ascii "," ++ printInt queue.durable.toNat ++ ascii "," ++
        printInt queue.exclusive.toNat ++ ascii "," ++
        printInt queue.autoDelete.toNat ++ ascii ",", queue.getArgs)]
    (ascii ")")

/-- `MsgQueueMapper::remove`. -/
def MsgQueueMapper.removeText (name : Bytes) : Bytes :=
  sqlText [(ascii "delete from queue_table where name=", name)] []

/-- `BindingMapper::insert`. -/
def BindingMapper.insertText (binding : Binding) : Bytes :=
  sqlText
    [(ascii "insert into binding_table values(", binding.exchangeName),
      (ascii ",", binding.msgqueueName), (ascii ",", binding.bindingKey)]
    (ascii ")")

/-- `BindingMapper::remove`. -/
def BindingMapper.removeText (ename qname : Bytes) : Bytes :=
  sqlText
    [(ascii "delete from binding_table where exchange_name=", ename),
      (ascii " and msgqueue_name=", qname)] []

/-- `BindingMapper::removeExchangeBinding`. -/
def BindingMapper.removeExchangeBindingText (ename : Bytes) : Bytes :=
  sqlText [(ascii "delete from binding_table where exchange_name=", ename)] []

/-- `BindingMapper::removeMsgQueueBinding`. -/
def BindingMapper.removeMsgQueueBindingText (qname : Bytes) : Bytes :=
  sqlText [(ascii "delete from binding_table where msgqueue_name=", qname)] []

/-- The functions that write a statement with names in it, and their arguments. -/
inductive SqlCall where
  | insertExchange (exchange : Exchange)
  | removeExchange (name : Bytes)
  | insertQueue (queue : MsgQueue)
  | removeQueue (name : Bytes)
  | insertBinding (binding : Binding)
  | removeBinding (ename qname : Bytes)
  | removeExchangeBinding (ename : Bytes)
  | removeMsgQueueBinding (qname : Bytes)

namespace SqlCall

/-- The statement that is written. -/
def text : SqlCall → Bytes
  | .insertExchange exchange => ExchangeMapper.insertText exchange
  | .removeExchange name => ExchangeMapper.removeText name
  | .insertQueue queue => MsgQueueMapper.insertText queue
  | .removeQueue name => MsgQueueMapper.removeText name
  | .insertBinding binding => BindingMapper.insertText binding
  | .removeBinding ename qname => BindingMapper.removeText ename qname
  | .removeExchangeBinding ename => BindingMapper.removeExchangeBindingText ename
  | .removeMsgQueueBinding qname => BindingMapper.removeMsgQueueBindingText qname

/-- The strings that the statement is meant to hold as its literals. -/
def strings : SqlCall → List Bytes
  | .insertExchange exchange => [exchange.name, exchange.getArgs]
  | .removeExchange name => [name]
  | .insertQueue queue => [queue.name, queue.getArgs]
  | .removeQueue name => [name]
  | .insertBinding binding => [binding.exchangeName, binding.msgqueueName, binding.bindingKey]
  | .removeBinding ename qname => [ename, qname]
  | .removeExchangeBinding ename => [ename]
  | .removeMsgQueueBinding qname => [qname]

end SqlCall

/-- A text that SQL reads as one statement with the given literals. -/
def SaysOnly (text : Bytes) (strings : List Bytes) : Prop :=
  ReadsAs apostrophe semicolon text strings

example : BindingMapper.removeText (ascii "e") (ascii "q") =
    ascii "delete from binding_table where exchange_name='e' and msgqueue_name='q';" := by decide

/-! ## What a statement says -/

/-- The bytes that the fixed text of a statement must not have. -/
def Harmless (text : Bytes) : Prop :=
  apostrophe ∉ text ∧ semicolon ∉ text ∧ 0 ∉ text

instance (text : Bytes) : Decidable (Harmless text) :=
  inferInstanceAs (Decidable (_ ∧ _))

theorem Harmless.append {first second : Bytes} (firstHarmless : Harmless first)
    (secondHarmless : Harmless second) : Harmless (first ++ second) := by
  refine ⟨?_, ?_, ?_⟩ <;> rw [List.mem_append, not_or]
  · exact ⟨firstHarmless.1, secondHarmless.1⟩
  · exact ⟨firstHarmless.2.1, secondHarmless.2.1⟩
  · exact ⟨firstHarmless.2.2, secondHarmless.2.2⟩

/-- Digits are harmless. -/
theorem harmless_repr (number : Nat) : Harmless (ascii number.repr) := by
  have digits : ∀ byte ∈ ascii number.repr, 48 ≤ byte.toNat ∧ byte.toNat ≤ 57 := by
    intro byte member
    rcases List.mem_map.mp member with ⟨digit, inDigits, rfl⟩
    rw [Nat.toList_repr] at inDigits
    have isDigit := Nat.isDigit_of_mem_toDigits (by decide) (by decide) inDigits
    rw [Char.isDigit, Bool.and_eq_true, decide_eq_true_eq, decide_eq_true_eq] at isDigit
    have low : 48 ≤ digit.toNat := isDigit.1
    have high : digit.toNat ≤ 57 := isDigit.2
    rw [UInt8.toNat_ofNat']
    omega
  refine ⟨?_, ?_, ?_⟩
  · exact fun member => absurd (digits _ member) (by decide)
  · exact fun member => absurd (digits _ member) (by decide)
  · exact fun member => absurd (digits _ member) (by decide)

theorem harmless_printInt (number : Int) : Harmless (printInt number) := by
  cases number with
  | ofNat number => exact harmless_repr number
  | negSucc number => exact Harmless.append (by decide) (harmless_repr (number + 1))

/-- A statement whose fixed text is harmless and stands before each name. -/
structure Spelled (call : SqlCall) (fields : List (Bytes × Bytes)) (tail : Bytes) : Prop where
  text : call.text = sqlText fields tail
  strings : call.strings = fields.map Prod.snd
  before : ∀ field ∈ fields, field.1 ≠ [] ∧ Harmless field.1
  after : Harmless tail

/-- Three numbers between commas, as the insert statements have them. -/
theorem harmless_numbers (first second third : Int) :
    Harmless (ascii "," ++ printInt first ++ ascii "," ++ printInt second ++ ascii "," ++
      printInt third ++ ascii ",") := by
  have comma : Harmless (ascii ",") := by decide
  exact ((((((comma.append (harmless_printInt _)).append comma).append
    (harmless_printInt _)).append comma).append (harmless_printInt _)).append comma)

/-- One more name, with fixed text before it. -/
theorem before_cons {fixed name : Bytes} {fields : List (Bytes × Bytes)}
    (first : fixed ≠ [] ∧ Harmless fixed)
    (others : ∀ field ∈ fields, field.1 ≠ [] ∧ Harmless field.1) :
    ∀ field ∈ (fixed, name) :: fields, field.1 ≠ [] ∧ Harmless field.1 :=
  List.forall_mem_cons.mpr ⟨first, others⟩

theorem before_nil : ∀ field ∈ ([] : List (Bytes × Bytes)), field.1 ≠ [] ∧ Harmless field.1 :=
  fun _ member => by cases member

/-- All the statements are spelled like that. -/
theorem SqlCall.spelled (call : SqlCall) : ∃ fields tail, Spelled call fields tail := by
  have numbers : ∀ first second third : Int,
      ascii "," ++ printInt first ++ ascii "," ++ printInt second ++ ascii "," ++
        printInt third ++ ascii "," ≠ [] := fun _ _ _ =>
    List.append_ne_nil_of_right_ne_nil _ (by decide)
  cases call with
  | insertExchange exchange =>
      refine ⟨_, _, rfl, rfl, ?_, by decide⟩
      exact before_cons (by decide)
        (before_cons ⟨numbers _ _ _, harmless_numbers ..⟩ before_nil)
  | removeExchange name =>
      exact ⟨_, _, rfl, rfl, before_cons (by decide) before_nil, by decide⟩
  | insertQueue queue =>
      refine ⟨_, _, rfl, rfl, ?_, by decide⟩
      exact before_cons (by decide)
        (before_cons ⟨numbers _ _ _, harmless_numbers ..⟩ before_nil)
  | removeQueue name =>
      exact ⟨_, _, rfl, rfl, before_cons (by decide) before_nil, by decide⟩
  | insertBinding binding =>
      refine ⟨_, _, rfl, rfl, ?_, by decide⟩
      exact before_cons (by decide)
        (before_cons (by decide) (before_cons (by decide) before_nil))
  | removeBinding ename qname =>
      refine ⟨_, _, rfl, rfl, ?_, by decide⟩
      exact before_cons (by decide) (before_cons (by decide) before_nil)
  | removeExchangeBinding ename =>
      exact ⟨_, _, rfl, rfl, before_cons (by decide) before_nil, by decide⟩
  | removeMsgQueueBinding qname =>
      exact ⟨_, _, rfl, rfl, before_cons (by decide) before_nil, by decide⟩

section Saying

variable {call : SqlCall} {fields : List (Bytes × Bytes)} {tail : Bytes}

/-- A statement says what is meant exactly if no name has an apostrophe. -/
theorem Spelled.reads_iff (spelled : Spelled call fields tail) :
    SaysOnly call.text call.strings ↔ ∀ string ∈ call.strings, apostrophe ∉ string := by
  have well : WellSpliced apostrophe semicolon fields tail := by
    refine ⟨by decide, fun field member => ?_, spelled.after.1, spelled.after.2.1⟩
    have before := spelled.before field member
    exact ⟨before.1, before.2.1, before.2.2.1⟩
  rw [spelled.text, spelled.strings, List.forall_mem_map]
  exact readsAs_spliced_iff well

/-- The NULs of a statement are those of the names. -/
theorem Spelled.nul_absent_iff (spelled : Spelled call fields tail) :
    0 ∉ call.text ↔ ∀ string ∈ call.strings, 0 ∉ string := by
  rw [spelled.text, spelled.strings, List.forall_mem_map, sqlText, spliced]
  simp only [List.mem_append, List.mem_flatMap, List.mem_cons, List.not_mem_nil, or_false]
  constructor
  · intro absent field member inside
    exact absent (Or.inl (Or.inl ⟨field, member, Or.inl (Or.inr (Or.inr inside))⟩))
  · rintro absent ((⟨field, member, (plain | quote | inside) | quote⟩ | after) | last)
    · exact (spelled.before field member).2.2.2 plain
    · exact absurd quote (by decide)
    · exact absent field member inside
    · exact absurd quote (by decide)
    · exact spelled.after.2.2 after
    · exact absurd last (by decide)

end Saying

/-- Where a literal is read there is no NUL. -/
theorem nul_absent_of_saysOnly {text : Bytes} {strings : List Bytes}
    (meant : SaysOnly (cStr text) strings) : ∀ string ∈ strings, 0 ∉ string := by
  rcases meant with ⟨body, read, _, rfl⟩
  intro string member inside
  have listed : string ∈ literals (body ++ [.plain semicolon]) := by
    rw [literals_append]
    exact List.mem_append_left _ member
  rcases mem_of_scanFrom read listed inside with inText | nothing
  · exact absurd (List.mem_takeWhile_imp inText) (by decide)
  · cases nothing

/-- Each of the statements is one statement with the given strings as its
literals exactly if none of them has an apostrophe; what `sqlite3_exec` reads of
it is, exactly if none of them has a NUL either. -/
theorem saysOnly_iff (call : SqlCall) :
    (SaysOnly call.text call.strings ↔ ∀ string ∈ call.strings, apostrophe ∉ string) ∧
    (SaysOnly (cStr call.text) call.strings ↔
      ∀ string ∈ call.strings, apostrophe ∉ string ∧ 0 ∉ string) := by
  rcases call.spelled with ⟨fields, tail, spelled⟩
  refine ⟨spelled.reads_iff, ?_⟩
  constructor
  · intro meant
    have noNul := nul_absent_of_saysOnly meant
    rw [Path.cStr_eq_self (spelled.nul_absent_iff.mpr noNul)] at meant
    exact fun string member => ⟨spelled.reads_iff.mp meant string member, noNul string member⟩
  · intro clean
    rw [Path.cStr_eq_self (spelled.nul_absent_iff.mpr fun string member => (clean string member).2)]
    exact spelled.reads_iff.mpr fun string member => (clean string member).1

/-- A name with which one statement deletes the rows of all other exchanges. -/
theorem removeExchange_selects_others :
    ¬ ∀ call : SqlCall, SaysOnly call.text call.strings := by
  intro always
  rcases always (.removeExchange (ascii "x' or name<>'x")) with ⟨body, read, _, strings⟩
  have two : (scan apostrophe (ExchangeMapper.removeText (ascii "x' or name<>'x"))).map literals =
      some [ascii "x", ascii "x"] := by decide +kernel
  change scan apostrophe (ExchangeMapper.removeText (ascii "x' or name<>'x")) = _ at read
  rw [read, Option.map_some, literals_append, strings] at two
  exact absurd two (by decide)

end ProtobufMq
