import ProtobufMq.Common.FileHelper
import ProtobufMq.Common.SplitHelper

namespace ProtobufMq

open Foundation

/-!
# `router`: which bindings a routing key selects

A key is a text of words separated by dots.  Both keys are checked for their
characters first.  A topic exchange then matches the words of the binding key,
in which `*` stands for one word and `#` for any number of them, with those of
the routing key, by a table with one row for each prefix of the binding key.

The table is kept a row at a time: filling row `i` reads row `i - 1` and the
part of row `i` to the left, nothing else.
-/

namespace Router

/-- A letter, a digit, a dot or an underscore. -/
def isPlain (ch : UInt8) : Bool :=
  (97 ≤ ch && ch ≤ 122) || (65 ≤ ch && ch ≤ 90) || (48 ≤ ch && ch ≤ 57) || ch = 46 || ch = 95

/-- `router::isLegalRoutingKey`. -/
def isLegalRoutingKey (routingKey : Bytes) : Bool :=
  routingKey.all isPlain

/-- The word `*`. -/
def star : Bytes := ascii "*"

/-- The word `#`. -/
def hash : Bytes := ascii "#"

/-- The words of a key. -/
def words (key : Bytes) : List Bytes :=
  split key (ascii ".")

/-- The third check of `isLegalBindingKey`: no `#` next to a `#` or a `*`. -/
def spaced : List Bytes → Bool
  | previous :: word :: rest =>
      !(word = star && previous = hash) && !(word = hash && previous = hash) &&
        !(word = hash && previous = star) && spaced (word :: rest)
  | _ => true

/-- `router::isLegalBindingKey`. -/
def isLegalBindingKey (bindingKey : Bytes) : Bool :=
  bindingKey.all (fun ch => isPlain ch || ch = 42 || ch = 35) &&
    (words bindingKey).all (fun word =>
      !(1 < word.length && ((find star word).isSome || (find hash word).isSome))) &&
    spaced (words bindingKey)

/-- One entry of the table, from the entries above to the left, above, and to
the left. -/
def entry (pattern word : Bytes) (diagonal up left : Bool) : Bool :=
  if pattern = hash then diagonal || up || left
  else if pattern = star then diagonal
  else pattern = word && diagonal

/-- The inner loop: the entries of a row to the right of `left`, given the row
above from the entry over `left` on. -/
def fillRow (pattern : Bytes) : Bool → List Bool → List Bytes → List Bool
  | left, diagonal :: up :: above, word :: rest =>
      let here := entry pattern word diagonal up left
      here :: fillRow pattern here (up :: above) rest
  | _, _, _ => []

/-- The outer loop: the last row of the table, from the row for the patterns
that are done.  Column zero is set in the first row only. -/
def fillTable (routingWords : List Bytes) : Bool → List Bool → List Bytes → List Bool
  | _, row, [] => row
  | first, row, pattern :: rest =>
      let column := first && pattern = hash
      fillTable routingWords false (column :: fillRow pattern column row routingWords) rest

/-- The topic match.  `sub_binding_key[0]` is read without asking whether there
is a word. -/
def matchTopic (bindingWords routingWords : List Bytes) : Except Fault Bool :=
  match bindingWords with
  | [] => .error .wordsEnd
  | _ :: _ =>
      let start := true :: List.replicate routingWords.length false
      .ok ((fillTable routingWords true start bindingWords).getLastD false)

/-- `router::route`. -/
def route (type : ExchangeType) (bindingKey routingKey : Bytes) : Except Fault Bool :=
  if isLegalRoutingKey routingKey = false then .ok false
  else if isLegalBindingKey bindingKey = false then .ok false
  else match type with
    | .direct => .ok (routingKey = bindingKey)
    | .fanout => .ok true
    | .topic => matchTopic (words bindingKey) (words routingKey)
    | .unknowType => .ok false
    | .unlisted _ => .ok false

/-! ## The table stays in its bounds -/

/-- A row filled under a full row is full. -/
theorem fillRow_length (pattern : Bytes) (left : Bool) (above : List Bool) (routingWords : List Bytes)
    (full : above.length = routingWords.length + 1) :
    (fillRow pattern left above routingWords).length = routingWords.length := by
  induction routingWords generalizing left above with
  | nil =>
      cases above with
      | nil => rfl
      | cons diagonal above => cases above <;> rfl
  | cons word rest inductionHypothesis =>
      match above, full with
      | diagonal :: up :: above, full =>
          rw [fillRow, List.length_cons, List.length_cons,
            inductionHypothesis _ (up :: above) (Nat.succ.inj full)]

/-- Every row of the table has an entry for every prefix of the routing key. -/
theorem fillTable_length (routingWords : List Bytes) (first : Bool) (row : List Bool)
    (bindingWords : List Bytes) (full : row.length = routingWords.length + 1) :
    (fillTable routingWords first row bindingWords).length = routingWords.length + 1 := by
  induction bindingWords generalizing first row with
  | nil => exact full
  | cons pattern rest inductionHypothesis =>
      rw [fillTable]
      apply inductionHypothesis
      rw [List.length_cons, fillRow_length pattern _ row routingWords full]

/-- The router stops the program on one kind of key only: a legal one without a
word, for a topic exchange. -/
theorem route_error_iff (type : ExchangeType) (bindingKey routingKey : Bytes) (fault : Fault) :
    route type bindingKey routingKey = .error fault ↔
      fault = .wordsEnd ∧ type = .topic ∧ isLegalRoutingKey routingKey = true ∧
        isLegalBindingKey bindingKey = true ∧ words bindingKey = [] := by
  unfold route
  cases legalRouting : isLegalRoutingKey routingKey with
  | false => simp
  | true =>
      cases legalBinding : isLegalBindingKey bindingKey with
      | false => simp
      | true =>
          cases type with
          | topic =>
              cases bindingWords : words bindingKey with
              | nil => simp [matchTopic, eq_comm]
              | cons word rest => simp [matchTopic]
          | unknowType => simp
          | direct => simp
          | fanout => simp
          | unlisted excess => simp

example : route .topic (ascii "news.#") (ascii "news.music.pop") = .ok true := by decide +kernel

end Router

end ProtobufMq
