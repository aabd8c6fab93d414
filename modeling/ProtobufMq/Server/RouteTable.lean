import ProtobufMq.Server.Topic
import ProtobufMq.Server.VirtualHost

namespace ProtobufMq

open Foundation

/-!
# The table of the router, index by index

The router keeps its table in a vector of vectors and reads and writes it by
index, as it reads the two vectors of words.  Here the same loops run on lists
with every index checked, so an access outside a vector is a result of its own.

The loops fill the table row by row from left to right, and when row `i` is
filled up to column `j`, the entries that the next one is made of are there.
So the only access that can fail is the first one, to a binding key without a
word, and the router that keeps one row at a time computes the same answer.
-/

namespace Router
namespace Table

/-- An access outside a vector. -/
inductive Access where
  | subBindingKey (i : Nat)
  | subRoutingKey (j : Nat)
  | row (i : Nat)
  | column (i j : Nat)
  deriving DecidableEq, Repr

/-- `operator[]` of a vector. -/
def readIndex {α : Type} (items : List α) (index : Nat) (access : Access) : Except Access α :=
  match items[index]? with
  | some item => .ok item
  | none => .error access

/-- `vv[i][j]`. -/
def cell (vv : List (List Bool)) (i j : Nat) : Except Access Bool := do
  let row ← readIndex vv i (.row i)
  readIndex row j (.column i j)

/-- `vv[i][j] = value`. -/
def setCell (vv : List (List Bool)) (i j : Nat) (value : Bool) :
    Except Access (List (List Bool)) := do
  let row ← readIndex vv i (.row i)
  let _ ← readIndex row j (.column i j)
  return vv.set i (row.set j value)

/-- The value for `vv[i][j]`.  The operators `||` and `&&` do not evaluate their
second operand when the first one decides. -/
def value (subBindingKey subRoutingKey : List Bytes) (vv : List (List Bool)) (i j : Nat) :
    Except Access Bool := do
  let word ← readIndex subBindingKey (i - 1) (.subBindingKey (i - 1))
  if word = hash then
    if ← cell vv (i - 1) (j - 1) then return true
    else if ← cell vv (i - 1) j then return true
    else cell vv i (j - 1)
  else if word = star then cell vv (i - 1) (j - 1)
  else
    let next ← readIndex subRoutingKey (j - 1) (.subRoutingKey (j - 1))
    if word = next then cell vv (i - 1) (j - 1) else return false

/-- One turn of the inner loop. -/
def turn (subBindingKey subRoutingKey : List Bytes) (i : Nat) (vv : List (List Bool)) (j : Nat) :
    Except Access (List (List Bool)) := do
  setCell vv i j (← value subBindingKey subRoutingKey vv i j)

/-- The inner loop. -/
def fillRow (subBindingKey subRoutingKey : List Bytes) (vv : List (List Bool)) (i : Nat) :
    Except Access (List (List Bool)) :=
  (List.range' 1 subRoutingKey.length).foldlM (turn subBindingKey subRoutingKey i) vv

/-- The table before the loops. -/
def start (subBindingKey subRoutingKey : List Bytes) : Except Access (List (List Bool)) := do
  let vv ← setCell (List.replicate (subBindingKey.length + 1)
    (List.replicate (subRoutingKey.length + 1) false)) 0 0 true
  let first ← readIndex subBindingKey 0 (.subBindingKey 0)
  if first = hash then setCell vv 1 0 true else return vv

/-- The topic match. -/
def matchTopic (subBindingKey subRoutingKey : List Bytes) : Except Access Bool := do
  let vv ← start subBindingKey subRoutingKey
  let vv ← (List.range' 1 subBindingKey.length).foldlM (fillRow subBindingKey subRoutingKey) vv
  cell vv subBindingKey.length subRoutingKey.length

/-- `router::route`, with its indices. -/
def route (type : ExchangeType) (bindingKey routingKey : Bytes) : Except Access Bool :=
  if isLegalRoutingKey routingKey = false then .ok false
  else if isLegalBindingKey bindingKey = false then .ok false
  else match type with
    | .direct => .ok (routingKey = bindingKey)
    | .fanout => .ok true
    | .topic => matchTopic (words bindingKey) (words routingKey)
    | .unknowType => .ok false
    | .unlisted _ => .ok false

/-! ## Accesses inside the vectors -/

theorem readIndex_ok {α : Type} {items : List α} {index : Nat} {item : α}
    (there : items[index]? = some item) (access : Access) :
    readIndex items index access = .ok item := by
  rw [readIndex, there]

theorem cell_ok {vv : List (List Bool)} {i j : Nat} {row : List Bool} {entry : Bool}
    (rowThere : vv[i]? = some row) (there : row[j]? = some entry) : cell vv i j = .ok entry := by
  rw [cell, readIndex_ok rowThere]
  exact readIndex_ok there _

theorem setCell_ok {vv : List (List Bool)} {i j : Nat} {row : List Bool} {old : Bool}
    (rowThere : vv[i]? = some row) (there : row[j]? = some old) (new : Bool) :
    setCell vv i j new = .ok (vv.set i (row.set j new)) := by
  rw [setCell, readIndex_ok rowThere]
  change (readIndex row j _ >>= fun _ => _) = _
  rw [readIndex_ok there]
  rfl

variable {subBindingKey subRoutingKey : List Bytes} {vv : List (List Bool)}

/-- The value is made of the entries above to the left, above, and to the left. -/
theorem value_ok {i j : Nat} {word next : Bytes} {diagonal up left : Bool}
    (wordThere : subBindingKey[i]? = some word) (nextThere : subRoutingKey[j]? = some next)
    (diagonalThere : cell vv i j = .ok diagonal) (upThere : cell vv i (j + 1) = .ok up)
    (leftThere : cell vv (i + 1) j = .ok left) :
    value subBindingKey subRoutingKey vv (i + 1) (j + 1) =
      .ok (entry word next diagonal up left) := by
  unfold value entry
  simp only [Nat.add_sub_cancel, readIndex_ok wordThere, readIndex_ok nextThere, diagonalThere,
    upThere, leftThere]
  change (if word = hash then _ else _) = _
  by_cases isHash : word = hash
  · rw [if_pos isHash, if_pos isHash]
    cases diagonal with
    | true => rfl
    | false =>
        cases up with
        | true => rfl
        | false => rfl
  · rw [if_neg isHash, if_neg isHash]
    by_cases isStar : word = star
    · rw [if_pos isStar, if_pos isStar]
    · rw [if_neg isStar, if_neg isStar]
      by_cases same : word = next
      · simp [same, bind, Except.bind]
      · simp [same, pure, Except.pure, bind, Except.bind]

/-! ## The loops -/

theorem getElem?_middle {α : Type} {before : List α} {index : Nat} (length : before.length = index)
    (item : α) (after : List α) : (before ++ item :: after)[index]? = some item := by
  simp [← length]

theorem set_middle {α : Type} {before : List α} {index : Nat} (length : before.length = index)
    (old new : α) (after : List α) :
    (before ++ old :: after).set index new = before ++ new :: after := by
  simp [← length]

/-- The inner loop, from column `seen.length + 1` on, fills the rest of its row
and changes no other row. -/
theorem fillRow_ok {i : Nat} {word : Bytes} (wordThere : subBindingKey[i]? = some word)
    {seen ahead : List Bytes} (split : subRoutingKey = seen ++ ahead)
    {aboveDone above filled : List Bool} {left : Bool}
    (aboveThere : vv[i]? = some (aboveDone ++ above)) (aboveDoneLength : aboveDone.length = seen.length)
    (aboveLength : above.length = ahead.length + 1)
    (rowThere : vv[i + 1]? = some (filled ++ left :: List.replicate ahead.length false))
    (filledLength : filled.length = seen.length) :
    ∃ after, (List.range' (seen.length + 1) ahead.length).foldlM
        (turn subBindingKey subRoutingKey (i + 1)) vv = .ok after ∧
      after[i + 1]? = some (filled ++ left :: Router.fillRow word left above ahead) ∧
      ∀ k, k ≠ i + 1 → after[k]? = vv[k]? := by
  induction ahead generalizing seen aboveDone above filled left vv with
  | nil =>
      have rest : Router.fillRow word left above [] = [] := by
        cases above with
        | nil => rfl
        | cons diagonal above => cases above <;> rfl
      refine ⟨vv, rfl, ?_, fun _ _ => rfl⟩
      rw [rest]
      exact rowThere
  | cons next ahead inductionHypothesis =>
      cases above with
      | nil => cases aboveLength
      | cons diagonal above =>
          cases above with
          | nil => cases aboveLength
          | cons up above =>
              rw [List.append_cons] at aboveThere
              have aboveOnward : (aboveDone ++ [diagonal]).length = seen.length + 1 := by
                rw [List.length_append, aboveDoneLength, List.length_singleton]
              have filledOnward : (filled ++ [left]).length = seen.length + 1 := by
                rw [List.length_append, filledLength, List.length_singleton]
              have diagonalThere : cell vv i seen.length = .ok diagonal := by
                refine cell_ok aboveThere ?_
                rw [List.append_assoc]
                exact getElem?_middle aboveDoneLength diagonal _
              have upThere : cell vv i (seen.length + 1) = .ok up :=
                cell_ok aboveThere (getElem?_middle aboveOnward up above)
              have leftThere : cell vv (i + 1) seen.length = .ok left :=
                cell_ok rowThere (getElem?_middle filledLength left _)
              have value := value_ok wordThere (split ▸ getElem?_middle rfl next ahead)
                diagonalThere upThere leftThere
              rw [List.length_cons, List.replicate_succ, List.append_cons] at rowThere
              have written := setCell_ok rowThere (getElem?_middle filledOnward false _)
                (entry word next diagonal up left)
              rw [set_middle filledOnward] at written
              have inside := (List.getElem?_eq_some_iff.mp rowThere).choose
              rcases @inductionHypothesis _ (seen ++ [next]) (by rw [split, List.append_cons])
                (aboveDone ++ [diagonal]) (up :: above) (filled ++ [left])
                (entry word next diagonal up left)
                ((List.getElem?_set_ne (Nat.succ_ne_self i)).trans aboveThere)
                (by rw [aboveOnward, List.length_append, List.length_singleton])
                (Nat.succ.inj aboveLength)
                (List.getElem?_set_self inside)
                (by rw [filledOnward, List.length_append, List.length_singleton]) with
                ⟨after, ran, row, others⟩
              refine ⟨after, ?_, ?_, ?_⟩
              · rw [List.length_cons, List.range'_succ, List.foldlM_cons]
                rw [turn, value]
                change (setCell vv (i + 1) (seen.length + 1) _ >>= _) = _
                rw [written]
                rw [List.length_append, List.length_singleton] at ran
                exact ran
              · rw [Router.fillRow, List.append_cons]
                exact row
              · intro k other
                rw [others k other, List.getElem?_set_ne (Ne.symm other)]

/-- A row before the loops have reached it.  Column zero is set in the row of
the first word, if that is `#`. -/
def blank (subBindingKey : List Bytes) (columns i : Nat) : List Bool :=
  (decide (i = 1) && decide (subBindingKey.head? = some hash)) :: List.replicate columns false

/-- The outer loop, from row `done.length + 1` on, computes the last row. -/
theorem fillTable_ok {done remaining : List Bytes} (split : subBindingKey = done ++ remaining)
    {row : List Bool} (rowThere : vv[done.length]? = some row)
    (full : row.length = subRoutingKey.length + 1)
    (later : ∀ k, done.length < k → k ≤ subBindingKey.length →
      vv[k]? = some (blank subBindingKey subRoutingKey.length k)) :
    ∃ after, (List.range' (done.length + 1) remaining.length).foldlM
        (fillRow subBindingKey subRoutingKey) vv = .ok after ∧
      after[subBindingKey.length]? =
        some (Router.fillTable subRoutingKey (decide (done = [])) row remaining) := by
  induction remaining generalizing done row vv with
  | nil =>
      rw [List.append_nil] at split
      subst split
      exact ⟨vv, rfl, rowThere⟩
  | cons word rest inductionHypothesis =>
      have inside : done.length + 1 ≤ subBindingKey.length := by
        rw [split, List.length_append, List.length_cons]
        exact Nat.add_le_add_left (Nat.le_add_left 1 rest.length) done.length
      have column : (decide (done.length + 1 = 1) && decide (subBindingKey.head? = some hash)) =
          (decide (done = []) && decide (word = hash)) := by
        cases done with
        | nil => simp [split]
        | cons first more => simp
      have nextThere := later (done.length + 1) (Nat.lt_succ_self _) inside
      rw [blank, column] at nextThere
      rcases @fillRow_ok subBindingKey subRoutingKey vv done.length word
        (split ▸ getElem?_middle rfl word rest) [] subRoutingKey rfl [] row [] _ rowThere rfl full
        nextThere rfl with ⟨filled, ran, filledRow, others⟩
      have turned : fillRow subBindingKey subRoutingKey vv (done.length + 1) = .ok filled := ran
      have nextLength : (done ++ [word]).length = done.length + 1 := by
        rw [List.length_append, List.length_singleton]
      rw [← nextLength] at filledRow
      rcases inductionHypothesis (by rw [split, List.append_cons]) filledRow
        (by
          rw [List.nil_append, List.length_cons]
          exact congrArg Nat.succ (Router.fillRow_length word _ row subRoutingKey full))
        (by
          intro k beyond within
          rw [nextLength] at beyond
          rw [others k (Nat.ne_of_gt beyond)]
          exact later k (Nat.lt_of_succ_lt beyond) within) with ⟨after, ranOn, last⟩
      rw [nextLength] at ranOn
      rw [decide_eq_false (List.append_ne_nil_of_right_ne_nil done (List.cons_ne_nil word []))] at last
      refine ⟨after, ?_, ?_⟩
      · rw [List.length_cons, List.range'_succ, List.foldlM_cons, turned]
        exact ranOn
      · rw [Router.fillTable]
        exact last

/-- The last entry of a full row. -/
theorem getElem?_last {row : List Bool} {columns : Nat} (full : row.length = columns + 1) :
    row[columns]? = some (row.getLastD false) := by
  rw [List.getLastD_eq_getLast?, List.getLast?_eq_getElem?, full, Nat.add_sub_cancel]
  cases there : row[columns]? with
  | some last => rfl
  | none =>
      have outside := List.getElem?_eq_none_iff.mp there
      rw [full] at outside
      exact absurd outside (Nat.not_succ_le_self columns)

/-- With a word in the binding key, the assignments before the loops are inside
the table. -/
theorem start_ok (word : Bytes) (rest subRoutingKey : List Bytes) :
    ∃ vv, start (word :: rest) subRoutingKey = .ok vv ∧
      vv[0]? = some (true :: List.replicate subRoutingKey.length false) ∧
      ∀ k, 0 < k → k ≤ (word :: rest).length →
        vv[k]? = some (blank (word :: rest) subRoutingKey.length k) := by
  refine ⟨(true :: List.replicate subRoutingKey.length false) ::
    (decide (word = hash) :: List.replicate subRoutingKey.length false) ::
      List.replicate rest.length (List.replicate (subRoutingKey.length + 1) false), ?_, rfl, ?_⟩
  · change (if word = hash then _ else _) = _
    by_cases isHash : word = hash
    · rw [if_pos isHash, decide_eq_true isHash]
      rfl
    · rw [if_neg isHash, decide_eq_false isHash]
      rfl
  · intro k positive within
    match k, positive with
    | 1, _ => simp [blank]
    | k + 2, _ =>
        rw [List.getElem?_cons_succ, List.getElem?_cons_succ, List.getElem?_replicate,
          if_pos (Nat.lt_of_succ_le (Nat.le_of_succ_le_succ within)), blank]
        simp [List.replicate_succ]

/-- With a word in the binding key, the loops stay inside their vectors and
compute what the router does that keeps one row at a time. -/
theorem matchTopic_ok {bindingWords : List Bytes} (nonempty : bindingWords ≠ [])
    (routingWords : List Bytes) (matched : Bool) :
    matchTopic bindingWords routingWords = .ok matched ↔
      Router.matchTopic bindingWords routingWords = .ok matched := by
  cases bindingWords with
  | nil => exact absurd rfl nonempty
  | cons word rest =>
      rcases start_ok word rest routingWords with ⟨vv, started, firstRow, later⟩
      have firstFull : (true :: List.replicate routingWords.length false).length =
          routingWords.length + 1 := by
        rw [List.length_cons, List.length_replicate]
      rcases @fillTable_ok (word :: rest) routingWords vv [] (word :: rest) rfl _ firstRow firstFull
        later with ⟨after, ran, last⟩
      have answer := cell_ok last (getElem?_last
        (Router.fillTable_length routingWords true _ (word :: rest) firstFull))
      have answered : matchTopic (word :: rest) routingWords = .ok
          ((Router.fillTable routingWords true (true :: List.replicate routingWords.length false)
            (word :: rest)).getLastD false) := by
        have filled : (List.range' 1 (word :: rest).length).foldlM
            (fillRow (word :: rest) routingWords) vv = .ok after := ran
        rw [matchTopic, started]
        change ((List.range' 1 (word :: rest).length).foldlM
          (fillRow (word :: rest) routingWords) vv >>= fun vv => _) = _
        rw [filled]
        exact answer
      rw [answered, Router.matchTopic, Except.ok.injEq, Except.ok.injEq]

/-- The two ways to keep the table give the same answers. -/
theorem route_ok_iff (type : ExchangeType) (bindingKey routingKey : Bytes) (routed : Bool) :
    route type bindingKey routingKey = .ok routed ↔
      Router.route type bindingKey routingKey = .ok routed := by
  unfold route Router.route
  cases isLegalRoutingKey routingKey with
  | false => simp
  | true =>
      cases isLegalBindingKey bindingKey with
      | false => simp
      | true =>
          cases type with
          | topic =>
              cases bindingWords : words bindingKey with
              | nil =>
                  constructor
                  · intro impossible
                    cases impossible
                  · intro impossible
                    cases impossible
              | cons word rest => exact matchTopic_ok (List.cons_ne_nil word rest) _ routed
          | unknowType => simp
          | direct => simp
          | fanout => simp
          | unlisted excess => simp

/-- Every access of the router is inside its vectors unless the exchange matches
topics, both keys are legal and the binding key has no word. -/
theorem route_inside_iff (type : ExchangeType) (bindingKey routingKey : Bytes) :
    (∃ routed, route type bindingKey routingKey = .ok routed) ↔
      ¬ (type = .topic ∧ isLegalRoutingKey routingKey = true ∧
        isLegalBindingKey bindingKey = true ∧ nonEmptyWords bindingKey = []) := by
  simp only [route_ok_iff, ← words_eq]
  constructor
  · rintro ⟨routed, answered⟩ outside
    have failed := (route_error_iff type bindingKey routingKey .wordsEnd).mpr ⟨rfl, outside⟩
    rw [answered] at failed
    cases failed
  · intro inside
    cases answer : Router.route type bindingKey routingKey with
    | ok routed => exact ⟨routed, rfl⟩
    | error fault =>
        exact absurd ((route_error_iff type bindingKey routingKey fault).mp answer).2 inside

/-- A host with a topic exchange and a queue. -/
def newsHost : VirtualHost :=
  let host := VirtualHost.fresh (ascii "data")
  { host with
    emptr := (host.emptr.declareExchange true ⟨ascii "news", .topic, .durable, false, ∅⟩).2
    qmptr := (host.qmptr.declareQueue true ⟨ascii "reader", true, false, false, ∅⟩).2 }

/-- The host accepts a binding key without a word, and routing by it reads the
first word of none. -/
theorem wordless_binding_key_outside :
    (newsHost.bind {} (ascii "news") (ascii "reader") (ascii "..")).1 = true ∧
      route .topic (ascii "..") (ascii "news.music") = .error (.subBindingKey 0) := by
  decide

end Table
end Router

namespace VirtualHost

/-- Binding does not look at the key. -/
theorem bind_accepts_any_key (host : VirtualHost) (sql : SqlOutcome) (ename qname key other : Bytes) :
    (host.bind sql ename qname key).1 = (host.bind sql ename qname other).1 := by
  unfold bind
  cases host.emptr.selectExchange ename with
  | none => rfl
  | some exchange =>
      cases host.qmptr.selectQueue qname with
      | none => rfl
      | some queue =>
          dsimp only
          unfold BindingManager.bind
          cases host.bmptr.getBinding ename qname with
          | some binding => rfl
          | none => cases bindsDurably exchange queue <;> cases sql.bindingTable <;> rfl

end VirtualHost

end ProtobufMq
