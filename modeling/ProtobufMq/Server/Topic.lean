import ProtobufMq.Foundation.Wildcard
import ProtobufMq.Server.Route

namespace ProtobufMq

open Foundation

/-!
# What a topic exchange matches

The words of a binding key are a pattern: `*` stands for one word, `#` for any
number of words, and any other word for itself.  The table of the router has a
row for each prefix of the pattern and an entry for each prefix of the words of
the routing key, and an entry says whether the one prefix matches the other.

The border of the table is filled for the first row only.  That is right for a
legal binding key: two words `#` never stand next to each other, so a prefix of
more than one word does not match the empty list.
-/

namespace Router

/-- The words of a key: its stretches between dots that are not empty. -/
def nonEmptyWords (key : Bytes) : List Bytes :=
  (key.splitOn 46).filter (· ≠ [])

theorem words_eq (key : Bytes) : words key = nonEmptyWords key :=
  split_singleton key 46

/-- What a word of a binding key stands for. -/
def piece (word : Bytes) : Piece Bytes :=
  if word = star then .one else if word = hash then .many else .exactly word

@[simp] theorem piece_hash : piece hash = .many := rfl

@[simp] theorem piece_star : piece star = .one := rfl

theorem piece_plain {word : Bytes} (notHash : word ≠ hash) (notStar : word ≠ star) :
    piece word = .exactly word := by
  rw [piece, if_neg notStar, if_neg notHash]

theorem piece_eq_many {word : Bytes} : piece word = .many ↔ word = hash := by
  constructor
  · unfold piece
    by_cases isStar : word = star
    · rw [if_pos isStar]
      intro impossible
      cases impossible
    · rw [if_neg isStar]
      by_cases isHash : word = hash
      · exact fun _ => isHash
      · rw [if_neg isHash]
        intro impossible
        cases impossible
  · rintro rfl
    rfl

/-- The words of a binding key as a pattern. -/
def pattern (bindingWords : List Bytes) : List (Piece Bytes) :=
  bindingWords.map piece

theorem pattern_concat (bindingWords : List Bytes) (word : Bytes) :
    pattern (bindingWords ++ [word]) = pattern bindingWords ++ [piece word] := by
  rw [pattern, List.map_append]
  rfl

/-! ## The border of the table -/

theorem spaced_tail {word : Bytes} {rest : List Bytes} (legal : spaced (word :: rest) = true) :
    spaced rest = true := by
  cases rest with
  | nil => rfl
  | cons next later =>
      rw [spaced, Bool.and_eq_true] at legal
      exact legal.2

theorem spaced_of_append {first second : List Bytes} (legal : spaced (first ++ second) = true) :
    spaced first = true := by
  induction first with
  | nil => rfl
  | cons word rest inductionHypothesis =>
      have onward := inductionHypothesis (spaced_tail legal)
      cases rest with
      | nil => rfl
      | cons next later =>
          rw [List.cons_append, List.cons_append, spaced, Bool.and_eq_true] at legal
          rw [spaced, Bool.and_eq_true]
          exact ⟨legal.1, onward⟩

/-- Of the legal patterns with a word, only `#` alone matches nothing. -/
theorem matches_nil_iff {bindingWords : List Bytes} {word : Bytes}
    (legal : spaced (bindingWords ++ [word]) = true) :
    Matches (pattern (bindingWords ++ [word])) ([] : List Bytes) ↔
      bindingWords = [] ∧ word = hash := by
  rw [pattern_concat, Matches.concat_nil_iff, piece_eq_many]
  constructor
  · rintro ⟨last, before⟩
    refine ⟨?_, last⟩
    rcases List.eq_nil_or_concat bindingWords with none | ⟨earlier, previous, same⟩
    · exact none
    · -- a second `#` would stand right before the last one
      rw [List.concat_eq_append] at same
      subst same
      subst last
      rw [pattern_concat, Matches.concat_nil_iff, piece_eq_many] at before
      rw [before.1] at legal
      exfalso
      clear before
      induction earlier with
      | nil => cases legal
      | cons first rest inductionHypothesis => exact inductionHypothesis (spaced_tail legal)
  · rintro ⟨rfl, rfl⟩
    exact ⟨rfl, .nil⟩

/-! ## The entries of the table -/

/-- One entry is right if the three entries that it is made of are. -/
theorem entry_iff {done : List (Piece Bytes)} {seen : List Bytes} {word next : Bytes}
    {diagonal up left : Bool} (diagonalRight : diagonal = true ↔ Matches done seen)
    (upRight : up = true ↔ Matches done (seen ++ [next]))
    (leftRight : left = true ↔ Matches (done ++ [piece word]) seen) :
    entry word next diagonal up left = true ↔
      Matches (done ++ [piece word]) (seen ++ [next]) := by
  unfold entry
  by_cases isHash : word = hash
  · subst isHash
    rw [if_pos rfl, Bool.or_eq_true, Bool.or_eq_true, diagonalRight, upRight, leftRight, piece_hash,
      Matches.concat_many_iff]
    constructor
    · rintro ((both | without) | more)
      · exact Or.inr (Matches.append_iff.mpr
          ⟨seen, [], (List.append_nil seen).symm, both, .done .nil⟩)
      · exact Or.inl without
      · exact Or.inr more
    · exact fun either => either.imp_left Or.inr
  · rw [if_neg isHash]
    by_cases isStar : word = star
    · subst isStar
      rw [if_pos rfl, diagonalRight, piece_star, Matches.concat_one_iff]
    · rw [if_neg isStar, piece_plain isHash isStar, Matches.concat_exactly_iff, Bool.and_eq_true,
        decide_eq_true_eq, diagonalRight]

/-- The row of a pattern, from the entry for the words seen so far on. -/
def RowFrom (done : List (Piece Bytes)) : List Bytes → List Bytes → List Bool → Prop
  | seen, [], row => ∃ last, row = [last] ∧ (last = true ↔ Matches done seen)
  | seen, next :: ahead, row => ∃ first rest, row = first :: rest ∧
      (first = true ↔ Matches done seen) ∧ RowFrom done (seen ++ [next]) ahead rest

/-- A row begins with the entry for the words seen so far. -/
theorem RowFrom.head {done : List (Piece Bytes)} {seen ahead : List Bytes} {row : List Bool}
    (right : RowFrom done seen ahead row) :
    ∃ first rest, row = first :: rest ∧ (first = true ↔ Matches done seen) := by
  cases ahead with
  | nil =>
      rcases right with ⟨last, rfl, same⟩
      exact ⟨last, [], rfl, same⟩
  | cons next ahead =>
      rcases right with ⟨first, rest, rfl, same, _⟩
      exact ⟨first, rest, rfl, same⟩

/-- The inner loop fills the next row from the one above. -/
theorem fillRow_rowFrom {done : List (Piece Bytes)} {word : Bytes} {seen ahead : List Bytes}
    {above : List Bool} {left : Bool} (aboveRight : RowFrom done seen ahead above)
    (leftRight : left = true ↔ Matches (done ++ [piece word]) seen) :
    RowFrom (done ++ [piece word]) seen ahead (left :: fillRow word left above ahead) := by
  induction ahead generalizing seen above left with
  | nil =>
      rcases aboveRight with ⟨last, rfl, _⟩
      exact ⟨left, rfl, leftRight⟩
  | cons next ahead inductionHypothesis =>
      rcases aboveRight with ⟨diagonal, rest, rfl, diagonalRight, restRight⟩
      rcases restRight.head with ⟨up, above, rfl, right⟩
      exact ⟨left, _, rfl, leftRight, inductionHypothesis restRight
        (entry_iff diagonalRight right leftRight)⟩

/-- The outer loop fills the rows of all the words. -/
theorem fillTable_rowFrom {done remaining routingWords : List Bytes} {row : List Bool}
    (legal : spaced (done ++ remaining) = true)
    (rowRight : RowFrom (pattern done) [] routingWords row) :
    RowFrom (pattern (done ++ remaining)) [] routingWords
      (fillTable routingWords (decide (done = [])) row remaining) := by
  induction remaining generalizing done row with
  | nil =>
      rw [List.append_nil]
      exact rowRight
  | cons word rest inductionHypothesis =>
      have split : done ++ word :: rest = done ++ [word] ++ rest := by
        rw [List.append_assoc, List.singleton_append]
      rw [split] at legal ⊢
      have border : (decide (done = []) && decide (word = hash)) = true ↔
          Matches (pattern done ++ [piece word]) ([] : List Bytes) := by
        rw [← pattern_concat, matches_nil_iff (spaced_of_append legal), Bool.and_eq_true,
          decide_eq_true_eq, decide_eq_true_eq]
      have filled := fillRow_rowFrom rowRight border
      rw [← pattern_concat] at filled
      have onward := inductionHypothesis legal filled
      rw [decide_eq_false (List.append_ne_nil_of_right_ne_nil done (List.cons_ne_nil word []))] at onward
      rw [fillTable]
      exact onward

/-- The last entry of a row is the one for all the words. -/
theorem RowFrom.last {done : List (Piece Bytes)} {seen ahead : List Bytes} {row : List Bool}
    (right : RowFrom done seen ahead row) :
    row.getLastD false = true ↔ Matches done (seen ++ ahead) := by
  induction ahead generalizing seen row with
  | nil =>
      rcases right with ⟨last, rfl, same⟩
      rw [List.append_nil]
      exact same
  | cons next ahead inductionHypothesis =>
      rcases right with ⟨first, rest, rfl, _, restRight⟩
      have onward := inductionHypothesis restRight
      rw [List.append_assoc, List.singleton_append] at onward
      rcases restRight.head with ⟨second, later, rfl, _⟩
      exact onward

/-- The first row: the empty pattern matches the empty list only. -/
theorem rowFrom_nil (routingWords : List Bytes) :
    RowFrom [] [] routingWords (true :: List.replicate routingWords.length false) := by
  have blank : ∀ seen ahead : List Bytes, seen ≠ [] →
      RowFrom [] seen ahead (List.replicate (ahead.length + 1) false) := by
    intro seen ahead
    induction ahead generalizing seen with
    | nil => exact fun some => ⟨false, rfl, by simp [Matches.nil_iff, some]⟩
    | cons next ahead inductionHypothesis =>
        intro some
        exact ⟨false, _, rfl, by simp [Matches.nil_iff, some], inductionHypothesis _ (by simp)⟩
  cases routingWords with
  | nil => exact ⟨true, rfl, by simp [Matches.nil_iff]⟩
  | cons word rest => exact ⟨true, _, rfl, by simp [Matches.nil_iff], blank _ rest (by simp)⟩

/-- The table decides the match. -/
theorem matchTopic_iff {bindingWords routingWords : List Bytes} (nonempty : bindingWords ≠ [])
    (legal : spaced bindingWords = true) :
    ∃ matched, matchTopic bindingWords routingWords = .ok matched ∧
      (matched = true ↔ Matches (pattern bindingWords) routingWords) := by
  cases bindingWords with
  | nil => exact absurd rfl nonempty
  | cons word rest =>
      have table := @fillTable_rowFrom [] (word :: rest) routingWords _ legal
        (rowFrom_nil routingWords)
      exact ⟨_, rfl, table.last⟩

theorem spaced_of_legal {bindingKey : Bytes} (legal : isLegalBindingKey bindingKey = true) :
    spaced (words bindingKey) = true := by
  rw [isLegalBindingKey, Bool.and_eq_true] at legal
  exact legal.2

/-- A topic exchange routes by matching the words of the keys, and never routes
an illegal key. -/
theorem route_topic_iff (bindingKey routingKey : Bytes) :
    (isLegalRoutingKey routingKey = true → isLegalBindingKey bindingKey = true →
      nonEmptyWords bindingKey ≠ [] →
      ∃ routed, route .topic bindingKey routingKey = .ok routed ∧
        (routed = true ↔
          Matches (pattern (nonEmptyWords bindingKey)) (nonEmptyWords routingKey))) ∧
    (isLegalRoutingKey routingKey = false ∨ isLegalBindingKey bindingKey = false →
      route .topic bindingKey routingKey = .ok false) := by
  constructor
  · intro legalRouting legalBinding nonempty
    rw [← words_eq] at nonempty ⊢
    rcases @matchTopic_iff _ (words routingKey) nonempty (spaced_of_legal legalBinding) with
      ⟨matched, decided, right⟩
    refine ⟨matched, ?_, words_eq routingKey ▸ right⟩
    rw [route, legalRouting, legalBinding]
    exact decided
  · rintro (illegal | illegal)
    · rw [route, if_pos illegal]
    · rw [route, if_pos illegal, ite_self]

/-- A pattern that ends in `#` routes a key with two more words. -/
theorem news_of_music_routed :
    Matches (pattern (nonEmptyWords (ascii "news.#"))) (nonEmptyWords (ascii "news.music.pop")) := by
  rcases (route_topic_iff (ascii "news.#") (ascii "news.music.pop")).1 (by decide) (by decide)
    (by rw [← words_eq]; decide) with ⟨routed, decided, right⟩
  have accepted : route .topic (ascii "news.#") (ascii "news.music.pop") = .ok true := by
    decide +kernel
  exact right.mp (Except.ok.inj (decided.symm.trans accepted))

end Router

end ProtobufMq
