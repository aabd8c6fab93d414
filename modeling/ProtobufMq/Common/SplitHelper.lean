import Mathlib.Data.List.Infix
import ProtobufMq.Common.Msg

namespace ProtobufMq

open Foundation

/-!
# `SplitHelper`: cutting a string at a separator

`split` walks over the string and collects the stretches between occurrences
of the separator, leaving out the empty ones.  It is used to cut the args text
of an exchange or queue at `&` and a routing or binding key at `.`.

The function is here twice.  `splitInto` is the loop over the index as it is
written, with the vector it appends to, and every position that it reads at is
checked.  `split` gives the pieces alone, and the two agree by `splitInto_eq`.
-/

/-- `std::string::find` from the start: the first position of a text. -/
def find (sep : Bytes) : Bytes → Option Nat
  | [] => if sep = [] then some 0 else none
  | byte :: rest =>
      if sep <+: byte :: rest then some 0 else (find sep rest).map (· + 1)

/-- The loop of `SplitHelper::split`, on the part of the string that is still
ahead.  Every turn moves over at least one byte. -/
def splitLoop (sep : Bytes) : Nat → Bytes → List Bytes
  | 0, _ => []
  | fuel + 1, rest =>
      if rest = [] then []
      else match find sep rest with
        | none => [rest]
        | some 0 => splitLoop sep fuel (rest.drop sep.length)
        | some (pos + 1) =>
            rest.take (pos + 1) :: splitLoop sep fuel (rest.drop (pos + 1 + sep.length))

/-- `SplitHelper::split`, into an empty vector. -/
def split (text sep : Bytes) : List Bytes :=
  if sep = [] then [] else splitLoop sep (text.length + 1) text

/-- What keeps `split` from returning. -/
inductive SplitFault where
  /-- A byte past the end of the string is asked for. -/
  | pastEnd
  /-- The turns that the loop may make are used up. -/
  | unfinished
  deriving DecidableEq, Repr

/-- `std::string::find` of a text that is not empty, from a position on. -/
def findFrom (str sep : Bytes) (idx : Nat) : Option Nat :=
  (find sep (str.drop idx)).map (idx + ·)

/-- `std::string::substr`.  The standard function throws when it is to start past
the end; to want more bytes than there are is taken for the same fault. -/
def substr (str : Bytes) (pos count : Nat) : Except SplitFault Bytes :=
  match readAt str pos count with
  | some tmp => .ok tmp
  | none => .error .pastEnd

/-- The loop of `SplitHelper::split` as it is written: the index runs over the
string and the pieces go behind those that `result` holds. -/
def splitFrom (str sep : Bytes) : Nat → Nat → List Bytes → Except SplitFault (List Bytes)
  | 0, _, _ => .error .unfinished
  | turns + 1, idx, result =>
      if idx < str.length then
        match findFrom str sep idx with
        | none => do
            let tmp ← substr str idx (str.length - idx)
            return result ++ [tmp]
        | some pos =>
            if idx = pos then splitFrom str sep turns (idx + sep.length) result
            else do
              let tmp ← substr str idx (pos - idx)
              splitFrom str sep turns (pos + sep.length) (result ++ [tmp])
      else return result

/-- `SplitHelper::split`: the number that it returns, and `result` afterwards. -/
def splitInto (str sep : Bytes) (turns : Nat) (result : List Bytes) :
    Except SplitFault (Nat × List Bytes) :=
  if sep = [] then .ok (0, result)
  else do
    let result ← splitFrom str sep turns 0 result
    return (result.length, result)

/-- The turns that `split` allows are enough: with more of them the loop finds
the same pieces. -/
theorem splitLoop_stable {sep : Bytes} (nonempty : sep ≠ []) {fuel more : Nat} {text : Bytes}
    (enough : text.length < fuel) (enoughMore : text.length < more) :
    splitLoop sep fuel text = splitLoop sep more text := by
  induction fuel generalizing more text with
  | zero => exact absurd enough (Nat.not_lt_zero _)
  | succ fuel inductionHypothesis =>
      cases more with
      | zero => exact absurd enoughMore (Nat.not_lt_zero _)
      | succ more =>
          rw [splitLoop, splitLoop]
          by_cases done : text = []
          · rw [if_pos done, if_pos done]
          · rw [if_neg done, if_neg done]
            -- a turn that goes on leaves a shorter string
            have textPositive := List.length_pos_iff.mpr done
            have sepPositive := List.length_pos_iff.mpr nonempty
            have shorter : ∀ count bound, 0 < count → text.length < bound + 1 →
                (text.drop count).length < bound := by
              intro count bound positive below
              rw [List.length_drop]
              omega
            cases find sep text with
            | none => rfl
            | some pos =>
                cases pos with
                | zero =>
                    exact inductionHypothesis (shorter _ _ sepPositive enough)
                      (shorter _ _ sepPositive enoughMore)
                | succ pos =>
                    have moves : 0 < pos + 1 + sep.length := Nat.add_pos_right _ sepPositive
                    exact congrArg (List.cons _) (inductionHypothesis
                      (shorter _ _ moves enough) (shorter _ _ moves enoughMore))

/-- No piece is empty. -/
theorem splitLoop_nonempty (sep : Bytes) (fuel : Nat) (text : Bytes) :
    ∀ piece ∈ splitLoop sep fuel text, piece ≠ [] := by
  induction fuel generalizing text with
  | zero => exact fun piece member => by cases member
  | succ fuel inductionHypothesis =>
      intro piece member
      rw [splitLoop] at member
      by_cases done : text = []
      · rw [if_pos done] at member
        cases member
      · rw [if_neg done] at member
        cases found : find sep text with
        | none =>
            rw [found] at member
            rw [List.mem_singleton.mp member]
            exact done
        | some pos =>
            cases pos with
            | zero =>
                rw [found] at member
                exact inductionHypothesis _ piece member
            | succ pos =>
                rw [found] at member
                rcases List.mem_cons.mp member with first | later
                · rw [first]
                  intro empty
                  rcases List.take_eq_nil_iff.mp empty with zero | nothing
                  · exact Nat.succ_ne_zero pos zero
                  · exact done nothing
                · exact inductionHypothesis _ piece later

/-- `split` collects no empty piece. -/
theorem split_nonempty (text sep : Bytes) : ∀ piece ∈ split text sep, piece ≠ [] := by
  unfold split
  by_cases empty : sep = []
  · rw [if_pos empty]
    exact fun piece member => by cases member
  · rw [if_neg empty]
    exact splitLoop_nonempty sep (text.length + 1) text

/-! ## A separator of any length -/

section AnySeparator

variable {sep text : Bytes}

/-- Nothing is found where the separator does not occur. -/
theorem find_eq_none_iff : find sep text = none ↔ ¬ sep <:+: text := by
  induction text with
  | nil =>
      rw [find, List.infix_nil]
      by_cases empty : sep = []
      · simp [empty]
      · simp [empty]
  | cons byte rest inductionHypothesis =>
      rw [find, List.infix_cons_iff]
      by_cases here : sep <+: byte :: rest
      · simp [here]
      · simp [here, inductionHypothesis]

/-- The separator begins where it is found, and does not fit before. -/
theorem find_first (nonempty : sep ≠ []) {pos : Nat} (found : find sep text = some pos) :
    sep <+: text.drop pos ∧ ¬ sep <:+: text.take pos := by
  induction text generalizing pos with
  | nil =>
      rw [find, if_neg nonempty] at found
      cases found
  | cons byte rest inductionHypothesis =>
      rw [find] at found
      by_cases here : sep <+: byte :: rest
      · rw [if_pos here] at found
        cases found
        refine ⟨here, fun inside => nonempty ?_⟩
        exact List.infix_nil.mp inside
      · rw [if_neg here] at found
        rcases Option.map_eq_some_iff.mp found with ⟨before, foundRest, rfl⟩
        rcases inductionHypothesis foundRest with ⟨begins, absent⟩
        refine ⟨begins, ?_⟩
        rw [List.take_succ_cons, List.infix_cons_iff]
        rintro (first | later)
        · have longer : byte :: rest.take before <+: byte :: rest :=
            (List.prefix_cons_inj byte).mpr (List.take_prefix before rest)
          exact here (first.trans longer)
        · exact absent later

/-- What is found lies within the string. -/
theorem find_within (nonempty : sep ≠ []) {pos : Nat} (found : find sep text = some pos) :
    pos + sep.length ≤ text.length := by
  have fits := (find_first nonempty found).1.length_le
  have positive := List.length_pos_iff.mpr nonempty
  rw [List.length_drop] at fits
  omega

/-- The loop ends within its turns and its bounds, with the pieces of what was
ahead behind those that were there. -/
theorem splitFrom_eq (nonempty : sep ≠ []) {turns idx : Nat} (within : idx ≤ text.length)
    (enough : text.length - idx < turns) (result : List Bytes) :
    splitFrom text sep turns idx result =
      .ok (result ++ splitLoop sep turns (text.drop idx)) := by
  induction turns generalizing idx result with
  | zero => exact absurd enough (Nat.not_lt_zero _)
  | succ turns inductionHypothesis =>
      rw [splitFrom, splitLoop]
      by_cases ahead : idx < text.length
      · have more : text.drop idx ≠ [] := by
          rw [Ne, List.drop_eq_nil_iff]
          exact Nat.not_le.mpr ahead
        have positive := List.length_pos_iff.mpr nonempty
        rw [if_pos ahead, if_neg more, findFrom]
        cases found : find sep (text.drop idx) with
        | none =>
            have whole : readAt text idx (text.length - idx) = some (text.drop idx) := by
              rw [readAt, if_pos (by omega), List.take_of_length_le (by rw [List.length_drop])]
            simp only [Option.map_none, substr, whole]
            rfl
        | some pos =>
            have fits := find_within nonempty found
            rw [List.length_drop] at fits
            rw [Option.map_some]
            cases pos with
            | zero =>
                simp only [Nat.add_zero, if_true]
                rw [inductionHypothesis (by omega) (by omega), List.drop_drop]
            | succ pos =>
                have moves : idx ≠ idx + (pos + 1) := by omega
                have piece : readAt text idx (idx + (pos + 1) - idx) =
                    some ((text.drop idx).take (pos + 1)) := by
                  rw [readAt, if_pos (by omega), Nat.add_sub_cancel_left]
                simp only [if_neg moves, substr, piece]
                have later := @inductionHypothesis (idx + (pos + 1) + sep.length) (by omega)
                  (by omega) (result ++ [(text.drop idx).take (pos + 1)])
                rw [List.append_assoc, List.singleton_append, Nat.add_assoc idx,
                  ← List.drop_drop] at later
                rw [Nat.add_assoc idx]
                exact later
      · have nothing : text.drop idx = [] := List.drop_eq_nil_iff.mpr (Nat.not_lt.mp ahead)
        rw [if_neg ahead, if_pos nothing, List.append_nil]
        rfl

/-- `split` returns with the pieces behind those that were there. -/
theorem splitInto_eq (nonempty : sep ≠ []) {turns : Nat} (enough : text.length < turns)
    (result : List Bytes) :
    splitInto text sep turns result =
      .ok (result.length + (split text sep).length, result ++ split text sep) := by
  have loop := @splitFrom_eq sep text nonempty turns 0 (Nat.zero_le _) enough result
  rw [List.drop_zero, splitLoop_stable nonempty enough (Nat.lt_succ_self _)] at loop
  rw [splitInto, if_neg nonempty, loop, split, if_neg nonempty, ← List.length_append]
  rfl

/-- No piece has the separator in it. -/
theorem splitLoop_infix (nonempty : sep ≠ []) (turns : Nat) (text : Bytes) :
    ∀ piece ∈ splitLoop sep turns text, ¬ sep <:+: piece := by
  induction turns generalizing text with
  | zero => exact fun piece member => by cases member
  | succ turns inductionHypothesis =>
      intro piece member
      rw [splitLoop] at member
      by_cases done : text = []
      · rw [if_pos done] at member
        cases member
      · rw [if_neg done] at member
        cases found : find sep text with
        | none =>
            rw [found] at member
            rw [List.mem_singleton.mp member]
            exact find_eq_none_iff.mp found
        | some pos =>
            rw [found] at member
            cases pos with
            | zero => exact inductionHypothesis _ piece member
            | succ pos =>
                rcases List.mem_cons.mp member with first | later
                · rw [first]
                  exact (find_first nonempty found).2
                · exact inductionHypothesis _ piece later

end AnySeparator

/-! ## A separator of one byte -/

section Singleton

variable {sep : UInt8} {text : Bytes}

theorem find_eq_none (missing : find [sep] text = none) : sep ∉ text := by
  rw [find_eq_none_iff, List.singleton_infix_iff] at missing
  exact missing

/-- The separator stands where it is found, and nowhere before. -/
theorem find_eq_some {pos : Nat} (found : find [sep] text = some pos) :
    text = text.take pos ++ sep :: text.drop (pos + 1) ∧ sep ∉ text.take pos := by
  rcases find_first (List.cons_ne_nil _ _) found with ⟨⟨rest, begins⟩, absent⟩
  rw [List.singleton_infix_iff] at absent
  have behind : text.drop (pos + 1) = rest := by
    rw [← List.drop_drop, ← begins]
    rfl
  refine ⟨?_, absent⟩
  rw [behind, ← List.singleton_append, begins, List.take_append_drop]

/-- What stands before a separator does not have it. -/
theorem find_append (absent : sep ∉ text) (rest : Bytes) :
    find [sep] (text ++ sep :: rest) = some text.length := by
  induction text with
  | nil =>
      rw [List.nil_append, find, if_pos ⟨rest, rfl⟩]
      rfl
  | cons byte tail inductionHypothesis =>
      rw [List.mem_cons, not_or] at absent
      have elsewhere : ¬ [sep] <+: byte :: (tail ++ sep :: rest) := by
        rintro ⟨after, same⟩
        exact absent.1 (List.cons.inj same).1
      rw [List.cons_append, find, if_neg elsewhere, inductionHypothesis absent.2,
        Option.map_some, List.length_cons]

/-- The pieces are the stretches between the separators that are not empty. -/
theorem split_singleton (text : Bytes) (sep : UInt8) :
    split text [sep] = (text.splitOn sep).filter (· ≠ []) := by
  have loop : ∀ fuel text, text.length < fuel →
      splitLoop [sep] fuel text = (text.splitOn sep).filter (· ≠ []) := by
    intro fuel
    induction fuel with
    | zero => exact fun text enough => absurd enough (Nat.not_lt_zero _)
    | succ fuel inductionHypothesis =>
        intro text enough
        rw [splitLoop]
        by_cases done : text = []
        · rw [if_pos done, done, List.splitOn_nil]
          rfl
        · rw [if_neg done]
          cases found : find [sep] text with
          | none =>
              rw [List.splitOn_eq_singleton (find_eq_none found)]
              simp [done]
          | some pos =>
              rcases find_eq_some found with ⟨splits, absent⟩
              have ahead : (text.drop (pos + 1)).length < fuel := by
                have positive := List.length_pos_iff.mpr done
                rw [List.length_drop]
                omega
              have pieces := List.splitOn_append_cons_self_of_not_mem absent (text.drop (pos + 1))
              rw [← splits] at pieces
              rw [pieces, List.filter_cons, ← inductionHypothesis _ ahead]
              cases pos with
              | zero => simp
              | succ pos => simp [done]
  rw [split, if_neg (List.cons_ne_nil _ _)]
  exact loop _ text (Nat.lt_succ_self _)

/-- The fields have every byte but the separator. -/
theorem mem_field_iff {byte : UInt8} :
    (∃ field ∈ text.splitOn sep, byte ∈ field) ↔ byte ∈ text ∧ byte ≠ sep := by
  induction text with
  | nil => simp
  | cons next rest inductionHypothesis =>
      rw [List.splitOn_cons_eq_if_modifyHead, List.mem_cons]
      by_cases here : next = sep
      · rw [if_pos (beq_iff_eq.mpr here), List.exists_mem_cons_iff, inductionHypothesis, here]
        constructor
        · rintro (impossible | ⟨later, different⟩)
          · cases impossible
          · exact ⟨Or.inr later, different⟩
        · rintro ⟨same | later, different⟩
          · exact absurd same different
          · exact Or.inr ⟨later, different⟩
      · rw [if_neg (fun same => here (beq_iff_eq.mp same))]
        cases fields : rest.splitOn sep with
        | nil => exact absurd fields (List.splitOn_ne_nil sep rest)
        | cons first others =>
            rw [fields, List.exists_mem_cons_iff] at inductionHypothesis
            rw [List.modifyHead_cons, List.exists_mem_cons_iff, List.mem_cons, or_assoc,
              inductionHypothesis]
            constructor
            · rintro (rfl | ⟨later, different⟩)
              · exact ⟨Or.inl rfl, here⟩
              · exact ⟨Or.inr later, different⟩
            · rintro ⟨same | later, different⟩
              · exact Or.inl same
              · exact Or.inr ⟨later, different⟩

/-- No piece has the separator. -/
theorem split_absent (text : Bytes) (sep : UInt8) : ∀ piece ∈ split text [sep], sep ∉ piece := by
  intro piece member inside
  rw [split_singleton] at member
  exact (mem_field_iff.mp ⟨piece, List.mem_of_mem_filter member, inside⟩).2 rfl

/-- Separators at the front are passed by. -/
theorem split_replicate_append (count : Nat) :
    split (List.replicate count sep ++ text) [sep] = split text [sep] := by
  rw [split_singleton, split_singleton]
  induction count with
  | zero => rw [List.replicate_zero, List.nil_append]
  | succ count inductionHypothesis =>
      have fields := List.splitOn_append_cons_self_of_not_mem (List.not_mem_nil (a := sep))
        (List.replicate count sep ++ text)
      rw [List.nil_append] at fields
      rw [List.replicate_succ, List.cons_append, fields,
        List.filter_cons_of_neg (by simp), inductionHypothesis]

/-- A word is the first piece when a separator or nothing follows it. -/
theorem split_word_append {word : Bytes} (nonempty : word ≠ []) (absent : sep ∉ word)
    {count : Nat} (ends : 0 < count ∨ text = []) :
    split (word ++ (List.replicate count sep ++ text)) [sep] = word :: split text [sep] := by
  have kept : ∀ rest : List Bytes, (word :: rest).filter (fun piece => decide (piece ≠ [])) =
      word :: rest.filter fun piece => decide (piece ≠ []) :=
    fun rest => List.filter_cons_of_pos (decide_eq_true nonempty)
  cases count with
  | zero =>
      have nothing : text = [] := ends.resolve_left (Nat.lt_irrefl 0)
      rw [nothing, List.replicate_zero, List.append_nil, List.append_nil, split_singleton,
        List.splitOn_eq_singleton absent, kept]
      rfl
  | succ count =>
      have passed := @split_replicate_append sep text count
      rw [split_singleton] at passed
      rw [split_singleton, List.replicate_succ, List.cons_append,
        List.splitOn_append_cons_self_of_not_mem absent, kept, passed]

end Singleton

/-! ## Words between runs of the separator -/

/-- A run of `before` separators, and then every word with a run behind it. -/
def spread (sep : UInt8) (before : Nat) (words : List (Bytes × Nat)) : Bytes :=
  List.replicate before sep ++ words.flatMap fun word => word.1 ++ List.replicate word.2 sep

/-- The words are found again, however long the runs are. -/
theorem split_spread {sep : UInt8} (before : Nat) {words : List (Bytes × Nat)}
    (proper : ∀ word ∈ words, word.1 ≠ [] ∧ sep ∉ word.1)
    (apart : ∀ word ∈ words.dropLast, 0 < word.2) :
    split (spread sep before words) [sep] = words.map Prod.fst := by
  rw [spread, split_replicate_append]
  induction words with
  | nil => rfl
  | cons word rest inductionHypothesis =>
      rw [List.forall_mem_cons] at proper
      have ends : 0 < word.2 ∨
          (rest.flatMap fun word => word.1 ++ List.replicate word.2 sep) = [] := by
        cases rest with
        | nil => exact Or.inr rfl
        | cons next others => exact Or.inl (apart word List.mem_cons_self)
      have apartRest : ∀ word ∈ rest.dropLast, 0 < word.2 := by
        intro other member
        cases rest with
        | nil => cases member
        | cons next others => exact apart other (List.mem_cons_of_mem _ member)
      rw [List.flatMap_cons, List.append_assoc, split_word_append proper.1.1 proper.1.2 ends,
        inductionHypothesis proper.2 apartRest, List.map_cons]

/-- Pieces that each have a separator after them are found again. -/
theorem split_flatMap {pieces : List Bytes} {sep : UInt8} (absent : ∀ piece ∈ pieces, sep ∉ piece)
    (nonempty : ∀ piece ∈ pieces, piece ≠ []) :
    split (pieces.flatMap fun piece => piece ++ [sep]) [sep] = pieces := by
  have runs : spread sep 0 (pieces.map fun piece => (piece, 1)) =
      pieces.flatMap fun piece => piece ++ [sep] := by
    rw [spread, List.flatMap_map]
    rfl
  have found := @split_spread sep 0 (pieces.map fun piece => (piece, 1))
    (by
      rw [List.forall_mem_map]
      exact fun piece member => ⟨nonempty piece member, absent piece member⟩)
    (by
      intro word member
      rcases List.mem_map.mp (List.mem_of_mem_dropLast member) with ⟨piece, _, rfl⟩
      exact Nat.one_pos)
  rw [runs, List.map_map] at found
  exact found.trans (List.map_id pieces)

/-- `SplitHelper::split` returns, reads nothing past the end, and puts the
pieces behind what was there.  They are not empty and do not have the separator
in them; for a separator of one byte they are the fields that are not empty, so
words are found again between runs of it. -/
theorem splitInto_exact (str sep : Bytes) (nonempty : sep ≠ []) :
    (∀ result turns, str.length < turns →
      splitInto str sep turns result =
        .ok (result.length + (split str sep).length, result ++ split str sep)) ∧
    (∀ piece ∈ split str sep, piece ≠ [] ∧ ¬ sep <:+: piece) ∧
    ∀ byte, sep = [byte] →
      split str sep = (str.splitOn byte).filter (· ≠ []) ∧
      ∀ before words, (∀ word ∈ words, word.1 ≠ [] ∧ byte ∉ word.1) →
        (∀ word ∈ words.dropLast, 0 < word.2) → str = spread byte before words →
        split str sep = words.map Prod.fst := by
  refine ⟨?returns, ?pieces, ?fields⟩
  case returns => exact fun result turns enough => splitInto_eq nonempty enough result
  case pieces =>
    intro piece member
    refine ⟨split_nonempty str sep piece member, ?_⟩
    rw [split, if_neg nonempty] at member
    exact splitLoop_infix nonempty _ str piece member
  case fields =>
    rintro byte rfl
    refine ⟨split_singleton str byte, ?_⟩
    rintro before words proper apart rfl
    exact split_spread before proper apart

theorem splitInto_exact_dots :
    splitInto (ascii ".news..pop.") (ascii ".") 12 [ascii "held"] =
        .ok (3, [ascii "held", ascii "news", ascii "pop"]) ∧
      split (ascii ".news..pop.") (ascii ".") = [ascii "news", ascii "pop"] := by
  have general := splitInto_exact (ascii ".news..pop.") (ascii ".") (by decide)
  have words := (general.2.2 46 rfl).2 1 [(ascii "news", 2), (ascii "pop", 1)] (by decide)
    (by decide) (by decide)
  rw [general.1 [ascii "held"] 12 (by decide), words]
  exact ⟨rfl, rfl⟩

end ProtobufMq
