import ProtobufMq.Server.Topic

namespace ProtobufMq

open Foundation

/-!
# The language of the keys

`isLegalBindingKey` goes three times over a binding key: over its characters,
over its words, and over the neighbours among its words.  The dots are gone by
the time the words are looked at, so it does not matter how many of them stand
at the ends or between two words.
-/

namespace Router

/-- A letter. -/
def Letter (ch : UInt8) : Prop :=
  (97 ≤ ch ∧ ch ≤ 122) ∨ (65 ≤ ch ∧ ch ≤ 90)

/-- A digit. -/
def Digit (ch : UInt8) : Prop :=
  48 ≤ ch ∧ ch ≤ 57

/-- Two words of which neither is a `#` beside a `#` or a `*`. -/
def Apart (first second : Bytes) : Prop :=
  (first = hash → second ≠ hash ∧ second ≠ star) ∧ (second = hash → first ≠ hash ∧ first ≠ star)

/-- The binding keys that a topic exchange can match. -/
structure BindingGrammar (key : Bytes) : Prop where
  /-- A key has letters, digits, `.`, `_`, `*` and `#`. -/
  characters : ∀ ch ∈ key, Letter ch ∨ Digit ch ∨ ch = 46 ∨ ch = 95 ∨ ch = 42 ∨ ch = 35
  /-- A `*` or a `#` is a word of its own. -/
  alone : ∀ word ∈ nonEmptyWords key, (42 ∈ word → word = star) ∧ (35 ∈ word → word = hash)
  /-- No `#` is next to a `#` or a `*`. -/
  apart : (nonEmptyWords key).IsChain Apart

/-! ## The three passes -/

theorem isPlain_iff (ch : UInt8) :
    isPlain ch = true ↔ Letter ch ∨ Digit ch ∨ ch = 46 ∨ ch = 95 := by
  simp [isPlain, Letter, Digit, or_assoc]

theorem find_singleton_isSome (byte : UInt8) (text : Bytes) :
    (find [byte] text).isSome = true ↔ byte ∈ text := by
  rw [Option.isSome_iff_ne_none, Ne, find_eq_none_iff, not_not, List.singleton_infix_iff]

/-- A word that is not too long for the wildcard in it is the wildcard. -/
theorem alone_iff {word : Bytes} (nonempty : word ≠ []) (wildcard : UInt8) :
    ¬ (1 < word.length ∧ wildcard ∈ word) ↔ (wildcard ∈ word → word = [wildcard]) := by
  constructor
  · intro short member
    match word, nonempty, member with
    | [byte], _, member => rw [List.mem_singleton.mp member]
    | byte :: next :: rest, _, member => exact absurd ⟨by simp, member⟩ short
  · rintro same ⟨long, member⟩
    rw [same member] at long
    exact absurd long (by simp)

theorem spaced_iff (keyWords : List Bytes) : spaced keyWords = true ↔ keyWords.IsChain Apart := by
  induction keyWords with
  | nil => simp [spaced]
  | cons previous later inductionHypothesis =>
      cases later with
      | nil => simp [spaced]
      | cons word rest =>
          rw [spaced, Bool.and_eq_true, inductionHypothesis, List.isChain_cons_cons]
          apply and_congr_left'
          simp only [Apart, Bool.and_eq_true, Bool.not_eq_true', Bool.and_eq_false_imp,
            decide_eq_true_eq, decide_eq_false_iff_not]
          tauto

/-- The second pass lets a wildcard through exactly as a word of its own. -/
theorem wordCheck_iff {word : Bytes} (nonempty : word ≠ []) :
    (!(1 < word.length && ((find star word).isSome || (find hash word).isSome))) = true ↔
      (42 ∈ word → word = star) ∧ (35 ∈ word → word = hash) := by
  have foundStar : (find star word).isSome = true ↔ 42 ∈ word := find_singleton_isSome 42 word
  have foundHash : (find hash word).isSome = true ↔ 35 ∈ word := find_singleton_isSome 35 word
  have aloneStar := alone_iff nonempty 42
  have aloneHash := alone_iff nonempty 35
  rw [Bool.not_eq_true', ← Bool.not_eq_true, Bool.and_eq_true, Bool.or_eq_true, foundStar,
    foundHash, decide_eq_true_eq, and_or_left, not_or, aloneStar, aloneHash]
  rfl

/-- The three passes together. -/
theorem isLegalBindingKey_iff (key : Bytes) :
    isLegalBindingKey key = true ↔ BindingGrammar key := by
  have charactersPass : key.all (fun ch => isPlain ch || ch = 42 || ch = 35) = true ↔
      ∀ ch ∈ key, Letter ch ∨ Digit ch ∨ ch = 46 ∨ ch = 95 ∨ ch = 42 ∨ ch = 35 := by
    simp only [List.all_eq_true, Bool.or_eq_true, isPlain_iff, decide_eq_true_eq, or_assoc]
  have wordsPass : (words key).all (fun word =>
      !(1 < word.length && ((find star word).isSome || (find hash word).isSome))) = true ↔
      ∀ word ∈ nonEmptyWords key, (42 ∈ word → word = star) ∧ (35 ∈ word → word = hash) := by
    rw [List.all_eq_true, words_eq]
    apply forall₂_congr
    intro word member
    exact wordCheck_iff (of_decide_eq_true (List.mem_filter.mp member).2)
  rw [isLegalBindingKey, Bool.and_eq_true, Bool.and_eq_true, charactersPass, wordsPass,
    spaced_iff, words_eq]
  constructor
  · rintro ⟨⟨characters, alone⟩, apart⟩
    exact ⟨characters, alone, apart⟩
  · intro grammar
    exact ⟨⟨grammar.characters, grammar.alone⟩, grammar.apart⟩

/-! ## The dots -/

/-- Every character of a key but the dots is in one of its words. -/
theorem mem_words_iff (key : Bytes) (ch : UInt8) :
    (∃ word ∈ nonEmptyWords key, ch ∈ word) ↔ ch ∈ key ∧ ch ≠ 46 := by
  rw [← mem_field_iff]
  constructor
  · rintro ⟨word, member, inside⟩
    exact ⟨word, List.mem_of_mem_filter member, inside⟩
  · rintro ⟨field, member, inside⟩
    have nonempty : decide (field ≠ []) = true := decide_eq_true (List.ne_nil_of_mem inside)
    exact ⟨field, List.mem_filter.mpr ⟨member, nonempty⟩, inside⟩

/-- How many dots stand at the ends of a key and between its words does not
matter to the checker. -/
theorem isLegalBindingKey_of_same_words {first second : Bytes}
    (same : nonEmptyWords first = nonEmptyWords second) :
    isLegalBindingKey first = isLegalBindingKey second := by
  have onward : ∀ {key other : Bytes}, nonEmptyWords key = nonEmptyWords other →
      BindingGrammar key → BindingGrammar other := by
    intro key other same grammar
    refine ⟨fun ch member => ?_, same ▸ grammar.alone, same ▸ grammar.apart⟩
    by_cases dot : ch = 46
    · exact Or.inr (Or.inr (Or.inl dot))
    · have inWord := (mem_words_iff other ch).mpr ⟨member, dot⟩
      rw [← same, mem_words_iff] at inWord
      exact grammar.characters ch inWord.1
  rw [Bool.eq_iff_iff, isLegalBindingKey_iff, isLegalBindingKey_iff]
  exact ⟨onward same, onward same.symm⟩

/-- A key without wildcards has the grammar if its characters are right. -/
theorem grammar_of_plain {key : Bytes} (plain : ∀ ch ∈ key, isPlain ch = true) :
    BindingGrammar key := by
  have plainWord : ∀ word ∈ nonEmptyWords key, ∀ ch ∈ word, isPlain ch = true :=
    fun word member ch inside => plain ch ((mem_words_iff key ch).mp ⟨word, member, inside⟩).1
  have noStar : ∀ word ∈ nonEmptyWords key, 42 ∉ word := fun word member inside =>
    absurd (plainWord word member 42 inside) (by decide)
  have noHash : ∀ word ∈ nonEmptyWords key, 35 ∉ word := fun word member inside =>
    absurd (plainWord word member 35 inside) (by decide)
  have notHash : ∀ word ∈ nonEmptyWords key, word ≠ hash := by
    rintro word member rfl
    exact noHash _ member List.mem_cons_self
  refine ⟨fun ch member => ?_, fun word member => ?_, ?_⟩
  · rcases (isPlain_iff ch).mp (plain ch member) with letter | digit | dot | underscore
    · exact Or.inl letter
    · exact Or.inr (Or.inl digit)
    · exact Or.inr (Or.inr (Or.inl dot))
    · exact Or.inr (Or.inr (Or.inr (Or.inl underscore)))
  · exact ⟨fun inside => absurd inside (noStar word member),
      fun inside => absurd inside (noHash word member)⟩
  · apply List.Pairwise.isChain
    apply List.pairwise_of_forall_mem_list
    intro first firstMember second secondMember
    exact ⟨fun isHash => absurd isHash (notHash first firstMember),
      fun isHash => absurd isHash (notHash second secondMember)⟩

/-- The checker of binding keys accepts its grammar and nothing else, and the
checker of routing keys the part of it without wildcards. -/
theorem legalKeys_iff (key : Bytes) :
    (isLegalBindingKey key = true ↔ BindingGrammar key) ∧
    (isLegalRoutingKey key = true ↔ isLegalBindingKey key = true ∧ 42 ∉ key ∧ 35 ∉ key) := by
  refine ⟨isLegalBindingKey_iff key, ?_⟩
  have routing : isLegalRoutingKey key = true ↔ ∀ ch ∈ key, isPlain ch = true := List.all_eq_true
  rw [isLegalBindingKey_iff, routing]
  constructor
  · intro plain
    refine ⟨grammar_of_plain plain, ?_, ?_⟩
    · exact fun member => absurd (plain 42 member) (by decide)
    · exact fun member => absurd (plain 35 member) (by decide)
  · rintro ⟨grammar, noStar, noHash⟩ ch member
    rw [isPlain_iff]
    rcases grammar.characters ch member with letter | digit | dot | underscore | isStar | isHash
    · exact Or.inl letter
    · exact Or.inr (Or.inl digit)
    · exact Or.inr (Or.inr (Or.inl dot))
    · exact Or.inr (Or.inr (Or.inr underscore))
    · exact absurd (isStar ▸ member) noStar
    · exact absurd (isHash ▸ member) noHash

example : isLegalBindingKey (ascii ".#...*") = false := by decide +kernel

end Router

end ProtobufMq
