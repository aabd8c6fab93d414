import Mathlib.Algebra.BigOperators.Group.List.Basic
import Mathlib.Tactic.Ring

namespace ProtobufMq
namespace Foundation

/-!
# Texts with quoted literals

A literal begins at a quote and ends at the next quote that is not doubled; two
quotes in a row inside a literal stand for one.  What is read outside the
literals is plain.  The quotes of a text that can be read are those around its
literals and two for each quote inside one, so a text that is put together by
writing the values between quotes as they are has too few of them as soon as a
value has one itself.
-/

variable {α : Type*}

/-- What is read from a text: a plain item or a whole literal. -/
inductive Token (α : Type*) where
  | plain (item : α)
  | literal (content : List α)
  deriving DecidableEq, Repr

/-- Where a reader is.  After a quote inside a literal it depends on the next
item whether the literal is over. -/
inductive Place (α : Type*) where
  | outside
  | inside (content : List α)
  | closing (content : List α)

/-- What has been read of the literal that is not over yet. -/
def Place.content : Place α → List α
  | .outside => []
  | .inside content => content
  | .closing content => content

/-- The literals among what is read. -/
def literals (tokens : List (Token α)) : List (List α) :=
  tokens.filterMap fun
    | .plain _ => none
    | .literal content => some content

@[simp] theorem literals_nil : literals ([] : List (Token α)) = [] := rfl

@[simp] theorem literals_plain (item : α) (tokens : List (Token α)) :
    literals (.plain item :: tokens) = literals tokens := rfl

@[simp] theorem literals_literal (content : List α) (tokens : List (Token α)) :
    literals (.literal content :: tokens) = content :: literals tokens := rfl

@[simp] theorem literals_append (first second : List (Token α)) :
    literals (first ++ second) = literals first ++ literals second :=
  List.filterMap_append

@[simp] theorem literals_map_plain (items : List α) : literals (items.map Token.plain) = [] := by
  induction items with
  | nil => rfl
  | cons item rest inductionHypothesis => exact inductionHypothesis

section Reading

variable [DecidableEq α] (quote : α)

/-- Read one item: what is complete then, and where the reader is. -/
def turn : Place α → α → List (Token α) × Place α
  | .outside, item =>
      if item = quote then ([], .inside []) else ([.plain item], .outside)
  | .inside content, item =>
      if item = quote then ([], .closing content) else ([], .inside (content ++ [item]))
  | .closing content, item =>
      if item = quote then ([], .inside (content ++ [quote]))
      else ([.literal content, .plain item], .outside)

/-- The end of the text.  A literal that is not closed cannot be read. -/
def finish : Place α → Option (List (Token α))
  | .outside => some []
  | .inside _ => none
  | .closing content => some [.literal content]

/-- Read a text from a place on. -/
def scanFrom : Place α → List α → Option (List (Token α))
  | place, [] => finish place
  | place, item :: rest =>
      (scanFrom (turn quote place item).2 rest).map ((turn quote place item).1 ++ ·)

/-- Read a text. -/
def scan (text : List α) : Option (List (Token α)) :=
  scanFrom quote .outside text

/-- The text is one statement, closed by the only `stop` outside its literals,
and has these literals. -/
def ReadsAs (stop : α) (text : List α) (values : List (List α)) : Prop :=
  ∃ body, scan quote text = some (body ++ [.plain stop]) ∧ .plain stop ∉ body ∧
    literals body = values

/-- The quotes of the literals as they are written. -/
def quotesOf (values : List (List α)) : Nat :=
  (values.map fun value => 2 + 2 * value.count quote).sum

/-- The quotes that a reader has passed since the last complete token. -/
def Place.quotes : Place α → Nat
  | .outside => 0
  | .inside content => 1 + 2 * content.count quote
  | .closing content => 2 + 2 * content.count quote

variable {quote}

/-- A quote that is passed is accounted for. -/
theorem quotes_turn (place : Place α) (item : α) :
    [item].count quote + place.quotes quote =
      quotesOf quote (literals (turn quote place item).1) +
        (turn quote place item).2.quotes quote := by
  by_cases isQuote : item = quote
  · subst isQuote
    cases place with
    | outside => simp [turn, quotesOf, Place.quotes]
    | inside content =>
        simp [turn, quotesOf, Place.quotes]
        omega
    | closing content =>
        simp [turn, quotesOf, Place.quotes]
        omega
  · cases place with
    | outside => simp [turn, isQuote, quotesOf, Place.quotes]
    | inside content => simp [turn, isQuote, quotesOf, Place.quotes]
    | closing content => simp [turn, isQuote, quotesOf, Place.quotes]

/-- Every quote of a text belongs to a literal. -/
theorem count_of_scanFrom {place : Place α} {text : List α} {tokens : List (Token α)}
    (read : scanFrom quote place text = some tokens) :
    text.count quote + place.quotes quote = quotesOf quote (literals tokens) := by
  induction text generalizing place tokens with
  | nil =>
      cases place with
      | outside =>
          cases read
          rfl
      | inside content => cases read
      | closing content =>
          cases read
          simp [quotesOf, Place.quotes]
  | cons item rest inductionHypothesis =>
      rcases Option.map_eq_some_iff.mp read with ⟨later, readLater, rfl⟩
      have counted := inductionHypothesis readLater
      have passed := @quotes_turn _ _ quote place item
      rw [← List.singleton_append, List.count_append, literals_append, quotesOf, List.map_append,
        List.sum_append]
      simp only [quotesOf] at counted passed
      omega

/-- What a reader keeps it has seen. -/
theorem mem_turn {place : Place α} {item other : α}
    (member : other ∈ (turn quote place item).2.content ∨
      ∃ content ∈ literals (turn quote place item).1, other ∈ content) :
    other = item ∨ other ∈ place.content := by
  by_cases isQuote : item = quote
  · subst isQuote
    cases place with
    | outside => simp [turn, Place.content] at member
    | inside content =>
        right
        simpa [turn, Place.content] using member
    | closing content => simpa [turn, Place.content, or_comm] using member
  · cases place with
    | outside => simp [turn, isQuote, Place.content] at member
    | inside content => simpa [turn, isQuote, Place.content, or_comm] using member
    | closing content =>
        right
        simpa [turn, isQuote, Place.content] using member

/-- Whatever is in a literal is in the text. -/
theorem mem_of_scanFrom {place : Place α} {text : List α} {tokens : List (Token α)}
    (read : scanFrom quote place text = some tokens) {content : List α}
    (listed : content ∈ literals tokens) {other : α} (member : other ∈ content) :
    other ∈ text ∨ other ∈ place.content := by
  induction text generalizing place tokens with
  | nil =>
      cases place with
      | outside =>
          cases read
          cases listed
      | inside content => cases read
      | closing before =>
          cases read
          rw [literals_literal, literals_nil, List.mem_singleton] at listed
          exact Or.inr (listed ▸ member)
  | cons item rest inductionHypothesis =>
      rcases Option.map_eq_some_iff.mp read with ⟨later, readLater, rfl⟩
      rw [List.mem_cons, or_assoc]
      rcases List.mem_append.mp (literals_append .. ▸ listed) with now | afterwards
      · rcases mem_turn (Or.inr ⟨content, now, member⟩) with same | before
        · exact Or.inl same
        · exact Or.inr (Or.inr before)
      · rcases inductionHypothesis readLater afterwards with inRest | kept
        · exact Or.inr (Or.inl inRest)
        · rcases mem_turn (Or.inl kept) with same | before
          · exact Or.inl same
          · exact Or.inr (Or.inr before)

end Reading

/-! ## Values written between quotes as they are -/

/-- The text of a statement: before each value some plain text, after the last
one `tail`, and at the end `stop`. -/
def spliced (quote stop : α) (fields : List (List α × List α)) (tail : List α) : List α :=
  fields.flatMap (fun field => field.1 ++ quote :: field.2 ++ [quote]) ++ tail ++ [stop]

/-- The plain text of a statement is free of quotes and stops, and there is some
between any two values. -/
structure WellSpliced (quote stop : α) (fields : List (List α × List α)) (tail : List α) :
    Prop where
  stop_ne : stop ≠ quote
  before : ∀ field ∈ fields, field.1 ≠ [] ∧ quote ∉ field.1 ∧ stop ∉ field.1
  after : quote ∉ tail ∧ stop ∉ tail

section Splicing

variable {quote stop : α} {fields : List (List α × List α)} {tail : List α}

/-- What is read from a statement. -/
def tokensOf (fields : List (List α × List α)) (tail : List α) (stop : α) : List (Token α) :=
  fields.flatMap (fun field => field.1.map .plain ++ [.literal field.2]) ++
    tail.map .plain ++ [.plain stop]

theorem head?_spliced (well : WellSpliced quote stop fields tail) :
    (spliced quote stop fields tail).head? ≠ some quote := by
  intro same
  have first : quote ∈ (spliced quote stop fields tail).head? := same
  cases fields with
  | nil =>
      cases tail with
      | nil => exact well.stop_ne (Option.some.inj same)
      | cons item rest => exact well.after.1 (Option.some.inj same ▸ List.mem_cons_self)
  | cons field rest =>
      have before := well.before field List.mem_cons_self
      cases plain : field.1 with
      | nil => exact before.1 plain
      | cons item others =>
          rw [spliced, List.flatMap_cons, plain] at same
          rw [plain] at before
          exact before.2.1 (Option.some.inj same ▸ List.mem_cons_self)

theorem literals_tokensOf : literals (tokensOf fields tail stop) = fields.map Prod.snd := by
  induction fields with
  | nil => simp [tokensOf]
  | cons field rest inductionHypothesis =>
      rw [List.map_cons, ← inductionHypothesis]
      simp [tokensOf]

variable [DecidableEq α]

theorem scanFrom_append_plain {plain : List α} (absent : quote ∉ plain) (rest : List α) :
    scanFrom quote .outside (plain ++ rest) =
      (scanFrom quote .outside rest).map (plain.map .plain ++ ·) := by
  induction plain with
  | nil => simp
  | cons item plain inductionHypothesis =>
      rw [List.mem_cons, not_or] at absent
      have read : turn quote .outside item = ([.plain item], .outside) :=
        if_neg (Ne.symm absent.1)
      rw [List.cons_append, scanFrom, read, inductionHypothesis absent.2, Option.map_map]
      rfl

theorem scanFrom_append_inside {value : List α} (absent : quote ∉ value)
    (content rest : List α) :
    scanFrom quote (.inside content) (value ++ rest) =
      scanFrom quote (.inside (content ++ value)) rest := by
  induction value generalizing content with
  | nil => rw [List.nil_append, List.append_nil]
  | cons item value inductionHypothesis =>
      rw [List.mem_cons, not_or] at absent
      have read : turn quote (.inside content) item = ([], .inside (content ++ [item])) :=
        if_neg (Ne.symm absent.1)
      rw [List.cons_append, scanFrom, read, inductionHypothesis absent.2, List.append_assoc,
        List.singleton_append]
      exact Option.map_id'

/-- A literal is over when the next item is not a quote. -/
theorem scanFrom_closing (content : List α) {rest : List α} (ends : rest.head? ≠ some quote) :
    scanFrom quote (.closing content) rest =
      (scanFrom quote .outside rest).map (.literal content :: ·) := by
  cases rest with
  | nil => rfl
  | cons item rest =>
      have different : item ≠ quote := fun same => ends (congrArg some same)
      have closed : turn quote (.closing content) item =
          ([.literal content, .plain item], .outside) := if_neg different
      have read : turn quote .outside item = ([.plain item], .outside) := if_neg different
      rw [scanFrom, scanFrom, closed, read, Option.map_map]
      rfl

/-- A value without quotes is read back as it was written. -/
theorem scanFrom_field {field : List α × List α} (plain : quote ∉ field.1)
    (clean : quote ∉ field.2) {rest : List α} (ends : rest.head? ≠ some quote) :
    scanFrom quote .outside (field.1 ++ quote :: field.2 ++ [quote] ++ rest) =
      (scanFrom quote .outside rest).map (field.1.map .plain ++ .literal field.2 :: ·) := by
  have opened : turn quote .outside quote = ([], .inside []) := if_pos rfl
  have closed : turn quote (.inside field.2) quote = ([], .closing field.2) := if_pos rfl
  rw [List.append_assoc, List.append_assoc, scanFrom_append_plain plain, List.cons_append,
    scanFrom, opened, scanFrom_append_inside clean, List.nil_append, List.singleton_append,
    scanFrom, closed, scanFrom_closing _ ends]
  simp only [Option.map_map]
  rfl

/-- Values without quotes are read back as they were written. -/
theorem scan_spliced (well : WellSpliced quote stop fields tail)
    (clean : ∀ field ∈ fields, quote ∉ field.2) :
    scan quote (spliced quote stop fields tail) = some (tokensOf fields tail stop) := by
  induction fields with
  | nil =>
      have absent : quote ∉ tail ++ [stop] := by
        rw [List.mem_append, List.mem_singleton, not_or]
        exact ⟨well.after.1, Ne.symm well.stop_ne⟩
      have read := scanFrom_append_plain absent []
      rw [List.append_nil] at read
      rw [scan, spliced, List.flatMap_nil, List.nil_append, read, scanFrom, finish,
        Option.map_some, List.append_nil, List.map_append]
      rfl
  | cons field rest inductionHypothesis =>
      have others : WellSpliced quote stop rest tail :=
        ⟨well.stop_ne, (List.forall_mem_cons.mp well.before).2, well.after⟩
      rw [List.forall_mem_cons] at clean
      have text : spliced quote stop (field :: rest) tail =
          field.1 ++ quote :: field.2 ++ [quote] ++ spliced quote stop rest tail := by
        simp only [spliced, List.flatMap_cons, List.append_assoc]
      have later := inductionHypothesis others clean.2
      rw [scan] at later
      rw [scan, text, scanFrom_field (well.before field List.mem_cons_self).2.1 clean.1
        (head?_spliced others), later, Option.map_some]
      simp only [tokensOf, List.flatMap_cons, List.append_assoc, List.cons_append,
        List.nil_append]

/-- Around each value there are two quotes. -/
theorem count_spliced (well : WellSpliced quote stop fields tail) :
    (spliced quote stop fields tail).count quote =
      ((fields.map Prod.snd).map fun value => 2 + value.count quote).sum := by
  induction fields with
  | nil =>
      rw [spliced, List.flatMap_nil, List.nil_append, List.count_append,
        List.count_eq_zero_of_not_mem well.after.1, List.count_singleton,
        if_neg (by simpa using well.stop_ne)]
      rfl
  | cons field rest inductionHypothesis =>
      have others : WellSpliced quote stop rest tail :=
        ⟨well.stop_ne, (List.forall_mem_cons.mp well.before).2, well.after⟩
      have text : spliced quote stop (field :: rest) tail =
          field.1 ++ quote :: field.2 ++ [quote] ++ spliced quote stop rest tail := by
        simp only [spliced, List.flatMap_cons, List.append_assoc]
      rw [text, List.count_append, inductionHypothesis others, List.count_append,
        List.count_append, List.count_cons_self, List.count_singleton_self,
        List.count_eq_zero_of_not_mem (well.before field List.mem_cons_self).2.1,
        List.map_cons, List.map_cons, List.sum_cons]
      omega

/-- A quote in a value counts once as it is and twice as it should be. -/
theorem sum_add_count (values : List (List α)) :
    (values.map fun value => 2 + value.count quote).sum + values.flatten.count quote =
      quotesOf quote values := by
  induction values with
  | nil => rfl
  | cons value rest inductionHypothesis =>
      rw [List.flatten_cons, List.count_append]
      simp only [quotesOf, List.map_cons, List.sum_cons] at inductionHypothesis ⊢
      omega

/-- A statement can only be read as its values are if they are free of quotes. -/
theorem clean_of_scan (well : WellSpliced quote stop fields tail) {tokens : List (Token α)}
    (read : scan quote (spliced quote stop fields tail) = some tokens)
    (same : literals tokens = fields.map Prod.snd) : ∀ field ∈ fields, quote ∉ field.2 := by
  have counted := count_of_scanFrom read
  rw [same, count_spliced well, Place.quotes] at counted
  rw [← sum_add_count (fields.map Prod.snd)] at counted
  have nothing : (fields.map Prod.snd).flatten.count quote = 0 := by omega
  intro field member inValue
  exact List.count_eq_zero.mp nothing
    (List.mem_flatten_of_mem (List.mem_map_of_mem member) inValue)

/-- A statement says what was meant exactly if no value has a quote. -/
theorem readsAs_spliced_iff (well : WellSpliced quote stop fields tail) :
    ReadsAs quote stop (spliced quote stop fields tail) (fields.map Prod.snd) ↔
      ∀ field ∈ fields, quote ∉ field.2 := by
  constructor
  · rintro ⟨body, read, _, same⟩
    apply clean_of_scan well read
    rw [literals_append, same, literals_plain, literals_nil, List.append_nil]
  · intro clean
    refine ⟨_, scan_spliced well clean, ?_, ?_⟩
    · rw [List.mem_append, not_or, List.mem_flatMap, List.mem_map]
      constructor
      · rintro ⟨field, member, inField⟩
        have plain : stop ∈ field.1 := by simpa using inField
        exact (well.before field member).2.2 plain
      · rintro ⟨item, member, same⟩
        exact well.after.2 (Token.plain.inj same ▸ member)
    · have all := @literals_tokensOf α stop fields tail
      rwa [tokensOf, literals_append, literals_plain, literals_nil, List.append_nil] at all

end Splicing

end Foundation
end ProtobufMq
