import Mathlib.Data.List.TakeWhile
import ProtobufMq.Server.MessageMapper

namespace ProtobufMq

open Foundation

/-!
# Loading whatever is in the data file

The loop takes each length from the file.  A length beyond the end is noticed,
since reading fails; a length that no string can have ends the loop by an
exception before anything is read.  What the parser says about a body is not
looked at, so a body that cannot be parsed counts like any other, with what the
parser left of it.
-/

namespace MessageMapper

section Loading

variable {mapper : MessageMapper} {file : Bytes} {world : World}

/-- The header at the front gives a length that no string can have. -/
def HeaderTooLong (tail : Bytes) : Prop :=
  sizeOfSize ≤ tail.length ∧ maxSize < leNat (tail.take sizeOfSize)

instance (tail : Bytes) : Decidable (HeaderTooLong tail) :=
  inferInstanceAs (Decidable (_ ∧ _))

/-- The loop reads such a length somewhere. -/
def ReadsTooLong (content : Bytes) : Prop :=
  (∃ body ∈ (cut sizeOfSize content).1, maxSize < body.length) ∨
    HeaderTooLong (cut sizeOfSize content).2

instance (content : Bytes) : Decidable (ReadsTooLong content) :=
  inferInstanceAs (Decidable (_ ∨ _))

/-- A turn of the loop reads the header from what is ahead. -/
theorem read_header {front tail : Bytes} (stored : world.disk file = some (front ++ tail)) :
    (world.disk file).bind (fun content => readAt content front.length sizeOfSize) =
      if sizeOfSize ≤ tail.length then some (tail.take sizeOfSize) else none := by
  have read := readAt_append front tail 0 sizeOfSize
  rw [Nat.add_zero, Nat.zero_add, List.drop_zero] at read
  rw [stored, Option.bind_some]
  exact read

/-- A turn that begins inside the file. -/
theorem inside_of_nonempty {front tail : Bytes}
    (stored : world.disk file = some (front ++ tail)) (nonempty : tail ≠ []) :
    front.length < ((world.disk file).getD []).length := by
  have positive := List.length_pos_iff.mpr nonempty
  rw [stored, Option.getD_some, List.length_append]
  omega

variable [Protobuf]

/-- A header that is too long ends the loop by an exception. -/
theorem loadLoop_tooLong {front tail : Bytes}
    (stored : world.disk file = some (front ++ tail)) (long : HeaderTooLong tail) (fuel : Nat)
    (result : List Message) :
    loadLoop file (fuel + 1) front.length result world = .error .lengthError world := by
  have nonempty : tail ≠ [] := by
    intro nothing
    have size := long.1
    rw [nothing] at size
    exact absurd size (by decide)
  rw [loadLoop, bind_ok (size_run world)]
  simp only [inside_of_nonempty stored nonempty, if_true]
  rw [bind_ok (read_run world _ sizeOfSize), read_header stored, if_pos long.1]
  simp only [long.2, if_true]
  rfl

/-- What is left when no whole record follows is reported unless it is nothing. -/
theorem loadLoop_rest {front rest : Bytes} (stored : world.disk file = some (front ++ rest))
    (incomplete : Incomplete sizeOfSize rest) (short : ¬ HeaderTooLong rest) (fuel : Nat)
    (result : List Message) :
    loadLoop file (fuel + 1) front.length result world =
      .ok (decide (rest = []), result) world := by
  by_cases nothing : rest = []
  · have atEnd : ¬ front.length < ((world.disk file).getD []).length := by
      rw [stored, nothing, List.append_nil, Option.getD_some]
      exact Nat.lt_irrefl _
    rw [loadLoop, bind_ok (size_run world)]
    simp only [atEnd, if_false, nothing, decide_true]
    rfl
  · rw [loadLoop, bind_ok (size_run world)]
    simp only [inside_of_nonempty stored nothing, if_true]
    rw [bind_ok (read_run world _ sizeOfSize), read_header stored]
    by_cases headed : sizeOfSize ≤ rest.length
    · have fits : ¬ maxSize < leNat (rest.take sizeOfSize) := fun long => short ⟨headed, long⟩
      have cutShort : ¬ sizeOfSize + leNat (rest.take sizeOfSize) ≤ rest.length := by
        rcases incomplete with noHeader | noBody
        · exact absurd headed (Nat.not_le.mpr noHeader)
        · exact Nat.not_le.mpr noBody
      rw [if_pos headed]
      simp only [fits, if_false]
      rw [bind_ok (read_run world _ _), stored, Option.bind_some, readAt_append, if_neg cutShort]
      simp only [nothing, decide_false]
      rfl
    · rw [if_neg headed]
      simp only [nothing, decide_false]
      rfl

omit [Protobuf] in
/-- Of the bodies that are too long there is a first. -/
theorem first_tooLong {bodies : List Bytes} {body : Bytes} (member : body ∈ bodies)
    (long : maxSize < body.length) : ∃ good big later, bodies = good ++ big :: later ∧
      (∀ body ∈ good, body.length ≤ maxSize) ∧ maxSize < big.length := by
  induction bodies with
  | nil => cases member
  | cons first rest inductionHypothesis =>
      by_cases firstLong : maxSize < first.length
      · refine ⟨[], first, rest, rfl, ?_, firstLong⟩
        intro body impossible
        cases impossible
      · have inRest : body ∈ rest := by
          rcases List.mem_cons.mp member with same | later
          · exact absurd (same ▸ long) firstLong
          · exact later
        rcases inductionHypothesis inRest with ⟨good, big, later, split, goodFit, bigLong⟩
        refine ⟨first :: good, big, later, by rw [split, List.cons_append], ?_, bigLong⟩
        exact List.forall_mem_cons.mpr ⟨Nat.le_of_not_lt firstLong, goodFit⟩

omit [Protobuf] in
/-- A record of a body that is too long begins with such a header. -/
theorem headerTooLong_frame {big : Bytes} (long : maxSize < big.length)
    (fits : big.length < 256 ^ sizeOfSize) (later : List Bytes) (rest : Bytes) :
    HeaderTooLong (frames sizeOfSize (big :: later) ++ rest) := by
  have text : frames sizeOfSize (big :: later) ++ rest =
      leBytes sizeOfSize big.length ++ (big ++ frames sizeOfSize later ++ rest) := by
    rw [frames_cons, List.append_assoc]
  have header : (leBytes sizeOfSize big.length ++
      (big ++ frames sizeOfSize later ++ rest)).take sizeOfSize = leBytes sizeOfSize big.length :=
    List.take_left' (length_leBytes ..)
  rw [HeaderTooLong, text, header, leNat_leBytes_of_lt fits, List.length_append, length_leBytes]
  exact ⟨Nat.le_add_right .., long⟩

/-- The outcome of loading, for every content of the file. -/
theorem load_content {content : Bytes} (stored : world.disk mapper.datafile = some content) :
    (ReadsTooLong content → mapper.load world = .error .lengthError world) ∧
    (¬ ReadsTooLong content → mapper.load world =
      .ok (decide ((cut sizeOfSize content).2 = []),
        (countedPayloads (cut sizeOfSize content).1).map fun payload => { payload := payload })
        world) := by
  rcases cut_spec (by decide : 0 < sizeOfSize) content with ⟨text, incomplete, fit, few⟩
  -- whatever the loop has passed, there are turns left
  have passes : ∀ (good : List Bytes) (tail : Bytes), (∀ body ∈ good, body.length ≤ maxSize) →
      content = frames sizeOfSize good ++ tail → good.length ≤ content.length → ∃ fuel,
      world.disk mapper.datafile = some (frames sizeOfSize good ++ tail) ∧
      mapper.load world = loadLoop mapper.datafile (fuel + 1) (frames sizeOfSize good).length
        ((countedPayloads good).map fun payload => { payload := payload }) world := by
    intro good tail goodFit split enough
    have storedSplit : world.disk mapper.datafile =
        some ([] ++ frames sizeOfSize good ++ tail) := by
      rw [stored, List.nil_append, ← split]
    have turns : content.length + 1 = good.length + (content.length - good.length + 1) := by
      omega
    refine ⟨content.length - good.length, by rwa [List.nil_append] at storedSplit, ?_⟩
    rw [load, bind_ok (size_run world), stored, Option.getD_some, turns]
    exact loadLoop_frames mapper.datafile [] good tail goodFit storedSplit _ []
  constructor
  · intro long
    by_cases allFit : ∀ body ∈ (cut sizeOfSize content).1, body.length ≤ maxSize
    · have restLong : HeaderTooLong (cut sizeOfSize content).2 := by
        rcases long with ⟨body, member, bodyLong⟩ | restLong
        · exact absurd (allFit body member) (Nat.not_le.mpr bodyLong)
        · exact restLong
      rcases passes _ _ allFit text few with ⟨fuel, storedSplit, loop⟩
      rw [loop, loadLoop_tooLong storedSplit restLong]
    · push Not at allFit
      rcases allFit with ⟨body, member, bodyLong⟩
      rcases first_tooLong member bodyLong with ⟨good, big, later, split, goodFit, bigLong⟩
      have bigMember : big ∈ (cut sizeOfSize content).1 := by
        rw [split]
        exact List.mem_append_right _ List.mem_cons_self
      have textSplit : content = frames sizeOfSize good ++
          (frames sizeOfSize (big :: later) ++ (cut sizeOfSize content).2) := by
        rw [← List.append_assoc, ← frames_append, ← split]
        exact text
      have enough : good.length ≤ content.length := by
        rw [split, List.length_append] at few
        omega
      rcases passes good _ goodFit textSplit enough with ⟨fuel, storedSplit, loop⟩
      rw [loop, loadLoop_tooLong storedSplit
        (headerTooLong_frame bigLong (fit big bigMember) later _)]
  · intro short
    have allFit : ∀ body ∈ (cut sizeOfSize content).1, body.length ≤ maxSize := by
      intro body member
      exact Nat.le_of_not_lt fun long => short (Or.inl ⟨body, member, long⟩)
    rcases passes _ _ allFit text few with ⟨fuel, storedSplit, loop⟩
    rw [loop, loadLoop_rest storedSplit incomplete fun long => short (Or.inr long)]

/-! ## When that is exact -/

/-- The parser accepts a body. -/
def Parses (body : Bytes) : Prop :=
  (Protobuf.parseFromString body).1 = true

instance (body : Bytes) : Decidable (Parses body) :=
  inferInstanceAs (Decidable (_ = true))

/-- The content is a sequence of complete records whose bodies parse. -/
def WellFormed (content : Bytes) : Prop :=
  ∃ bodies, content = frames sizeOfSize bodies ∧
    ∀ body ∈ bodies, body.length < 256 ^ sizeOfSize ∧ Parses body

/-- The bodies of the well-formed records before the first malformed one. -/
def intactBodies (content : Bytes) : List Bytes :=
  (cut sizeOfSize content).1.takeWhile fun body => Parses body

/-- Loading ends without an exception, reports whether the content is
well-formed, and gives the messages of the records before the first malformed
one that are not struck out. -/
def LoadsExactly (mapper : MessageMapper) (world : World) (content : Bytes) : Prop :=
  ∃ complete, mapper.load world =
    .ok (complete, (countedPayloads (intactBodies content)).map fun payload =>
      { payload := payload }) world ∧
    (complete = true ↔ WellFormed content)

theorem wellFormed_iff (content : Bytes) : WellFormed content ↔
    (cut sizeOfSize content).2 = [] ∧ ∀ body ∈ (cut sizeOfSize content).1, Parses body := by
  constructor
  · rintro ⟨bodies, rfl, all⟩
    rw [cut_frames (by decide) fun body member => (all body member).1]
    exact ⟨rfl, fun body member => (all body member).2⟩
  · rintro ⟨nothing, parse⟩
    rcases cut_spec (by decide : 0 < sizeOfSize) content with ⟨text, _, fit, _⟩
    rw [nothing, List.append_nil] at text
    exact ⟨_, text, fun body member => ⟨fit body member, parse body member⟩⟩

/-- The messages counted up to the first body that does not parse are all that
are counted exactly if nothing is counted from there on. -/
theorem countedPayloads_takeWhile (bodies : List Bytes) :
    countedPayloads bodies = countedPayloads (bodies.takeWhile fun body => Parses body) ↔
      ∀ body ∈ bodies.dropWhile fun body => Parses body,
        ¬ (Protobuf.parseFromString body).2.Live := by
  have split : countedPayloads bodies =
      countedPayloads (bodies.takeWhile fun body => Parses body) ++
        countedPayloads (bodies.dropWhile fun body => Parses body) := by
    conv_lhs => rw [← List.takeWhile_append_dropWhile (p := fun body => decide (Parses body))
      (l := bodies)]
    rw [countedPayloads, List.map_append, List.filter_append]
    rfl
  rw [split, List.append_right_eq_self, countedPayloads, List.filter_eq_nil_iff, List.forall_mem_map]
  simp only [decide_eq_true_eq]

omit [Protobuf] in
/-- Messages that were just loaded differ in their payloads. -/
theorem toMessage_injective :
    Function.Injective fun payload : Payload => ({ payload := payload } : Message) := by
  intro first second same
  exact congrArg Message.payload same

/-- Loading is exact if no length is too long for a string, and either every
complete body parses or the file ends with an incomplete record and nothing
from the first body on that does not parse is counted; and only then. -/
theorem load_exactly_iff {content : Bytes}
    (stored : world.disk mapper.datafile = some content) :
    LoadsExactly mapper world content ↔
      ¬ ReadsTooLong content ∧
      ((∀ body ∈ (cut sizeOfSize content).1, Parses body) ∨
        ((cut sizeOfSize content).2 ≠ [] ∧
          ∀ body ∈ (cut sizeOfSize content).1.dropWhile fun body => Parses body,
            ¬ (Protobuf.parseFromString body).2.Live)) := by
  rcases load_content stored with ⟨throws, returns⟩
  constructor
  · rintro ⟨complete, done, reports⟩
    have short : ¬ ReadsTooLong content := by
      intro long
      cases (throws long).symm.trans done
    refine ⟨short, ?_⟩
    have same := (returns short).symm.trans done
    injection same with result
    injection result with complete_eq messages
    have counted := List.map_injective_iff.mpr toMessage_injective messages
    rw [← complete_eq, decide_eq_true_eq, wellFormed_iff] at reports
    by_cases nothing : (cut sizeOfSize content).2 = []
    · exact Or.inl (reports.mp nothing).2
    · exact Or.inr ⟨nothing, (countedPayloads_takeWhile _).mp counted⟩
  · rintro ⟨short, choice⟩
    refine ⟨decide ((cut sizeOfSize content).2 = []), ?_, ?_⟩
    · have counted : countedPayloads (cut sizeOfSize content).1 =
          countedPayloads (intactBodies content) := by
        apply (countedPayloads_takeWhile _).mpr
        rcases choice with parse | ⟨_, dead⟩
        · intro body member
          rw [List.dropWhile_eq_nil_iff.mpr fun body member => decide_eq_true (parse body member)]
            at member
          cases member
        · exact dead
      rw [returns short, counted]
    · rw [decide_eq_true_eq, wellFormed_iff]
      rcases choice with parse | ⟨something, _⟩
      · exact ⟨fun nothing => ⟨nothing, parse⟩, And.left⟩
      · exact ⟨fun nothing => absurd nothing something, fun both => absurd both.1 something⟩

omit [Protobuf] in
/-- A header of eight bytes 255 ends loading by an exception. -/
theorem load_throws :
    ¬ ∀ (mapper : MessageMapper) (world : World) (content : Bytes),
      world.disk mapper.datafile = some content →
        @LoadsExactly wireFormat mapper world content := by
  intro always
  rcases always ⟨ascii "q", ascii "t"⟩ ⟨fun _ => some (List.replicate 8 255), []⟩
    (List.replicate 8 255) rfl with ⟨complete, done, _⟩
  have throws := (@load_content ⟨ascii "q", ascii "t"⟩
    ⟨fun _ => some (List.replicate 8 255), []⟩ wireFormat (List.replicate 8 255) rfl).1 (by decide)
  cases throws.symm.trans done

/-- The content of a file with one record and a part of another. -/
def tornContent : Bytes :=
  frames sizeOfSize [Payload.serialize { body := ascii "x", valid := validMark }] ++ [9, 0, 0]

omit [Protobuf] in
/-- Such a file is loaded as it should be. -/
theorem torn_loads_exactly :
    @LoadsExactly wireFormat ⟨ascii "q", ascii "t"⟩ ⟨fun _ => some tornContent, []⟩ tornContent :=
  (@load_exactly_iff ⟨ascii "q", ascii "t"⟩ ⟨fun _ => some tornContent, []⟩ wireFormat
    tornContent rfl).mpr (by decide +kernel)

end Loading

end MessageMapper

end ProtobufMq
