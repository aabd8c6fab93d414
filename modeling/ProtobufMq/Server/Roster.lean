import ProtobufMq.Server.Channel

namespace ProtobufMq

open Foundation

/-!
# Who consumes for whom

A roster says which channels are open and which consumers are registered on
each queue, and forgets everything else about the server.  A channel is open at
a place, which is a connection and a channel id.

On a roster the two relations, a channel's consumer and a queue's consumers,
should be converse to each other.  Every move of the server changes one or both
of them, and what has to hold so that they stay converse is the same for all
moves that take a consumer out: the consumer that leaves the queue is the one
that leaves the channel.
-/

/-- A connection and a channel id. -/
abbrev Place := Nat × Bytes

/-- The open channels, the registered consumers, and the next address. -/
@[ext] structure Roster where
  channels : Place → Option Channel
  registered : Bytes → List Consumer
  allocated : Nat

namespace Roster

/-- Consumers and channels own each other. -/
structure Owned (roster : Roster) : Prop where
  consumers : ∀ qname, ∀ consumer ∈ roster.registered qname,
    ∃ place channel, roster.channels place = some channel ∧ channel.consumer = some consumer ∧
      consumer.channel = channel.address ∧
      ∀ otherPlace other, roster.channels otherPlace = some other →
        other.consumer = some consumer → otherPlace = place
  channels : ∀ place channel consumer, roster.channels place = some channel →
    channel.consumer = some consumer → consumer ∈ roster.registered consumer.qname

/-- The invariant. -/
structure Linked (roster : Roster) : Prop where
  owner : ∀ qname, ∀ consumer ∈ roster.registered qname,
    ∃ place channel, roster.channels place = some channel ∧ channel.consumer = some consumer
  member : ∀ place channel consumer, roster.channels place = some channel →
    channel.consumer = some consumer → consumer ∈ roster.registered consumer.qname
  bound : ∀ place channel consumer, roster.channels place = some channel →
    channel.consumer = some consumer → consumer.channel = channel.address
  apart : ∀ place channel otherPlace other, roster.channels place = some channel →
    roster.channels otherPlace = some other → channel.address = other.address → place = otherPlace
  channelOld : ∀ place channel, roster.channels place = some channel →
    channel.address < roster.allocated
  named : ∀ qname, ∀ consumer ∈ roster.registered qname, consumer.qname = qname
  tags : ∀ qname, ((roster.registered qname).map Consumer.tag).Nodup
  consumerOld : ∀ qname, ∀ consumer ∈ roster.registered qname,
    consumer.address < roster.allocated

variable {roster : Roster}

/-- Two channels with the same consumer are at the same place. -/
theorem Linked.same_place (linked : Linked roster) {place otherPlace : Place}
    {channel other : Channel} {consumer : Consumer}
    (opened : roster.channels place = some channel) (subscribed : channel.consumer = some consumer)
    (otherOpened : roster.channels otherPlace = some other)
    (otherSubscribed : other.consumer = some consumer) : place = otherPlace :=
  linked.apart place channel otherPlace other opened otherOpened
    ((linked.bound place channel consumer opened subscribed).symm.trans
      (linked.bound otherPlace other consumer otherOpened otherSubscribed))

theorem owned_of_linked (linked : Linked roster) : Owned roster := by
  refine ⟨fun qname consumer registered => ?_, linked.member⟩
  rcases linked.owner qname consumer registered with ⟨place, channel, opened, subscribed⟩
  exact ⟨place, channel, opened, subscribed,
    linked.bound place channel consumer opened subscribed,
    fun otherPlace other otherOpened otherSubscribed =>
      linked.same_place otherOpened otherSubscribed opened subscribed⟩

/-- A roster without channels and consumers. -/
theorem linked_empty (allocated : Nat) : Linked ⟨fun _ => none, fun _ => [], allocated⟩ := by
  constructor
  · intro qname consumer registered
    cases registered
  · intro place channel consumer opened
    cases opened
  · intro place channel consumer opened
    cases opened
  · intro place channel otherPlace other opened
    cases opened
  · intro place channel opened
    cases opened
  · intro qname consumer registered
    cases registered
  · intro qname
    exact List.nodup_nil
  · intro qname consumer registered
    cases registered

/-! ## The moves -/

/-- Put a channel at a place, or take it away. -/
def withChannel (roster : Roster) (place : Place) (channel : Option Channel) : Roster :=
  { roster with channels := Function.update roster.channels place channel }

/-- Give a queue another list of consumers. -/
def withRegistered (roster : Roster) (qname : Bytes) (consumers : List Consumer) : Roster :=
  { roster with registered := Function.update roster.registered qname consumers }

/-- An address is used up. -/
def allocate (roster : Roster) : Roster :=
  { roster with allocated := roster.allocated + 1 }

/-- A channel is opened. -/
def openAt (roster : Roster) (place : Place) : Roster :=
  (roster.withChannel place (some { address := roster.allocated, cid := place.2 })).allocate

/-- A consumer joins its queue and becomes the consumer of a channel. -/
def join (roster : Roster) (place : Place) (channel : Channel) (consumer : Consumer) : Roster :=
  ((roster.withChannel place (some { channel with consumer := some consumer })).withRegistered
    consumer.qname (roster.registered consumer.qname ++ [consumer])).allocate

/-- The first consumer with a tag leaves a queue. -/
def leave (roster : Roster) (tag qname : Bytes) : Roster :=
  roster.withRegistered qname
    ((roster.registered qname).eraseP fun consumer => consumer.tag = tag)

/-- A consumer leaves a queue, and a channel forgets its consumer. -/
def cancel (roster : Roster) (place : Place) (channel : Channel) (tag qname : Bytes) : Roster :=
  (roster.leave tag qname).withChannel place (some { channel with consumer := none })

/-- A channel is closed; its consumer leaves its queue. -/
def close (roster : Roster) (place : Place) (channel : Channel) : Roster :=
  match channel.consumer with
  | none => roster.withChannel place none
  | some consumer => (roster.leave consumer.tag consumer.qname).withChannel place none

/-! ## Lookups after a move -/

theorem channels_withChannel (roster : Roster) (place : Place) (channel : Option Channel)
    (other : Place) : (roster.withChannel place channel).channels other =
      if other = place then channel else roster.channels other :=
  Function.update_apply ..

theorem registered_withRegistered (roster : Roster) (qname : Bytes) (consumers : List Consumer)
    (other : Bytes) : (roster.withRegistered qname consumers).registered other =
      if other = qname then consumers else roster.registered other :=
  Function.update_apply ..

/-- Of a list without equal tags, `eraseP` takes exactly the one with the tag. -/
theorem mem_eraseP_tag {consumers : List Consumer} {tag : Bytes}
    (distinct : (consumers.map Consumer.tag).Nodup) (consumer : Consumer) :
    consumer ∈ consumers.eraseP (fun other => other.tag = tag) ↔
      consumer ∈ consumers ∧ consumer.tag ≠ tag := by
  constructor
  · intro stays
    refine ⟨List.mem_of_mem_eraseP stays, fun same => ?_⟩
    induction consumers with
    | nil => cases stays
    | cons head rest inductionHypothesis =>
        rw [List.map_cons, List.nodup_cons] at distinct
        by_cases first : head.tag = tag
        · rw [List.eraseP_cons_of_pos (by simpa using first)] at stays
          exact distinct.1 (List.mem_map.mpr ⟨consumer, stays, same.trans first.symm⟩)
        · rw [List.eraseP_cons_of_neg (by simpa using first)] at stays
          rcases List.mem_cons.mp stays with here | later
          · exact first (here ▸ same)
          · exact inductionHypothesis distinct.2 later
  · rintro ⟨there, other⟩
    exact (List.mem_eraseP_of_neg (by simpa using other)).mpr there

theorem mem_leave (linked : Linked roster) (tag qname : Bytes) (other : Bytes)
    (consumer : Consumer) : consumer ∈ (roster.leave tag qname).registered other ↔
      consumer ∈ roster.registered other ∧ ¬ (other = qname ∧ consumer.tag = tag) := by
  rw [leave, registered_withRegistered]
  by_cases same : other = qname
  · rw [if_pos same, mem_eraseP_tag (linked.tags qname), same]
    exact and_congr_right fun _ => not_congr ⟨fun tagged => ⟨rfl, tagged⟩, And.right⟩
  · rw [if_neg same]
    exact ⟨fun member => ⟨member, fun both => same both.1⟩, And.left⟩

/-! ## What the moves preserve -/

section Moves

variable (linked : Linked roster) {place : Place} {channel : Channel}

include linked

theorem linked_allocate : Linked roster.allocate :=
  ⟨linked.owner, linked.member, linked.bound, linked.apart,
    fun at' other opened => Nat.lt_succ_of_lt (linked.channelOld at' other opened), linked.named,
    linked.tags, fun qname consumer registered =>
      Nat.lt_succ_of_lt (linked.consumerOld qname consumer registered)⟩

/-- A channel without a consumer may be put anywhere where there was none. -/
theorem linked_openAt (free : roster.channels place = none) : Linked (roster.openAt place) := by
  have lookup : ∀ other, (roster.openAt place).channels other =
      if other = place then some { address := roster.allocated, cid := place.2 }
      else roster.channels other := channels_withChannel roster place _
  -- an open channel of the result is the new one or was open before
  have origin : ∀ other opened, (roster.openAt place).channels other = some opened →
      (other = place ∧ opened = { address := roster.allocated, cid := place.2 }) ∨
        roster.channels other = some opened := by
    intro other opened found
    rw [lookup] at found
    by_cases same : other = place
    · rw [if_pos same] at found
      exact Or.inl ⟨same, (Option.some.inj found).symm⟩
    · rw [if_neg same] at found
      exact Or.inr found
  constructor
  · intro qname consumer registered
    rcases linked.owner qname consumer registered with ⟨owner, owning, opened, subscribed⟩
    refine ⟨owner, owning, ?_, subscribed⟩
    rw [lookup, if_neg]
    · exact opened
    · intro same
      rw [same, free] at opened
      cases opened
  · intro other opened consumer found subscribed
    rcases origin other opened found with ⟨_, new⟩ | old
    · rw [new] at subscribed
      cases subscribed
    · exact linked.member other opened consumer old subscribed
  · intro other opened consumer found subscribed
    rcases origin other opened found with ⟨_, new⟩ | old
    · rw [new] at subscribed
      cases subscribed
    · exact linked.bound other opened consumer old subscribed
  · intro first firstOpened second secondOpened firstFound secondFound same
    rcases origin first firstOpened firstFound with ⟨firstHere, firstNew⟩ | firstOld
    · rcases origin second secondOpened secondFound with ⟨secondHere, _⟩ | secondOld
      · exact firstHere.trans secondHere.symm
      · have old := linked.channelOld second secondOpened secondOld
        rw [← same, firstNew] at old
        exact absurd old (Nat.lt_irrefl _)
    · rcases origin second secondOpened secondFound with ⟨_, secondNew⟩ | secondOld
      · have old := linked.channelOld first firstOpened firstOld
        rw [same, secondNew] at old
        exact absurd old (Nat.lt_irrefl _)
      · exact linked.apart first firstOpened second secondOpened firstOld secondOld same
  · intro other opened found
    rcases origin other opened found with ⟨_, new⟩ | old
    · rw [new]
      exact Nat.lt_succ_self _
    · exact Nat.lt_succ_of_lt (linked.channelOld other opened old)
  · exact linked.named
  · exact linked.tags
  · exact fun qname consumer registered =>
      Nat.lt_succ_of_lt (linked.consumerOld qname consumer registered)

/-- A consumer may join on a channel that has none, under a free tag. -/
theorem linked_join {consumer : Consumer} (opened : roster.channels place = some channel)
    (idle : channel.consumer = none) (fresh : consumer.address = roster.allocated)
    (toChannel : consumer.channel = channel.address)
    (free : ∀ other ∈ roster.registered consumer.qname, other.tag ≠ consumer.tag) :
    Linked (roster.join place channel consumer) := by
  have lookup : ∀ other, (roster.join place channel consumer).channels other =
      if other = place then some { channel with consumer := some consumer }
      else roster.channels other := channels_withChannel roster place _
  have consumers : ∀ qname, (roster.join place channel consumer).registered qname =
      if qname = consumer.qname then roster.registered consumer.qname ++ [consumer]
      else roster.registered qname :=
    registered_withRegistered (roster.withChannel place _) consumer.qname _
  have origin : ∀ other found, (roster.join place channel consumer).channels other = some found →
      (other = place ∧ found = { channel with consumer := some consumer }) ∨
        (other ≠ place ∧ roster.channels other = some found) := by
    intro other found lookedUp
    rw [lookup] at lookedUp
    by_cases same : other = place
    · rw [if_pos same] at lookedUp
      exact Or.inl ⟨same, (Option.some.inj lookedUp).symm⟩
    · rw [if_neg same] at lookedUp
      exact Or.inr ⟨same, lookedUp⟩
  have joined : ∀ qname other, other ∈ (roster.join place channel consumer).registered qname ↔
      other ∈ roster.registered qname ∨ (qname = consumer.qname ∧ other = consumer) := by
    intro qname other
    rw [consumers]
    by_cases same : qname = consumer.qname
    · rw [if_pos same, List.mem_append, List.mem_singleton, same]
      exact or_congr_right ⟨fun new => ⟨rfl, new⟩, And.right⟩
    · rw [if_neg same]
      exact ⟨Or.inl, fun either => either.elim id fun both => absurd both.1 same⟩
  constructor
  · intro qname other registered
    rcases (joined qname other).mp registered with old | ⟨_, new⟩
    · rcases linked.owner qname other old with ⟨owner, owning, ownerOpened, subscribed⟩
      refine ⟨owner, owning, ?_, subscribed⟩
      rw [lookup, if_neg]
      · exact ownerOpened
      · intro same
        rw [same, opened] at ownerOpened
        cases ownerOpened
        rw [idle] at subscribed
        cases subscribed
    · refine ⟨place, { channel with consumer := some consumer }, ?_, ?_⟩
      · rw [lookup, if_pos rfl]
      · rw [new]
  · intro other found subscriber lookedUp subscribed
    rcases origin other found lookedUp with ⟨_, new⟩ | ⟨_, old⟩
    · rw [new] at subscribed
      cases subscribed
      exact (joined _ _).mpr (Or.inr ⟨rfl, rfl⟩)
    · exact (joined _ _).mpr (Or.inl (linked.member other found subscriber old subscribed))
  · intro other found subscriber lookedUp subscribed
    rcases origin other found lookedUp with ⟨_, new⟩ | ⟨_, old⟩
    · rw [new] at subscribed ⊢
      cases subscribed
      exact toChannel
    · exact linked.bound other found subscriber old subscribed
  · intro first firstFound second secondFound firstLookedUp secondLookedUp same
    rcases origin first firstFound firstLookedUp with ⟨firstHere, firstNew⟩ | ⟨_, firstOld⟩
    · rcases origin second secondFound secondLookedUp with ⟨secondHere, _⟩ | ⟨_, secondOld⟩
      · exact firstHere.trans secondHere.symm
      · rw [firstNew] at same
        rw [firstHere]
        exact linked.apart place channel second secondFound opened secondOld same
    · rcases origin second secondFound secondLookedUp with ⟨secondHere, secondNew⟩ | ⟨_, secondOld⟩
      · rw [secondNew] at same
        rw [secondHere]
        exact linked.apart first firstFound place channel firstOld opened same
      · exact linked.apart first firstFound second secondFound firstOld secondOld same
  · intro other found lookedUp
    rcases origin other found lookedUp with ⟨_, new⟩ | ⟨_, old⟩
    · rw [new]
      exact Nat.lt_succ_of_lt (linked.channelOld place channel opened)
    · exact Nat.lt_succ_of_lt (linked.channelOld other found old)
  · intro qname other registered
    rcases (joined qname other).mp registered with old | ⟨here, new⟩
    · exact linked.named qname other old
    · rw [new, here]
  · intro qname
    rw [consumers]
    by_cases same : qname = consumer.qname
    · rw [if_pos same, List.map_append]
      refine List.Nodup.append (linked.tags consumer.qname) (List.nodup_singleton _) ?_
      intro tag old new
      rcases List.mem_map.mp old with ⟨other, registered, otherTag⟩
      exact free other registered (otherTag.trans (List.mem_singleton.mp new))
    · rw [if_neg same]
      exact linked.tags qname
  · intro qname other registered
    rcases (joined qname other).mp registered with old | ⟨_, new⟩
    · exact Nat.lt_succ_of_lt (linked.consumerOld qname other old)
    · rw [new, fresh]
      exact Nat.lt_succ_self _

/-- A channel and its consumer, if it has one, may part: nobody else leaves a
queue, and no other channel changes. -/
theorem linked_part {replaced : Option Channel} {consumers : Bytes → List Consumer}
    (opened : roster.channels place = some channel)
    (idle : ∀ other, replaced = some other →
      other.consumer = none ∧ other.address = channel.address)
    (sublists : ∀ qname, (consumers qname).Sublist (roster.registered qname))
    (left : ∀ qname consumer, consumer ∈ consumers qname ↔
      consumer ∈ roster.registered qname ∧ channel.consumer ≠ some consumer) :
    Linked ⟨Function.update roster.channels place replaced, consumers, roster.allocated⟩ := by
  have lookup : ∀ other, Function.update roster.channels place replaced other =
      if other = place then replaced else roster.channels other :=
    fun other => Function.update_apply ..
  have origin : ∀ other found, Function.update roster.channels place replaced other = some found →
      (other = place ∧ found.consumer = none ∧ found.address = channel.address) ∨
        (other ≠ place ∧ roster.channels other = some found) := by
    intro other found lookedUp
    rw [lookup] at lookedUp
    by_cases same : other = place
    · rw [if_pos same] at lookedUp
      exact Or.inl ⟨same, idle found lookedUp⟩
    · rw [if_neg same] at lookedUp
      exact Or.inr ⟨same, lookedUp⟩
  constructor
  · intro qname consumer registered
    rcases (left qname consumer).mp registered with ⟨old, stays⟩
    rcases linked.owner qname consumer old with ⟨owner, owning, ownerOpened, subscribed⟩
    refine ⟨owner, owning, (lookup owner).trans ?_, subscribed⟩
    rw [if_neg]
    · exact ownerOpened
    · intro same
      rw [same, opened] at ownerOpened
      cases ownerOpened
      exact stays subscribed
  · intro other found consumer lookedUp subscribed
    rcases origin other found lookedUp with ⟨_, nobody, _⟩ | ⟨elsewhere, old⟩
    · rw [nobody] at subscribed
      cases subscribed
    · exact (left consumer.qname consumer).mpr
        ⟨linked.member other found consumer old subscribed,
          fun here => elsewhere (linked.same_place old subscribed opened here)⟩
  · intro other found consumer lookedUp subscribed
    rcases origin other found lookedUp with ⟨_, nobody, _⟩ | ⟨_, old⟩
    · rw [nobody] at subscribed
      cases subscribed
    · exact linked.bound other found consumer old subscribed
  · intro first firstFound second secondFound firstLookedUp secondLookedUp same
    rcases origin first firstFound firstLookedUp with ⟨firstHere, _, firstEq⟩ | ⟨_, firstOld⟩
    · rcases origin second secondFound secondLookedUp with ⟨secondHere, _⟩ | ⟨_, secondOld⟩
      · exact firstHere.trans secondHere.symm
      · rw [firstHere]
        exact linked.apart place channel second secondFound opened secondOld
          (firstEq.symm.trans same)
    · rcases origin second secondFound secondLookedUp with ⟨secondHere, _, secondEq⟩ |
        ⟨_, secondOld⟩
      · rw [secondHere]
        exact linked.apart first firstFound place channel firstOld opened (same.trans secondEq)
      · exact linked.apart first firstFound second secondFound firstOld secondOld same
  · intro other found lookedUp
    rcases origin other found lookedUp with ⟨_, _, same⟩ | ⟨_, old⟩
    · rw [same]
      exact linked.channelOld place channel opened
    · exact linked.channelOld other found old
  · exact fun qname consumer registered =>
      linked.named qname consumer ((left qname consumer).mp registered).1
  · exact fun qname => (linked.tags qname).sublist ((sublists qname).map _)
  · exact fun qname consumer registered =>
      linked.consumerOld qname consumer ((left qname consumer).mp registered).1

/-- The consumer with a tag leaves a queue as the consumer of a channel. -/
theorem linked_leave {tag qname : Bytes} {replaced : Option Channel}
    (opened : roster.channels place = some channel)
    (idle : ∀ other, replaced = some other →
      other.consumer = none ∧ other.address = channel.address)
    (leaves : ∀ consumer, (consumer ∈ roster.registered qname ∧ consumer.tag = tag) ↔
      channel.consumer = some consumer) :
    Linked ((roster.leave tag qname).withChannel place replaced) := by
  apply linked_part linked opened idle
  · intro other
    rw [leave, registered_withRegistered]
    by_cases same : other = qname
    · rw [if_pos same, same]
      exact List.eraseP_sublist
    · rw [if_neg same]
  · intro other consumer
    rw [mem_leave linked]
    apply and_congr_right
    intro registered
    apply not_congr
    rw [← leaves consumer]
    constructor
    · rintro ⟨same, tagged⟩
      exact ⟨same ▸ registered, tagged⟩
    · rintro ⟨here, tagged⟩
      exact ⟨(linked.named other consumer registered).symm.trans
        (linked.named qname consumer here), tagged⟩

/-- Cancelling keeps the relations converse if it names the consumer of the
channel, or nobody when the channel has none. -/
theorem linked_cancel {tag qname : Bytes} (opened : roster.channels place = some channel)
    (leaves : ∀ consumer, (consumer ∈ roster.registered qname ∧ consumer.tag = tag) ↔
      channel.consumer = some consumer) :
    Linked (roster.cancel place channel tag qname) := by
  apply linked_leave linked opened _ leaves
  intro other same
  cases same
  exact ⟨rfl, rfl⟩

/-- Closing a channel names its consumer by itself. -/
theorem linked_close (opened : roster.channels place = some channel) :
    Linked (roster.close place channel) := by
  unfold close
  cases subscribed : channel.consumer with
  | none =>
      apply linked_part linked opened
      · intro other same
        cases same
      · exact fun qname => List.Sublist.refl _
      · intro qname consumer
        rw [subscribed]
        exact ⟨fun registered => ⟨registered, fun same => by cases same⟩, And.left⟩
  | some consumer =>
      apply linked_leave linked opened
      · intro other same
        cases same
      intro other
      have here := linked.member place channel consumer opened subscribed
      rw [subscribed]
      constructor
      · rintro ⟨registered, tagged⟩
        have same : other = consumer :=
          List.inj_on_of_nodup_map (linked.tags consumer.qname) registered here tagged
        rw [same]
      · intro same
        cases same
        exact ⟨here, rfl⟩

/-! ## What the moves need -/

/-- A consumer that loses its channel without leaving its queue has no owner. -/
private theorem idle_of_replaced {next : Roster} {replaced : Channel}
    (opened : roster.channels place = some channel) (owned : Owned next)
    (channels : ∀ other, next.channels other =
      if other = place then some replaced else roster.channels other)
    (replacement : ∀ other, replaced.consumer = some other → roster.allocated ≤ other.address)
    (registered : ∀ qname, ∀ other ∈ roster.registered qname, other ∈ next.registered qname) :
    channel.consumer = none := by
  apply Option.eq_none_iff_forall_ne_some.mpr
  intro consumer subscribed
  have here := linked.member place channel consumer opened subscribed
  rcases owned.consumers consumer.qname consumer (registered _ _ here) with
    ⟨owner, owning, ownerOpened, owns, _⟩
  rw [channels] at ownerOpened
  by_cases same : owner = place
  · rw [if_pos same] at ownerOpened
    cases ownerOpened
    exact absurd (linked.consumerOld consumer.qname consumer here)
      (Nat.not_lt_of_le (replacement consumer owns))
  · rw [if_neg same] at ownerOpened
    exact same (linked.same_place ownerOpened owns opened subscribed)

/-- If the relations are still converse after a refused subscription, the channel
had no consumer. -/
theorem idle_of_refusal (opened : roster.channels place = some channel)
    (owned : Owned (roster.withChannel place
      (some { channel with consumer := none })).allocate) : channel.consumer = none := by
  apply idle_of_replaced linked opened owned (channels_withChannel roster place _)
  · intro other subscribed
    cases subscribed
  · exact fun qname other registered => registered

/-- If the relations are still converse after a subscription, the channel had no
consumer. -/
theorem idle_of_join {consumer : Consumer} (opened : roster.channels place = some channel)
    (fresh : consumer.address = roster.allocated)
    (owned : Owned (roster.join place channel consumer)) : channel.consumer = none := by
  apply idle_of_replaced linked opened owned (channels_withChannel roster place _)
  · intro other subscribed
    cases subscribed
    exact Nat.le_of_eq fresh.symm
  · intro qname other registered
    change other ∈ (Roster.withRegistered _ consumer.qname _).registered qname
    rw [registered_withRegistered]
    by_cases same : qname = consumer.qname
    · rw [if_pos same, ← same]
      exact List.mem_append_left _ registered
    · rw [if_neg same]
      exact registered

/-- If the relations are still converse after a cancel, it named the consumer of
the channel. -/
theorem leaves_of_cancel {tag qname : Bytes} (opened : roster.channels place = some channel)
    (owned : Owned (roster.cancel place channel tag qname)) (consumer : Consumer) :
    (consumer ∈ roster.registered qname ∧ consumer.tag = tag) ↔
      channel.consumer = some consumer := by
  have lookup : ∀ other, (roster.cancel place channel tag qname).channels other =
      if other = place then some { channel with consumer := none } else roster.channels other :=
    channels_withChannel (roster.leave tag qname) place _
  have left : ∀ other consumer,
      consumer ∈ (roster.cancel place channel tag qname).registered other ↔
        consumer ∈ roster.registered other ∧ ¬ (other = qname ∧ consumer.tag = tag) :=
    mem_leave linked tag qname
  constructor
  · rintro ⟨registered, tagged⟩
    -- its owner is this channel: another one would still have it
    rcases linked.owner qname consumer registered with ⟨owner, owning, ownerOpened, subscribed⟩
    by_cases same : owner = place
    · rw [same, opened] at ownerOpened
      cases ownerOpened
      exact subscribed
    · have found : (roster.cancel place channel tag qname).channels owner = some owning := by
        rw [lookup, if_neg same]
        exact ownerOpened
      have still := owned.channels owner owning consumer found subscribed
      rw [linked.named qname consumer registered] at still
      exact absurd ⟨rfl, tagged⟩ ((left qname consumer).mp still).2
  · intro subscribed
    have here := linked.member place channel consumer opened subscribed
    by_cases leaves : consumer.qname = qname ∧ consumer.tag = tag
    · rw [leaves.1] at here
      exact ⟨here, leaves.2⟩
    · -- it stayed in its queue without an owner
      rcases owned.consumers consumer.qname consumer ((left _ _).mpr ⟨here, leaves⟩) with
        ⟨owner, owning, ownerOpened, owns, _⟩
      rw [lookup] at ownerOpened
      by_cases same : owner = place
      · rw [if_pos same] at ownerOpened
        cases ownerOpened
        cases owns
      · rw [if_neg same] at ownerOpened
        exact absurd (linked.same_place ownerOpened owns opened subscribed) same

/-- If the relations are still converse after a queue was dropped, nobody
consumed from it. -/
theorem nobody_of_drop {qname : Bytes} (owned : Owned (roster.withRegistered qname [])) :
    roster.registered qname = [] := by
  apply List.eq_nil_iff_forall_not_mem.mpr
  intro consumer registered
  rcases linked.owner qname consumer registered with ⟨owner, owning, ownerOpened, subscribed⟩
  have still := owned.channels owner owning consumer ownerOpened subscribed
  rw [registered_withRegistered, if_pos (linked.named qname consumer registered)] at still
  cases still

end Moves

end Roster

end ProtobufMq
