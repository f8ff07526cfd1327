import Temnion.Protocol.Hub
import Temnion.Query.Rows

/-
This file says what a dispatch puts on the queues of the subscribers.
-/

namespace Temnion.Protocol

open Query Storage Format

variable [Binary64]

/-- An event on which the filter has no value is not passed on. -/
theorem forwards_eq (filter : Option Expr) (event : StoredEvent) : forwards filter event = satisfies filter event := by
  unfold forwards
  by_cases evaluates : Evaluates filter event
  · rw [matchAndProjectEvent_ok evaluates]
    cases satisfies filter event <;> rfl
  · obtain ⟨error, fails⟩ := @matchAndProjectEvent_error _ filter none event evaluates
    rw [fails]
    cases filter with
    | none => exact absurd nofun evaluates
    | some expr =>
        rw [satisfies, Option.all_some]
        cases here : expr.evaluate (eventFields event) with
        | error error => rfl
        | ok value =>
            refine absurd ?_ evaluates
            intro other same
            obtain rfl := Option.some.inj same
            exact ⟨value, here⟩

section Offer

variable {channel : Channel} {id : UInt64} {filter : Option Expr} {events : List StoredEvent}

/-- The records of the events that match. -/
def liveRecords (id : UInt64) (filter : Option Expr) (events : List StoredEvent) : List LiveEventRecord :=
  (events.filter (forwards filter)).map (liveRecord id)

omit [Binary64] in
theorem Channel.put_nil (channel : Channel) : channel.put [] = channel := by
  cases channel
  simp only [Channel.put, List.append_nil]

omit [Binary64] in
theorem Channel.put_append (channel : Channel) (first second : List LiveEventRecord) :
    (channel.put first).put second = channel.put (first ++ second) := by
  simp only [Channel.put, List.append_assoc]

omit [Binary64] in
theorem Channel.put_waiting (channel : Channel) (records : List LiveEventRecord) :
    (channel.put records).waiting = channel.waiting + records.length := by
  have behind := channel.behind
  have total : (channel.put records).sent.length = channel.sent.length + records.length := List.length_append
  have same : (channel.put records).received = channel.received := rfl
  unfold Channel.waiting
  omega

/-- An open channel takes the first matching events for which it has room. -/
theorem offer_open (opened : channel.connected = true) : offer id filter events channel =
    (channel.put ((liveRecords id filter events).take (channelBound - channel.waiting)), false) := by
  induction events generalizing channel with
  | nil => rw [offer, liveRecords, List.filter_nil, List.map_nil, List.take_nil, Channel.put_nil]
  | cons event events hypothesis =>
      unfold offer
      by_cases matched : forwards filter event = true
      · have records : liveRecords id filter (event :: events) = liveRecord id event :: liveRecords id filter events := by
          rw [liveRecords, List.filter_cons_of_pos matched, List.map_cons, liveRecords]
        rw [if_pos matched, if_pos opened, records, Channel.trySend]
        by_cases room : channel.waiting < channelBound
        · obtain ⟨left, enough⟩ := Nat.exists_eq_add_of_lt room
          have now : channelBound - channel.waiting = left + 1 := by omega
          have later : channelBound - (channel.waiting + 1) = left := by omega
          rw [if_pos room, @hypothesis (channel.put [liveRecord id event]) opened, Channel.put_append,
            Channel.put_waiting, List.length_singleton, later, now, List.take_succ_cons, List.singleton_append]
        · have full : channelBound - channel.waiting = 0 := by omega
          rw [if_neg room, hypothesis opened, full, List.take_zero, List.take_zero]
      · have records : liveRecords id filter (event :: events) = liveRecords id filter events := by
          rw [liveRecords, List.filter_cons_of_neg matched, liveRecords]
        rw [if_neg matched, hypothesis opened, records]

/-- A channel with room for all matching events takes them all. -/
theorem offer_room (opened : channel.connected = true)
    (room : channel.waiting + (liveRecords id filter events).length ≤ channelBound) :
    offer id filter events channel = (channel.put (liveRecords id filter events), false) := by
  rw [offer_open opened, List.take_of_length_le (by omega)]

/-- Nothing is offered when no event matches. -/
theorem offer_idle (nothing : liveRecords id filter events = []) :
    offer id filter events channel = (channel, false) := by
  induction events with
  | nil => rfl
  | cons event events hypothesis =>
      have idle : (event :: events).filter (forwards filter) = [] := List.map_eq_nil_iff.mp nothing
      have unmatched := List.filter_eq_nil_iff.mp idle
      unfold offer
      rw [if_neg (unmatched event List.mem_cons_self)]
      apply hypothesis
      rw [liveRecords, List.filter_eq_nil_iff.mpr fun other member => unmatched other (List.mem_cons_of_mem _ member),
        List.map_nil]

end Offer

section Hub

variable {events : List StoredEvent} {entries : List (UInt64 × ActiveSubscription)}
  {reached : List Channel × List UInt64} {place : Nat}

/-- A channel that no subscriber sends on stays as it is. -/
theorem foldl_dispatchTo_other (unused : ∀ entry ∈ entries, entry.2.sender ≠ place) :
    (entries.foldl (dispatchTo events) reached).1[place]? = reached.1[place]? := by
  induction entries generalizing reached with
  | nil => rfl
  | cons entry entries hypothesis =>
      rw [List.foldl_cons, hypothesis fun other member => unused other (List.mem_cons_of_mem _ member)]
      unfold dispatchTo
      cases reached.1[entry.2.sender]? with
      | none => rfl
      | some channel => exact List.getElem?_set_ne (unused entry List.mem_cons_self)

theorem foldl_dispatchTo_gone {id : UInt64} (gone : id ∈ (entries.foldl (dispatchTo events) reached).2) :
    id ∈ reached.2 ∨ id ∈ entries.map Prod.fst := by
  induction entries generalizing reached with
  | nil => exact .inl gone
  | cons entry entries hypothesis =>
      rw [List.map_cons, List.mem_cons]
      rcases hypothesis gone with before | later
      · unfold dispatchTo at before
        cases present : reached.1[entry.2.sender]? with
        | none =>
            rw [present] at before
            exact .inl before
        | some channel =>
            rw [present] at before
            dsimp only at before
            by_cases closed : (offer entry.1 entry.2.filter events channel).2 = true
            · rw [if_pos closed, List.mem_append, List.mem_singleton] at before
              exact before.imp (fun old => old) .inl
            · rw [if_neg closed] at before
              exact .inl before
      · exact .inr (.inr later)

/-- A subscriber gets what is offered to its channel, and stays unless its receiver is gone. -/
theorem foldl_dispatchTo_entry {entry : UInt64 × ActiveSubscription} {channel : Channel} (listed : entry ∈ entries)
    (numbers : (entries.map Prod.fst).Nodup) (senders : (entries.map fun entry => entry.2.sender).Nodup)
    (present : reached.1[entry.2.sender]? = some channel) (unseen : entry.1 ∉ reached.2) :
    (entries.foldl (dispatchTo events) reached).1[entry.2.sender]? =
        some (offer entry.1 entry.2.filter events channel).1 ∧
      ((offer entry.1 entry.2.filter events channel).2 = false →
        entry.1 ∉ (entries.foldl (dispatchTo events) reached).2) := by
  induction entries generalizing reached with
  | nil => nomatch listed
  | cons first entries hypothesis =>
      rw [List.map_cons, List.nodup_cons] at numbers senders
      rw [List.foldl_cons]
      rcases List.mem_cons.mp listed with rfl | later
      · have unused : ∀ other ∈ entries, other.2.sender ≠ entry.2.sender := by
          intro other member same
          exact senders.1 (List.mem_map.mpr ⟨other, member, same⟩)
        have bound : entry.2.sender < reached.1.length := (List.getElem?_eq_some_iff.mp present).1
        rw [foldl_dispatchTo_other unused]
        have step : dispatchTo events reached entry = (reached.1.set entry.2.sender
            (offer entry.1 entry.2.filter events channel).1,
            if (offer entry.1 entry.2.filter events channel).2 then reached.2 ++ [entry.1] else reached.2) := by
          unfold dispatchTo
          rw [present]
        rw [step]
        refine ⟨List.getElem?_set_self bound, ?_⟩
        intro stays gone
        rw [stays] at gone
        rcases foldl_dispatchTo_gone gone with before | again
        · exact unseen before
        · exact numbers.1 again
      · have apart : first.2.sender ≠ entry.2.sender := by
          intro same
          exact senders.1 (List.mem_map.mpr ⟨entry, later, same.symm⟩)
        have different : first.1 ≠ entry.1 := by
          intro same
          exact numbers.1 (List.mem_map.mpr ⟨entry, later, same.symm⟩)
        apply hypothesis later numbers.2 senders.2
        · have alone : ∀ other ∈ [first], other.2.sender ≠ entry.2.sender := by
            intro other member
            rw [List.mem_singleton.mp member]
            exact apart
          exact (@foldl_dispatchTo_other _ events [first] reached _ alone).trans present
        · intro gone
          rcases @foldl_dispatchTo_gone _ events [first] reached _ gone with before | now
          · exact unseen before
          · exact different (List.mem_singleton.mp now).symm

namespace SubscriptionHub

variable {hub : SubscriptionHub} {id : UInt64} {filter : Option Expr} {channel : Channel}

/-- The number stands for a subscriber with this filter and this channel. -/
def Lists (hub : SubscriptionHub) (id : UInt64) (filter : Option Expr) (place : Nat) : Prop :=
  (id, ⟨filter, place⟩) ∈ hub.subscribers

/-- A listed subscriber gets the first matching events for which it has room, and stays listed. -/
theorem dispatchEvents_open (listed : hub.Lists id filter place) (present : hub.channels[place]? = some channel)
    (opened : channel.connected = true) :
    (hub.dispatchEvents events).Lists id filter place ∧ (hub.dispatchEvents events).channels[place]? =
      some (channel.put ((liveRecords id filter events).take (channelBound - channel.waiting))) := by
  have taken := @offer_open _ channel id filter events opened
  obtain ⟨after, stays⟩ := @foldl_dispatchTo_entry _ events _ (hub.channels, []) (id, ⟨filter, place⟩) channel listed
    hub.numbers hub.senders present List.not_mem_nil
  rw [taken] at after stays
  refine ⟨List.mem_filter.mpr ⟨listed, ?_⟩, after⟩
  rw [Bool.not_eq_true', List.contains_eq_mem, decide_eq_false_iff_not]
  exact stays rfl

/-- A listed subscriber with room gets all matching events and stays listed. -/
theorem dispatchEvents_listed (listed : hub.Lists id filter place) (present : hub.channels[place]? = some channel)
    (opened : channel.connected = true)
    (room : channel.waiting + (liveRecords id filter events).length ≤ channelBound) :
    (hub.dispatchEvents events).Lists id filter place ∧
      (hub.dispatchEvents events).channels[place]? = some (channel.put (liveRecords id filter events)) := by
  have enough : (liveRecords id filter events).length ≤ channelBound - channel.waiting := by omega
  have after := @dispatchEvents_open _ events _ _ id filter channel listed present opened
  rwa [List.take_of_length_le enough] at after

theorem register_lists (hub : SubscriptionHub) (filter : Option Expr) :
    (hub.register filter).2.Lists (hub.register filter).1 filter hub.channels.length :=
  List.mem_append_right _ List.mem_cons_self

theorem register_channel (hub : SubscriptionHub) (filter : Option Expr) :
    (hub.register filter).2.channels[hub.channels.length]? = some Channel.new :=
  List.getElem?_concat_length

end SubscriptionHub

end Hub

end Temnion.Protocol
