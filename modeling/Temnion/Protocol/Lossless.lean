import Temnion.Library.OrderedMap
import Temnion.Library.Words
import Temnion.Protocol.HandOver

/-
This file lets the threads of a server interleave within one dispatch and says when a subscriber misses no event.
-/

namespace Temnion.Protocol

open Query Storage Format

variable [Binary64]

/-- A subscriber with the events that the dispatch has still to offer it. -/
abbrev Errand := (UInt64 × ActiveSubscription) × List StoredEvent

/-- The hub, the errands of the dispatch that holds its lock, the subscribers whose receivers were found gone, and all
events that were given to a dispatch. -/
structure Hall where
  hub : SubscriptionHub
  dispatch : Option (List Errand)
  gone : List UInt64
  log : List StoredEvent

/-- The order in which a dispatch goes through the subscribers. -/
structure Visits where
  arrange : List (UInt64 × ActiveSubscription) → List (UInt64 × ActiveSubscription)
  perm : ∀ entries, (arrange entries).Perm entries

/-- A step of a thread. One that needs the lock waits while a dispatch holds it. -/
inductive HubAction where
  | register (filter : Option Expr)
  | unregister (id : UInt64)
  | dispatch (visits : Visits) (events : List StoredEvent)
  | advance
  | sweep (id : UInt64)
  | receive (place : Nat)
  | hangUp (place : Nat)

namespace Hall

/-- Takes the lock for a change of the hub. -/
def locking (hall : Hall) (change : Hall → Hall) : Hall :=
  match hall.dispatch with
  | none => change hall
  | some _ => hall

/-- One event is offered to one subscriber. -/
def offerNext (hall : Hall) (entry : UInt64 × ActiveSubscription) (event : StoredEvent) (events : List StoredEvent)
    (errands : List Errand) : Hall :=
  if forwards entry.2.filter event then
    match hall.hub.channels[entry.2.sender]? with
    | none => { hall with dispatch := some errands }
    | some channel =>
        if channel.connected then
          { hall with
            hub := hall.hub.change entry.2.sender fun channel => channel.trySend (liveRecord entry.1 event)
            dispatch := some ((entry, events) :: errands) }
        else { hall with dispatch := some errands, gone := hall.gone ++ [entry.1] }
  else { hall with dispatch := some ((entry, events) :: errands) }

/-- The thread that holds the lock goes on. -/
def advance (hall : Hall) : Hall :=
  match hall.dispatch with
  | none => hall
  | some [] => { hall with dispatch := none }
  | some ((_, []) :: errands) => { hall with dispatch := some errands }
  | some ((entry, event :: events) :: errands) => hall.offerNext entry event events errands

def step (hall : Hall) : HubAction → Hall
  | .register filter => hall.locking fun hall => { hall with hub := (hall.hub.register filter).2 }
  | .unregister id => hall.locking fun hall => { hall with hub := (hall.hub.unregister id).2 }
  | .dispatch visits events => hall.locking fun hall =>
      { hall with
        dispatch := if events = [] then none
          else some ((visits.arrange hall.hub.subscribers).map fun entry => (entry, events))
        log := hall.log ++ events }
  | .advance => hall.advance
  | .sweep id => hall.locking fun hall =>
      if id ∈ hall.gone then { hall with hub := (hall.hub.unregister id).2 } else hall
  | .receive place => { hall with hub := hall.hub.change place Channel.receive }
  | .hangUp place => { hall with hub := hall.hub.change place Channel.hangUp }

def run (hall : Hall) (actions : List HubAction) : Hall := actions.foldl step hall

def errands (hall : Hall) : List Errand := hall.dispatch.getD []

/-- The events that the dispatch has still to offer on this channel. -/
def ahead (hall : Hall) (place : Nat) : List StoredEvent :=
  (hall.errands.filter fun errand => errand.1.2.sender = place).flatMap Prod.snd

/-- The subscriber is registered, and its receiver exists. -/
def Serves (hall : Hall) (id : UInt64) (filter : Option Expr) (place : Nat) : Prop :=
  hall.hub.Lists id filter place ∧ ∃ channel, hall.hub.channels[place]? = some channel ∧ channel.connected = true

/-- The dispatched events that match are on the queue, each once and in this order, up to those that the dispatch has
still to offer. -/
def Delivers (hall : Hall) (id : UInt64) (filter : Option Expr) (place : Nat) : Prop :=
  ∃ channel, hall.hub.channels[place]? = some channel ∧
    channel.sent ++ liveRecords id filter (hall.ahead place) = liveRecords id filter hall.log

/-- The next event for this channel that matches finds a free place in the queue. -/
def HasRoom (hall : Hall) (place : Nat) : HubAction → Prop
  | .advance => ∀ entry event events errands, hall.dispatch = some ((entry, event :: events) :: errands) →
      entry.2.sender = place → forwards entry.2.filter event = true →
        ∀ channel, hall.hub.channels[place]? = some channel → channel.waiting < channelBound
  | _ => True

def AlwaysRoom (place : Nat) : Hall → List HubAction → Prop
  | _, [] => True
  | hall, action :: actions => hall.HasRoom place action ∧ AlwaysRoom place (hall.step action) actions

/-- No other subscriber sends on this channel, and the dispatch has at most one errand for it. -/
structure Tracks (hall : Hall) (id : UInt64) (filter : Option Expr) (place : Nat) : Prop where
  bound : place < hall.hub.channels.length
  owned : ∀ entry ∈ hall.hub.subscribers, entry.2.sender = place → entry = (id, ⟨filter, place⟩)
  errand : ∀ errand ∈ hall.errands, errand.1.2.sender = place → errand.1 = (id, ⟨filter, place⟩)
  once : (hall.errands.map fun errand => errand.1.2.sender).Nodup

section Records

variable {id : UInt64} {filter : Option Expr} {event : StoredEvent}

theorem liveRecords_match (matched : forwards filter event = true) (events : List StoredEvent) :
    liveRecords id filter (event :: events) = liveRecord id event :: liveRecords id filter events := by
  rw [liveRecords, List.filter_cons_of_pos matched, List.map_cons, liveRecords]

theorem liveRecords_skip (unmatched : ¬ forwards filter event = true) (events : List StoredEvent) :
    liveRecords id filter (event :: events) = liveRecords id filter events := by
  rw [liveRecords, List.filter_cons_of_neg unmatched, liveRecords]

end Records

section Steps

variable {hall next : Hall} {id : UInt64} {filter : Option Expr} {place : Nat} {errands : List Errand}
  {entry : UInt64 × ActiveSubscription} {event : StoredEvent} {events : List StoredEvent}

/-- A step that sends nothing and takes nothing from what is ahead keeps everything delivered. -/
theorem Delivers.keep (delivers : hall.Delivers id filter place)
    (sent : ∀ channel, hall.hub.channels[place]? = some channel →
      ∃ later, next.hub.channels[place]? = some later ∧ later.sent = channel.sent)
    (ahead : liveRecords id filter (next.ahead place) = liveRecords id filter (hall.ahead place))
    (log : next.log = hall.log) : next.Delivers id filter place := by
  obtain ⟨channel, present, all⟩ := delivers
  obtain ⟨later, present', same⟩ := sent channel present
  refine ⟨later, present', ?_⟩
  rw [same, ahead, log]
  exact all

theorem change_sent (hub : SubscriptionHub) (other : Nat) {act : Channel → Channel}
    (keeps : ∀ channel, (act channel).sent = channel.sent) :
    ∀ channel, hub.channels[place]? = some channel →
      ∃ later, (hub.change other act).channels[place]? = some later ∧ later.sent = channel.sent := by
  intro channel present
  unfold SubscriptionHub.change
  dsimp only
  rw [List.getElem?_modify, present, Option.map_eq_map, Option.map_some]
  by_cases same : other = place
  · exact ⟨act channel, congrArg some (if_pos same), keeps channel⟩
  · exact ⟨channel, congrArg some (if_neg same), rfl⟩

theorem change_same (hub : SubscriptionHub) {act : Channel → Channel} {channel : Channel}
    (present : hub.channels[place]? = some channel) : (hub.change place act).channels[place]? = some (act channel) := by
  unfold SubscriptionHub.change
  dsimp only
  rw [List.getElem?_modify, present, Option.map_eq_map, Option.map_some, if_pos rfl]

theorem change_apart (hub : SubscriptionHub) {other : Nat} (apart : other ≠ place) (act : Channel → Channel) :
    (hub.change other act).channels[place]? = hub.channels[place]? := by
  unfold SubscriptionHub.change
  dsimp only
  rw [List.getElem?_modify]
  cases hub.channels[place]? with
  | none => rfl
  | some channel => exact congrArg some (if_neg apart)

theorem ahead_cons (holds : hall.dispatch = some ((entry, events) :: errands)) :
    hall.ahead place = (if entry.2.sender = place then events else []) ++
      (errands.filter fun errand => errand.1.2.sender = place).flatMap Prod.snd := by
  have all : hall.errands = (entry, events) :: errands := by rw [Hall.errands, holds, Option.getD_some]
  rw [ahead, all, List.filter_cons]
  by_cases here : entry.2.sender = place
  · rw [if_pos (by exact decide_eq_true here), if_pos here, List.flatMap_cons]
  · rw [if_neg (by simpa using here), if_neg here, List.nil_append]

theorem ahead_errands (holds : hall.dispatch = some errands) :
    hall.ahead place = (errands.filter fun errand => errand.1.2.sender = place).flatMap Prod.snd := by
  rw [ahead, Hall.errands, holds, Option.getD_some]

theorem ahead_none (free : hall.dispatch = none) : hall.ahead place = [] := by
  rw [ahead, Hall.errands, free]
  rfl

/-- A change under the lock that keeps the channels of a free hub. -/
theorem Delivers.locking (delivers : hall.Delivers id filter place) {change : Hall → Hall}
    (keeps : hall.dispatch = none → (change hall).dispatch = none ∧ (change hall).log = hall.log ∧
      ∀ channel, hall.hub.channels[place]? = some channel →
        ∃ later, (change hall).hub.channels[place]? = some later ∧ later.sent = channel.sent) :
    (hall.locking change).Delivers id filter place := by
  rw [Hall.locking]
  split
  · rename_i free
    obtain ⟨still, log, sent⟩ := keeps free
    apply delivers.keep sent _ log
    rw [ahead_none still, ahead_none free]
  · exact delivers

/-- The dispatch starts with one errand for a subscriber that is registered. -/
theorem ahead_dispatch (listed : hall.hub.Lists id filter place)
    (visits : Visits) (events : List StoredEvent) :
    (((visits.arrange hall.hub.subscribers).map fun entry => (entry, events)).filter
      fun errand => errand.1.2.sender = place).flatMap Prod.snd = events := by
  have perm := visits.perm hall.hub.subscribers
  have senders : ((visits.arrange hall.hub.subscribers).map fun entry => entry.2.sender).Nodup :=
    (perm.map fun entry => entry.2.sender).nodup_iff.mpr hall.hub.senders
  have member : (id, ⟨filter, place⟩) ∈ visits.arrange hall.hub.subscribers := perm.mem_iff.mpr listed
  have alone := filter_key senders member
  rw [List.filter_map]
  change (((visits.arrange hall.hub.subscribers).filter fun entry => decide (entry.2.sender = place)).map
    fun entry => (entry, events)).flatMap Prod.snd = events
  rw [alone]
  exact List.append_nil events

theorem delivers_dispatch (listed : hall.hub.Lists id filter place)
    (delivers : hall.Delivers id filter place) (visits : Visits) (events : List StoredEvent) :
    (hall.step (.dispatch visits events)).Delivers id filter place := by
  obtain ⟨channel, present, all⟩ := delivers
  change (hall.locking _).Delivers id filter place
  rw [Hall.locking]
  split
  · rename_i free
    have nothing' : liveRecords id filter [] = [] := rfl
    rw [ahead_none free, nothing', List.append_nil] at all
    refine ⟨channel, present, ?_⟩
    dsimp only
    rw [liveRecords_append, ← all]
    apply congrArg (channel.sent ++ ·)
    apply congrArg (liveRecords id filter)
    by_cases nothing : events = []
    · subst nothing
      rw [if_pos rfl, ahead_none rfl]
    · rw [if_neg nothing, ahead_errands rfl, ahead_dispatch listed visits events]
  · exact ⟨channel, present, all⟩

/-- The errand in front sends its next event when it matches, and its queue takes it when it has room. -/
theorem delivers_offer_iff (tracks : hall.Tracks id filter place) (serves : hall.Serves id filter place)
    (delivers : hall.Delivers id filter place) (holds : hall.dispatch = some ((entry, event :: events) :: errands)) :
    (hall.offerNext entry event events errands).Delivers id filter place ↔
      (entry.2.sender = place → forwards entry.2.filter event = true →
        ∀ channel, hall.hub.channels[place]? = some channel → channel.waiting < channelBound) := by
  by_cases here : entry.2.sender = place
  · have inside : (entry, event :: events) ∈ hall.errands := by
      rw [Hall.errands, holds]
      exact List.mem_cons_self
    obtain rfl : entry = (id, ⟨filter, place⟩) := tracks.errand _ inside here
    have before : hall.ahead place = _ := ahead_cons holds
    rw [if_pos rfl] at before
    obtain ⟨_, channel, present, opened⟩ := serves
    by_cases matched : forwards filter event = true
    · have sends : hall.offerNext (id, ⟨filter, place⟩) event events errands =
          ⟨hall.hub.change place fun channel => channel.trySend (liveRecord id event),
            some (((id, ⟨filter, place⟩), events) :: errands), hall.gone, hall.log⟩ := by
        rw [offerNext, if_pos matched]
        simp only [present, opened, if_true]
      rw [sends]
      obtain ⟨same, present', all⟩ := delivers
      obtain rfl := Option.some.inj (present.symm.trans present')
      rw [before, List.cons_append, liveRecords_match matched] at all
      have changed : (hall.hub.change place fun channel => channel.trySend (liveRecord id event)).channels[place]? =
          some (channel.trySend (liveRecord id event)) := change_same hall.hub present
      constructor
      · rintro ⟨later, found, all'⟩ _ _ other present''
        obtain rfl := Option.some.inj (present.symm.trans present'')
        obtain rfl := Option.some.inj (changed.symm.trans found)
        by_contra full
        rw [ahead_cons rfl, if_pos rfl, Channel.trySend, if_neg full, ← all] at all'
        have lengths := congrArg List.length all'
        rw [List.length_append, List.length_append, List.length_cons] at lengths
        omega
      · intro room
        refine ⟨_, changed, ?_⟩
        rw [ahead_cons rfl, if_pos rfl, Channel.trySend, if_pos (room rfl matched channel present)]
        change (channel.sent ++ [liveRecord id event]) ++ _ = _
        rw [List.append_assoc]
        exact all
    · rw [offerNext, if_neg matched]
      apply iff_of_true _ fun _ matched' => absurd matched' matched
      refine delivers.keep (fun channel present => ⟨channel, present, rfl⟩) ?_ rfl
      rw [before, ahead_cons rfl, if_pos rfl, List.cons_append, liveRecords_skip matched]
  · rw [offerNext]
    apply iff_of_true _ fun same => absurd same here
    have before : hall.ahead place = _ := ahead_cons holds
    rw [if_neg here, List.nil_append] at before
    have rest : ∀ (hub : SubscriptionHub) (gone : List UInt64),
        (Hall.mk hub (some ((entry, events) :: errands)) gone hall.log).ahead place = hall.ahead place := by
      intro hub gone
      rw [ahead_cons rfl, if_neg here, List.nil_append, before]
    have dropped : ∀ gone : List UInt64,
        (Hall.mk hall.hub (some errands) gone hall.log).ahead place = hall.ahead place := by
      intro gone
      rw [ahead_errands rfl, before]
    have still : ∀ channel, hall.hub.channels[place]? = some channel →
        ∃ later, hall.hub.channels[place]? = some later ∧ later.sent = channel.sent :=
      fun channel present => ⟨channel, present, rfl⟩
    split
    · split
      · exact delivers.keep still (congrArg _ (dropped _)) rfl
      · split
        · apply delivers.keep _ (congrArg _ (rest _ _)) rfl
          intro channel present
          exact ⟨channel, (change_apart hall.hub here _).trans present, rfl⟩
        · exact delivers.keep still (congrArg _ (dropped _)) rfl
    · exact delivers.keep still (congrArg _ (rest _ _)) rfl

/-- A step keeps everything delivered exactly when the queue has room for what it sends. -/
theorem delivers_step_iff (tracks : hall.Tracks id filter place) (serves : hall.Serves id filter place)
    (delivers : hall.Delivers id filter place) (action : HubAction) :
    (hall.step action).Delivers id filter place ↔ hall.HasRoom place action := by
  have still : ∀ channel, hall.hub.channels[place]? = some channel →
      ∃ later, hall.hub.channels[place]? = some later ∧ later.sent = channel.sent :=
    fun channel present => ⟨channel, present, rfl⟩
  cases action with
  | register other =>
      apply iff_of_true _ trivial
      apply delivers.locking
      intro free
      refine ⟨free, rfl, ?_⟩
      intro channel present
      exact ⟨channel, (List.getElem?_append_left tracks.bound).trans present, rfl⟩
  | unregister other =>
      apply iff_of_true _ trivial
      exact delivers.locking fun free => ⟨free, rfl, still⟩
  | dispatch visits events => exact iff_of_true (delivers_dispatch serves.1 delivers visits events) trivial
  | advance =>
      change hall.advance.Delivers id filter place ↔ _
      rw [Hall.advance, HasRoom]
      cases holds : hall.dispatch with
      | none => exact iff_of_true delivers nofun
      | some errands =>
          cases errands with
          | nil =>
              apply iff_of_true _ nofun
              change Delivers { hall with dispatch := none } id filter place
              refine delivers.keep still ?_ rfl
              rw [ahead_none rfl, ahead_errands holds]
              rfl
          | cons errand errands =>
              obtain ⟨entry, events⟩ := errand
              cases events with
              | nil =>
                  apply iff_of_true _ nofun
                  change Delivers { hall with dispatch := some errands } id filter place
                  refine delivers.keep still ?_ rfl
                  rw [ahead_errands rfl, ahead_cons holds, ite_self, List.nil_append]
              | cons event events =>
                  apply (delivers_offer_iff tracks serves delivers holds).trans
                  constructor
                  · intro room other event' events' errands' same
                    obtain ⟨⟨rfl, rfl, rfl⟩, rfl⟩ := by simpa using same
                    exact room
                  · exact fun room => room entry event events errands rfl
  | sweep other =>
      apply iff_of_true _ trivial
      apply delivers.locking
      intro free
      split
      · exact ⟨free, rfl, still⟩
      · exact ⟨free, rfl, still⟩
  | receive other =>
      apply iff_of_true _ trivial
      refine delivers.keep (change_sent hall.hub other ?_) rfl rfl
      intro channel
      unfold Channel.receive
      split <;> rfl
  | hangUp other =>
      apply iff_of_true _ trivial
      exact delivers.keep (change_sent hall.hub other fun _ => rfl) rfl rfl

/-- No new sender on the channel, and no new errand. -/
theorem Tracks.keep (tracks : hall.Tracks id filter place)
    (grown : hall.hub.channels.length ≤ next.hub.channels.length)
    (owned : ∀ entry ∈ next.hub.subscribers, entry.2.sender = place → entry ∈ hall.hub.subscribers)
    (errands : (next.errands.map Prod.fst).Sublist (hall.errands.map Prod.fst)) : next.Tracks id filter place where
  bound := tracks.bound.trans_le grown
  owned entry member same := tracks.owned entry (owned entry member same) same
  errand errand member same := by
    obtain ⟨other, inside, equal⟩ := List.mem_map.mp (errands.subset (List.mem_map_of_mem member))
    rw [← equal] at same ⊢
    exact tracks.errand other inside same
  once := by
    have senders := tracks.once
    change (hall.errands.map ((fun entry : UInt64 × ActiveSubscription => entry.2.sender) ∘ Prod.fst)).Nodup at senders
    change (next.errands.map ((fun entry : UInt64 × ActiveSubscription => entry.2.sender) ∘ Prod.fst)).Nodup
    rw [← List.map_map] at senders ⊢
    exact senders.sublist (errands.map _)

theorem Tracks.locking (tracks : hall.Tracks id filter place) {change : Hall → Hall}
    (keeps : hall.dispatch = none → (change hall).Tracks id filter place) :
    (hall.locking change).Tracks id filter place := by
  rw [Hall.locking]
  split
  · rename_i free
    exact keeps free
  · exact tracks

theorem Tracks.dispatch (tracks : hall.Tracks id filter place) (visits : Visits) (events : List StoredEvent) :
    (hall.step (.dispatch visits events)).Tracks id filter place := by
  rw [Hall.step]
  apply tracks.locking
  intro _
  by_cases nothing : events = []
  · rw [if_pos nothing]
    exact tracks.keep (le_refl _) (fun entry member _ => member) (List.nil_sublist _)
  · have perm := visits.perm hall.hub.subscribers
    have all : ∀ hub gone log, (Hall.mk hub (if events = [] then none
        else some ((visits.arrange hall.hub.subscribers).map fun entry => (entry, events))) gone log).errands =
          (visits.arrange hall.hub.subscribers).map fun entry => (entry, events) := by
      intro hub gone log
      rw [Hall.errands, if_neg nothing, Option.getD_some]
    refine ⟨tracks.bound, tracks.owned, ?_, ?_⟩
    · intro errand member same
      rw [all] at member
      obtain ⟨entry, inside, rfl⟩ := List.mem_map.mp member
      exact tracks.owned entry (perm.mem_iff.mp inside) same
    · rw [all, List.map_map]
      exact (perm.map fun entry => entry.2.sender).nodup_iff.mpr hall.hub.senders

theorem Tracks.advance (tracks : hall.Tracks id filter place) : hall.advance.Tracks id filter place := by
  have all : ∀ {errands}, hall.dispatch = some errands → hall.errands = errands := by
    intro errands holds
    rw [Hall.errands, holds, Option.getD_some]
  have listed : ∀ entry ∈ hall.hub.subscribers, entry.2.sender = place → entry ∈ hall.hub.subscribers :=
    fun entry member _ => member
  rw [Hall.advance]
  split
  · exact tracks
  · exact tracks.keep (le_refl _) listed (List.nil_sublist _)
  · rename_i entry errands holds
    have shorter : (errands.map Prod.fst).Sublist (hall.errands.map Prod.fst) := by
      rw [all holds]
      exact List.sublist_cons_self _ _
    exact tracks.keep (le_refl _) listed shorter
  · rename_i entry event events errands holds
    have shorter : ∀ hub gone log, ((Hall.mk hub (some errands) gone log).errands.map Prod.fst).Sublist
        (hall.errands.map Prod.fst) := by
      intro hub gone log
      rw [all holds]
      exact List.sublist_cons_self _ _
    have same : ∀ hub gone log, ((Hall.mk hub (some ((entry, events) :: errands)) gone log).errands.map Prod.fst).Sublist
        (hall.errands.map Prod.fst) := by
      intro hub gone log
      rw [all holds]
      exact List.Sublist.refl _
    rw [offerNext]
    split
    · split
      · exact tracks.keep (le_refl _) listed (shorter _ _ _)
      · split
        · exact tracks.keep (le_of_eq (List.length_modify _ _ _).symm) listed (same _ _ _)
        · exact tracks.keep (le_refl _) listed (shorter _ _ _)
    · exact tracks.keep (le_refl _) listed (same _ _ _)

theorem Tracks.step (tracks : hall.Tracks id filter place) (action : HubAction) :
    (hall.step action).Tracks id filter place := by
  have drop : ∀ other : UInt64, Tracks { hall with hub := (hall.hub.unregister other).2 } id filter place :=
    fun other => tracks.keep (le_refl _) (fun entry member _ => List.mem_of_mem_filter member) (List.Sublist.refl _)
  have touch : ∀ other act, Tracks { hall with hub := hall.hub.change other act } id filter place :=
    fun other act => tracks.keep (le_of_eq (List.length_modify _ _ _).symm) (fun entry member _ => member)
      (List.Sublist.refl _)
  cases action with
  | register other =>
      rw [Hall.step]
      apply tracks.locking
      intro _
      refine tracks.keep ?_ ?_ (List.Sublist.refl _)
      · change _ ≤ (hall.hub.channels ++ [Channel.new]).length
        rw [List.length_append]
        exact Nat.le_add_right _ _
      · intro entry member same
        rcases List.mem_append.mp member with old | new
        · exact List.mem_of_mem_filter old
        · rw [List.mem_singleton.mp new] at same
          exact absurd tracks.bound (same ▸ lt_irrefl _)
  | unregister other =>
      rw [Hall.step]
      apply tracks.locking
      exact fun _ => drop other
  | dispatch visits events => exact tracks.dispatch visits events
  | advance => exact tracks.advance
  | sweep other =>
      rw [Hall.step]
      apply tracks.locking
      intro _
      split
      · exact drop other
      · exact tracks
  | receive other => exact touch other Channel.receive
  | hangUp other => exact touch other Channel.hangUp

end Steps

section Runs

variable {hall : Hall} {id : UInt64} {filter : Option Expr} {place : Nat}

/-- In a run that serves the subscriber throughout, everything is delivered in all states exactly when the queue always
has room. -/
theorem delivers_run_iff (tracks : hall.Tracks id filter place) (delivers : hall.Delivers id filter place)
    (actions : List HubAction) (stays : ∀ count, (hall.run (actions.take count)).Serves id filter place) :
    (∀ count, (hall.run (actions.take count)).Delivers id filter place) ↔ hall.AlwaysRoom place actions := by
  induction actions generalizing hall with
  | nil =>
      apply iff_of_true _ trivial
      intro count
      rw [List.take_nil]
      exact delivers
  | cons action actions hypothesis =>
      have first := delivers_step_iff tracks (stays 0) delivers action
      have later : ∀ count, ((hall.step action).run (actions.take count)).Serves id filter place :=
        fun count => stays (count + 1)
      constructor
      · intro always
        have next : (hall.step action).Delivers id filter place := always 1
        exact ⟨first.mp next, (hypothesis (tracks.step action) next later).mp fun count => always (count + 1)⟩
      · rintro ⟨room, rest⟩ count
        have next := first.mpr room
        cases count with
        | zero => exact delivers
        | succ count => exact (hypothesis (tracks.step action) next later).mpr rest count

/-- The state after a registration, which needs a free lock. From here on the log counts. -/
def registered (hub : SubscriptionHub) (filter : Option Expr) (gone : List UInt64) : Hall :=
  ⟨(hub.register filter).2, none, gone, []⟩

theorem registered_tracks (hub : SubscriptionHub) (filter : Option Expr) (gone : List UInt64) :
    (registered hub filter gone).Tracks hub.nextId filter hub.channels.length where
  bound := (Queues.register hub filter).bound
  owned := (Queues.register hub filter).owned
  errand := nofun
  once := List.nodup_nil

theorem registered_delivers (hub : SubscriptionHub) (filter : Option Expr) (gone : List UInt64) :
    (registered hub filter gone).Delivers hub.nextId filter hub.channels.length :=
  ⟨Channel.new, hub.register_channel filter, rfl⟩

/-- After a registration in any hub, while the threads take their steps in any order and the subscriber stays registered
and connected: every dispatched event that matches is put on its queue, once and in order, if and only if its queue has
a free place whenever one is sent. -/
theorem live_dispatch_lossless_iff (hub : SubscriptionHub) (filter : Option Expr) (gone : List UInt64)
    (actions : List HubAction)
    (stays : ∀ count, ((registered hub filter gone).run (actions.take count)).Serves hub.nextId filter
      hub.channels.length) :
    (∀ count, ((registered hub filter gone).run (actions.take count)).Delivers hub.nextId filter
        hub.channels.length) ↔
      (registered hub filter gone).AlwaysRoom hub.channels.length actions :=
  delivers_run_iff (registered_tracks hub filter gone) (registered_delivers hub filter gone) actions stays

end Runs

section Undisturbed

variable {hall : Hall} {id : UInt64} {filter : Option Expr} {place : Nat} {errands : List Errand}
  {entry : UInt64 × ActiveSubscription} {event : StoredEvent} {events : List StoredEvent} {channel : Channel}

/-- A step of the dispatch leaves the subscribers and the connections alone. -/
theorem Serves.advance (serves : hall.Serves id filter place) : hall.advance.Serves id filter place := by
  rw [Hall.advance]
  split
  · exact serves
  · exact serves
  · exact serves
  · rename_i entry event events errands holds
    rw [offerNext]
    split
    · split
      · exact serves
      · split
        · obtain ⟨listed, channel, present, opened⟩ := serves
          refine ⟨listed, ?_⟩
          by_cases here : entry.2.sender = place
          · subst here
            refine ⟨_, change_same hall.hub present, ?_⟩
            unfold Channel.trySend
            split <;> exact opened
          · exact ⟨channel, (change_apart hall.hub here _).trans present, opened⟩
        · exact serves
    · exact serves

/-- An open channel gets in single steps what one undisturbed dispatch offers it. -/
theorem run_offer (holds : hall.dispatch = some ((entry, events) :: errands))
    (present : hall.hub.channels[entry.2.sender]? = some channel) (opened : channel.connected = true) :
    (hall.run (List.replicate events.length .advance)).dispatch = some ((entry, []) :: errands) ∧
      (hall.run (List.replicate events.length .advance)).log = hall.log ∧
        (hall.run (List.replicate events.length .advance)).hub.channels[entry.2.sender]? =
          some (offer entry.1 entry.2.filter events channel).1 := by
  induction events generalizing hall channel with
  | nil => exact ⟨holds, rfl, present⟩
  | cons event events hypothesis =>
      have first : hall.run (List.replicate (event :: events).length .advance) =
          (hall.offerNext entry event events errands).run (List.replicate events.length .advance) := by
        rw [List.length_cons, List.replicate_succ]
        change (hall.advance).run _ = _
        rw [Hall.advance, holds]
      rw [first, offer]
      by_cases matched : forwards entry.2.filter event = true
      · have sends : hall.offerNext entry event events errands =
            ⟨hall.hub.change entry.2.sender fun channel => channel.trySend (liveRecord entry.1 event),
              some ((entry, events) :: errands), hall.gone, hall.log⟩ := by
          rw [offerNext, if_pos matched]
          simp only [present, opened, if_true]
        rw [if_pos matched, if_pos opened, sends]
        apply hypothesis rfl (change_same hall.hub present)
        unfold Channel.trySend
        split <;> exact opened
      · have skips : hall.offerNext entry event events errands =
            { hall with dispatch := some ((entry, events) :: errands) } := by
          rw [offerNext, if_neg matched]
        rw [if_neg matched, skips]
        exact @hypothesis { hall with dispatch := some ((entry, events) :: errands) } channel rfl present opened

theorem Serves.run (serves : hall.Serves id filter place) (count : Nat) :
    (hall.run (List.replicate count .advance)).Serves id filter place := by
  induction count generalizing hall with
  | zero => exact serves
  | succ count hypothesis =>
      rw [List.replicate_succ]
      exact hypothesis serves.advance

/-- An undisturbed batch of more events than the queue holds is not delivered, and the subscriber is there all the
time. -/
theorem not_delivers_many (matched : forwards none event = true) {count : Nat} (many : channelBound < count)
    (visits : Visits) :
    let actions : List HubAction := .dispatch visits (List.replicate count event) :: List.replicate count .advance
    (∀ steps, ((registered .new none []).run (actions.take steps)).Serves 1 none 0) ∧
      ¬ ((registered .new none []).run actions).Delivers 1 none 0 := by
  intro actions
  have serves : (registered .new none []).Serves 1 none 0 := ⟨List.mem_cons_self, _, rfl, rfl⟩
  have alone : visits.arrange (registered .new none []).hub.subscribers = [(1, ⟨none, 0⟩)] :=
    List.perm_singleton.mp (visits.perm _)
  have begun : (registered .new none []).step (.dispatch visits (List.replicate count event)) =
      ⟨(registered .new none []).hub, some [((1, ⟨none, 0⟩), List.replicate count event)], [],
        List.replicate count event⟩ := by
    have nonempty : ¬ List.replicate count event = [] := by
      intro empty
      have lengths := congrArg List.length empty
      rw [List.length_replicate] at lengths
      exact absurd many (lengths ▸ Nat.not_lt_zero _)
    have free : (registered .new none []).dispatch = none := rfl
    rw [Hall.step, locking, free]
    dsimp only
    rw [alone, if_neg nonempty]
    rfl
  have follows : ∀ rest, (registered .new none []).run (.dispatch visits (List.replicate count event) :: rest) =
      (Hall.mk (registered .new none []).hub (some [((1, ⟨none, 0⟩), List.replicate count event)]) []
        (List.replicate count event)).run rest := by
    intro rest
    rw [← begun]
    rfl
  constructor
  · intro steps
    cases steps with
    | zero => exact serves
    | succ steps =>
        rw [List.take_succ_cons, List.take_replicate, follows]
        have busy : (Hall.mk (registered .new none []).hub (some [((1, ⟨none, 0⟩), List.replicate count event)]) []
            (List.replicate count event)).Serves 1 none 0 := serves
        exact busy.run _
  · intro delivers
    have offered := @run_offer _ (Hall.mk (registered .new none []).hub
      (some [((1, ⟨none, 0⟩), List.replicate count event)]) [] (List.replicate count event)) [] (1, ⟨none, 0⟩)
      (List.replicate count event) Channel.new rfl rfl rfl
    rw [List.length_replicate] at offered
    obtain ⟨holds, log, sent⟩ := offered
    rw [follows] at delivers
    obtain ⟨channel, present, all⟩ := delivers
    obtain rfl := Option.some.inj (sent.symm.trans present)
    have records : liveRecords 1 none (List.replicate count event) = List.replicate count (liveRecord 1 event) := by
      rw [liveRecords, List.filter_replicate, if_pos matched, List.map_replicate]
    rw [ahead_cons holds, log, records, ite_self, offer_open rfl, records, List.take_replicate] at all
    have lengths := congrArg List.length all
    have few : min (channelBound - Channel.new.waiting) count ≤ channelBound :=
      (Nat.min_le_left _ _).trans (Nat.sub_le _ _)
    change (([] : List LiveEventRecord) ++ List.replicate _ _ ++ _).length = _ at lengths
    rw [List.nil_append, List.length_append, List.length_replicate, List.length_replicate] at lengths
    have nothing : (liveRecords 1 none (([] : List StoredEvent) ++
        (([] : List Errand).filter fun errand => errand.1.2.sender = 0).flatMap Prod.snd)).length = 0 := rfl
    omega

end Undisturbed

end Hall

omit [Binary64] in
/-- One event is dispatched to a subscriber and taken from its queue. -/
theorem live_dispatch_sample :
    letI := Binary64.exact
    let actions : List HubAction := [.dispatch ⟨id, fun _ => List.Perm.refl _⟩ [firstEvent], .advance, .receive 0]
    (∀ count, ((Hall.registered .new none []).run (actions.take count)).Delivers 1 none 0) ↔
      (Hall.registered .new none []).AlwaysRoom 0 actions := by
  let := Binary64.exact
  intro actions
  apply Hall.live_dispatch_lossless_iff .new none [] actions
  intro count
  match count with
  | 0 => exact ⟨List.mem_cons_self, _, rfl, rfl⟩
  | 1 => exact ⟨List.mem_cons_self, _, rfl, rfl⟩
  | 2 => exact ⟨List.mem_cons_self, _, rfl, rfl⟩
  | count + 3 =>
      have all : actions.take (count + 3) = actions := List.take_of_length_le (Nat.le_add_left 3 count)
      rw [all]
      exact ⟨List.mem_cons_self, _, rfl, rfl⟩

omit [Binary64] in
/-- A batch of one event more than the queue holds loses its last event, though the subscriber is there all the time. -/
theorem live_dispatch_loses_an_event :
    letI := Binary64.exact
    let actions : List HubAction := .dispatch ⟨id, fun _ => List.Perm.refl _⟩ (List.replicate 1025 firstEvent) ::
      List.replicate 1025 .advance
    (∀ count, ((Hall.registered .new none []).run (actions.take count)).Serves 1 none 0) ∧
      ¬ ((Hall.registered .new none []).run actions).Delivers 1 none 0 := by
  let := Binary64.exact
  exact Hall.not_delivers_many rfl (by decide) ⟨id, fun _ => List.Perm.refl _⟩

end Temnion.Protocol
