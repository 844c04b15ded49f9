/-
# Hyperliquid.Ingress -- the keep-latest buffer between the socket and the bus

A connection's reader offers market data, its drain publishes it.  The buffer
holds one value for each stream of each symbol: an offer under a key that is
still pending replaces the value there, names the one it dropped, and files the
key last again.

The two coroutines meet only where one of them suspends, so a run is a list of
moves: the reader offers or closes, the drain runs from the await it stands at to
its next one, or the publish it awaits raises.  A call of `offer` is told from
every other by its number, since two events may be equal.

* `conflates`: over any run, what is published of a key is a subsequence of what
  was offered of it; every offered event is published, pending or dropped, once
  and only once, and a drop is always for a later event of the same key; nothing
  is pending when the drain has returned or is parked.
* `drain_returns`: a closed buffer is emptied and the drain returns, as soon as
  its publishes do.
* `shares_turns`: no key is published twice while another waits, in every run in
  which no offer replaces the waiting value of a key that has already been
  overtaken by one behind it.  `overtaken_starves` is the other direction: after
  such an offer the drain, left to itself, publishes the other key again first.
-/
import Tickwright.Feed.Ticks
import Tickwright.Theory.Dict
import Tickwright.Theory.Machine

namespace Tickwright.Hyperliquid

open Tickwright.Domain Tickwright.Theory

set_option autoImplicit false

/-! ## The buffer -/

abbrev Key := Feed.Stream × Symbol

/-- The event one call of `offer` brought, and the number of the call. -/
structure Offered where
  nth : ℕ
  event : Feed.MarketData
deriving DecidableEq

/-- The key the buffer holds it under. -/
def Offered.key (offered : Offered) : Key := offered.event.key

/-- One `feed.lagged`: the event it names, and the event that replaced it. -/
structure Lagged where
  dropped : Offered
  newer : Offered
deriving DecidableEq

/-- The fields a `feed.lagged` line carries. -/
structure FeedLagged where
  symbol : Symbol
  eventId : String
  stream : String
deriving DecidableEq

def Lagged.fields (lagged : Lagged) : FeedLagged where
  symbol := lagged.dropped.event.symbol
  eventId := lagged.dropped.event.eventId
  stream := lagged.dropped.event.stream.name

/-- `ConflatingIngress`: the pending events in the order they will be published,
the wake event's flag, and whether the reader has closed. -/
structure ConflatingIngress where
  pending : Dict Key Offered := Dict.empty
  wake : Bool := false
  closed : Bool := false

namespace ConflatingIngress

/-- `offer`: fold one event in, and name the pending one it supersedes. -/
def offer (ingress : ConflatingIngress) (offered : Offered) :
    ConflatingIngress × Option Lagged :=
  ({ ingress with pending := ingress.pending.refile offered.key offered, wake := true },
    (ingress.pending.get offered.key).map fun dropped => ⟨dropped, offered⟩)

/-- `close`: no more events will come. -/
def close (ingress : ConflatingIngress) : ConflatingIngress :=
  { ingress with closed := true, wake := true }

end ConflatingIngress

/-! ## The two coroutines -/

/-- Where the drain stands: not yet run, inside a publish, on the wake event, or
over. -/
inductive Drain
  | ready
  | publishing (offered : Offered)
  | waiting
  | returned
  | failed
deriving DecidableEq

/-- A publish as it began: its event, and the keys that were left waiting. -/
structure Start where
  offered : Offered
  behind : List Key
deriving DecidableEq

/-- One connection: its buffer and its drain, with everything offered, every
publish begun and every drop named so far. -/
structure Connection where
  ingress : ConflatingIngress := {}
  drain : Drain := .ready
  offers : List Offered := []
  starts : List Start := []
  lagged : List Lagged := []

namespace Connection

/-- The events published, in order. -/
def published (conn : Connection) : List Offered := conn.starts.map Start.offered

/-- The next call of `offer`. -/
def call (conn : Connection) (event : Feed.MarketData) : Offered := ⟨conn.offers.length, event⟩

@[simp] theorem call_nth (conn : Connection) (event : Feed.MarketData) :
    (conn.call event).nth = conn.offers.length := rfl

@[simp] theorem call_key (conn : Connection) (event : Feed.MarketData) :
    (conn.call event).key = event.key := rfl

/-- The reader offers one event. -/
def offer (conn : Connection) (event : Feed.MarketData) : Connection :=
  let offered := conn.call event
  let (ingress, dropped) := conn.ingress.offer offered
  { conn with
    ingress := ingress
    offers := conn.offers ++ [offered]
    lagged := conn.lagged ++ dropped.toList }

/-- `drain`, from the await it stands at to the next: publish the first pending
event, or return once closed, or clear the flag and wait. -/
def turn (conn : Connection) : Connection :=
  match conn.ingress.pending.entries with
  | (key, offered) :: _ =>
      let pending := conn.ingress.pending.erase key
      { conn with
        ingress := { conn.ingress with pending := pending }
        drain := .publishing offered
        starts := conn.starts ++ [⟨offered, pending.keys⟩] }
  | [] =>
      if conn.ingress.closed then { conn with drain := .returned }
      else { conn with ingress := { conn.ingress with wake := false }, drain := .waiting }

/-- The drain has something to run on: a first turn, a publish that returns, or a
wake event that is set. -/
def runnable (conn : Connection) : Bool :=
  match conn.drain with
  | .ready | .publishing _ => true
  | .waiting => conn.ingress.wake
  | .returned | .failed => false

/-- The drain sleeps on its wake event, and nothing has set it. -/
def Parked (conn : Connection) : Prop := conn.drain = .waiting ∧ conn.ingress.wake = false

end Connection

/-- One move of a connection's run. -/
inductive Move
  | offer (event : Feed.MarketData)
  | close
  | turn
  | fault

/-- The event a move offers. -/
def Move.offered : Move → Option Feed.MarketData
  | .offer event => some event
  | .close | .turn | .fault => none

/-- **The reader and the drain of one connection.**  The reader closes once, after
its last offer; a publish may raise, and the drain ends with it. -/
def connection : Machine Connection Move where
  step conn move :=
    match move with
    | .offer event => if conn.ingress.closed then none else some (conn.offer event)
    | .close =>
        if conn.ingress.closed then none
        else some { conn with ingress := conn.ingress.close }
    | .turn => if conn.runnable then some conn.turn else none
    | .fault =>
        match conn.drain with
        | .publishing _ => some { conn with drain := .failed }
        | _ => none

/-! ## What one move does -/

/-- The connection after a turn that found something to publish. -/
def Connection.publishes (conn : Connection) (offered : Offered) : Connection :=
  { conn with
    ingress := { conn.ingress with pending := conn.ingress.pending.erase offered.key }
    drain := .publishing offered
    starts := conn.starts ++ [⟨offered, (conn.ingress.pending.erase offered.key).keys⟩] }

/-- What keeps: every entry is filed under its own key. -/
def Filed (conn : Connection) : Prop :=
  ∀ entry ∈ conn.ingress.pending.entries, entry.1 = entry.2.key

theorem connection_cases {conn after : Connection} {move : Move}
    (moved : connection.step conn move = some after) :
    (∃ event, move = .offer event ∧ conn.ingress.closed = false ∧ after = conn.offer event) ∨
    (move = .close ∧ conn.ingress.closed = false ∧
      after = { conn with ingress := conn.ingress.close }) ∨
    (move = .turn ∧ conn.runnable = true ∧ after = conn.turn) ∨
    (∃ offered, move = .fault ∧ conn.drain = .publishing offered ∧
      after = { conn with drain := .failed }) := by
  cases move with
  | offer event =>
      cases shut : conn.ingress.closed <;> simp [connection, shut] at moved
      exact .inl ⟨event, rfl, rfl, moved.symm⟩
  | close =>
      cases shut : conn.ingress.closed <;> simp [connection, shut] at moved
      exact .inr (.inl ⟨rfl, rfl, moved.symm⟩)
  | turn =>
      cases able : conn.runnable <;> simp [connection, able] at moved
      exact .inr (.inr (.inl ⟨rfl, rfl, moved.symm⟩))
  | fault =>
      cases stands : conn.drain with
      | publishing offered =>
          simp [connection, stands] at moved
          exact .inr (.inr (.inr ⟨offered, rfl, rfl, moved.symm⟩))
      | _ => simp [connection, stands] at moved

theorem filed_offer {conn : Connection} (filed : Filed conn) (event : Feed.MarketData) :
    Filed (conn.offer event) := by
  intro entry member
  simp only [Connection.offer, ConflatingIngress.offer, Dict.entries_refile, List.mem_append,
    List.mem_singleton] at member
  rcases member with there | rfl
  · exact filed entry (List.mem_of_mem_filter there)
  · rfl

theorem turn_cases {conn : Connection} (filed : Filed conn) :
    (∃ offered rest, conn.ingress.pending.entries = (offered.key, offered) :: rest ∧
      conn.turn = conn.publishes offered) ∨
    (conn.ingress.pending.entries = [] ∧ conn.ingress.closed = true ∧
      conn.turn = { conn with drain := .returned }) ∨
    (conn.ingress.pending.entries = [] ∧ conn.ingress.closed = false ∧
      conn.turn =
        { conn with ingress := { conn.ingress with wake := false }, drain := .waiting }) := by
  cases held : conn.ingress.pending.entries with
  | nil =>
      cases shut : conn.ingress.closed with
      | true => exact .inr (.inl ⟨rfl, rfl, by simp [Connection.turn, held, shut]⟩)
      | false => exact .inr (.inr ⟨rfl, rfl, by simp [Connection.turn, held, shut]⟩)
  | cons entry rest =>
      obtain ⟨key, offered⟩ := entry
      have own : key = offered.key := filed (key, offered) (by simp [held])
      subst own
      exact .inl ⟨offered, rest, rfl, by simp [Connection.turn, Connection.publishes, held]⟩

/-! ## Nothing is lost but what a later value replaced -/

/-- What has been published of a key, and what is pending of it. -/
def Connection.ofKey (conn : Connection) (key : Key) : List Offered :=
  conn.published.filter (fun offered => offered.key = key) ++
    (conn.ingress.pending.get key).toList

/-- What has been offered of a key. -/
def Connection.offersOf (conn : Connection) (key : Key) : List Offered :=
  conn.offers.filter fun offered => offered.key = key

/-- What every move keeps. -/
structure Accounted (conn : Connection) : Prop where
  filed : Filed conn
  numbered : conn.offers.map Offered.nth = List.range conn.offers.length
  placed : conn.offers.Perm
    (conn.published ++ conn.ingress.pending.values ++ conn.lagged.map Lagged.dropped)
  inOrder : ∀ key, (conn.ofKey key).Sublist (conn.offersOf key)
  replaced : ∀ lagged ∈ conn.lagged, lagged.newer ∈ conn.offers ∧
    lagged.dropped.key = lagged.newer.key ∧ lagged.dropped.nth < lagged.newer.nth
  ended : conn.drain = .returned → conn.ingress.closed = true ∧ conn.ingress.pending.entries = []
  parked : conn.Parked → conn.ingress.closed = false ∧ conn.ingress.pending.entries = []

theorem accounted_start : Accounted {} where
  filed := by intro entry member; simp [Dict.empty] at member
  numbered := rfl
  placed := List.Perm.refl _
  inOrder _ := List.Sublist.refl _
  replaced := by simp
  ended := by simp
  parked := by simp [Connection.Parked]

variable {conn : Connection}

theorem published_publishes (offered : Offered) :
    (conn.publishes offered).published = conn.published ++ [offered] := by
  simp [Connection.publishes, Connection.published]

/-- An offer files its event last of its key, and leaves the other keys as they are. -/
theorem ofKey_offer (event : Feed.MarketData) (key : Key) :
    (conn.offer event).ofKey key =
      if event.key = key then
        conn.published.filter (fun offered => offered.key = key) ++ [conn.call event]
      else conn.ofKey key := by
  simp only [Connection.ofKey, Connection.offer, ConflatingIngress.offer, Dict.get_refile,
    Connection.call_key]
  split <;> rfl

theorem offersOf_offer (event : Feed.MarketData) (key : Key) :
    (conn.offer event).offersOf key =
      conn.offersOf key ++ if event.key = key then [conn.call event] else [] := by
  simp only [Connection.offersOf, Connection.offer, List.filter_append, List.filter_singleton,
    Connection.call_key]
  split <;> simp_all

/-- **A publish moves an event from pending to published**, at the same place. -/
theorem ofKey_publishes {offered : Offered} {rest : List (Key × Offered)}
    (front : conn.ingress.pending.entries = (offered.key, offered) :: rest) (key : Key) :
    (conn.publishes offered).ofKey key = conn.ofKey key := by
  have there : conn.ingress.pending.get offered.key = some offered := by
    rw [Dict.get_eq_some, front]
    exact List.mem_cons_self
  simp only [Connection.ofKey, published_publishes, List.filter_append]
  by_cases same : offered.key = key
  · subst same
    simp [Connection.publishes, there]
  · simp [Connection.publishes, same, Dict.get_erase_ne _ same]

namespace Accounted

theorem mem_offers (sound : Accounted conn) {offered : Offered}
    (somewhere : offered ∈
      conn.published ++ conn.ingress.pending.values ++ conn.lagged.map Lagged.dropped) :
    offered ∈ conn.offers := sound.placed.mem_iff.mpr somewhere

theorem nth_lt (sound : Accounted conn) {offered : Offered} (there : offered ∈ conn.offers) :
    offered.nth < conn.offers.length := by
  have listed := List.mem_map_of_mem (f := Offered.nth) there
  rwa [sound.numbered, List.mem_range] at listed

/-- No call of `offer` is counted twice. -/
theorem nodup (sound : Accounted conn) : conn.offers.Nodup := by
  have numbers : (conn.offers.map Offered.nth).Nodup := by
    rw [sound.numbered]
    exact List.nodup_range
  exact numbers.of_map _

end Accounted

theorem accounted_offer (event : Feed.MarketData) (sound : Accounted conn)
    (opened : conn.ingress.closed = false) : Accounted (conn.offer event) where
  filed := filed_offer sound.filed event
  numbered := by
    simp [Connection.offer, sound.numbered, List.range_succ]
  placed := by
    have taken := Dict.values_erase_perm conn.ingress.pending event.key
    have dropped : (conn.offer event).lagged.map Lagged.dropped =
        conn.lagged.map Lagged.dropped ++ (conn.ingress.pending.get event.key).toList := by
      simp only [Connection.offer, ConflatingIngress.offer, List.map_append, Connection.call_key]
      cases conn.ingress.pending.get event.key <;> rfl
    have values : (conn.offer event).ingress.pending.values =
        (conn.ingress.pending.erase event.key).values ++ [conn.call event] :=
      Dict.values_refile ..
    rw [dropped, values]
    show (conn.offers ++ [conn.call event]).Perm (conn.published ++ _ ++ _)
    refine (sound.placed.append_right _).trans (List.perm_iff_count.mpr fun offered => ?_)
    have counted := taken.count_eq offered
    simp only [List.count_append] at counted ⊢
    omega
  inOrder key := by
    rw [ofKey_offer, offersOf_offer]
    have before := sound.inOrder key
    split
    · exact List.Sublist.append ((List.sublist_append_left _ _).trans before) (.refl _)
    · simpa using before
  replaced := by
    intro lagged named
    simp only [Connection.offer, ConflatingIngress.offer, List.mem_append, Option.mem_toList,
      Option.map_eq_some_iff] at named
    rcases named with old | ⟨dropped, pending, rfl⟩
    · obtain ⟨there, rest⟩ := sound.replaced lagged old
      exact ⟨List.mem_append_left _ there, rest⟩
    · have own := sound.filed _ ((Dict.get_eq_some _ _ _).mp pending)
      have offered : dropped ∈ conn.offers :=
        sound.mem_offers (List.mem_append_left _ (List.mem_append_right _
          ((Dict.mem_values _ _).mpr ⟨_, pending⟩)))
      exact ⟨List.mem_append_right _ List.mem_cons_self, own.symm, sound.nth_lt offered⟩
  ended := by
    intro returned
    have shut := (sound.ended returned).1
    rw [opened] at shut
    cases shut
  parked := by
    rintro ⟨-, unset⟩
    simp [Connection.offer, ConflatingIngress.offer] at unset

theorem accounted_publishes {offered : Offered} {rest : List (Key × Offered)}
    (sound : Accounted conn)
    (front : conn.ingress.pending.entries = (offered.key, offered) :: rest) :
    Accounted (conn.publishes offered) := by
  have left : (conn.publishes offered).ingress.pending.entries = rest :=
    Dict.entries_erase_head front
  refine { sound with filed := ?_, placed := ?_, inOrder := ?_, ended := ?_, parked := ?_ }
  · intro entry member
    rw [left] at member
    exact sound.filed entry (front ▸ List.mem_cons_of_mem _ member)
  · have held : conn.ingress.pending.values = offered :: rest.map Prod.snd := by
      simp [Dict.values, front]
    have kept : (conn.publishes offered).ingress.pending.values = rest.map Prod.snd := by
      simp [Dict.values, left]
    rw [published_publishes, kept, List.append_assoc conn.published, List.singleton_append, ← held]
    exact sound.placed
  · intro key
    rw [ofKey_publishes front]
    exact sound.inOrder key
  · simp [Connection.publishes]
  · simp [Connection.Parked, Connection.publishes]

theorem accounted_turn (sound : Accounted conn) : Accounted conn.turn := by
  obtain ⟨offered, rest, front, turned⟩ | ⟨bare, shut, turned⟩ | ⟨bare, opened, turned⟩ :=
    turn_cases sound.filed
  · rw [turned]
    exact accounted_publishes sound front
  · rw [turned]
    exact { sound with
      ended := fun _ => ⟨shut, bare⟩
      parked := fun parked => by simp [Connection.Parked] at parked }
  · rw [turned]
    exact { sound with
      ended := fun ended => by simp at ended
      parked := fun _ => ⟨opened, bare⟩ }

/-- **Every move keeps the account of the offers.** -/
theorem accounted_step {after : Connection} {move : Move} (sound : Accounted conn)
    (moved : connection.step conn move = some after) : Accounted after := by
  obtain ⟨event, rfl, opened, rfl⟩ | ⟨rfl, opened, rfl⟩ | ⟨rfl, able, rfl⟩ |
    ⟨offered, rfl, publishing, rfl⟩ := connection_cases moved
  · exact accounted_offer event sound opened
  · exact { sound with
      ended := fun ended => ⟨rfl, (sound.ended ended).2⟩
      parked := fun parked => by simp [Connection.Parked, ConflatingIngress.close] at parked }
  · exact accounted_turn sound
  · exact { sound with
      ended := fun ended => by simp at ended
      parked := fun parked => by simp [Connection.Parked] at parked }

theorem accounted_run {after : Connection} {moves : List Move}
    (ran : connection.run {} moves = some after) : Accounted after :=
  Machine.run_induct Accounted accounted_step accounted_start ran

theorem offers_step {after : Connection} {move : Move}
    (moved : connection.step conn move = some after) :
    after.offers.map Offered.event = conn.offers.map Offered.event ++ move.offered.toList := by
  obtain ⟨event, rfl, -, rfl⟩ | ⟨rfl, -, rfl⟩ | ⟨rfl, -, rfl⟩ | ⟨offered, rfl, -, rfl⟩ :=
    connection_cases moved
  · simp [Connection.offer, Move.offered, Connection.call]
  · simp [Move.offered]
  · simp only [Connection.turn, Move.offered, Option.toList_none, List.append_nil]
    split
    · rfl
    · split <;> rfl
  · simp [Move.offered]

theorem offers_run {after : Connection} {moves : List Move}
    (ran : connection.run conn moves = some after) :
    after.offers.map Offered.event =
      conn.offers.map Offered.event ++ moves.filterMap Move.offered := by
  induction moves generalizing conn with
  | nil =>
      cases ran
      simp
  | cons move rest ih =>
      obtain ⟨next, moved, tail⟩ := Machine.run_cons_eq_some.mp ran
      rw [ih tail, offers_step moved, List.append_assoc, List.filterMap_cons]
      cases move.offered <;> rfl

/-- **Only superseded values are lost.**  The events offered are the calls of
`offer`, in order, none the same call twice.  Of each key, what is published is a
subsequence of what was offered.  Each call's event is published, pending or
named by a drop, once in all; a drop names an event of the key and an earlier
call than the one that replaced it.  When the drain has returned nothing is
pending and the last event of each key was published, and nothing is pending
while it is parked. -/
theorem conflates {moves : List Move} {conn : Connection}
    (ran : connection.run {} moves = some conn) :
    conn.offers.map Offered.event = moves.filterMap Move.offered ∧ conn.offers.Nodup ∧
    (∀ key, (conn.published.filter fun offered => offered.key = key).Sublist
      (conn.offers.filter fun offered => offered.key = key)) ∧
    (∀ offered ∈ conn.offers,
      conn.published.count offered + conn.ingress.pending.values.count offered +
        (conn.lagged.map Lagged.dropped).count offered = 1) ∧
    (∀ lagged ∈ conn.lagged, lagged.newer ∈ conn.offers ∧
      lagged.dropped.key = lagged.newer.key ∧ lagged.dropped.nth < lagged.newer.nth) ∧
    (conn.drain = .returned → conn.ingress.pending.values = [] ∧
      ∀ offered ∈ conn.offers,
        (∀ other ∈ conn.offers, other.key = offered.key → other.nth ≤ offered.nth) →
        offered ∈ conn.published) ∧
    (conn.Parked → conn.ingress.pending.values = []) := by
  have sound := accounted_run ran
  refine ⟨by simpa using offers_run ran, sound.nodup, fun key => ?_, fun offered there => ?_,
    sound.replaced, fun ended => ?_, fun parked => ?_⟩
  · exact (List.sublist_append_left _ _).trans (sound.inOrder key)
  · have once := List.count_eq_one_of_mem sound.nodup there
    rw [sound.placed.count_eq] at once
    simpa only [List.count_append] using once
  · have bare := (sound.ended ended).2
    have nothing : conn.ingress.pending.values = [] := by simp [Dict.values, bare]
    refine ⟨nothing, fun offered there last => ?_⟩
    have somewhere := sound.placed.mem_iff.mp there
    rw [nothing, List.append_nil, List.mem_append] at somewhere
    rcases somewhere with published | dropped
    · exact published
    · obtain ⟨lagged, named, rfl⟩ := List.mem_map.mp dropped
      obtain ⟨newer, key, later⟩ := sound.replaced lagged named
      have atMost := last _ newer key.symm
      omega
  · simp [Dict.values, (sound.parked parked).2]

theorem turn_step (able : conn.runnable = true) :
    connection.step conn .turn = some conn.turn := by
  simp [connection, able]

/-- A drain that is neither over nor parked can go on. -/
theorem runnable_of_going (going : conn.drain ≠ .returned ∧ conn.drain ≠ .failed)
    (awake : ¬conn.Parked) : conn.runnable = true := by
  cases stands : conn.drain with
  | ready | publishing _ => simp [Connection.runnable, stands]
  | waiting =>
      cases flag : conn.ingress.wake with
      | true => simp [Connection.runnable, stands, flag]
      | false => exact absurd ⟨stands, flag⟩ awake
  | returned => exact absurd stands going.1
  | failed => exact absurd stands going.2

/-- **A closed buffer is emptied and the drain returns**, in one turn more than
there are events pending. -/
theorem drain_returns (sound : Accounted conn) (shut : conn.ingress.closed = true)
    (going : conn.drain ≠ .returned ∧ conn.drain ≠ .failed) :
    ∃ after, connection.run conn
        (List.replicate (conn.ingress.pending.entries.length + 1) .turn) = some after ∧
      after.drain = .returned := by
  generalize size : conn.ingress.pending.entries.length = n
  induction n generalizing conn with
  | zero =>
      have awake : ¬conn.Parked := fun parked => by simp [(sound.parked parked).1] at shut
      have bare := List.length_eq_zero_iff.mp size
      refine ⟨conn.turn, ?_, ?_⟩
      · simp [Machine.run, turn_step (runnable_of_going going awake)]
      · simp [Connection.turn, bare, shut]
  | succ n ih =>
      have awake : ¬conn.Parked := fun parked => by simp [(sound.parked parked).1] at shut
      obtain ⟨offered, rest, front, turned⟩ | ⟨bare, -⟩ | ⟨bare, -⟩ := turn_cases sound.filed
      · have next := accounted_publishes sound front
        have fewer : (conn.publishes offered).ingress.pending.entries.length = n := by
          rw [front, List.length_cons] at size
          simp only [Connection.publishes, Dict.entries_erase_head front]
          omega
        obtain ⟨after, ran, ended⟩ := ih next shut (by simp [Connection.publishes]) fewer
        refine ⟨after, ?_, ended⟩
        rw [List.replicate_succ, Machine.run_cons_eq_some]
        exact ⟨_, turned ▸ turn_step (runnable_of_going going awake), ran⟩
      · simp [bare] at size
      · simp [bare] at size

/-! ## Whose turn it is -/

def Start.key (start : Start) : Key := start.offered.key

/-- Between two publishes of one key, every key that was waiting when the first
began was published. -/
def SharesTurns (starts : List Start) : Prop :=
  ∀ before first between second after,
    starts = before ++ first :: (between ++ second :: after) → second.key = first.key →
    ∀ key ∈ first.behind, ∃ start ∈ between, start.key = key

/-- `other` was published while `key` waited, and `key` has not been since. -/
def Overtaken (starts : List Start) (key other : Key) : Prop :=
  ∃ before start after, starts = before ++ start :: after ∧ start.key = other ∧
    key ∈ start.behind ∧ ∀ later ∈ after, later.key ≠ key

/-- An offer leaves the waiting value of its key where it is safe to: under a key
that nothing is pending for, or that no other pending key has overtaken. -/
def KeepsTurn (conn : Connection) : Move → Prop
  | .offer event => event.key ∈ conn.ingress.pending.keys →
      ∀ other ∈ conn.ingress.pending.keys, ¬Overtaken conn.starts event.key other
  | .close | .turn | .fault => True

/-- What keeps the turns: a key that was overtaken is pending, and ahead of the
key that overtook it. -/
structure InTurn (conn : Connection) : Prop where
  shares : SharesTurns conn.starts
  waits : ∀ {key other}, Overtaken conn.starts key other → key ∈ conn.ingress.pending.keys
  ahead : ∀ {key other}, Overtaken conn.starts key other → other ∈ conn.ingress.pending.keys →
    [key, other].Sublist conn.ingress.pending.keys

theorem not_overtaken_nil {key other : Key} : ¬Overtaken [] key other := by
  rintro ⟨before, start, after, split, -⟩
  cases before <;> simp at split

/-- One more publish settles what it overtook and what it no longer keeps waiting. -/
theorem overtaken_append {starts : List Start} {start : Start} {key other : Key} :
    Overtaken (starts ++ [start]) key other ↔
      (start.key = other ∧ key ∈ start.behind) ∨
      (Overtaken starts key other ∧ start.key ≠ key) := by
  constructor
  · rintro ⟨before, first, after, split, named, waiting, since⟩
    rcases List.eq_nil_or_concat after with rfl | ⟨between, last, rfl⟩
    · have parts := List.append_inj' split rfl
      simp only [List.cons.injEq, and_true] at parts
      obtain ⟨rfl, rfl⟩ := parts
      exact .inl ⟨named, waiting⟩
    · have parts : starts = before ++ first :: between ∧ [start] = [last] :=
        List.append_inj' (by simpa using split) rfl
      simp only [List.cons.injEq, and_true] at parts
      obtain ⟨rfl, rfl⟩ := parts
      refine .inr ⟨⟨before, first, between, rfl, named, waiting, fun later member => ?_⟩, ?_⟩
      · exact since later (by simp [member])
      · exact since start (by simp)
  · rintro (⟨named, waiting⟩ | ⟨⟨before, first, after, rfl, named, waiting, since⟩, passed⟩)
    · exact ⟨starts, start, [], rfl, named, waiting, by simp⟩
    · refine ⟨before, first, after ++ [start], by simp, named, waiting, fun later member => ?_⟩
      rcases List.mem_append.mp member with old | new
      · exact since later old
      · rw [List.mem_singleton.mp new]
        exact passed

/-- A publish breaks no turn when no waiting key was overtaken by it before. -/
theorem sharesTurns_append {starts : List Start} {start : Start} (shares : SharesTurns starts)
    (due : ∀ key, ¬Overtaken starts key start.key) : SharesTurns (starts ++ [start]) := by
  intro before first between second after split same key waiting
  rcases List.eq_nil_or_concat after with rfl | ⟨rest, last, rfl⟩
  · have parts : starts = before ++ first :: between ∧ [start] = [second] :=
      List.append_inj' (by simpa using split) rfl
    simp only [List.cons.injEq, and_true] at parts
    obtain ⟨rfl, rfl⟩ := parts
    by_contra starved
    push Not at starved
    exact due key ⟨before, first, between, rfl, same.symm, waiting, starved⟩
  · have parts : starts = before ++ first :: (between ++ second :: rest) ∧ [start] = [last] :=
      List.append_inj' (by simpa using split) rfl
    exact shares before first between second rest parts.1 same key waiting

theorem keys_offer (event : Feed.MarketData) :
    (conn.offer event).ingress.pending.keys =
      (conn.ingress.pending.keys.filter fun key => decide (key ≠ event.key)) ++ [event.key] :=
  Dict.keys_refile ..

theorem inTurn_start : InTurn {} where
  shares := by
    intro before first between second after split
    cases before <;> simp at split
  waits overtaken := absurd overtaken not_overtaken_nil
  ahead overtaken := absurd overtaken not_overtaken_nil

theorem inTurn_offer {event : Feed.MarketData} (inTurn : InTurn conn)
    (safe : KeepsTurn conn (.offer event)) : InTurn (conn.offer event) := by
  refine ⟨inTurn.shares, fun {key other} overtaken => ?_, fun {key other} overtaken there => ?_⟩
  · have waiting := inTurn.waits overtaken
    rw [keys_offer]
    by_cases same : key = event.key
    · simp [same]
    · simp [same, waiting]
  · have waiting := inTurn.waits overtaken
    rw [keys_offer] at there ⊢
    by_cases moved : key = event.key
    · -- a waiting key gives up its place only while nothing that overtook it is pending
      subst moved
      have pending : other ∈ conn.ingress.pending.keys := by
        rcases List.mem_append.mp there with old | new
        · exact List.mem_of_mem_filter old
        · rwa [List.mem_singleton.mp new]
      exact absurd overtaken (safe waiting other pending)
    · have kept : [key].Sublist
          (conn.ingress.pending.keys.filter fun k => decide (k ≠ event.key)) :=
        List.singleton_sublist.mpr (by simp [waiting, moved])
      by_cases newest : other = event.key
      · rw [newest]
        exact List.Sublist.append kept (.refl _)
      · have pending : other ∈ conn.ingress.pending.keys := by
          rcases List.mem_append.mp there with old | new
          · exact List.mem_of_mem_filter old
          · exact absurd (List.mem_singleton.mp new) newest
        have order := (inTurn.ahead overtaken pending).filter fun k => decide (k ≠ event.key)
        rw [List.filter_eq_self.mpr (by simp [moved, newest])] at order
        exact order.trans (List.sublist_append_left _ _)

theorem inTurn_publishes {offered : Offered} {rest : List (Key × Offered)}
    (inTurn : InTurn conn)
    (front : conn.ingress.pending.entries = (offered.key, offered) :: rest) :
    InTurn (conn.publishes offered) := by
  have before : conn.ingress.pending.keys = offered.key :: rest.map Prod.fst := by
    simp [Dict.keys, front]
  have left : (conn.ingress.pending.erase offered.key).keys = rest.map Prod.fst := by
    simp [Dict.keys, Dict.entries_erase_head front]
  have nodup : offered.key ∉ rest.map Prod.fst := by
    have nodup := conn.ingress.pending.keys_nodup
    rw [before, List.nodup_cons] at nodup
    exact nodup.1
  refine ⟨sharesTurns_append inTurn.shares fun key overtaken => ?_,
    fun {key other} overtaken => ?_, fun {key other} overtaken there => ?_⟩
  · -- a key it overtook is ahead of it, and nothing is ahead of the first
    have order := inTurn.ahead overtaken (by simp [before, Start.key])
    rw [before] at order
    rcases List.sublist_cons_iff.mp order with tail | ⟨tail, split, tailed⟩
    · exact nodup (tail.subset (by simp [Start.key]))
    · rw [List.cons.injEq] at split
      obtain ⟨rfl, rfl⟩ := split
      exact nodup (List.singleton_sublist.mp tailed)
  · show key ∈ (conn.ingress.pending.erase offered.key).keys
    rcases overtaken_append.mp overtaken with ⟨-, waiting⟩ | ⟨old, passed⟩
    · exact waiting
    · have waiting := inTurn.waits old
      rw [before, List.mem_cons] at waiting
      rw [left]
      exact waiting.resolve_left (Ne.symm passed)
  · have there : other ∈ (conn.ingress.pending.erase offered.key).keys := there
    show [key, other].Sublist (conn.ingress.pending.erase offered.key).keys
    rw [left] at there ⊢
    rcases overtaken_append.mp overtaken with ⟨named, -⟩ | ⟨old, passed⟩
    · have same : offered.key = other := named
      exact absurd (same ▸ there) nodup
    · have order := inTurn.ahead old (by simp [before, there])
      rw [before] at order
      rcases List.sublist_cons_iff.mp order with tail | ⟨tail, split, -⟩
      · exact tail
      · rw [List.cons.injEq] at split
        exact absurd split.1.symm passed

/-- **An offer that leaves overtaken keys their place keeps the turns.** -/
theorem inTurn_step {after : Connection} {move : Move} (filed : Filed conn)
    (inTurn : InTurn conn) (safe : KeepsTurn conn move)
    (moved : connection.step conn move = some after) : InTurn after := by
  obtain ⟨event, rfl, -, rfl⟩ | ⟨rfl, -, rfl⟩ | ⟨rfl, -, rfl⟩ | ⟨offered, rfl, -, rfl⟩ :=
    connection_cases moved
  · exact inTurn_offer inTurn safe
  · exact ⟨inTurn.shares, inTurn.waits, inTurn.ahead⟩
  · obtain ⟨offered, rest, front, turned⟩ | ⟨-, -, turned⟩ | ⟨-, -, turned⟩ := turn_cases filed
    · rw [turned]
      exact inTurn_publishes inTurn front
    · rw [turned]
      exact ⟨inTurn.shares, inTurn.waits, inTurn.ahead⟩
    · rw [turned]
      exact ⟨inTurn.shares, inTurn.waits, inTurn.ahead⟩
  · exact ⟨inTurn.shares, inTurn.waits, inTurn.ahead⟩

theorem inTurn_run {moves : List Move} {conn : Connection}
    (steady : connection.Meets KeepsTurn {} moves) (ran : connection.run {} moves = some conn) :
    InTurn conn :=
  (Machine.run_induct_of KeepsTurn (fun conn => Accounted conn ∧ InTurn conn)
    (fun kept safe moved =>
      ⟨accounted_step kept.1 moved, inTurn_step kept.1.filed kept.2 safe moved⟩)
    ⟨accounted_start, inTurn_start⟩ steady ran).2

/-- **No key starves.**  In every run in which no offer replaces the waiting value
of a key that another pending key has overtaken, a key that was waiting when a
publish began is published before that publish's key is published again. -/
theorem shares_turns {moves : List Move} {conn : Connection}
    (steady : connection.Meets KeepsTurn {} moves) (ran : connection.run {} moves = some conn) :
    SharesTurns conn.starts :=
  (inTurn_run steady ran).shares

/-! ## What an offer out of turn does -/

/-- A drain left to itself publishes the keys in their order, so a key that waits
behind the one that overtook it is overtaken again. -/
theorem starves_of_behind {key other : Key} (sound : Accounted conn)
    (able : conn.runnable = true) (overtaken : Overtaken conn.starts key other)
    (behind : [other, key].Sublist conn.ingress.pending.keys) :
    ∃ n after, connection.run conn (List.replicate n .turn) = some after ∧
      ¬SharesTurns after.starts := by
  generalize size : conn.ingress.pending.entries.length = n
  induction n generalizing conn with
  | zero =>
      have bare := List.length_eq_zero_iff.mp size
      simp [Dict.keys, bare] at behind
  | succ n ih =>
      obtain ⟨offered, rest, front, turned⟩ | ⟨bare, -⟩ | ⟨bare, -⟩ := turn_cases sound.filed
      · have stepped : connection.step conn .turn = some (conn.publishes offered) :=
          turned ▸ turn_step able
        by_cases again : offered.key = other
        · refine ⟨1, conn.publishes offered, by simp [Machine.run, stepped], fun shares => ?_⟩
          obtain ⟨before, first, since, split, named, waiting, passed⟩ := overtaken
          obtain ⟨start, member, own⟩ :=
            shares before first since ⟨offered, (conn.ingress.pending.erase offered.key).keys⟩ []
              (by simp [Connection.publishes, split]) (by rw [named]; exact again) key waiting
          exact passed start member own
        · have nodup := conn.ingress.pending.keys_nodup
          have keys : conn.ingress.pending.keys = offered.key :: rest.map Prod.fst := by
            simp [Dict.keys, front]
          rw [keys] at behind nodup
          have later : [other, key].Sublist (rest.map Prod.fst) := by
            rcases List.sublist_cons_iff.mp behind with tail | ⟨tail, split, -⟩
            · exact tail
            · rw [List.cons.injEq] at split
              exact absurd split.1.symm again
          have passed : offered.key ≠ key := by
            rintro rfl
            exact (List.nodup_cons.mp nodup).1 (later.subset (by simp))
          have entries : (conn.publishes offered).ingress.pending.entries = rest :=
            Dict.entries_erase_head front
          obtain ⟨n, after, ran, starved⟩ := ih (accounted_publishes sound front) rfl
            (overtaken_append.mpr (.inr ⟨overtaken, passed⟩))
            (by rw [Dict.keys, entries]; exact later)
            (by rw [entries]; rw [front, List.length_cons] at size; omega)
          refine ⟨n + 1, after, ?_, starved⟩
          rw [List.replicate_succ, Machine.run_cons_eq_some]
          exact ⟨_, stepped, ran⟩
      · simp [bare] at size
      · simp [bare] at size

/-- **And only such an offer starves one**: where turns were kept so far and an
offer replaces the waiting value of an overtaken key, the drain left to itself
publishes the key that overtook it once more before it. -/
theorem overtaken_starves {moves : List Move} {event : Feed.MarketData}
    (steady : connection.Meets KeepsTurn {} moves) (ran : connection.run {} moves = some conn)
    (opened : conn.ingress.closed = false) (alive : conn.drain ≠ .failed)
    (outOfTurn : ¬KeepsTurn conn (.offer event)) :
    ∃ n after, connection.run conn (.offer event :: List.replicate n .turn) = some after ∧
      ¬SharesTurns after.starts := by
  have sound := accounted_run ran
  have inTurn := inTurn_run steady ran
  simp only [KeepsTurn, not_forall, not_not] at outOfTurn
  obtain ⟨waiting, other, pending, overtaken⟩ := outOfTurn
  have apart : other ≠ event.key := by
    have order := inTurn.ahead overtaken pending
    have nodup := order.nodup conn.ingress.pending.keys_nodup
    rw [List.nodup_cons, List.mem_singleton] at nodup
    exact Ne.symm nodup.1
  have behind : [other, event.key].Sublist (conn.offer event).ingress.pending.keys := by
    have kept : [other].Sublist
        (conn.ingress.pending.keys.filter fun key => decide (key ≠ event.key)) :=
      List.singleton_sublist.mpr (by simp [pending, apart])
    rw [keys_offer]
    exact kept.append (.refl _)
  have able : (conn.offer event).runnable = true := by
    cases stands : conn.drain with
    | returned => exact absurd (sound.ended stands).1 (by simp [opened])
    | failed => exact absurd stands alive
    | _ => simp [Connection.runnable, Connection.offer, ConflatingIngress.offer, stands]
  obtain ⟨n, after, rest, starved⟩ :=
    starves_of_behind (accounted_offer event sound opened) able overtaken behind
  refine ⟨n, after, ?_, starved⟩
  rw [Machine.run_cons_eq_some]
  exact ⟨_, by simp [connection, opened], rest⟩

/-! ## Sample runs -/

namespace Sample

def tradeAt (instant : Nanos) : Feed.MarketData :=
  .tick ⟨instant, instant, "BTC", 100, 1, .buy, "", 0, false⟩

def markAt (instant : Nanos) : Feed.MarketData := .mark ⟨instant, instant, "BTC", 100, none⟩

/-- A mark is replaced before anything was published, and both keys come out. -/
def busy : List Move :=
  [.offer (tradeAt 0), .offer (markAt 1), .offer (markAt 2), .turn, .offer (tradeAt 3), .close,
    .turn, .turn, .turn]

/-- Both keys are offered again behind the first trade, the trade before the mark. -/
def starving : List Move :=
  [.offer (tradeAt 0), .offer (markAt 1), .turn, .offer (tradeAt 2), .offer (markAt 3), .turn]

theorem conflates_busy : ∃ conn, connection.run {} busy = some conn ∧
    conn.lagged.map Lagged.fields = [⟨"BTC", "BTC:1", "MarkTick"⟩] ∧
    (∀ key, (conn.published.filter fun offered => offered.key = key).Sublist
      (conn.offers.filter fun offered => offered.key = key)) := by
  have ended : (connection.run {} busy).map (fun conn => conn.lagged.map Lagged.fields) =
      some [⟨"BTC", "BTC:1", "MarkTick"⟩] := by decide +kernel
  obtain ⟨conn, ran, lagged⟩ := Option.map_eq_some_iff.mp ended
  obtain ⟨-, -, inOrder, -⟩ := conflates ran
  exact ⟨conn, ran, lagged, inOrder⟩

/-- An offer under a key that nothing is pending for, or that no publish has left
behind. -/
def calm (conn : Connection) : Move → Bool
  | .offer event => !(conn.ingress.pending.keys.contains event.key) ||
      conn.starts.all fun start => !(start.behind.contains event.key)
  | .close | .turn | .fault => true

theorem keepsTurn_of_calm (conn : Connection) (move : Move) (still : calm conn move = true) :
    KeepsTurn conn move := by
  cases move with
  | offer event =>
      rintro waiting other - ⟨before, start, after, split, -, behind, -⟩
      simp [calm, waiting, split, behind] at still
  | _ => trivial

theorem shares_turns_busy : ∃ conn, connection.run {} busy = some conn ∧
    conn.starts.map Start.key =
      [(.marketTick, "BTC"), (.markTick, "BTC"), (.marketTick, "BTC")] ∧
    SharesTurns conn.starts := by
  have ended : (connection.run {} busy).map (fun conn => conn.starts.map Start.key) =
      some [(.marketTick, "BTC"), (.markTick, "BTC"), (.marketTick, "BTC")] := by decide +kernel
  obtain ⟨conn, ran, keys⟩ := Option.map_eq_some_iff.mp ended
  have steady := Machine.meets_of_checks keepsTurn_of_calm
    (by decide +kernel : connection.checks calm {} busy = true)
  exact ⟨conn, ran, keys, shares_turns steady ran⟩

/-- **The mark starves**: it waits from the first trade's publish, and the second
trade is published before it. -/
theorem mark_starves : ∃ conn, connection.run {} starving = some conn ∧
    ¬SharesTurns conn.starts := by
  have ended : (connection.run {} starving).map Connection.starts =
      some [⟨⟨0, tradeAt 0⟩, [(.markTick, "BTC")]⟩, ⟨⟨2, tradeAt 2⟩, [(.markTick, "BTC")]⟩] := by
    decide +kernel
  obtain ⟨conn, ran, starts⟩ := Option.map_eq_some_iff.mp ended
  refine ⟨conn, ran, fun shares => ?_⟩
  obtain ⟨start, member, -⟩ := shares [] _ [] _ [] starts rfl (.markTick, "BTC") (by simp)
  cases member

end Sample

end Tickwright.Hyperliquid
