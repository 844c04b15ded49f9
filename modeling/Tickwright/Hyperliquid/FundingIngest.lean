/-
# Hyperliquid.FundingIngest -- the venue's payments, from the socket to the ledger

`accruals` reads one batch of payments and sorts it by venue time, for the ledger keeps
one mark a symbol and drops what comes below it.  The rest of the order comes from the
venue: a subscription starts with every payment so far, and later frames bring the
payments as they are made.

`Ingest` is the venue beside one session after another, over any number of process
lives, with either bus between the session and the ledger.  A socket may end at any
moment with frames on it that nobody read, and the process may die between two payments
of one batch.  `log` holds what reached the ledger, newest first.

* `Feeding` is the invariant: what is on its way continues where the ledger stands, and a
  socket the venue sends on carries all that the ledger lacks;
* `ingests_inOrder`: so the order the mark relies on holds in every run, and no payment is
  behind a mark that the ledger was not given;
* `live_funding_whole` joins it with the engine: once a session has read and handled all
  it was sent, the cash line is genesis, the partitions' gains and every payment since
  genesis, once.

A frame that cannot be read ends the process; nothing behind it is read (`parsed`).
-/
import Mathlib.Data.List.Sort
import Tickwright.Engine.FundingOnce
import Tickwright.Engine.SnapshotFirst
import Tickwright.Hyperliquid.Preflight

namespace Tickwright.Hyperliquid

open Tickwright.Domain Tickwright.Theory Tickwright.Engine
open Tickwright.Engine.Host (BusKind)

set_option autoImplicit false

/-! ## Reading a delivery -/

/-- One element of a `fundings` list, as its reads answer; `usdc` is `none` where the
record names no such key. -/
structure PaymentRecord where
  time : Except Unreadable ℤ
  coin : Except Unreadable Symbol
  usdc : Option (Except Unreadable Decimal)

/-- Why a delivery is refused with `VenueFactUnsupported`. -/
inductive DeliveryRefusal
  | notJson
  | notObject
  | noFundings
  /-- A payment this process cannot read. -/
  | unreadable (error : Unreadable)
  /-- A payment settled in another token. -/
  | notUsdc
deriving DecidableEq

/-- A frame off the socket, as far as `_parse` tells frames apart. -/
inductive Frame
  | notJson
  | notObject
  | otherChannel
  | noFundings
  | fundings (records : List PaymentRecord)

def nsPerMs : ℤ := 1000000

/-- What `UNREADABLE` is turned into. -/
def readable {α : Type} (read : Except Unreadable α) : Except DeliveryRefusal α :=
  read.mapError .unreadable

/-- `_payment_settled_in_usdc`. -/
def paymentSettledInUsdc (record : PaymentRecord) : Except DeliveryRefusal Decimal :=
  match record.usdc with
  | none => .error .notUsdc
  | some reported => readable reported

/-- One record as a keyed accrual. -/
def accrualOf (record : PaymentRecord) : Except DeliveryRefusal FundingAccrual := do
  let time ← readable record.time
  let coin ← readable record.coin
  let amount ← paymentSettledInUsdc record
  pure { symbol := coin, boundaryTsNs := time * nsPerMs, amount := amount }

/-- A record beside the time it is sorted by. -/
def timed (record : PaymentRecord) : Except DeliveryRefusal (ℤ × PaymentRecord) :=
  (readable record.time).map fun time => (time, record)

/-- `accruals`: the batch in venue-time order, records of one instant as they came. -/
def accruals (fundings : List PaymentRecord) : Except DeliveryRefusal (List FundingAccrual) := do
  let batch ← fundings.mapM timed
  ((batch.insertionSort fun first second => first.1 ≤ second.1).map Prod.snd).mapM accrualOf

/-- `FundingIngest._parse`. -/
def Frame.parse : Frame → Except DeliveryRefusal (List FundingAccrual)
  | .notJson => .error .notJson
  | .notObject => .error .notObject
  | .otherChannel => .ok []
  | .noFundings => .error .noFundings
  | .fundings records => accruals records

def Frame.refused (frame : Frame) : Bool :=
  match frame.parse with
  | .ok _ => false
  | .error _ => true

/-! ## The venue and the session -/

/-- A payment as the venue made it. -/
structure Payment where
  timeMs : ℤ
  coin : Symbol
  usdc : Decimal
deriving DecidableEq

def Payment.record (payment : Payment) : PaymentRecord where
  time := .ok payment.timeMs
  coin := .ok payment.coin
  usdc := some (.ok payment.usdc)

def Payment.accrual (payment : Payment) : FundingAccrual where
  symbol := payment.coin
  boundaryTsNs := payment.timeMs * nsPerMs
  amount := payment.usdc

/-- A batch in the order of its times. -/
def byTime (payments : List Payment) : List Payment :=
  payments.insertionSort fun first second => first.timeMs ≤ second.timeMs

/-- These payments as one frame, in this order. -/
def delivery (payments : List Payment) : Frame := .fundings (payments.map Payment.record)

/-- Where `WsSession` stands. -/
inductive SessionStage
  /-- `start` has not handed a socket over. -/
  | fresh
  | opened
  | consuming
  /-- Backing off, before the loop looks at the flag. -/
  | waiting
  /-- The flag was down; the connect is under way. -/
  | connecting
  | over
  | faulted
deriving DecidableEq

/-- The venue, one session of the ingest, the bus, and what reached the ledger. -/
structure Ingest where
  /-- What the venue has paid, in the order of its times. -/
  paid : List Payment := []
  /-- The frames on the socket that are not read. -/
  socket : List Frame := []
  /-- The venue sends on this socket. -/
  live : Bool := false
  /-- What is left of the batch at hand. -/
  todo : List FundingAccrual := []
  stage : SessionStage := .fresh
  stopping : Bool := false
  /-- Published, and not with the ledger yet. -/
  bus : List FundingAccrual := []
  log : FundingLog := []

/-- What can happen. -/
inductive IngestMove
  /-- The venue settles, and sends it as one frame in this order, or a frame that
  cannot be read. -/
  | pays (payments : List Payment) (garbled : Option Frame)
  /-- The venue sends a frame that is no delivery. -/
  | chats (frame : Frame)
  /-- `start`: the venue answers the subscription with every payment so far. -/
  | starts (snapshot : List Payment)
  | runs
  | reads
  | publishes
  /-- The ledger's handler takes the record at this place of the bus. -/
  | handles (place : ℕ)
  /-- The venue hangs up; so many frames can still be read. -/
  | hangsUp (kept : ℕ)
  /-- The consumer is through with a socket that has ended. -/
  | ends
  /-- The wait is over: the next turn of the loop. -/
  | turns
  | refused
  | reconnects (snapshot : List Payment)
  | stops (kept : ℕ)
  /-- The process dies or ends on a fault, with so many handled records to be
  dispatched again where the bus outlives it. -/
  | crash (again : ℕ)

namespace Ingest

/-- A frame reaches the socket, if the venue sends on it. -/
def receives (ingest : Ingest) (frame : Frame) : Ingest :=
  if ingest.live then { ingest with socket := ingest.socket ++ [frame] } else ingest

/-- A fresh socket, subscribed. -/
def subscribed (ingest : Ingest) (snapshot : List Payment) (stage : SessionStage) : Ingest :=
  { ingest with socket := [delivery snapshot], live := true, stage := stage }

/-- No more is sent on the socket. -/
def closes (ingest : Ingest) (kept : ℕ) : Ingest :=
  { ingest with socket := ingest.socket.take kept, live := false }

end Ingest

/-- **The funding ingest**, over any number of sockets and lives. -/
def ingestMachine (kind : BusKind) : Machine Ingest IngestMove where
  step ingest move :=
    match move with
    | .pays payments garbled =>
        if ∀ payment ∈ payments, ∀ earlier ∈ ingest.paid, earlier.timeMs ≤ payment.timeMs then
          let settled := { ingest with paid := ingest.paid ++ byTime payments }
          match garbled with
          | none => some (settled.receives (delivery payments))
          | some frame => if frame.refused then some (settled.receives frame) else none
        else none
    | .chats frame =>
        match frame.parse with
        | .ok [] | .error _ => some (ingest.receives frame)
        | .ok _ => none
    | .starts snapshot =>
        if ingest.stage = .fresh ∧ snapshot.Perm ingest.paid then
          some (ingest.subscribed snapshot .opened)
        else none
    | .runs =>
        match ingest.stage with
        | .opened => some { ingest with stage := if ingest.stopping then .over else .consuming }
        | .fresh => some { ingest with stage := if ingest.stopping then .over else .faulted }
        | _ => none
    | .reads =>
        match ingest.stage, ingest.todo, ingest.socket with
        | .consuming, [], frame :: rest =>
            match frame.parse with
            | .ok batch => some { ingest with socket := rest, todo := batch }
            | .error _ => some { ingest with stage := .faulted }
        | _, _, _ => none
    | .publishes =>
        match ingest.stage, ingest.todo with
        | .consuming, accrual :: rest =>
            some { ingest with todo := rest, bus := ingest.bus ++ [accrual] }
        | _, _ => none
    | .handles place =>
        match ingest.bus[place]?, kind with
        | none, _ => none
        | some accrual, .inMemory =>
            if place = 0 then
              some { ingest with bus := ingest.bus.tail, log := accrual :: ingest.log }
            else none
        | some accrual, .kafka =>
            -- A partition is in order, and a symbol has one partition.
            if ∀ earlier ∈ ingest.bus.take place, earlier.symbol ≠ accrual.symbol then
              some { ingest with
                bus := ingest.bus.take place ++ ingest.bus.drop (place + 1)
                log := accrual :: ingest.log }
            else none
    | .hangsUp kept => if ingest.live then some (ingest.closes kept) else none
    | .ends =>
        match ingest.stage, ingest.todo, ingest.socket with
        | .consuming, [], [] =>
            if ingest.live then none
            else some { ingest with stage := if ingest.stopping then .over else .waiting }
        | _, _, _ => none
    | .turns =>
        match ingest.stage with
        | .waiting => some { ingest with stage := if ingest.stopping then .over else .connecting }
        | _ => none
    | .refused =>
        match ingest.stage with
        | .connecting => some { ingest with stage := .waiting }
        | _ => none
    | .reconnects snapshot =>
        if ingest.stage = .connecting ∧ snapshot.Perm ingest.paid then
          some (ingest.subscribed snapshot .consuming)
        else none
    | .stops kept => some { ingest.closes kept with stopping := true }
    | .crash again =>
        let dead : Ingest := { paid := ingest.paid, log := ingest.log }
        match kind with
        | .inMemory => some dead
        | .kafka => some { dead with bus := (ingest.log.take again).reverse ++ ingest.bus }

/-! ## What a batch reads as -/

theorem mapM_ok {α β ε : Type} {f : α → Except ε β} {g : α → β} {items : List α}
    (reads : ∀ item ∈ items, f item = .ok (g item)) : items.mapM f = .ok (items.map g) := by
  induction items with
  | nil => rfl
  | cons item rest ih =>
      rw [List.mapM_cons, reads item List.mem_cons_self,
        show rest.mapM f = _ from ih fun other member => reads other (List.mem_cons_of_mem _ member)]
      rfl

theorem byTime_perm (payments : List Payment) : (byTime payments).Perm payments :=
  List.perm_insertionSort _ _

theorem byTime_sorted (payments : List Payment) :
    (byTime payments).Pairwise fun first second => first.timeMs ≤ second.timeMs := by
  have : Std.Total fun first second : Payment => first.timeMs ≤ second.timeMs :=
    ⟨fun first second => le_total first.timeMs second.timeMs⟩
  have : IsTrans Payment fun first second => first.timeMs ≤ second.timeMs :=
    ⟨fun _ _ _ one two => le_trans one two⟩
  exact List.pairwise_insertionSort _ _

theorem map_byTime (payments : List Payment) :
    ((payments.map fun payment => (payment.timeMs, payment.record)).insertionSort
        fun first second => first.1 ≤ second.1) =
      (byTime payments).map fun payment => (payment.timeMs, payment.record) :=
  (List.map_insertionSort (fun first second : Payment => first.timeMs ≤ second.timeMs)
    (fun first second : ℤ × PaymentRecord => first.1 ≤ second.1)
    (fun payment => (payment.timeMs, payment.record)) payments fun _ _ _ _ => Iff.rfl).symm

/-- **A delivery reads as its payments, in the order of their times**, whatever the order
they came in. -/
theorem parse_delivery (payments : List Payment) :
    (delivery payments).parse = .ok ((byTime payments).map Payment.accrual) := by
  have times : (payments.map Payment.record).mapM timed =
      .ok (payments.map fun payment => (payment.timeMs, payment.record)) := by
    rw [List.mapM_map]
    exact mapM_ok fun payment _ => rfl
  have read : ((byTime payments).map Payment.record).mapM accrualOf =
      .ok ((byTime payments).map Payment.accrual) := by
    rw [List.mapM_map]
    exact mapM_ok fun payment _ => rfl
  show accruals (payments.map Payment.record) = _
  unfold accruals
  rw [times]
  show (((payments.map fun payment => (payment.timeMs, payment.record)).insertionSort
    fun first second => first.1 ≤ second.1).map Prod.snd).mapM accrualOf = _
  rw [map_byTime, List.map_map]
  exact read

/-! ## What is on its way -/

/-- The payments of the frames that will be read: those before the first that cannot
be. -/
def parsed : List Frame → List FundingAccrual
  | [] => []
  | frame :: rest =>
      match frame.parse with
      | .ok batch => batch ++ parsed rest
      | .error _ => []

theorem parsed_append {frames more : List Frame}
    (read : ∀ frame ∈ frames, frame.refused = false) :
    parsed (frames ++ more) = parsed frames ++ parsed more := by
  induction frames with
  | nil => rfl
  | cons frame rest ih =>
      have clean := read frame List.mem_cons_self
      have tail := ih fun other member => read other (List.mem_cons_of_mem _ member)
      unfold Frame.refused at clean
      simp only [List.cons_append, parsed]
      split at clean
      · rw [tail, List.append_assoc]
      · cases clean

/-- Behind a frame that cannot be read nothing is. -/
theorem parsed_stuck {frames more : List Frame} (stuck : ∃ frame ∈ frames, frame.refused = true) :
    parsed (frames ++ more) = parsed frames := by
  induction frames with
  | nil =>
      obtain ⟨_, none_, _⟩ := stuck
      cases none_
  | cons frame rest ih =>
      obtain ⟨other, member, refused⟩ := stuck
      simp only [List.cons_append, parsed]
      split
      · rename_i batch is
        rcases List.mem_cons.mp member with rfl | later
        · unfold Frame.refused at refused
          rw [is] at refused
          cases refused
        · rw [ih ⟨other, later, refused⟩]
      · rfl

theorem parsed_take (frames : List Frame) (kept : ℕ) :
    ∃ rest, parsed frames = parsed (frames.take kept) ++ rest := by
  by_cases read : ∀ frame ∈ frames.take kept, frame.refused = false
  · refine ⟨parsed (frames.drop kept), ?_⟩
    rw [← parsed_append read, List.take_append_drop]
  · refine ⟨[], ?_⟩
    have stuck : ∃ frame ∈ frames.take kept, frame.refused = true := by
      by_contra none_
      exact read fun frame member => Bool.eq_false_iff.mpr fun refused =>
        none_ ⟨frame, member, refused⟩
    have behind : parsed (frames.take kept ++ frames.drop kept) = _ := parsed_stuck stuck
    rw [List.append_nil, ← behind, List.take_append_drop]

/-- The payments that were made, as the ledger keys them. -/
def Ingest.settled (ingest : Ingest) : List FundingAccrual := ingest.paid.map Payment.accrual

/-- The log once all that is under way has arrived. -/
def Ingest.arriving (ingest : Ingest) : FundingLog :=
  (ingest.bus ++ ingest.todo ++ parsed ingest.socket).reverse ++ ingest.log

/-- The payment is one the ledger was given. -/
def Arrived (log : FundingLog) (accrual : FundingAccrual) : Prop :=
  Watermark.Delivered FundingAccrual.symbol FundingAccrual.boundaryTsNs log accrual

/-- A symbol's payments reach the log one after another, none left out. -/
def NoGaps (settled : List FundingAccrual) (log : FundingLog) : Prop :=
  Watermark.Gapless FundingAccrual.symbol FundingAccrual.boundaryTsNs settled log

/-- **What is on its way continues where the ledger stands.** -/
structure Feeding (ingest : Ingest) : Prop where
  known : ∀ accrual ∈ ingest.arriving, accrual ∈ ingest.settled
  noGaps : NoGaps ingest.settled ingest.arriving
  /-- A socket the venue sends on carries what the ledger still lacks. -/
  caught : ingest.live = true → (∀ frame ∈ ingest.socket, frame.refused = false) →
    ∀ accrual ∈ ingest.settled, Arrived ingest.arriving accrual

section Steps

variable {ingest next : Ingest}

/-- Less may be on its way, if the venue no longer sends. -/
theorem Feeding.cut {lost : List FundingAccrual} (feeding : Feeding ingest)
    (same : next.paid = ingest.paid) (cut : ingest.arriving = lost ++ next.arriving)
    (dead : next.live = false) : Feeding next where
  known accrual member := by
    unfold Ingest.settled
    rw [same]
    exact feeding.known accrual (cut ▸ List.mem_append_right lost member)
  noGaps := by
    have noGaps := feeding.noGaps
    rw [cut] at noGaps
    unfold Ingest.settled
    rw [same]
    exact Watermark.gapless_tail _ _ noGaps
  caught live := by
    rw [dead] at live
    cases live

/-- The same payments are on their way. -/
theorem Feeding.kept (feeding : Feeding ingest) (same : next.paid = ingest.paid)
    (arriving : next.arriving = ingest.arriving)
    (caught : next.live = true → (∀ frame ∈ next.socket, frame.refused = false) →
      ingest.live = true ∧ ∀ frame ∈ ingest.socket, frame.refused = false) : Feeding next where
  known := by
    unfold Ingest.settled
    rw [same, arriving]
    exact feeding.known
  noGaps := by
    unfold Ingest.settled
    rw [same, arriving]
    exact feeding.noGaps
  caught live read := by
    unfold Ingest.settled
    rw [same, arriving]
    exact feeding.caught (caught live read).1 (caught live read).2

theorem mem_byTime {payments : List Payment} {accrual : FundingAccrual} :
    accrual ∈ (byTime payments).map Payment.accrual ↔
      accrual ∈ payments.map Payment.accrual :=
  ((byTime_perm payments).map Payment.accrual).mem_iff

theorem sorted_byTime (payments : List Payment) :
    ((byTime payments).map Payment.accrual).Pairwise fun first second =>
      first.boundaryTsNs ≤ second.boundaryTsNs := by
  refine List.pairwise_map.mpr ((byTime_sorted payments).imp fun {first second} sorted => ?_)
  show first.timeMs * nsPerMs ≤ second.timeMs * nsPerMs
  exact Int.mul_le_mul_of_nonneg_right sorted (by decide)

/-- What a frame brings joins what is under way. -/
theorem arriving_socket (ingest : Ingest) (frames : List Frame) :
    { ingest with socket := frames }.arriving =
      (parsed frames).reverse ++ ((ingest.bus ++ ingest.todo).reverse ++ ingest.log) := by
  unfold Ingest.arriving
  rw [List.reverse_append, List.append_assoc]

theorem parsed_delivery (payments : List Payment) :
    parsed [delivery payments] = (byTime payments).map Payment.accrual := by
  simp only [parsed, parse_delivery, List.append_nil]

/-- **A fresh socket continues where the ledger stands**: its snapshot is every payment
so far, sorted. -/
theorem Feeding.subscribed (feeding : Feeding ingest) {snapshot : List Payment}
    (whole : snapshot.Perm ingest.paid) (stage : SessionStage) :
    Feeding (ingest.subscribed snapshot stage) := by
  have arriving : (ingest.subscribed snapshot stage).arriving =
      ((byTime snapshot).map Payment.accrual).reverse ++
        ((ingest.bus ++ ingest.todo).reverse ++ ingest.log) := by
    rw [← parsed_delivery]
    exact arriving_socket ingest [delivery snapshot]
  have settled (accrual : FundingAccrual) :
      accrual ∈ (byTime snapshot).map Payment.accrual ↔ accrual ∈ ingest.settled :=
    mem_byTime.trans (whole.map Payment.accrual).mem_iff
  have split := arriving_socket ingest ingest.socket
  have known := feeding.known
  have noGaps := feeding.noGaps
  rw [show ingest.arriving = _ from split] at known noGaps
  refine ⟨?_, ?_, ?_⟩
  · intro accrual member
    rw [arriving] at member
    rcases List.mem_append.mp member with new | old
    · exact (settled accrual).mp (List.mem_reverse.mp new)
    · exact known accrual (List.mem_append_right _ old)
  · rw [arriving]
    exact Watermark.Gapless.sorted _ _ (Watermark.gapless_tail _ _ noGaps) (sorted_byTime snapshot)
      fun made member => Or.inr ((settled made).mpr member)
  · intro _ _ accrual member
    rw [arriving]
    exact ⟨accrual, List.mem_append_left _ (List.mem_reverse.mpr ((settled accrual).mpr member)),
      rfl, rfl⟩

/-- A frame that brings no payment changes nothing. -/
theorem Feeding.chats (feeding : Feeding ingest) {frame : Frame} (brings : parsed [frame] = []) :
    Feeding (ingest.receives frame) := by
  unfold Ingest.receives
  split
  · refine feeding.kept rfl ?_ fun live read => ⟨live, fun other member =>
      read other (List.mem_append_left _ member)⟩
    have same : parsed (ingest.socket ++ [frame]) = parsed ingest.socket := by
      by_cases read : ∀ other ∈ ingest.socket, other.refused = false
      · rw [parsed_append read, brings, List.append_nil]
      · refine parsed_stuck ?_
        by_contra none_
        exact read fun other member => Bool.eq_false_iff.mpr fun refused =>
          none_ ⟨other, member, refused⟩
    unfold Ingest.arriving
    simp only [same]
  · exact feeding

/-- A frame that cannot be read brings nothing, and holds up what comes behind it. -/
theorem parsed_refused {frame : Frame} (refused : frame.refused = true) : parsed [frame] = [] := by
  unfold Frame.refused at refused
  simp only [parsed]
  split at refused
  · cases refused
  · rfl

/-- **The venue settles**: what it sends is all the ledger lacks of it, if it sends. -/
theorem Feeding.pays (feeding : Feeding ingest) {payments : List Payment} {frame : Frame}
    (later : ∀ payment ∈ payments, ∀ earlier ∈ ingest.paid, earlier.timeMs ≤ payment.timeMs)
    (sends : frame = delivery payments ∨ frame.refused = true) :
    Feeding ({ ingest with paid := ingest.paid ++ byTime payments }.receives frame) := by
  have settled : { ingest with paid := ingest.paid ++ byTime payments }.settled =
      ingest.settled ++ (byTime payments).map Payment.accrual := List.map_append
  have grown : NoGaps (ingest.settled ++ (byTime payments).map Payment.accrual) ingest.arriving := by
    refine Watermark.Gapless.grows _ _ feeding.noGaps fun event arrived made member => ?_
    obtain ⟨earlier, before, rfl⟩ := List.mem_map.mp (feeding.known event arrived)
    obtain ⟨payment, new, rfl⟩ := List.mem_map.mp member
    exact Int.mul_le_mul_of_nonneg_right
      (later payment ((byTime_perm payments).mem_iff.mp new) earlier before) (by decide)
  have known : ∀ accrual ∈ ingest.arriving,
      accrual ∈ ingest.settled ++ (byTime payments).map Payment.accrual :=
    fun accrual member => List.mem_append_left _ (feeding.known accrual member)
  unfold Ingest.receives
  split
  · rename_i live
    by_cases read : ∀ other ∈ ingest.socket, other.refused = false
    · have arriving : { ingest with
          paid := ingest.paid ++ byTime payments
          socket := ingest.socket ++ [frame] }.arriving =
            (parsed [frame]).reverse ++ ingest.arriving := by
        unfold Ingest.arriving
        simp only [parsed_append read, List.reverse_append, List.append_assoc]
      rcases sends with rfl | refused
      · rw [parsed_delivery] at arriving
        have lacks : ∀ made ∈ ingest.settled ++ (byTime payments).map Payment.accrual,
            Arrived ingest.arriving made ∨ made ∈ (byTime payments).map Payment.accrual := by
          intro made member
          exact (List.mem_append.mp member).imp_left (feeding.caught live read made)
        refine ⟨fun accrual member => ?_, ?_, fun _ _ accrual member => ?_⟩
        · rw [arriving] at member
          rcases List.mem_append.mp member with new | old
          · exact settled ▸ List.mem_append_right _ (List.mem_reverse.mp new)
          · exact settled ▸ known accrual old
        · rw [arriving]
          exact settled ▸ Watermark.Gapless.sorted _ _ grown (sorted_byTime payments) lacks
        · rw [arriving]
          rcases lacks accrual (settled ▸ member) with arrived | new
          · exact arrived.mono _ _ fun _ => List.mem_append_right _
          · exact ⟨accrual, List.mem_append_left _ (List.mem_reverse.mpr new), rfl, rfl⟩
      · rw [parsed_refused refused] at arriving
        refine ⟨fun accrual member => ?_, ?_, fun _ clean => ?_⟩
        · rw [arriving] at member
          exact settled ▸ known accrual member
        · rw [arriving]
          exact settled ▸ grown
        · rw [clean frame (List.mem_append_right _ (List.mem_singleton.mpr rfl))] at refused
          cases refused
    · have stuck : ∃ other ∈ ingest.socket, other.refused = true := by
        by_contra none_
        exact read fun other member => Bool.eq_false_iff.mpr fun refused =>
          none_ ⟨other, member, refused⟩
      have arriving : { ingest with
          paid := ingest.paid ++ byTime payments
          socket := ingest.socket ++ [frame] }.arriving = ingest.arriving := by
        unfold Ingest.arriving
        simp only [parsed_stuck stuck]
      refine ⟨fun accrual member => ?_, ?_, fun _ clean => ?_⟩
      · rw [arriving] at member
        exact settled ▸ known accrual member
      · rw [arriving]
        exact settled ▸ grown
      · exact absurd (fun other member => clean other (List.mem_append_left _ member)) read
  · rename_i dead
    exact ⟨fun accrual member => settled ▸ known accrual member, settled ▸ grown,
      fun live => absurd live dead⟩

/-- **The ledger takes a record no other of its symbol is before.** -/
theorem Feeding.handles (feeding : Feeding ingest) {before after : List FundingAccrual}
    {accrual : FundingAccrual} (bus : ingest.bus = before ++ accrual :: after)
    (first : ∀ earlier ∈ before, earlier.symbol ≠ accrual.symbol) :
    Feeding { ingest with bus := before ++ after, log := accrual :: ingest.log } := by
  have was : ingest.arriving =
      (after ++ ingest.todo ++ parsed ingest.socket).reverse ++
        (accrual :: before.reverse ++ ingest.log) := by
    unfold Ingest.arriving
    rw [bus]
    simp only [List.reverse_append, List.reverse_cons, List.append_assoc, List.cons_append,
      List.nil_append]
  have is : { ingest with bus := before ++ after, log := accrual :: ingest.log }.arriving =
      (after ++ ingest.todo ++ parsed ingest.socket).reverse ++
        (before.reverse ++ accrual :: ingest.log) := by
    unfold Ingest.arriving
    simp only [List.reverse_append, List.append_assoc]
  have swapped : ({ ingest with bus := before ++ after, log := accrual :: ingest.log }.arriving).Perm
      ingest.arriving := by
    rw [was, is]
    exact List.perm_middle.append_left _
  refine ⟨fun other member => feeding.known other (swapped.mem_iff.mp member), ?_,
    fun live read other member => ?_⟩
  · refine (Watermark.gapless_iff_filter _ _).mpr fun symbol => ?_
    have here := (Watermark.gapless_iff_filter _ _).mp feeding.noGaps symbol
    rw [was] at here
    rw [is]
    simp only [List.filter_append, List.cons_append] at here ⊢
    by_cases same : accrual.symbol = symbol
    · have none_ : before.reverse.filter (fun event => decide (event.symbol = symbol)) = [] :=
        List.filter_eq_nil_iff.mpr fun earlier member => by
          rw [decide_eq_true_eq, ← same]
          exact first earlier (List.mem_reverse.mp member)
      rw [List.filter_cons_of_pos (by simpa using same)] at here ⊢
      rw [List.filter_append, none_, List.nil_append] at here
      rw [none_, List.nil_append]
      exact here
    · rw [List.filter_cons_of_neg (by simpa using same)] at here ⊢
      rw [List.filter_append] at here
      exact here
  · exact (feeding.caught live read other member).mono _ _ fun _ => swapped.mem_iff.mpr

/-- **A death loses what is under way, and may bring back what was handled last.** -/
theorem Feeding.dies (feeding : Feeding ingest) {bus : List FundingAccrual} (again : ℕ)
    (left : bus = [] ∨ bus = (ingest.log.take again).reverse ++ ingest.bus) :
    Feeding { paid := ingest.paid, log := ingest.log, bus := bus } := by
  have split : ingest.arriving =
      (ingest.todo ++ parsed ingest.socket).reverse ++ (ingest.bus.reverse ++ ingest.log) := by
    unfold Ingest.arriving
    simp only [List.reverse_append, List.append_assoc]
  have known := feeding.known
  have noGaps := feeding.noGaps
  rw [split] at known noGaps
  have onBus := Watermark.gapless_tail _ _ noGaps
  have logged := Watermark.gapless_tail _ _ onBus
  rcases left with rfl | rfl
  · exact ⟨fun accrual member => known accrual (List.mem_append_right _
      (List.mem_append_right _ member)), logged, nofun⟩
  · have arriving : Ingest.arriving
        { paid := ingest.paid
          log := ingest.log
          bus := (ingest.log.take again).reverse ++ ingest.bus } =
          ingest.bus.reverse ++ (ingest.log.take again ++ ingest.log) := by
      unfold Ingest.arriving
      simp only [parsed, List.append_nil, List.reverse_append, List.reverse_reverse,
        List.append_assoc]
    have old : ∀ accrual ∈ ingest.log.take again, accrual ∈ ingest.log :=
      fun accrual => List.mem_of_mem_take
    refine ⟨fun accrual member => known accrual (List.mem_append_right _ ?_), ?_, nofun⟩
    · rw [arriving] at member
      rcases List.mem_append.mp member with queued | held
      · exact List.mem_append_left _ queued
      · exact List.mem_append_right _ ((List.mem_append.mp held).elim (old accrual) id)
    · rw [arriving]
      exact Watermark.Gapless.onto _ _ onBus (fun _ => List.mem_append_right _)
        (Watermark.Gapless.again _ _ logged old)

end Steps

/-! ## Every run -/

section Run

variable {kind : BusKind} {ingest next : Ingest} {moves : List IngestMove}

/-- **Every step feeds the ledger as it stands**, a death's too. -/
theorem step_feeding {move : IngestMove} (feeding : Feeding ingest)
    (stepped : (ingestMachine kind).step ingest move = some next) : Feeding next := by
  have restaged (stage : SessionStage) : Feeding { ingest with stage := stage } :=
    feeding.kept rfl rfl fun live read => ⟨live, read⟩
  have closed (kept : ℕ) (stopping : Bool) :
      Feeding { ingest.closes kept with stopping := stopping } := by
    obtain ⟨rest, split⟩ := parsed_take ingest.socket kept
    refine feeding.cut rfl (?_ : _ = rest.reverse ++ _) rfl
    unfold Ingest.arriving Ingest.closes
    rw [split]
    simp only [List.reverse_append, List.append_assoc]
  cases move with
  | pays payments garbled =>
      simp only [ingestMachine] at stepped
      split at stepped
      · rename_i later
        cases garbled with
        | none =>
            cases stepped
            exact feeding.pays later (Or.inl rfl)
        | some frame =>
            simp only at stepped
            split at stepped
            · rename_i refused
              cases stepped
              exact feeding.pays later (Or.inr refused)
            · cases stepped
      · cases stepped
  | chats frame =>
      simp only [ingestMachine] at stepped
      split at stepped
      · rename_i none_
        cases stepped
        exact feeding.chats (by simp only [parsed, none_, List.append_nil])
      · rename_i refused
        cases stepped
        exact feeding.chats (by simp only [parsed, refused])
      · cases stepped
  | starts snapshot =>
      simp only [ingestMachine] at stepped
      split at stepped
      · rename_i enabled
        cases stepped
        exact feeding.subscribed enabled.2 _
      · cases stepped
  | reconnects snapshot =>
      simp only [ingestMachine] at stepped
      split at stepped
      · rename_i enabled
        cases stepped
        exact feeding.subscribed enabled.2 _
      · cases stepped
  | runs | turns | refused =>
      simp only [ingestMachine] at stepped
      split at stepped <;> cases stepped <;> exact restaged _
  | ends =>
      simp only [ingestMachine] at stepped
      split at stepped
      · split at stepped
        · cases stepped
        · cases stepped
          exact restaged _
      · cases stepped
  | reads =>
      simp only [ingestMachine] at stepped
      split at stepped
      · rename_i frame rest idle queued
        split at stepped
        · rename_i batch read
          cases stepped
          refine feeding.kept rfl ?_ fun live clean => ⟨live, fun other member => ?_⟩
          · unfold Ingest.arriving
            rw [idle, queued]
            simp only [parsed, read, List.append_nil, List.append_assoc]
          · rw [queued] at member
            rcases List.mem_cons.mp member with rfl | later
            · unfold Frame.refused
              rw [read]
            · exact clean other later
        · cases stepped
          exact restaged _
      · cases stepped
  | publishes =>
      simp only [ingestMachine] at stepped
      split at stepped
      · rename_i accrual rest _ atHand
        cases stepped
        refine feeding.kept rfl ?_ fun live read => ⟨live, read⟩
        unfold Ingest.arriving
        rw [atHand]
        simp only [List.append_assoc, List.cons_append, List.nil_append]
      · cases stepped
  | handles place =>
      simp only [ingestMachine] at stepped
      split at stepped
      · cases stepped
      · rename_i accrual there
        split at stepped
        · rename_i head
          cases stepped
          subst head
          obtain ⟨rest, bus⟩ : ∃ rest, ingest.bus = accrual :: rest := by
            cases is : ingest.bus with
            | nil =>
                rw [is] at there
                cases there
            | cons first rest =>
                rw [is] at there
                cases there
                exact ⟨rest, rfl⟩
          rw [bus, List.tail_cons]
          have front : ingest.bus = [] ++ accrual :: rest := bus
          exact feeding.handles front fun _ none_ => by cases none_
        · cases stepped
      · rename_i accrual there
        split at stepped
        · rename_i first
          cases stepped
          obtain ⟨short, is⟩ := List.getElem?_eq_some_iff.mp there
          refine feeding.handles ?_ first
          rw [← is, ← List.drop_eq_getElem_cons short, List.take_append_drop]
        · cases stepped
  | hangsUp kept =>
      simp only [ingestMachine] at stepped
      split at stepped
      · cases stepped
        exact closed kept ingest.stopping
      · cases stepped
  | stops kept =>
      cases stepped
      exact closed kept true
  | crash again =>
      cases kind with
      | inMemory =>
          cases stepped
          exact feeding.dies again (Or.inl rfl)
      | kafka =>
          cases stepped
          exact feeding.dies again (Or.inr rfl)

theorem feeding_start : Feeding {} where
  known _ none_ := by cases none_
  noGaps := trivial
  caught live := by cases live

theorem run_feeding (ran : (ingestMachine kind).run {} moves = some next) : Feeding next :=
  Machine.run_induct Feeding step_feeding feeding_start ran

theorem Feeding.logged (feeding : Feeding ingest) :
    (∀ accrual ∈ ingest.log, accrual ∈ ingest.settled) ∧ NoGaps ingest.settled ingest.log :=
  ⟨fun accrual member => feeding.known accrual (List.mem_append_right _ member),
    Watermark.gapless_tail _ _ feeding.noGaps⟩

/-- A session that has read and handled all it was sent has given the ledger everything. -/
theorem Feeding.whole (feeding : Feeding ingest) (live : ingest.live = true)
    (read : ingest.socket = []) (published : ingest.todo = []) (handled : ingest.bus = []) :
    ∀ accrual ∈ ingest.settled, Arrived ingest.log accrual := by
  intro accrual member
  have arrived := feeding.caught live (by rw [read]; exact fun _ none_ => by cases none_) accrual
    member
  unfold Ingest.arriving at arrived
  rw [read, published, handled] at arrived
  exact arrived

/-- **No payment is ever behind the mark that the ledger has not been given**: over every
run of sockets, deaths and re-deliveries, on either bus and whatever the order within a
batch, each symbol's boundaries reach the ledger in order, re-deliveries aside, and with
one all the venue paid on its symbol up to it. -/
theorem ingests_inOrder (ran : (ingestMachine kind).run {} moves = some ingest) :
    BoundariesInOrder ingest.log ∧
      ∀ accrual ∈ ingest.log, (∃ payment ∈ ingest.paid, payment.accrual = accrual) ∧
        ∀ payment ∈ ingest.paid, payment.coin = accrual.symbol →
          payment.timeMs * nsPerMs ≤ accrual.boundaryTsNs → Arrived ingest.log payment.accrual := by
  obtain ⟨known, noGaps⟩ := (run_feeding ran).logged
  refine ⟨noGaps.inOrder _ _ known, fun accrual member => ⟨?_, fun payment paid coin upTo => ?_⟩⟩
  · exact List.mem_map.mp (known accrual member)
  · exact noGaps.upTo _ _ member (List.mem_map_of_mem paid) coin upTo

/-- The payments the ledger owes, where the venue makes one a symbol and instant. -/
theorem counted_paid (feeding : Feeding ingest)
    (distinct : (ingest.paid.map fun payment => (payment.coin, payment.timeMs)).Nodup)
    (whole : ∀ accrual ∈ ingest.settled, Arrived ingest.log accrual) (genesisNs : Nanos) :
    ((counted genesisNs ingest.log).map FundingAccrual.amount).sum =
      ((ingest.paid.filter fun payment => decide (genesisNs < payment.timeMs * nsPerMs)).map
        Payment.usdc).sum := by
  have keyed : (ingest.settled.map fun accrual => (accrual.symbol, accrual.boundaryTsNs)).Nodup := by
    unfold Ingest.settled
    rw [List.map_map]
    refine List.Nodup.of_map (fun key : Symbol × Nanos => (key.1, key.2 / nsPerMs)) ?_
    rw [List.map_map]
    refine (List.map_congr_left fun payment _ => ?_) ▸ distinct
    show (payment.coin, payment.timeMs) = (payment.coin, payment.timeMs * nsPerMs / nsPerMs)
    rw [Int.mul_ediv_cancel _ (by decide)]
  have same : (counted genesisNs ingest.log).Perm
      (ingest.settled.filter fun accrual => decide (genesisNs < accrual.boundaryTsNs)) :=
    Watermark.firsts_perm _ _ keyed feeding.logged.1 whole
  rw [(same.map FundingAccrual.amount).sum_eq]
  unfold Ingest.settled
  rw [List.filter_map, List.map_map]
  rfl

/-- **A live account's cash is genesis, its partitions' gains, and every payment since
genesis, once.**  The engine runs over deliveries, fills and crashes from a ledger nothing
has reached; the ingest runs over any sockets and deaths; the ledger's log is what the
ingest delivered, and the session has read and handled all it was sent. -/
theorem live_funding_whole {deriveCloid : SignalId → Cloid} {config : Engine.Config}
    {process : Process} {startNs : Nanos} {first last : Life} {labels : List Engine.Label}
    (untraded : Untraded config process.store) (unmarked : process.store.fundingMarks = Dict.empty)
    (begun : restart config process startNs = some first)
    (plain : ∀ label ∈ labels, label.FundsOrFills)
    (ran : (engine deriveCloid config).run first labels = some last)
    (ingested : (ingestMachine kind).run {} moves = some ingest)
    (fed : logOf [] labels = ingest.log)
    (distinct : (ingest.paid.map fun payment => (payment.coin, payment.timeMs)).Nodup)
    (live : ingest.live = true) (read : ingest.socket = []) (published : ingest.todo = [])
    (handled : ingest.bus = []) :
    ∃ account, last.process.store.account = some account ∧
      account.cash = account.genesisCollateral +
        (last.process.store.positions.sum fun position => position.realizedPnl - position.fees) +
          ((ingest.paid.filter fun payment => decide
            (first.process.memory.portfolio.account.genesisTsNs < payment.timeMs * nsPerMs)).map
              Payment.usdc).sum := by
  have feeding := run_feeding ingested
  have inOrder : BoundariesInOrder (logOf [] labels) := by
    rw [fed]
    exact feeding.logged.2.inOrder _ _ feeding.logged.1
  obtain ⟨account, there, _, cash⟩ :=
    (run_paid (untraded_paid untraded unmarked begun) plain inOrder ran).paying.funded.cash
  refine ⟨account, there, ?_⟩
  rw [cash, fed, counted_paid feeding distinct (feeding.whole live read published handled)]
  rfl

end Run

namespace Sample

open Tickwright.Engine.Sample

def longPays : Payment := ⟨1, "BTC", -3⟩

def otherPays : Payment := ⟨2, "ETH", 2⟩

def longPaid : Payment := ⟨3, "BTC", 5⟩

/-- The process dies between two payments of an unsorted batch, and is given the one it
handled last again, and then all three. -/
def twoLives : List IngestMove :=
  [.pays [longPays] none, .starts [longPays], .runs, .reads, .publishes, .handles 0,
    .pays [longPaid, otherPays] none, .reads, .publishes, .handles 0, .crash 1,
    .starts [longPaid, longPays, otherPays], .chats .otherChannel, .runs, .reads, .publishes,
    .handles 0, .publishes, .handles 1, .publishes, .handles 0, .handles 0, .reads]

/-- What they leave. -/
def settledUp : Ingest where
  paid := [longPays, otherPays, longPaid]
  live := true
  stage := .consuming
  log := [longPaid, longPays, otherPays, otherPays, otherPays, longPays].map Payment.accrual

/-- The same deliveries, as the engine meets them. -/
def deliveries : List Engine.Label :=
  [.handle (.funding longPays.accrual) 5, .crashIn (.funding otherPays.accrual) 6 2 7,
    .handle (.funding otherPays.accrual) 8, .handle (.funding otherPays.accrual) 9,
    .handle (.funding longPays.accrual) 10, .handle (.funding longPaid.accrual) 11]

/-- A live account, opened at the venue's equity after the first payment. -/
def liveLedger : Engine.Config where
  spec := { accountId := "0xabc" }

def opened : Process where
  memory := ⟨{}, Portfolio.openAt liveLedger 0⟩
  store := { Tickwright.Store.Store.fresh with account := some ⟨"0xabc", 500, 1500000, 500⟩ }

theorem twoLives_run : (ingestMachine .kafka).run {} twoLives = some settledUp := by
  rfl

theorem twoLives_inOrder : BoundariesInOrder settledUp.log :=
  (ingests_inOrder twoLives_run).1

/-- Two and five were paid since, and nothing was traded. -/
theorem deliveries_whole :
    ∃ first last, restart liveLedger opened 4 = some first ∧
      (engine cloidOf liveLedger).run first deliveries = some last ∧
      ∃ account, last.process.store.account = some account ∧
        account.cash = account.genesisCollateral +
          (last.process.store.positions.sum fun position => position.realizedPnl - position.fees) +
            ((settledUp.paid.filter fun payment => decide
              (first.process.memory.portfolio.account.genesisTsNs < payment.timeMs * nsPerMs)).map
                Payment.usdc).sum := by
  have lived : ((restart liveLedger opened 4).bind fun first =>
      ((engine cloidOf liveLedger).run first deliveries).map fun last =>
        (last.process.store.account.map Account.cash)) = some (some 507) := by
    decide +kernel
  obtain ⟨first, begun, lived⟩ := Option.bind_eq_some_iff.mp lived
  obtain ⟨last, ran, _⟩ := Option.map_eq_some_iff.mp lived
  refine ⟨first, last, begun, ran, live_funding_whole ?_ rfl begun ?_ ran twoLives_run rfl
    (by decide) rfl rfl rfl rfl⟩
  · refine ⟨rfl, rfl, ?_, nofun⟩
    intro account there
    cases there
    rfl
  · intro label member
    simp only [deliveries, List.mem_cons, List.not_mem_nil, or_false] at member
    rcases member with rfl | rfl | rfl | rfl | rfl | rfl <;> trivial

end Sample

end Tickwright.Hyperliquid
