/-
# Engine.OneClose -- flatten never has two closes open

A loop may send its next close, or move a leftover, because of what it has
waited for: `LoopStage.mayBeOpen` says which sagas of its symbol can still be open at
each `await`.  At the start any can; while it waits for the orders the boot left
open, only those it has yet to wait for; with a close out, that one; and
everywhere else none.

No handler opens a saga but a placement (`Narrows`), an exit run places only the
operator's closes, and a close of this run is placed while its own loop stands at
its publish.  So `Watched` is kept by every step but one: a close an earlier life
published, handled once the symbol's loop has looked for open orders.  The loop
does not look again.  `Strayless` excludes that step and nothing else
(`flatten_one_close`); `Sample.second_close` is a run it happens in.
-/
import Tickwright.Engine.FlattenLoops
import Tickwright.Engine.Placement
import Tickwright.Engine.PositionCap

namespace Tickwright.Engine

open Tickwright.Domain Tickwright.Theory Tickwright.Store

set_option autoImplicit false

variable {deriveCloid : SignalId → Cloid} {config : Config} {accountTruth : Bool}

/-! ## What a handler leaves open -/

/-- Every saga open afterwards was open before, on the same symbol. -/
def Narrows (before after : Cache) : Prop :=
  ∀ c order, after.getOrder c = some order → order.isTerminal = false →
    ∃ earlier, before.getOrder c = some earlier ∧ earlier.isTerminal = false ∧
      earlier.symbol = order.symbol

theorem narrows_of_orders {before after : Cache} (same : after.orders = before.orders) :
    Narrows before after := by
  intro c order there opened
  rw [Cache.getOrder, same] at there
  exact ⟨order, there, opened, rfl⟩

theorem Faded.narrows {before after : Cache} (faded : Faded before after) :
    Narrows before after := by
  intro c order there opened
  rcases faded c order there with closed | ⟨earlier, held, fades⟩
  · rw [opened] at closed
    cases closed
  · refine ⟨earlier, held, ?_, fades.symbol.symm⟩
    by_contra closed
    rw [fades.closed (by simpa using closed)] at opened
    cases opened

/-- What a script leaves open, from what each memory it installs leaves open. -/
theorem narrows_play {process : Process} {effects : List Effect}
    (each : ∀ memory, Effect.memory memory ∈ effects → Narrows process.memory.cache memory.cache) :
    Narrows process.memory.cache (process.play effects).memory.cache := by
  rcases play_memory effects process with same | installed
  · rw [same]
    exact narrows_of_orders rfl
  · exact each _ installed

theorem Fading.narrows {process : Process} {portfolio : Portfolio} {effects : List Effect}
    (fading : Fading process.memory.cache portfolio effects) :
    Narrows process.memory.cache (process.play effects).memory.cache :=
  narrows_play fun memory member => (fading memory member).1.narrows

theorem LedgerOnly.narrows {process : Process} {effects : List Effect}
    (only : LedgerOnly process.memory.cache effects) :
    Narrows process.memory.cache (process.play effects).memory.cache := by
  refine narrows_play fun memory member => ?_
  rcases only _ member with ⟨installed, is, same⟩ | ⟨rows, is, _⟩
  · cases is
    rw [same]
    exact narrows_of_orders rfl
  · cases is

/-- One saga replaced by what an accepted event made of it. -/
theorem narrows_set {before after : Cache} {order : Order} {event : OrderEvent}
    (held : before.getOrder order.cloid = some order)
    (legal : order.state.legalTransition event.state = true)
    (orders : after.orders = before.orders.set order.cloid (order.enter event) ∨
      after.orders =
        (before.orders.set order.cloid (order.enter event)).set order.cloid (order.enter event)) :
    Narrows before after := by
  have opened : order.isTerminal = false := by
    by_contra closed
    rw [Bool.not_eq_false] at closed
    rw [OrderState.legalTransition_of_isTerminal closed] at legal
    cases legal
  intro c later there _
  by_cases here : order.cloid = c
  · subst here
    refine ⟨order, held, opened, ?_⟩
    rcases orders with is | is <;> rw [Cache.getOrder, is, Dict.get_set_self] at there <;>
      cases there <;> rfl
  · refine ⟨later, ?_, ‹_›, rfl⟩
    rcases orders with is | is
    · rwa [Cache.getOrder, is, Dict.get_set_ne _ _ here] at there
    · rwa [Cache.getOrder, is, Dict.get_set_ne _ _ here, Dict.get_set_ne _ _ here] at there

theorem onFill_narrows {process : Process} {report : FillReport} {nowNs : Nanos}
    (keyed : ∀ c order, process.memory.cache.orders.get c = some order → order.cloid = c) :
    Narrows process.memory.cache
      (process.play
        (onFill config process.memory process.store report nowNs).effects).memory.cache := by
  simp only [onFill]
  split
  · exact narrows_of_orders rfl
  · rename_i order held
    split
    · exact narrows_of_orders rfl
    · exact narrows_of_orders rfl
    · rename_i advanced event filled
      obtain ⟨_, ⟨none, _⟩ | ⟨event', _, _, legal, result⟩⟩ := Order.recordFill_cases filled
      · cases none
      · cases result
        have here : order.cloid = report.cloid := keyed _ order held
        rw [← here] at held
        split
        · exact narrows_set held legal (.inl rfl)
        · rename_i effects committed
          simp only [checkpointFill] at committed
          split at committed
          · cases committed
          · split at committed
            · cases committed
            · obtain ⟨folded, changes, _, rfl⟩ := commitFolds_cases committed
              rw [play_fill]
              exact narrows_set held legal (.inr rfl)

/-- Whether handling the input can open a saga. -/
def Input.places : Input → Bool
  | .place .. => true
  | _ => false

theorem Input.places_of_isAmbient {input : Input} (ambient : input.isAmbient = true) :
    input.places = false := by
  cases input with
  | place gates signal verdict => cases ambient
  | _ => rfl

/-- **Only a placement opens a saga.** -/
theorem handle_narrows {process : Process} {input : Input} {nowNs : Nanos}
    (keyed : ∀ c order, process.memory.cache.orders.get c = some order → order.cloid = c)
    (quiet : input.places = false) :
    Narrows process.memory.cache
      (process.play (scriptOf deriveCloid config process nowNs input).effects).memory.cache := by
  cases input with
  | place gates signal verdict => cases quiet
  | cancel signal => exact (onCancel_fading keyed signal).narrows
  | cancelAll signal => exact (onCancelAll_fading keyed signal).narrows
  | report report =>
      cases report with
      | status report => exact (onStatus_fading keyed report).narrows
      | fill report => exact onFill_narrows keyed
      | refused cloid symbol => exact narrows_of_orders rfl
  | funding accrual =>
      exact (ofVerb_ledgerOnly fun _ verb => checkpointFunding_ledgerOnly verb).narrows
  | emit strategyId seq => exact narrows_of_orders rfl
  | operatorCancel resting => exact (cancelForOperator_fading keyed resting).narrows
  | heal fills cash snapshot =>
      exact (ofVerb_ledgerOnly fun _ verb => checkpointHeal_ledgerOnly verb).narrows
  | leftover symbol =>
      exact (ofVerb_ledgerOnly fun _ verb => checkpointLeftover_ledgerOnly verb).narrows

/-! ## What a placement opens -/

/-- The guard and the split let the signal through, past the gates of an exit run. -/
def Approves (process : Process) (signal : PlaceSignal) (verdict : GuardDecision) : Prop :=
  ∃ quantity price basis, placeDecision exitGates process.memory.portfolio signal verdict =
    (.approved quantity price, basis)

/-- What handling a placement does: nothing where its saga exists, else it opens
one on the signal's symbol, terminal where it is denied, and sends it where not. -/
inductive Placing (before after : Process) (cloid : Cloid) (signal : PlaceSignal)
    (verdict : GuardDecision) : Prop
  | seen (known : (before.memory.cache.getOrder cloid).isSome = true) (same : after = before)
  | opens (order : Order) (new : before.memory.cache.getOrder cloid = none)
      (here : after.memory.cache.getOrder cloid = some order) (symbol : order.symbol = signal.symbol)
      (others : ∀ c, c ≠ cloid →
        after.memory.cache.getOrder c = before.memory.cache.getOrder c)
      (sent : order.isTerminal = true ∧ after.placed = before.placed ∨
        Approves before signal verdict)

theorem onPlace_placing {process : Process} {signal : PlaceSignal} {verdict : GuardDecision}
    {nowNs : Nanos}
    (clean : (onPlace deriveCloid exitGates process.memory signal verdict nowNs).fault = none) :
    Placing process (process.play
      (onPlace deriveCloid exitGates process.memory signal verdict nowNs).effects)
      (deriveCloid signal.signalId) signal verdict := by
  simp only [onPlace] at clean ⊢
  cases new : process.memory.cache.getOrder (deriveCloid signal.signalId) with
  | some order => exact .seen (by rw [new]; rfl) rfl
  | none =>
      simp only [new] at clean ⊢
      cases decided : placeDecision exitGates process.memory.portfolio signal verdict with
      | mk decision basis =>
          cases decision with
          | denied reason =>
              generalize refused : orderFor (deriveCloid signal.signalId) signal signal.quantity
                nowNs = order
              have cloid : order.cloid = deriveCloid signal.signalId := by rw [← refused]; rfl
              have symbol : order.symbol = signal.symbol := by rw [← refused]; rfl
              rw [← cloid] at new ⊢
              refine .opens (order.enter (sagaEvent order (.denied reason) nowNs none false)) new ?_
                symbol (fun c ne => ?_) (.inl ⟨rfl, rfl⟩)
              · exact Dict.get_set_self _ _ _
              · exact Dict.get_set_ne _ _ (Ne.symm ne)
          | approved quantity price =>
              simp only [decided] at clean ⊢
              generalize opened : approvedOrder (deriveCloid signal.signalId) signal quantity price
                basis nowNs = order at clean ⊢
              have cloid : order.cloid = deriveCloid signal.signalId := by rw [← opened]; rfl
              have symbol : order.symbol = signal.symbol := by rw [← opened]; rfl
              have approves : Approves process signal verdict := ⟨quantity, price, basis, decided⟩
              simp only [placeOrder] at clean ⊢
              split at clean
              · cases clean
              · refine .opens (submit order nowNs) new ?_ symbol (fun c ne => ?_) (.inr approves)
                · rw [← cloid]
                  exact Dict.get_set_self _ _ _
                · rw [← cloid] at ne
                  exact (Dict.get_set_ne _ _ (Ne.symm ne)).trans (Dict.get_set_ne _ _ (Ne.symm ne))

/-! ## The engine's steps -/

/-- A saga memory holds has a row, or is being sent and has one too. -/
theorem Steady.row_of_held {life : Life} (steady : Steady config life) {c : Cloid}
    (held : (life.process.memory.cache.getOrder c).isSome = true) :
    (life.process.store.orders.get c).isSome = true := by
  by_cases sending : life.sending = some c
  · exact steady.row c sending
  · rw [← steady.synced.orders.orders c sending]
    exact held

/-- **No step drops a saga.** -/
theorem Steady.known {life next : Life} {label : Label} (steady : Steady config life)
    (stepped : (engine deriveCloid config).step life label = some next)
    (lives : label.ends = false) {c : Cloid}
    (held : (life.process.memory.cache.getOrder c).isSome = true) :
    (next.process.memory.cache.getOrder c).isSome = true := by
  have after := (step_steady steady stepped).synced.orders.known c
  refine after ?_
  have row := steady.row_of_held held
  cases label with
  | handle input nowNs =>
      rw [(handle_played stepped).2]
      exact play_orders_isSome _ row
  | sent nowNs =>
      simp only [engine] at stepped
      split at stepped
      · cases stepped
      · cases stepped
        exact play_orders_isSome _ row
  | crash _ => cases lives
  | crashIn _ _ _ _ => cases lives

/-- A send that returns opens nothing. -/
theorem sent_narrows {life next : Life} {nowNs : Nanos} (steady : Steady config life)
    (stepped : (engine deriveCloid config).step life (.sent nowNs) = some next) :
    Narrows life.process.memory.cache next.process.memory.cache := by
  simp only [engine] at stepped
  split at stepped
  · cases stepped
  · rename_i cloid _
    cases stepped
    exact (afterSend_fading steady.synced.orders.cacheKeyed cloid).narrows

/-- Nor does an input that places nothing. -/
theorem input_narrows {life next : Life} {input : Input} {nowNs : Nanos}
    (steady : Steady config life) (quiet : input.places = false)
    (stepped : (engine deriveCloid config).step life (.handle input nowNs) = some next) :
    Narrows life.process.memory.cache next.process.memory.cache := by
  rw [(handle_played stepped).2]
  exact handle_narrows steady.synced.orders.cacheKeyed quiet

/-! ## What each stage still waits for -/

/-- The sagas of the symbol that can be open while a verdict is waited for. -/
def VerdictOn.mayBeOpen : VerdictOn → Cloid → Prop
  | .resume rest _, c => c ∈ rest
  | .close cloid _, c => c = cloid

namespace LoopStage

/-- The sagas of the symbol that can be open at an `await`.  Before the loop has
looked, and once it is over, any can.  A loop that faulted with its close unhandled is
not over. -/
def mayBeOpen : LoopStage → Cloid → Prop
  | .unstarted, _ | .resuming, _ | .ended _, _ | .faulted none, _ => True
  | .deciding verdict, c | .pacing verdict, c | .passing verdict, c => verdict.mayBeOpen c
  | .published cloid, c | .faulted (some cloid), c => c = cloid
  | .reading _, _ | .pricing, _ | .draining, _ | .accounting _, _ | .accountPass _, _
  | .closing, _ => False

/-- The close of this loop that may be unhandled yet. -/
def awaits : LoopStage → Option Cloid
  | .published cloid | .deciding (.close cloid _) | .faulted (some cloid) => some cloid
  | _ => none

/-- The close of this loop that has been handled and is not decided. -/
def handled : LoopStage → Option Cloid
  | .pacing (.close cloid _) | .passing (.close cloid _) => some cloid
  | _ => none

/-- The next stage waits for no less, and hides no close of the loop's own. -/
structure Follows (before after : LoopStage) : Prop where
  widens : ∀ c, before.mayBeOpen c → after.mayBeOpen c
  awaits : ∀ c, before.awaits = some c → after.awaits = some c
  handled : ∀ c, after.handled = some c → before.handled = some c
  lasts : after ≠ .ended false

/-- An `await` no saga of the symbol can be open at. -/
def settled : LoopStage → Bool
  | .reading _ | .pricing | .draining | .accounting _ | .accountPass _ | .closing => true
  | .unstarted | .resuming | .deciding _ | .pacing _ | .passing _ | .published _ | .ended _
  | .faulted _ => false

theorem not_mayBeOpen_of_settled {stage : LoopStage} (settled : stage.settled = true) (c : Cloid) :
    ¬ stage.mayBeOpen c := by
  cases stage <;> first | exact id | cases settled

theorem awaits_of_settled {stage : LoopStage} (settled : stage.settled = true) :
    stage.awaits = none := by
  cases stage <;> first | rfl | cases settled

theorem mayBeOpen_iff_of_awaits {stage : LoopStage} {cloid : Cloid}
    (awaiting : stage.awaits = some cloid) (c : Cloid) : stage.mayBeOpen c ↔ c = cloid := by
  cases stage with
  | deciding verdict => cases verdict <;> simp_all [awaits, mayBeOpen, VerdictOn.mayBeOpen]
  | faulted unhandled => cases unhandled <;> simp_all [awaits, mayBeOpen]
  | published cloid => simp_all [awaits, mayBeOpen]
  | _ => simp [awaits] at awaiting

end LoopStage

/-- Every open saga of the symbol is one that may be. -/
def OnlyOpen (cache : Cache) (symbol : Symbol) (may : Cloid → Prop) : Prop :=
  ∀ c order, cache.getOrder c = some order → order.symbol = symbol → order.isTerminal = false →
    may c

/-- Every saga of the symbol is terminal. -/
def AllClosed (cache : Cache) (symbol : Symbol) : Prop := OnlyOpen cache symbol fun _ => False

theorem OnlyOpen.mono {cache : Cache} {symbol : Symbol} {may wider : Cloid → Prop}
    (only : OnlyOpen cache symbol may) (widen : ∀ c, may c → wider c) :
    OnlyOpen cache symbol wider :=
  fun c order held on opened => widen c (only c order held on opened)

theorem OnlyOpen.narrows {before after : Cache} {symbol : Symbol} {may : Cloid → Prop}
    (only : OnlyOpen before symbol may) (narrows : Narrows before after) :
    OnlyOpen after symbol may := by
  intro c order held on opened
  obtain ⟨earlier, was, wasOpen, same⟩ := narrows c order held opened
  exact only c earlier was (same.trans on) wasOpen

theorem allClosed_iff_openOrders {cache : Cache} {symbol : Symbol} :
    AllClosed cache symbol ↔ cache.openOrders none (some symbol) = [] := by
  rw [openOrders_on, List.filter_eq_nil_iff]
  constructor
  · intro closed order member opens
    obtain ⟨c, held⟩ := (Dict.mem_values _ _).mp member
    simp only [opensOn, Bool.and_eq_true, Bool.not_eq_true', decide_eq_true_eq] at opens
    exact closed c order held opens.2 opens.1
  · intro none c order held on opened
    exact none order ((Dict.mem_values _ _).mpr ⟨c, held⟩) (by simp [opensOn, on, opened])

/-! ## What a flatten run keeps -/

/-- The property a step of a flatten run is to have. -/
structure OneClose (deriveCloid : SignalId → Cloid) (before : Job) (move : JobMove)
    (after : Job) : Prop where
  /-- A placement that is sent finds no other saga of its symbol open. -/
  alone : ∀ signal verdict nowNs, move = .handles (.place signal) verdict nowNs →
    after.life.process.placed ≠ before.life.process.placed →
    OnlyOpen after.cache signal.symbol fun c => c = deriveCloid signal.signalId
  /-- A leftover moves with every saga of its symbol terminal, on a flat read. -/
  leftover : ∀ symbol, after.moved = before.moved ++ [symbol] →
    AllClosed before.cache symbol ∧ (after.loops symbol).size = 0
  /-- A loop that did not give up ended on a flat read, its leftover moved. -/
  ended : ∀ symbol, (after.loops symbol).stage = .ended false →
    (after.loops symbol).size = 0 ∧ symbol ∈ after.moved

/-- No close of an earlier life is sent once its symbol's loop has looked for open
orders and is not over, or while another saga of the symbol is open. -/
def Strayless (deriveCloid : SignalId → Cloid) (job : Job) : JobMove → Prop
  | .handles (.place signal) verdict _ =>
      signal.signalId ∉ job.own → job.cache.getOrder (deriveCloid signal.signalId) = none →
        Approves job.life.process signal verdict →
        (job.loops signal.symbol).stage.mayBeOpen (deriveCloid signal.signalId) ∧
          AllClosed job.cache signal.symbol
  | _ => True

/-- What a flatten run keeps. -/
structure Watched (deriveCloid : SignalId → Cloid) (config : Config) (job : Job) : Prop where
  steady : Steady config job.life
  only : ∀ symbol, OnlyOpen job.cache symbol (job.loops symbol).stage.mayBeOpen
  /-- A close of this run in the topic is a saga already, or its loop awaits it. -/
  owned : ∀ signal, .place signal ∈ job.topic → signal.signalId ∈ job.own →
    (job.cache.getOrder (deriveCloid signal.signalId)).isSome = true ∨
      (job.loops signal.symbol).stage.awaits = some (deriveCloid signal.signalId)
  handled : ∀ symbol cloid, (job.loops symbol).stage.handled = some cloid →
    (job.cache.getOrder cloid).isSome = true
  ended : ∀ symbol, (job.loops symbol).stage = .ended false →
    (job.loops symbol).size = 0 ∧ symbol ∈ job.moved

/-- What a step that handles no placement and moves no leftover is to keep. -/
structure Plainly (deriveCloid : SignalId → Cloid) (config : Config) (before after : Job) :
    Prop where
  watched : Watched deriveCloid config after
  moved : after.moved = before.moved

namespace Watched

variable {job : Job}

/-- The turn and the emitter are no part of it. -/
theorem turned (watched : Watched deriveCloid config job) (turn : Option Symbol) :
    Watched deriveCloid config { job with turn := turn } :=
  ⟨watched.steady, watched.only, watched.owned, watched.handled, watched.ended⟩

/-- **One loop moves.**  It may stop waiting for a saga that is not open, and for a
close of its own that is handled. -/
theorem setLoop (watched : Watched deriveCloid config job) (symbol : Symbol) (loop : Loop)
    (only : OnlyOpen job.cache symbol loop.stage.mayBeOpen)
    (awaits : ∀ c, (job.loops symbol).stage.awaits = some c →
      (job.cache.getOrder c).isSome = true ∨ loop.stage.awaits = some c)
    (handled : ∀ c, loop.stage.handled = some c → (job.cache.getOrder c).isSome = true)
    (ended : loop.stage = .ended false → loop.size = 0 ∧ symbol ∈ job.moved) :
    Watched deriveCloid config (job.setLoop symbol loop) := by
  refine ⟨watched.steady, fun s => ?_, fun signal there own => ?_, fun s c => ?_, fun s => ?_⟩
  · by_cases here : s = symbol
    · subst here
      simpa using only
    · simpa [Job.setLoop_ne job here] using watched.only s
  · have was := watched.owned signal there own
    by_cases here : signal.symbol = symbol
    · subst here
      simpa using was.elim Or.inl (awaits _)
    · simpa [Job.setLoop_ne job here] using was
  · by_cases here : s = symbol
    · subst here
      simpa using handled c
    · simpa [Job.setLoop_ne job here] using watched.handled s c
  · by_cases here : s = symbol
    · subst here
      simpa using ended
    · simpa [Job.setLoop_ne job here] using watched.ended s

/-- **A loop that moves to a stage that follows its own keeps it.** -/
theorem follows (watched : Watched deriveCloid config job) (symbol : Symbol) (loop : Loop)
    (follows : (job.loops symbol).stage.Follows loop.stage) :
    Watched deriveCloid config (job.setLoop symbol loop) :=
  watched.setLoop symbol loop ((watched.only symbol).mono follows.widens)
    (fun c awaiting => Or.inr (follows.awaits c awaiting))
    (fun c handled => watched.handled symbol c (follows.handled c handled))
    fun ends => (follows.lasts ends).elim

/-- A step of the engine keeps it where what is open after may be. -/
theorem engineStep (watched : Watched deriveCloid config job) {next : Job} {label : Label}
    (stepped : job.engineStep deriveCloid config label = some next) (lives : label.ends = false)
    (only : ∀ symbol, OnlyOpen next.cache symbol (job.loops symbol).stage.mayBeOpen) :
    Watched deriveCloid config next := by
  obtain ⟨life, moved, rfl⟩ := Option.map_eq_some_iff.mp stepped
  have known : ∀ c, (job.cache.getOrder c).isSome = true →
      (life.process.memory.cache.getOrder c).isSome = true :=
    fun c held => watched.steady.known moved lives held
  exact ⟨step_steady watched.steady moved, only,
    fun signal there own => (watched.owned signal there own).imp_left (known _),
    fun symbol cloid handled => known _ (watched.handled symbol cloid handled), watched.ended⟩

/-- **A step of the engine that opens nothing keeps it.** -/
theorem narrowed (watched : Watched deriveCloid config job) {next : Job} {label : Label}
    (stepped : job.engineStep deriveCloid config label = some next) (lives : label.ends = false)
    (narrows : Narrows job.cache next.cache) : Watched deriveCloid config next :=
  watched.engineStep stepped lives fun symbol => (watched.only symbol).narrows narrows

/-- A signal leaves the topic. -/
theorem erased (watched : Watched deriveCloid config job) (signal : Signal) :
    Watched deriveCloid config { job with topic := job.topic.erase signal } :=
  ⟨watched.steady, watched.only,
    fun other there own => watched.owned other (List.mem_of_mem_erase there) own,
    watched.handled, watched.ended⟩

/-- **A placement that may be sent finds no other saga of its symbol open, and opens
one its loop waits for.** -/
theorem admits (watched : Watched deriveCloid config job) {signal : PlaceSignal}
    {verdict : GuardDecision} {nowNs : Nanos} (there : .place signal ∈ job.topic)
    (strayless : Strayless deriveCloid job (.handles (.place signal) verdict nowNs))
    (new : job.cache.getOrder (deriveCloid signal.signalId) = none)
    (approves : Approves job.life.process signal verdict) :
    (job.loops signal.symbol).stage.mayBeOpen (deriveCloid signal.signalId) ∧
      OnlyOpen job.cache signal.symbol fun c => c = deriveCloid signal.signalId := by
  by_cases own : signal.signalId ∈ job.own
  · rcases watched.owned signal there own with known | awaits
    · rw [new] at known
      cases known
    · have may := LoopStage.mayBeOpen_iff_of_awaits awaits
      exact ⟨(may _).mpr rfl, (watched.only signal.symbol).mono fun c => (may c).mp⟩
  · obtain ⟨may, closed⟩ := strayless own new approves
    exact ⟨may, OnlyOpen.mono closed fun c none => none.elim⟩

/-- **Handling a placement keeps it, and sends nothing beside an open saga.** -/
theorem places (watched : Watched deriveCloid config job) {signal : PlaceSignal}
    {verdict : GuardDecision} {nowNs : Nanos} {next : Job} (there : .place signal ∈ job.topic)
    (strayless : Strayless deriveCloid job (.handles (.place signal) verdict nowNs))
    (stepped : job.engineStep deriveCloid config
      (.handle (.place exitGates signal verdict) nowNs) = some next) :
    Watched deriveCloid config next ∧
      (next.life.process.placed ≠ job.life.process.placed →
        OnlyOpen next.cache signal.symbol fun c => c = deriveCloid signal.signalId) := by
  obtain ⟨life, moved, is⟩ := Option.map_eq_some_iff.mp stepped
  have lives : (Label.handle (.place exitGates signal verdict) nowNs).ends = false := rfl
  have cacheIs : next.cache = life.process.memory.cache := by rw [← is]; rfl
  have placedIs : next.life.process.placed = life.process.placed := by rw [← is]
  obtain ⟨clean, played⟩ := handle_played moved
  have placing := @onPlace_placing _ job.life.process _ _ _ clean
  rw [placedIs, cacheIs]
  rw [show job.life.process.play (onPlace deriveCloid exitGates job.life.process.memory signal
    verdict nowNs).effects = life.process from played.symm] at placing
  cases placing with
  | seen known same =>
      refine ⟨watched.narrowed stepped lives ?_, fun sent => (sent (by rw [same])).elim⟩
      rw [cacheIs, same]
      exact narrows_of_orders rfl
  | opens order new here symbol others sent =>
      -- what is open afterwards is the new saga, or was open before
      have either : ∀ c later, life.process.memory.cache.getOrder c = some later →
          later.isTerminal = false →
          c = deriveCloid signal.signalId ∧ later = order ∨ job.cache.getOrder c = some later := by
        intro c later held opened
        by_cases is : c = deriveCloid signal.signalId
        · subst is
          rw [here] at held
          exact .inl ⟨rfl, (Option.some.inj held).symm⟩
        · exact .inr ((others c is).symm.trans held)
      rcases sent with ⟨terminal, unsent⟩ | approves
      · refine ⟨watched.narrowed stepped lives ?_, fun sent => (sent unsent).elim⟩
        rw [cacheIs]
        intro c later held opened
        rcases either c later held opened with ⟨_, rfl⟩ | was
        · rw [terminal] at opened
          cases opened
        · exact ⟨later, was, opened, rfl⟩
      · obtain ⟨may, alone⟩ := watched.admits there strayless new approves
        refine ⟨watched.engineStep stepped lives fun s => ?_, fun _ c later held on opened => ?_⟩
        · rw [cacheIs]
          intro c later held on opened
          rcases either c later held opened with ⟨rfl, rfl⟩ | was
          · rw [← on, symbol]
            exact may
          · exact watched.only s c later was on opened
        · rcases either c later held opened with ⟨is, _⟩ | was
          · exact is
          · exact alone c later was on opened

end Watched

/-! ## The loop's own moves -/

namespace Loop

theorem gaveUp_stage (loop : Loop) (next : LoopStage) :
    (loop.gaveUp next).stage = .ended true ∨ (loop.gaveUp next).stage = next := by
  simp only [gaveUp]
  split <;> simp

theorem readFailed_stage (loop : Loop) (rateLimited : Bool) (next : LoopStage) :
    (loop.readFailed rateLimited next).stage = .ended true ∨
      (loop.readFailed rateLimited next).stage = next := by
  simp only [readFailed]
  split
  · exact .inr rfl
  · exact loop.gaveUp_stage next

theorem again_stage (loop : Loop) (size : Decimal) (reason : Option DryReason) :
    (loop.again size reason).stage = .ended true ∨ (loop.again size reason).stage = .pricing := by
  cases reason with
  | none => exact .inr rfl
  | some reason => exact Loop.gaveUp_stage { loop with size := size } .pricing

end Loop

namespace LoopStage

/-- From a settled stage, on to any but a flat end. -/
theorem follows_of_settled {before after : LoopStage} (settled : before.settled = true)
    (handled : after.handled = none) (lasts : after ≠ .ended false) : before.Follows after := by
  refine ⟨fun c may => (not_mayBeOpen_of_settled settled c may).elim, fun c awaiting => ?_,
    fun c there => ?_, lasts⟩
  · rw [awaits_of_settled settled] at awaiting
    cases awaiting
  · rw [handled] at there
    cases there

theorem unstarted_follows : unstarted.Follows .resuming := by
  constructor <;> simp [mayBeOpen, awaits, handled]

theorem pacing_follows (verdict : VerdictOn) : (pacing verdict).Follows (.passing verdict) := by
  cases verdict <;> constructor <;> simp [mayBeOpen, awaits, handled]

theorem passing_follows (verdict : VerdictOn) :
    (passing verdict).Follows (.deciding verdict) := by
  cases verdict <;> constructor <;> simp [mayBeOpen, awaits, handled]

theorem published_follows_deciding (cloid : Cloid) (refusal : Option OrderRefusal) :
    (published cloid).Follows (.deciding (.close cloid refusal)) := by
  constructor <;> simp [mayBeOpen, VerdictOn.mayBeOpen, awaits, handled]

theorem published_follows_faulted (cloid : Cloid) :
    (published cloid).Follows (.faulted (some cloid)) := by
  constructor <;> simp [mayBeOpen, awaits, handled]

theorem follows_gaveUp {before : LoopStage} (awaits : before.awaits = none) :
    before.Follows (.ended true) := by
  refine ⟨fun c _ => trivial, fun c awaiting => ?_, fun c there => ?_, by simp⟩
  · rw [awaits] at awaiting
    cases awaiting
  · cases there

end LoopStage

namespace Watched

variable {job : Job}

/-- `_left`: the leftover is moved with every saga of the symbol terminal. -/
theorem left (watched : Watched deriveCloid config job) {symbol : Symbol} (size : Decimal)
    (reason : Option DryReason) (nowNs : Nanos) (closed : AllClosed job.cache symbol)
    (awaits : (job.loops symbol).stage.awaits = none) :
    Watched deriveCloid config (job.left deriveCloid config symbol size reason nowNs) ∧
      (∀ s, (job.left deriveCloid config symbol size reason nowNs).moved = job.moved ++ [s] →
        AllClosed job.cache s ∧
          ((job.left deriveCloid config symbol size reason nowNs).loops s).size = 0) := by
  have unmoved : ∀ s, job.moved = job.moved ++ [s] → False := fun s same => by simp at same
  have noAwait : ∀ {P : Cloid → Prop}, ∀ c, (job.loops symbol).stage.awaits = some c → P c :=
    fun c awaiting => by rw [awaits] at awaiting; cases awaiting
  simp only [Job.left]
  split
  · rename_i flat
    subst flat
    split
    · refine ⟨watched.setLoop symbol _ ?_ noAwait (fun c there => by cases there)
        (fun ends => by cases ends), fun s same => (unmoved s same).elim⟩
      exact OnlyOpen.mono closed fun c none => none.elim
    · rename_i life moved
      let leftover : Job := { job with life := life, moved := job.moved ++ [symbol] }
      have stepped : job.engineStep deriveCloid config (.handle (.leftover symbol) nowNs) =
          some { job with life := life } := by
        rw [Job.engineStep, moved]
        rfl
      have narrows : Narrows job.cache life.process.memory.cache :=
        input_narrows watched.steady rfl moved
      have kept := watched.narrowed stepped rfl narrows
      have recorded : Watched deriveCloid config leftover :=
        ⟨kept.steady, kept.only, kept.owned, kept.handled, fun s ends =>
          ⟨(watched.ended s ends).1, List.mem_append_left _ (watched.ended s ends).2⟩⟩
      refine ⟨recorded.setLoop symbol _ ?_ noAwait (fun c there => by cases there)
        (fun _ => ⟨rfl, by simp [leftover]⟩), fun s same => ?_⟩
      · exact OnlyOpen.mono (closed.narrows narrows) fun c none => none.elim
      · simp only [Job.setLoop_moved, List.append_cancel_left_eq, List.cons.injEq] at same
        obtain ⟨rfl, -⟩ := same
        exact ⟨closed, by simp⟩
  · refine ⟨watched.setLoop symbol _ ?_ noAwait (fun c there => ?_) (fun ends => ?_),
      fun s same => (unmoved s same).elim⟩
    · exact OnlyOpen.mono closed fun c none => none.elim
    · rcases (job.loops symbol).again_stage size reason with is | is <;> rw [is] at there <;>
        cases there
    · rcases (job.loops symbol).again_stage size reason with is | is <;> rw [is] at ends <;>
        cases ends

/-- `_resume_orders`: every saga open when the drain returned is waited for. -/
theorem resume (watched : Watched deriveCloid config job) {symbol : Symbol} (nowNs : Nanos)
    (stage : (job.loops symbol).stage = .resuming) :
    Watched deriveCloid config (job.resume deriveCloid config symbol nowNs) ∧
      (∀ s, (job.resume deriveCloid config symbol nowNs).moved = job.moved ++ [s] →
        AllClosed job.cache s ∧
          ((job.resume deriveCloid config symbol nowNs).loops s).size = 0) := by
  have awaits : (job.loops symbol).stage.awaits = none := by rw [stage]; rfl
  simp only [Job.resume]
  split
  · rename_i none
    exact watched.left _ _ nowNs (allClosed_iff_openOrders.mpr none) awaits
  · refine ⟨watched.setLoop symbol _ (fun c order held on opened => ?_) (fun c awaiting => ?_)
      (fun c there => by cases there) (fun ends => by cases ends), fun s same => ?_⟩
    · have keyed : order.cloid = c := watched.steady.synced.orders.cacheKeyed c order held
      have member : order ∈ job.cache.openOrders none (some symbol) := by
        rw [openOrders_on, List.mem_filter]
        exact ⟨(Dict.mem_values _ _).mpr ⟨c, held⟩, by simp [opensOn, on, opened]⟩
      rw [← keyed]
      exact List.mem_map_of_mem member
    · rw [awaits] at awaiting
      cases awaiting
    · simp [Job.goes] at same

/-- `_decided`: a verdict is left behind once its saga is terminal. -/
theorem decided (watched : Watched deriveCloid config job) {symbol : Symbol}
    {verdict : VerdictOn} (stage : (job.loops symbol).stage = .deciding verdict) :
    Watched deriveCloid config (job.decided symbol verdict) := by
  have only := watched.only symbol
  rw [stage] at only
  have closes : ∀ {cloid : Cloid} {saga : Order}, job.cache.getOrder cloid = some saga →
      saga.isTerminal = true → ∀ c order, job.cache.getOrder c = some order →
      order.isTerminal = false → c ≠ cloid := by
    rintro cloid saga held terminal c order there opened rfl
    rw [held] at there
    cases there
    rw [terminal] at opened
    cases opened
  match verdict with
  | .resume [] before =>
      refine watched.setLoop symbol _ (only.mono fun c member => ?_) (fun c awaiting => ?_)
        (fun c there => by cases there) (fun ends => by cases ends)
      · cases member
      · rw [stage] at awaiting
        cases awaiting
  | .resume (cloid :: rest) before =>
      have noAwait : ∀ {P : Cloid → Prop}, ∀ c, (job.loops symbol).stage.awaits = some c → P c :=
        fun c awaiting => by rw [stage] at awaiting; cases awaiting
      simp only [Job.decided]
      split
      · exact watched.setLoop symbol _ (only.mono fun c _ => trivial) noAwait
          (fun c there => by cases there) (fun ends => by cases ends)
      · rename_i saga held
        split
        · rename_i terminal
          refine watched.setLoop symbol _ (fun c order there on opened => ?_) noAwait
            (fun c there => by cases there) (fun ends => by cases ends)
          have member : c ∈ cloid :: rest := only c order there on opened
          exact (List.mem_cons.mp member).resolve_left (closes held terminal c order there opened)
        · exact watched.setLoop symbol _ only noAwait (fun c there => by cases there)
            (fun ends => by cases ends)
  | .close cloid refusal =>
      have awaits : ∀ c, (job.loops symbol).stage.awaits = some c → c = cloid := by
        intro c awaiting
        rw [stage] at awaiting
        cases awaiting
        rfl
      simp only [Job.decided]
      split
      · refine watched.setLoop symbol _ only (fun c awaiting => .inr ?_)
          (fun c there => by cases there) (fun ends => by cases ends)
        rw [awaits c awaiting]
        rfl
      · rename_i saga held
        have known : ∀ c, (job.loops symbol).stage.awaits = some c →
            (job.cache.getOrder c).isSome = true := by
          intro c awaiting
          rw [awaits c awaiting, held]
          rfl
        split
        · rename_i terminal
          have closed : AllClosed job.cache symbol := fun c order there on opened =>
            closes held terminal c order there opened (only c order there on opened)
          split
          · exact watched.setLoop symbol _ closed (fun c awaiting => .inl (known c awaiting))
              (fun c there => by cases there) (fun ends => by cases ends)
          · split <;>
              exact watched.setLoop symbol _ closed (fun c awaiting => .inl (known c awaiting))
                (fun c there => by cases there) (fun ends => by cases ends)
        · refine watched.setLoop symbol _ only (fun c awaiting => .inl (known c awaiting))
            (fun c there => ?_) (fun ends => by cases ends)
          cases there
          rw [held]
          rfl

/-- `_size_gap` asks the books with nothing open, whatever it finds. -/
theorem sizes (watched : Watched deriveCloid config job) {symbol : Symbol} {gap : LoopStage}
    (settled : (job.loops symbol).stage.settled = true) (handled : gap.handled = none)
    (lasts : gap ≠ .ended false) : Plainly deriveCloid config job (job.sizes symbol gap) := by
  simp only [Job.sizes]
  split
  · exact ⟨watched.follows symbol _ (LoopStage.follows_of_settled settled rfl (by simp)), rfl⟩
  · exact ⟨watched.follows symbol _ (LoopStage.follows_of_settled settled handled lasts), rfl⟩

theorem accounted (watched : Watched deriveCloid config job) {symbol : Symbol} (second : Bool)
    (settled : (job.loops symbol).stage.settled = true) :
    Plainly deriveCloid config job (job.accounted symbol second) := by
  cases second with
  | false => exact watched.sizes settled rfl (by simp)
  | true => exact watched.sizes settled rfl (by simp)

/-- A settled stage finds every saga of the symbol terminal. -/
theorem closed (watched : Watched deriveCloid config job) {symbol : Symbol}
    (settled : (job.loops symbol).stage.settled = true) : AllClosed job.cache symbol :=
  (watched.only symbol).mono (LoopStage.not_mayBeOpen_of_settled settled)

theorem emit_close {emitter next : SignalEmitter} {symbol : Symbol} {size : Decimal}
    {signal : Signal} (emitted : emitter.emit (Job.closeVerb symbol size) = .ok (signal, next)) :
    ∃ placed : PlaceSignal, signal = .place placed ∧ placed.symbol = symbol := by
  simp only [Job.closeVerb, SignalEmitter.emit, reduceCtorEq, false_and, if_false, ne_eq,
    not_true_eq_false, and_false, Except.ok.injEq, Prod.mk.injEq] at emitted
  exact ⟨_, emitted.1.symm, rfl⟩

/-- **A close is published only with nothing open.** -/
theorem close (watched : Watched deriveCloid config job) {symbol : Symbol} {nowNs : Nanos}
    {next : Job} (stage : (job.loops symbol).stage = .closing)
    (closed : job.close deriveCloid config symbol nowNs = some next) :
    Plainly deriveCloid config job next := by
  simp only [Job.close] at closed
  split at closed
  · cases closed
  · rename_i signal emitter emitted
    obtain ⟨recorded, stepped, rfl⟩ := Option.map_eq_some_iff.mp closed
    obtain ⟨placed, rfl, on⟩ := emit_close emitted
    obtain ⟨life, moved, rfl⟩ := Option.map_eq_some_iff.mp stepped
    have kept := watched.narrowed stepped rfl (input_narrows watched.steady rfl moved)
    have only : AllClosed life.process.memory.cache symbol := by
      have only := kept.only symbol
      simp only [stage] at only
      exact only
    refine ⟨⟨kept.steady, fun s => ?_, fun other there own => ?_, fun s c => ?_, fun s => ?_⟩, rfl⟩
    · by_cases here : s = symbol
      · subst here
        exact OnlyOpen.mono only fun c none => none.elim
      · simpa [Job.goes, Job.setLoop_ne _ here, Job.cache] using kept.only s
    · simp only [Job.goes, Job.setLoop_topic, Job.setLoop_own, List.mem_append,
        List.mem_singleton] at there own
      by_cases is : other.signalId = placed.signalId
      · have here : other.symbol = symbol := (congrArg SignalId.symbol is).trans on
        rw [here, is]
        exact .inr (by simp [Job.goes, LoopStage.awaits, Signal.signalId])
      · have old : .place other ∈ job.topic := there.resolve_right fun same => by
          cases same
          exact is rfl
        have before := kept.owned other old (own.resolve_right is)
        by_cases here : other.symbol = symbol
        · refine .inl (before.resolve_right fun awaiting => ?_)
          simp only [here, stage, LoopStage.awaits] at awaiting
          cases awaiting
        · simpa [Job.goes, Job.setLoop_ne _ here, Job.cache] using before
    · by_cases here : s = symbol
      · subst here
        simp [Job.goes, LoopStage.handled]
      · simpa [Job.goes, Job.setLoop_ne _ here, Job.cache] using kept.handled s c
    · by_cases here : s = symbol
      · subst here
        simp [Job.goes]
      · simpa [Job.goes, Job.setLoop_ne _ here, Job.cache] using kept.ended s

end Watched

/-! ## The run -/

/-- Whether the step handles a placement. -/
def JobMove.places : JobMove → Bool
  | .handles (.place _) _ _ => true
  | _ => false

theorem Watched.oneClose {before after : Job} {move : JobMove}
    (watched : Watched deriveCloid config after) (quiet : move.places = false)
    (leftover : ∀ symbol, after.moved = before.moved ++ [symbol] →
      AllClosed before.cache symbol ∧ (after.loops symbol).size = 0) :
    Watched deriveCloid config after ∧ OneClose deriveCloid before move after := by
  refine ⟨watched, fun signal verdict nowNs is => ?_, leftover, watched.ended⟩
  rw [is] at quiet
  cases quiet

theorem Plainly.oneClose {before after : Job} {move : JobMove}
    (plainly : Plainly deriveCloid config before after) (quiet : move.places = false) :
    Watched deriveCloid config after ∧ OneClose deriveCloid before move after :=
  plainly.watched.oneClose quiet fun s same => by simp [plainly.moved] at same

namespace Watched

variable {job next : Job}

/-- A step of the engine that opens nothing, wherever its signal came from. -/
theorem quietly (watched : Watched deriveCloid config job) {input : Input} {nowNs : Nanos}
    (quiet : input.places = false)
    (stepped : job.engineStep deriveCloid config (.handle input nowNs) = some next) :
    Plainly deriveCloid config job next := by
  have taken := stepped
  obtain ⟨life, moved, rfl⟩ := Option.map_eq_some_iff.mp stepped
  exact ⟨watched.narrowed taken rfl (input_narrows watched.steady quiet moved), rfl⟩

/-- A signal is handled. -/
theorem handles (watched : Watched deriveCloid config job) {signal : Signal}
    {verdict : GuardDecision} {nowNs : Nanos} {handled : Job} (there : signal ∈ job.topic)
    (strayless : Strayless deriveCloid job (.handles signal verdict nowNs))
    (taken : job.engineStep deriveCloid config (.handle (Job.inputOf verdict signal) nowNs) =
      some handled) :
    Watched deriveCloid config { handled with topic := job.topic.erase signal } ∧
      OneClose deriveCloid job (.handles signal verdict nowNs)
        { handled with topic := job.topic.erase signal } := by
  have same : handled.topic = job.topic ∧ handled.moved = job.moved := by
    obtain ⟨life, _, rfl⟩ := Option.map_eq_some_iff.mp taken
    exact ⟨rfl, rfl⟩
  rw [← same.1]
  cases signal with
  | place signal =>
      obtain ⟨kept, alone⟩ := watched.places there strayless taken
      refine ⟨kept.erased _, fun s v t is sent => ?_, fun s moved => ?_, kept.ended⟩
      · cases is
        exact alone sent
      · simp [same.2] at moved
  | cancel signal =>
      have plainly := watched.quietly rfl taken
      exact Plainly.oneClose ⟨plainly.watched.erased _, plainly.moved⟩ rfl
  | cancelAll signal =>
      have plainly := watched.quietly rfl taken
      exact Plainly.oneClose ⟨plainly.watched.erased _, plainly.moved⟩ rfl

end Watched

/-- **Every step that lets no stray close in keeps it, and has the property.** -/
theorem step_watched {before after : Job} {move : JobMove}
    (watched : Watched deriveCloid config before) (strayless : Strayless deriveCloid before move)
    (stepped : (Job.machine deriveCloid config accountTruth).step before move = some after) :
    Watched deriveCloid config after ∧ OneClose deriveCloid before move after := by
  cases move with
  | handles signal verdict nowNs =>
      obtain ⟨there, handled, taken, rfl⟩ := @Job.step_handles _ _ accountTruth _ _ _ _ _ stepped
      exact watched.handles there strayless taken
  | drops signal =>
      simp only [Job.machine, Job.step] at stepped
      cases stepped
      exact Plainly.oneClose ⟨watched.erased signal, rfl⟩ rfl
  | hears input nowNs =>
      simp only [Job.machine, Job.step] at stepped
      split at stepped
      · rename_i ambient
        exact (watched.quietly (Input.places_of_isAmbient ambient) stepped).oneClose rfl
      · cases stepped
  | sent nowNs =>
      simp only [Job.machine, Job.step] at stepped
      have taken := stepped
      obtain ⟨life, took, rfl⟩ := Option.map_eq_some_iff.mp stepped
      exact Plainly.oneClose
        ⟨watched.narrowed taken rfl (sent_narrows watched.steady took), rfl⟩ rfl
  | begins symbol size =>
      simp only [Job.machine, Job.step] at stepped
      split at stepped
      · rename_i stage
        cases stepped
        have follows : (before.loops symbol).stage.Follows .resuming := by
          rw [stage]
          exact LoopStage.unstarted_follows
        exact Plainly.oneClose ⟨watched.follows symbol _ follows, rfl⟩ rfl
      · cases stepped
  | drained symbol nowNs =>
      simp only [Job.machine, Job.step] at stepped
      split at stepped
      · rename_i stage
        cases stepped
        obtain ⟨kept, leftover⟩ := watched.resume nowNs stage
        exact kept.oneClose rfl leftover
      · cases stepped
  | decides symbol =>
      simp only [Job.machine, Job.step] at stepped
      split at stepped
      · rename_i verdict stage
        cases stepped
        exact Plainly.oneClose ⟨watched.decided stage, Job.decided_moved symbol verdict⟩ rfl
      · cases stepped
  | passBegins symbol =>
      simp only [Job.machine, Job.step] at stepped
      split at stepped
      · rename_i verdict stage _
        cases stepped
        have follows : (before.loops symbol).stage.Follows (.passing verdict) := by
          rw [stage]
          exact LoopStage.pacing_follows verdict
        exact Plainly.oneClose ⟨(watched.turned _).follows symbol _ follows, rfl⟩ rfl
      · cases stepped
  | passEnds symbol result =>
      simp only [Job.machine, Job.step] at stepped
      split at stepped
      · rename_i verdict stage
        have back : (before.loops symbol).stage.Follows (.deciding verdict) := by
          rw [stage]
          exact LoopStage.passing_follows verdict
        have gaveUp : (before.loops symbol).stage.Follows (.ended true) := by
          rw [stage]
          exact LoopStage.follows_gaveUp rfl
        split at stepped
        · cases stepped
          exact Plainly.oneClose ⟨(watched.turned none).follows symbol _ back, rfl⟩ rfl
        · cases stepped
          refine Plainly.oneClose ⟨(watched.turned none).follows symbol _ ?_, rfl⟩ rfl
          rcases (before.loops symbol).readFailed_stage (decide (result = .rateLimited))
            (.deciding verdict) with is | is <;> rw [is]
          · exact gaveUp
          · exact back
      · cases stepped
  | readFails symbol rateLimited =>
      simp only [Job.machine, Job.step] at stepped
      split at stepped
      · rename_i reason stage
        cases stepped
        refine Plainly.oneClose ⟨watched.follows symbol _ ?_, rfl⟩ rfl
        rcases (before.loops symbol).readFailed_stage rateLimited (.reading reason) with is | is <;>
          rw [is, stage] <;> exact LoopStage.follows_of_settled rfl rfl (by simp)
      · cases stepped
  | reads symbol size nowNs =>
      simp only [Job.machine, Job.step] at stepped
      split at stepped
      · rename_i reason stage
        cases stepped
        have settled : (before.loops symbol).stage.settled = true := by rw [stage]; rfl
        obtain ⟨kept, leftover⟩ := watched.left size reason nowNs (watched.closed settled)
          (LoopStage.awaits_of_settled settled)
        exact kept.oneClose rfl leftover
      · cases stepped
  | prices symbol seen =>
      simp only [Job.machine, Job.step] at stepped
      split at stepped
      · rename_i stage
        have settled : (before.loops symbol).stage.settled = true := by rw [stage]; rfl
        split at stepped
        · cases stepped
          have plainly : Plainly deriveCloid config before (before.sizes symbol .draining) :=
            watched.sizes settled rfl (by simp)
          exact plainly.oneClose rfl
        · cases stepped
          have follows : (before.loops symbol).stage.Follows (.reading (some .noPrice)) :=
            LoopStage.follows_of_settled settled rfl (by simp)
          exact Plainly.oneClose ⟨watched.follows symbol _ follows, rfl⟩ rfl
      · cases stepped
  | gapDrained symbol =>
      simp only [Job.machine, Job.step] at stepped
      split at stepped
      · rename_i stage
        cases stepped
        have settled : (before.loops symbol).stage.settled = true := by rw [stage]; rfl
        have plainly : Plainly deriveCloid config before
            (before.sizes symbol (.accounting false)) := watched.sizes settled rfl (by simp)
        exact plainly.oneClose rfl
      · cases stepped
  | accountBegins symbol =>
      simp only [Job.machine, Job.step] at stepped
      have passes : ∀ second, (before.loops symbol).stage = .accounting second →
          Plainly deriveCloid config before (before.accounted symbol second) :=
        fun second stage => watched.accounted second (by rw [stage]; rfl)
      split at stepped
      · rename_i second stage _
        split at stepped
        · cases stepped
          have follows : (before.loops symbol).stage.Follows (.accountPass second) :=
            LoopStage.follows_of_settled (by rw [stage]; rfl) rfl (by simp)
          exact Plainly.oneClose ⟨(watched.turned _).follows symbol _ follows, rfl⟩ rfl
        · cases stepped
          exact (passes second stage).oneClose rfl
      · rename_i second _ stage _
        split at stepped
        · cases stepped
        · cases stepped
          exact (passes second stage).oneClose rfl
      · cases stepped
  | accountEnds symbol =>
      simp only [Job.machine, Job.step] at stepped
      split at stepped
      · rename_i second stage
        cases stepped
        have settled : (({ before with turn := none } : Job).loops symbol).stage.settled = true := by
          simp only [stage]
          rfl
        have plainly := (watched.turned none).accounted second settled
        exact Plainly.oneClose ⟨plainly.watched, plainly.moved⟩ rfl
      · cases stepped
  | closes symbol nowNs =>
      simp only [Job.machine, Job.step] at stepped
      split at stepped
      · rename_i free
        exact (watched.close free.1 stepped).oneClose rfl
      · cases stepped
  | closed symbol refusal =>
      simp only [Job.machine, Job.step] at stepped
      split at stepped
      · rename_i cloid stage
        cases stepped
        have follows : (before.loops symbol).stage.Follows (.deciding (.close cloid refusal)) := by
          rw [stage]
          exact LoopStage.published_follows_deciding cloid refusal
        exact Plainly.oneClose ⟨(watched.turned none).follows symbol _ follows, rfl⟩ rfl
      · cases stepped
  | closeRaises symbol =>
      simp only [Job.machine, Job.step] at stepped
      split at stepped
      · rename_i cloid stage
        cases stepped
        have follows : (before.loops symbol).stage.Follows (.faulted (some cloid)) := by
          rw [stage]
          exact LoopStage.published_follows_faulted cloid
        exact Plainly.oneClose ⟨(watched.turned none).follows symbol _ follows, rfl⟩ rfl
      · cases stepped

/-- Where a flatten run starts: over any life the engine can reach, whatever it left
open and whatever is in the topic, no loop begun. -/
structure Job.Opens (deriveCloid : SignalId → Cloid) (config : Config) (job : Job) : Prop where
  lived : ∃ process startNs first earlier,
    (Untraded config process.store ∨ Sound config process.store) ∧
    restart config process startNs = some first ∧
    (engine deriveCloid config).run first earlier = some job.life
  loops : ∀ symbol, (job.loops symbol).stage = .unstarted
  own : job.own = []
  moved : job.moved = []

theorem Job.Opens.watched {job : Job} (opens : job.Opens deriveCloid config) :
    Watched deriveCloid config job := by
  obtain ⟨process, startNs, first, earlier, start, begun, reached⟩ := opens.lived
  refine ⟨?_, fun symbol => ?_, fun signal _ own => ?_, fun symbol cloid handled => ?_,
    fun symbol ends => ?_⟩
  · rcases start with untraded | sound
    · exact run_steady (untraded_steady untraded begun).1 reached
    · exact run_steady (restart_steady sound begun).1 reached
  · rw [opens.loops symbol]
    exact fun c order _ _ _ => trivial
  · rw [opens.own] at own
    cases own
  · rw [opens.loops symbol] at handled
    cases handled
  · rw [opens.loops symbol] at ends
    cases ends

/-- **Flatten never has two closes open, in any run no stray close enters.**  At every
step of a run, whatever its loops, its venue and its reports do: a placement is sent
only where every other saga of its symbol is terminal, a leftover moves only where
every saga of it is and the loop's last read was flat, and a loop that did not give
up ended so. -/
theorem flatten_one_close {job before after : Job} {done : List JobMove} {move : JobMove}
    (opens : job.Opens deriveCloid config)
    (strayless : (Job.machine deriveCloid config accountTruth).Meets (Strayless deriveCloid) job
      (done ++ [move]))
    (ran : (Job.machine deriveCloid config accountTruth).run job done = some before)
    (stepped : (Job.machine deriveCloid config accountTruth).step before move = some after) :
    OneClose deriveCloid before move after := by
  have watched : Watched deriveCloid config before :=
    Machine.run_induct_of (Strayless deriveCloid) (Watched deriveCloid config)
      (fun kept strayless stepped => (step_watched kept strayless stepped).1) opens.watched
      strayless.append ran
  exact (step_watched watched (strayless.after ran).1 stepped).2

namespace Sample

/-- Paper on lots of a hundredth. -/
def inLots : Config := { paper with szDecimals := fun _ => some 2 }

/-- The strategy's order, then the operator's closes by their seq. -/
def closeCloid (signalId : SignalId) : Cloid :=
  if signalId.strategyId = momentum then "0x01" else if signalId.seq = 1 then "0x02" else "0x03"

/-- The strategy buys ten, the venue fills them, and the engine is started again. -/
def boughtTen : List Label :=
  [.handle (.place {} buy approval) 1, .sent 2, .handle (.report (.status live)) 3,
    .handle (.report (.fill { fourFilled with quantity := 10 })) 4, .crash 5]

/-- The close an earlier exit run published, and its process did not live to handle. -/
def strayClose : PlaceSignal where
  strategyId := operator
  symbol := "BTC"
  seq := 1
  side := .sell
  quantity := 10
  orderType := .market
  timeInForce := .ioc
  reduceOnly := true

def ownClose : PlaceSignal := { strayClose with seq := 2 }

def flattening (life : Life) (topic : List Signal) : Job where
  life := life
  topic := topic
  loops _ := {}
  emitter := { strategyId := operator, nextSeq := 2 }

/-- The job over the life that bought ten. -/
def overTen (topic : List Signal) : Option Job :=
  (restart inLots unstarted 0).bind fun first =>
    ((engine closeCloid inLots).run first boughtTen).map fun life => flattening life topic

theorem overTen_opens {topic : List Signal} {job : Job} (opened : overTen topic = some job) :
    job.Opens closeCloid inLots := by
  obtain ⟨first, begun, lived⟩ := Option.bind_eq_some_iff.mp opened
  obtain ⟨life, reached, rfl⟩ := Option.map_eq_some_iff.mp lived
  exact ⟨⟨unstarted, 0, first, boughtTen, .inl ⟨rfl, rfl, nofun, fun _ => rfl⟩, begun, reached⟩,
    fun _ => rfl, rfl, rfl⟩

/-- The loop looks for open orders, closes the ten and waits for the close. -/
def flatMoves : List JobMove :=
  [.begins "BTC" 10, .drained "BTC" 6, .prices "BTC" true, .closes "BTC" 7,
    .handles (.place ownClose) (.approved 10 none) 8, .sent 9, .closed "BTC" none,
    .decides "BTC", .passBegins "BTC",
    .hears (.report (.status { live with cloid := "0x03", venueOid := some "78" })) 10,
    .hears (.report
      (.fill { fourFilled with cloid := "0x03", tradeId := "t2", quantity := 10 })) 11,
    .passEnds "BTC" .proved, .decides "BTC"]

/-- Every close the run handles is its own. -/
def ownOnly (job : Job) : JobMove → Bool
  | .handles (.place signal) _ _ => decide (signal.signalId ∈ job.own)
  | _ => true

theorem strayless_of_ownOnly {job : Job} {move : JobMove} (own : ownOnly job move = true) :
    Strayless closeCloid job move := by
  cases move with
  | handles signal verdict nowNs =>
      cases signal with
      | place signal => exact fun stray => (stray (of_decide_eq_true own)).elim
      | cancel signal => trivial
      | cancelAll signal => trivial
  | _ => trivial

/-- The run ends flat, and its last step, the flat read, has the property. -/
theorem closes_flat : ∃ job before after, job.Opens closeCloid inLots ∧
    (Job.machine closeCloid inLots true).run job flatMoves = some before ∧
    (Job.machine closeCloid inLots true).step before (.reads "BTC" 0 12) = some after ∧
    after.moved = ["BTC"] ∧ OneClose closeCloid before (.reads "BTC" 0 12) after := by
  have checked : (overTen []).all (fun job =>
      (Job.machine closeCloid inLots true).checks ownOnly job
        (flatMoves ++ [.reads "BTC" 0 12])) = true := by
    decide +kernel
  have ended : ((overTen []).bind fun job =>
      ((Job.machine closeCloid inLots true).run job flatMoves).bind fun before =>
        ((Job.machine closeCloid inLots true).step before (.reads "BTC" 0 12)).map
          Job.moved) = some ["BTC"] := by
    decide +kernel
  obtain ⟨job, opened, ended⟩ := Option.bind_eq_some_iff.mp ended
  obtain ⟨before, ran, ended⟩ := Option.bind_eq_some_iff.mp ended
  obtain ⟨after, stepped, moved⟩ := Option.map_eq_some_iff.mp ended
  rw [opened, Option.all_some] at checked
  have strayless := Machine.meets_of_checks (fun _ _ => strayless_of_ownOnly) checked
  exact ⟨job, before, after, overTen_opens opened, ran, stepped, moved,
    flatten_one_close (overTen_opens opened) strayless ran stepped⟩

/-- The stray is handled after the loop looked, and the loop closes beside it. -/
def strayMoves : List JobMove :=
  [.begins "BTC" 10, .drained "BTC" 6, .handles (.place strayClose) (.approved 10 none) 7,
    .sent 8, .prices "BTC" true, .closes "BTC" 9]

/-- **Two closes of ten are open on a position of ten.** -/
theorem second_close : ∃ job before after, job.Opens closeCloid inLots ∧
    (Job.machine closeCloid inLots true).run job strayMoves = some before ∧
    (Job.machine closeCloid inLots true).step before
      (.handles (.place ownClose) (.approved 10 none) 10) = some after ∧
    ¬ OneClose closeCloid before (.handles (.place ownClose) (.approved 10 none) 10) after := by
  have ended : ((overTen [.place strayClose]).bind fun job =>
      ((Job.machine closeCloid inLots true).run job strayMoves).bind fun before =>
        ((Job.machine closeCloid inLots true).step before
          (.handles (.place ownClose) (.approved 10 none) 10)).map fun after =>
            (before.life.process.placed.length, after.life.process.placed.length,
              (after.cache.getOrder "0x02").map fun order =>
                (order.symbol, order.isTerminal))) =
      some (2, 3, some ("BTC", false)) := by
    decide +kernel
  obtain ⟨job, opened, ended⟩ := Option.bind_eq_some_iff.mp ended
  obtain ⟨before, ran, ended⟩ := Option.bind_eq_some_iff.mp ended
  obtain ⟨after, stepped, found⟩ := Option.map_eq_some_iff.mp ended
  simp only [Prod.mk.injEq] at found
  obtain ⟨sentBefore, sentAfter, stray⟩ := found
  obtain ⟨order, held, shape⟩ := Option.map_eq_some_iff.mp stray
  simp only [Prod.mk.injEq] at shape
  refine ⟨job, before, after, overTen_opens opened, ran, stepped, fun property => ?_⟩
  have sent : after.life.process.placed ≠ before.life.process.placed := by
    intro same
    rw [same, sentBefore] at sentAfter
    cases sentAfter
  have is : ("0x02" : Cloid) = "0x03" :=
    property.alone ownClose _ _ rfl sent "0x02" order held shape.1 shape.2
  exact absurd is (by decide)

end Sample

end Tickwright.Engine
