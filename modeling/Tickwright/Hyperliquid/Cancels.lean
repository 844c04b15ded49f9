/-
# Hyperliquid.Cancels -- the open order read, and the cancels it leads to

`openOrders` reads the venue's list of resting orders, the engine marks its own sagas
among them (`operatorMarks`), and `cancel` addresses every order, splits the entries
by the action their key needs, and sends each part in batches.  One answer comes back
for a batch: no body, a body that cannot be read, the action refused, or one status
an entry.

What Python writes for a JSON value, and the whole number it makes of a float, are a
parameter (`Conversions`); nothing here depends on it.

* `openOrders_rows`: the orders listed are those of the body's perp rows, in its order;
* `cancel_partition`: the entries of each action, in the order of the list;
* `mem_reports`: a `CANCELLED` is the venue's own success at the order's position;
* `listed_cancelled`: the three together, behind one read.
-/
import Tickwright.Domain.Texts
import Tickwright.Hyperliquid.Exchange
import Tickwright.Hyperliquid.Preflight
import Tickwright.Theory.Batches

namespace Tickwright.Hyperliquid

open Tickwright.Domain Tickwright.Engine Tickwright.Theory

set_option autoImplicit false

/-! ## Reading the list -/

/-- What Python makes of a JSON value. -/
structure Conversions where
  /-- `repr(value)`, and `str(value)` of a value that is no text. -/
  repr : Body → String
  /-- `int(value)` of a float. -/
  truncate : String → Except Unreadable ℤ

/-- `str(oid)`. -/
def oidText (oid : ℤ) : String := String.ofList (decimal oid)

namespace Body

/-- `str(value)`. -/
def text (python : Conversions) : Body → String
  | .str value => value
  | value => python.repr value

/-- `int(value)`. -/
def integer (python : Conversions) : Body → Except Unreadable ℤ
  | .int value => .ok value
  | .bool value => .ok (if value then 1 else 0)
  | .float value => python.truncate value
  | .str value =>
      match Domain.int value.toList with
      | some value => .ok value
      | none => .error .valueError
  | .null | .list _ | .mapping _ => .error .typeError

/-- What a mapping pattern finds under a key. -/
def under (key : String) : Body → Option Body
  | .mapping fields => (fields.find? fun field => field.1 = key).map Prod.snd
  | .null | .bool _ | .int _ | .float _ | .str _ | .list _ => none

end Body

/-- `_OpenOrders`. -/
structure OpenOrders where
  orders : List Resting := []
  spot : List (String × String) := []

/-- A spot coin is an index, or a pair. -/
def isSpot (coin : String) : Bool :=
  decide (coin.toList.head? = some '@') || decide ('/' ∈ coin.toList)

section Read

variable (python : Conversions) (perps : Dict Symbol ℕ)

/-- One entry of the list.  The key of a hand-placed order is there and `null`. -/
def openOrder (listed : OpenOrders) (entry : Body) : Except Unreadable OpenOrders := do
  let symbol := (← entry.subscript "coin").text python
  let oid := oidText (← (← entry.subscript "oid").integer python)
  if isSpot symbol then
    pure { listed with spot := listed.spot ++ [(symbol, oid)] }
  else if symbol ∉ perps.keys then
    throw (.keyError ("open order " ++ oid ++ " on " ++ python.repr (.str symbol) ++
      ", outside the perp universe"))
  else
    match ← entry.subscript "cloid" with
    | .null => pure { listed with orders := listed.orders ++ [.external symbol oid] }
    | cloid =>
        pure { listed with
          orders := listed.orders ++ [.ours (cloid.text python) symbol (some oid)] }

/-- `_open_orders`. -/
def openOrders (response : Body) : Except Unreadable OpenOrders :=
  match response with
  | .list entries => entries.foldlM (openOrder python perps) {}
  | .null | .bool _ | .int _ | .float _ | .str _ | .mapping _ => .error .typeError

end Read

/-! ## The entries -/

inductive CancelAction
  | cancel
  | cancelByCloid
deriving DecidableEq

/-- What names the order in a cancel entry. -/
inductive CancelKey
  | oid (oid : ℤ)
  | cloid (cloid : Cloid)
deriving DecidableEq

structure CancelEntry where
  asset : ℕ
  key : CancelKey
deriving DecidableEq

/-- The action the entry's key needs. -/
def CancelEntry.action (entry : CancelEntry) : CancelAction :=
  match entry.key with
  | .oid _ => .cancel
  | .cloid _ => .cancelByCloid

def symbolOf : CancelRef → Symbol
  | .ours ref => ref.symbol
  | .external symbol _ => symbol

def refOid : CancelRef → Option String
  | .ours ref => ref.venueOid
  | .external _ venueOid => some venueOid

/-- `None` for an order the engine did not place. -/
def refCloid : CancelRef → Option Cloid
  | .ours ref => some ref.cloid
  | .external .. => none

/-- `_cancel_entry`; `none` where `int` raises. -/
def cancelEntry (asset : ℕ) : CancelRef → Option CancelEntry
  | .external _ oid => (Domain.int oid.toList).map fun oid => ⟨asset, .oid oid⟩
  | .ours ref =>
      match ref.venueOid with
      | some oid => (Domain.int oid.toList).map fun oid => ⟨asset, .oid oid⟩
      | none => some ⟨asset, .cloid ref.cloid⟩

/-- A ref and its entry; `none` where it raises, the symbol being no perp for one. -/
def addressed (perps : Dict Symbol ℕ) (ref : CancelRef) : Option (CancelRef × CancelEntry) :=
  (perps.get (symbolOf ref)).bind fun asset => (cancelEntry asset ref).map fun entry => (ref, entry)

/-- `_CANCEL_BATCH_LIMIT`. -/
def cancelBatchLimit : ℕ := 200

/-- One venue action, and the refs its entries are of. -/
abbrev CancelBatch := CancelAction × List (CancelRef × CancelEntry)

/-- `groups`, each cut into batches.  Nothing is sent where a ref raises. -/
def cancelBatches (perps : Dict Symbol ℕ) (refs : List CancelRef) : Option (List CancelBatch) :=
  (refs.mapM (addressed perps)).map
    (batched (fun addressed => addressed.2.action) cancelBatchLimit)

/-! ## The answers -/

/-- What a send came to. -/
inductive SendAnswer
  | osError
  | ipRateLimited
  | body (response : Body)

/-- `reading.read`. -/
def read {α : Type*} (normalize : Body → Except Unreadable α) :
    SendAnswer → Except VenueReadFailure α
  | .osError => .error .sendFailed
  | .ipRateLimited => .error .rateLimitedIp
  | .body response => (normalize response).mapError fun _ => .unreadableBody

inductive ActionOutcome
  | statuses (statuses : List Body)
  /-- `_ActionError`. -/
  | refused (message : String)

/-- `_action_outcome`. -/
def actionOutcome (python : Conversions) (response : Body) : Except Unreadable ActionOutcome :=
  match response.under "status" with
  | some (.str "ok") =>
      match ((response.under "response").bind (Body.under "data")).bind (Body.under "statuses") with
      | some (.list statuses) => .ok (.statuses statuses)
      | _ => .error .valueError
  | some (.str "err") =>
      match response.under "response" with
      | some message => .ok (.refused (message.text python))
      | none => .error .valueError
  | _ => .error .valueError

/-- `_cancel_verdict`. -/
def cancelVerdict : Body → Except Unreadable CancelVerdict
  | .str "success" => .ok .cancelled
  | .mapping fields =>
      if fields.any fun field => field.1 = "error" then .ok .alreadyGone else .error .valueError
  | _ => .error .valueError

/-- The answer to a whole batch. -/
inductive Adjudications
  | verdicts (verdicts : List CancelVerdict)
  | refused (message : String)

/-- `_cancel_adjudications`: one status an entry, or a body that cannot be read. -/
def cancelAdjudications (python : Conversions) (count : ℕ) (response : Body) :
    Except Unreadable Adjudications := do
  match ← actionOutcome python response with
  | .refused message => pure (.refused message)
  | .statuses statuses =>
      if statuses.length ≠ count then throw .valueError
      else pure (.verdicts (← statuses.mapM cancelVerdict))

/-! ## The call -/

/-- What a cancel does outside itself. -/
inductive CancelAct
  | sends (action : CancelAction) (entries : List CancelEntry)
  /-- `EXCHANGE_REQUEST_FAILED`, of one cloid where the batch has one. -/
  | failed (cloid : Option Cloid) (failure : VenueReadFailure)
  /-- `_action_rejected`. -/
  | rejected (cloid : Option Cloid) (oid : Option String) (message : String)
  | reports (report : OrderStatusReport)

/-- The answer to one batch, and the clock at each report behind it. -/
structure CancelReply where
  answer : SendAnswer
  nowNs : ℕ → Nanos

/-- `_apply_cancellation` of a verdict.  Only a success on an order of ours is reported. -/
def applyVerdict (nowNs : Nanos) : CancelRef → CancelVerdict → List CancelAct
  | .ours ref, .cancelled =>
      [.reports (statusReport ref.cloid ref.symbol .cancelled none none nowNs)]
  | .external .., .cancelled => []
  | _, .alreadyGone => []

/-- `_failed_read`: one event for each cloid, or one of none. -/
def failedRead (failure : VenueReadFailure) (cloids : List Cloid) : List CancelAct :=
  if cloids = [] then [.failed none failure]
  else cloids.map fun cloid => .failed (some cloid) failure

section Cancel

variable (python : Conversions) (perps : Dict Symbol ℕ)

/-- What the reply to a batch was read as. -/
def adjudicated (batch : CancelBatch) (reply : CancelReply) :
    Except VenueReadFailure Adjudications :=
  read (cancelAdjudications python batch.2.length) reply.answer

/-- `_cancel_batch`. -/
def cancelBatch (batch : CancelBatch) (reply : CancelReply) : List CancelAct :=
  .sends batch.1 (batch.2.map Prod.snd) ::
    match adjudicated python batch reply with
    | .error failure => failedRead failure (batch.2.filterMap fun entry => refCloid entry.1)
    | .ok (.refused message) =>
        batch.2.map fun entry => .rejected (refCloid entry.1) (refOid entry.1) message
    | .ok (.verdicts verdicts) =>
        (batch.2.zip verdicts).zipIdx.flatMap fun answered =>
          applyVerdict (reply.nowNs answered.2) answered.1.1.1 answered.1.2

/-- `cancel`; `none` where it raises, with nothing sent. -/
def cancel (refs : List CancelRef) (replies : ℕ → CancelReply) : Option (List CancelAct) :=
  (cancelBatches perps refs).map fun batches =>
    batches.zipIdx.flatMap fun batch => cancelBatch python batch.1 (replies batch.2)

end Cancel

/-! ## What the list holds -/

def listedSymbol : Resting → Symbol
  | .ours _ symbol _ | .external symbol _ => symbol

def listedOid : Resting → Option String
  | .ours _ _ venueOid => venueOid
  | .external _ venueOid => some venueOid

/-- A listed order is on a perp, and has its oid as a text. -/
def Row (perps : Dict Symbol ℕ) (resting : Resting) : Prop :=
  listedSymbol resting ∈ perps.keys ∧ ∃ oid, listedOid resting = some (oidText oid)

/-- The row is of no spot order. -/
def perpRow (python : Conversions) (row : Body) : Bool :=
  match row.subscript "coin" with
  | .ok coin => !isSpot (coin.text python)
  | .error _ => false

/-- The row's order: its coin, its oid and its cloid, and no cloid of one placed by hand. -/
structure Lists (python : Conversions) (row : Body) (resting : Resting) : Prop where
  coin : ∃ coin, row.subscript "coin" = .ok coin ∧ listedSymbol resting = coin.text python
  oid : ∃ value oid, row.subscript "oid" = .ok value ∧ value.integer python = .ok oid ∧
    listedOid resting = some (oidText oid)
  cloid : (row.subscript "cloid" = .ok .null ∧ ∃ symbol oid, resting = .external symbol oid) ∨
    ∃ cloid symbol oid, row.subscript "cloid" = .ok cloid ∧ cloid ≠ .null ∧
      resting = .ours (cloid.text python) symbol oid

/-- A row that is read adds its order, or is of a spot order and adds none. -/
theorem openOrder_row {python : Conversions} {perps : Dict Symbol ℕ} {listed next : OpenOrders}
    {row : Body} (opened : openOrder python perps listed row = .ok next) :
    (perpRow python row = false ∧ next.orders = listed.orders) ∨
      (perpRow python row = true ∧ ∃ resting, next.orders = listed.orders ++ [resting] ∧
        Lists python row resting ∧ listedSymbol resting ∈ perps.keys) := by
  simp only [openOrder, bind, Except.bind, pure, Except.pure, throw, throwThe, MonadExceptOf.throw]
    at opened
  split at opened
  · cases opened
  · rename_i coin coin_
    split at opened
    · cases opened
    · rename_i value value_
      split at opened
      · cases opened
      · rename_i oid oid_
        split at opened
        · rename_i spot
          cases opened
          exact .inl ⟨by rw [perpRow, coin_]; exact (Bool.not_eq_false' ..).mpr spot, rfl⟩
        · rename_i notSpot
          have perp : perpRow python row = true := by
            rw [perpRow, coin_]
            exact (Bool.not_eq_true' _).mpr ((Bool.not_eq_true _).mp notSpot)
          split at opened
          · cases opened
          · rename_i known
            split at opened
            · cases opened
            · rename_i cloid cloid_
              split at opened
              · cases opened
                exact .inr ⟨perp, _, rfl, ⟨⟨coin, coin_, rfl⟩, ⟨value, oid, value_, oid_, rfl⟩,
                  .inl ⟨cloid_, _, _, rfl⟩⟩, not_not.mp known⟩
              · rename_i named
                cases opened
                exact .inr ⟨perp, _, rfl, ⟨⟨coin, coin_, rfl⟩, ⟨value, oid, value_, oid_, rfl⟩,
                  .inr ⟨cloid, _, _, cloid_, named, rfl⟩⟩, not_not.mp known⟩

/-- **The orders listed are those of the body's perp rows, in its order.** -/
theorem openOrders_rows {python : Conversions} {perps : Dict Symbol ℕ} {response : Body}
    {listed : OpenOrders} (read_ : openOrders python perps response = .ok listed) :
    ∃ rows, response = .list rows ∧
      List.Forall₂ (Lists python) (rows.filter (perpRow python)) listed.orders ∧
      ∀ resting ∈ listed.orders, Row perps resting := by
  have along : ∀ (rows : List Body) (start : OpenOrders),
      rows.foldlM (openOrder python perps) start = .ok listed →
      ∃ added, listed.orders = start.orders ++ added ∧
        List.Forall₂ (Lists python) (rows.filter (perpRow python)) added ∧
        ∀ resting ∈ added, Row perps resting := by
    intro rows
    induction rows with
    | nil =>
        intro start done
        cases done
        exact ⟨[], (List.append_nil _).symm, .nil, fun resting member => by cases member⟩
    | cons row rest ih =>
        intro start done
        rw [List.foldlM_cons] at done
        cases first : openOrder python perps start row with
        | error error =>
            rw [first] at done
            cases done
        | ok next =>
            rw [first] at done
            obtain ⟨added, orders, each, known⟩ := ih next done
            rcases openOrder_row first with ⟨spot, same⟩ | ⟨perp, resting, one, lists, traded⟩
            · refine ⟨added, by rw [orders, same], ?_, known⟩
              rwa [List.filter_cons_of_neg (by rw [spot]; decide)]
            · refine ⟨resting :: added, by rw [orders, one, List.append_assoc]; rfl, ?_,
                fun other member => ?_⟩
              · rw [List.filter_cons_of_pos perp]
                exact .cons lists each
              · rcases List.mem_cons.mp member with rfl | later
                · obtain ⟨_, oid, _, _, is⟩ := lists.oid
                  exact ⟨traded, oid, is⟩
                · exact known other later
  cases response with
  | list rows =>
      obtain ⟨added, orders, each, known⟩ := along rows {} read_
      rw [List.nil_append] at orders
      subst orders
      exact ⟨rows, rfl, each, known⟩
  | null | bool _ | int _ | float _ | str _ | mapping _ => cases read_

/-! ## What the marks name -/

/-- The later cache knows no saga the earlier one did not, under the same names. -/
def Renames (before after : Cache) : Prop :=
  ∀ c saga, after.getOrder c = some saga → ∃ was, before.getOrder c = some was ∧
    saga.cloid = was.cloid ∧ saga.symbol = was.symbol ∧ saga.venueOid = was.venueOid

/-- What a listed order is cancelled as: its saga's own names, or its own. -/
def RefOf (cache : Cache) (resting : Resting) (ref : CancelRef) : Prop :=
  (symbolOf ref = listedSymbol resting ∧ refOid ref = listedOid resting ∧
    ∀ cloid symbol venueOid, resting = .ours cloid symbol venueOid → refCloid ref = some cloid) ∨
  ∃ cloid symbol venueOid saga, resting = .ours cloid symbol venueOid ∧
    cache.getOrder cloid = some saga ∧ symbolOf ref = saga.symbol ∧
    refOid ref = saga.venueOid ∧ refCloid ref = some saga.cloid

theorem Renames.rewrite {before : Cache} {memory : Memory} {order : Order} {nowNs : Nanos}
    (renames : Renames before memory.cache) {cloid : Cloid}
    (held : memory.cache.getOrder cloid = some order) (keyed : order.cloid = cloid) :
    Renames before ((memory.remember (order.markOperatorCancel nowNs)).project
      (order.markOperatorCancel nowNs) nowNs).cache := by
  intro c saga there
  have same := order.markOperatorCancel_sameSaga nowNs
  have there : ((memory.cache.orders.set (order.markOperatorCancel nowNs).cloid
      (order.markOperatorCancel nowNs)).set (order.markOperatorCancel nowNs).cloid
      (order.markOperatorCancel nowNs)).get c = some saga := there
  by_cases here : c = cloid
  · subst here
    rw [same.cloid, keyed, Dict.get_set_self] at there
    cases there
    obtain ⟨was, held, cloid_, symbol_, oid_⟩ := renames c order held
    have terms := same.terms
    simp only [Prod.mk.injEq] at terms
    exact ⟨was, held, same.cloid.trans cloid_, terms.2.2.1.trans symbol_, same.venueOid.trans oid_⟩
  · have off : order.cloid ≠ c := fun is => here (is.symm.trans keyed)
    rw [same.cloid, Dict.get_set_ne _ _ off, Dict.get_set_ne _ _ off] at there
    exact renames c saga there

/-- **The marks name each listed order once, in the order of the list.** -/
theorem operatorMarks_refs {before : Cache} {nowNs : Nanos}
    (keyed : ∀ c order, before.getOrder c = some order → order.cloid = c) (orders : List Resting) :
    ∀ memory : Memory, Renames before memory.cache →
      List.Forall₂ (RefOf before) orders (operatorMarks memory nowNs orders).2 := by
  induction orders with
  | nil => exact fun _ _ => .nil
  | cons resting rest ih =>
      intro memory renames
      cases resting with
      | external symbol venueOid =>
          refine .cons (.inl ⟨rfl, rfl, fun cloid symbol venueOid is => ?_⟩) (ih memory renames)
          cases is
      | ours cloid symbol venueOid =>
          simp only [operatorMarks]
          split
          · refine .cons (.inl ⟨rfl, rfl, fun cloid symbol venueOid is => ?_⟩) (ih memory renames)
            cases is
            rfl
          · rename_i order held
            obtain ⟨was, there, cloid_, symbol_, oid_⟩ := renames cloid order held
            have same := order.markOperatorCancel_sameSaga nowNs
            have terms := same.terms
            simp only [Prod.mk.injEq] at terms
            refine .cons (.inr ⟨cloid, symbol, venueOid, was, rfl, there, ?_, ?_, ?_⟩) (ih _ ?_)
            · exact terms.2.2.1.trans symbol_
            · exact same.venueOid.trans oid_
            · exact congrArg some (same.cloid.trans cloid_)
            · exact renames.rewrite held (cloid_.trans (keyed cloid was there))

/-! ## Addressing -/

/-- The engine's saga of a listed order has the order's symbol, and its oid or none yet. -/
def AgreesWith (cache : Cache) (orders : List Resting) : Prop :=
  ∀ cloid symbol venueOid, .ours cloid symbol venueOid ∈ orders →
    ∀ saga, cache.getOrder cloid = some saga →
      saga.symbol = symbol ∧ (saga.venueOid = none ∨ saga.venueOid = venueOid)

/-- The entry names the listed order: by its oid, or by the cloid of a saga that has
no oid yet. -/
def Addresses (perps : Dict Symbol ℕ) (cache : Cache) (resting : Resting) (entry : CancelEntry) :
    Prop :=
  perps.get (listedSymbol resting) = some entry.asset ∧
    ((∃ oid, listedOid resting = some (oidText oid) ∧ entry.key = .oid oid) ∨
      ∃ cloid symbol venueOid saga, resting = .ours cloid symbol venueOid ∧
        cache.getOrder cloid = some saga ∧ saga.venueOid = none ∧ entry.key = .cloid cloid)

theorem int_oidText (oid : ℤ) : Domain.int (oidText oid).toList = some oid := by
  rw [oidText, String.toList_ofList]
  exact int_decimal oid

theorem cancelEntry_oid {ref : CancelRef} {oid : ℤ} (named : refOid ref = some (oidText oid))
    (asset : ℕ) : cancelEntry asset ref = some ⟨asset, .oid oid⟩ := by
  cases ref with
  | external symbol venueOid =>
      simp only [refOid, Option.some.injEq] at named
      simp only [cancelEntry, named, int_oidText, Option.map_some]
  | ours ref =>
      simp only [refOid] at named
      simp only [cancelEntry, named, int_oidText, Option.map_some]

theorem cancelEntry_cloid {ref : CancelRef} {cloid : Cloid} (unacked : refOid ref = none)
    (ours : refCloid ref = some cloid) (asset : ℕ) :
    cancelEntry asset ref = some ⟨asset, .cloid cloid⟩ := by
  cases ref with
  | external symbol venueOid => cases ours
  | ours ref =>
      simp only [refOid] at unacked
      simp only [refCloid, Option.some.injEq] at ours
      simp only [cancelEntry, unacked, ours]

theorem addressed_names {perps : Dict Symbol ℕ} {cache : Cache} {resting : Resting}
    {ref : CancelRef} (row : Row perps resting) (refOf : RefOf cache resting ref)
    (keyed : ∀ c order, cache.getOrder c = some order → order.cloid = c)
    (agrees : AgreesWith cache [resting]) :
    ∃ entry, addressed perps ref = some (ref, entry) ∧ Addresses perps cache resting entry := by
  obtain ⟨perp, oid, named⟩ := row
  obtain ⟨asset, at_⟩ := (Dict.mem_keys _ _).mp perp
  have places : ∀ entry, symbolOf ref = listedSymbol resting → cancelEntry asset ref = some entry →
      addressed perps ref = some (ref, entry) := by
    intro entry on is
    rw [addressed, on, at_, Option.bind_some, is, Option.map_some]
  rcases refOf with ⟨on, oid_, -⟩ | ⟨cloid, symbol, venueOid, saga, rfl, held, on, oid_, ours⟩
  · exact ⟨_, places _ on (cancelEntry_oid (oid_.trans named) asset), at_, .inl ⟨oid, named, rfl⟩⟩
  · obtain ⟨sameSymbol, oids⟩ := agrees cloid symbol venueOid List.mem_cons_self saga held
    have here : symbolOf ref = listedSymbol (.ours cloid symbol venueOid) := on.trans sameSymbol
    rcases oids with unacked | acked
    · rw [keyed cloid saga held] at ours
      exact ⟨_, places _ here (cancelEntry_cloid (oid_.trans unacked) ours asset), at_,
        .inr ⟨cloid, symbol, venueOid, saga, rfl, held, unacked, rfl⟩⟩
    · have named_ : refOid ref = some (oidText oid) := (oid_.trans acked).trans named
      exact ⟨_, places _ here (cancelEntry_oid named_ asset), at_, .inl ⟨oid, named, rfl⟩⟩

/-- Every ref of a listed order is addressed, so nothing raises. -/
theorem mapM_addressed {perps : Dict Symbol ℕ} {cache : Cache} {orders : List Resting}
    {refs : List CancelRef} (rows : ∀ resting ∈ orders, Row perps resting)
    (keyed : ∀ c order, cache.getOrder c = some order → order.cloid = c)
    (agrees : AgreesWith cache orders) (marked : List.Forall₂ (RefOf cache) orders refs) :
    ∃ pairs, refs.mapM (addressed perps) = some pairs ∧
      List.Forall₂ (Addresses perps cache) orders (pairs.map Prod.snd) := by
  induction marked with
  | nil => exact ⟨[], rfl, .nil⟩
  | @cons resting ref rest refs refOf _ ih =>
      obtain ⟨pairs, whole, names⟩ :=
        ih (fun other member => rows other (List.mem_cons_of_mem _ member))
          fun cloid symbol venueOid member => agrees cloid symbol venueOid
            (List.mem_cons_of_mem _ member)
      have mine : AgreesWith cache [resting] := by
        intro cloid symbol venueOid member
        refine agrees cloid symbol venueOid ?_
        rw [List.mem_singleton.mp member]
        exact List.mem_cons_self
      obtain ⟨entry, first, named⟩ :=
        addressed_names (rows resting List.mem_cons_self) refOf keyed mine
      exact ⟨(ref, entry) :: pairs, by rw [List.mapM_cons, first, whole]; rfl, .cons named names⟩

/-! ## What is sent, and what is reported -/

def CancelAct.sent : CancelAct → Option (CancelAction × List CancelEntry)
  | .sends action entries => some (action, entries)
  | .failed .. | .rejected .. | .reports _ => none

theorem cancelBatch_sent (python : Conversions) (batch : CancelBatch) (reply : CancelReply) :
    (cancelBatch python batch reply).filterMap CancelAct.sent =
      [(batch.1, batch.2.map Prod.snd)] := by
  have quiet : ∀ acts : List CancelAct, (∀ act ∈ acts, act.sent = none) →
      (CancelAct.sends batch.1 (batch.2.map Prod.snd) :: acts).filterMap CancelAct.sent =
        [(batch.1, batch.2.map Prod.snd)] := by
    intro acts none_
    rw [List.filterMap_cons, List.filterMap_eq_nil_iff.mpr none_]
    rfl
  rw [cancelBatch]
  refine quiet _ ?_
  split
  · rw [failedRead]
    split
    · intro act member
      rw [List.mem_singleton.mp member]
      rfl
    · intro act member
      obtain ⟨cloid, -, rfl⟩ := List.mem_map.mp member
      rfl
  · intro act member
    obtain ⟨entry, -, rfl⟩ := List.mem_map.mp member
    rfl
  · intro act member
    obtain ⟨answered, -, there⟩ := List.mem_flatMap.mp member
    simp only [applyVerdict] at there
    split at there
    · rw [List.mem_singleton.mp there]
      rfl
    · cases there
    · cases there

theorem sent_acts (python : Conversions) (batches : List CancelBatch) (replies : ℕ → CancelReply) :
    (batches.zipIdx.flatMap fun batch => cancelBatch python batch.1 (replies batch.2)).filterMap
      CancelAct.sent = batches.map fun batch => (batch.1, batch.2.map Prod.snd) := by
  rw [List.filterMap_flatMap]
  simp only [cancelBatch_sent]
  rw [← List.map_eq_flatMap]
  have names := congrArg (List.map fun batch : CancelBatch => (batch.1, batch.2.map Prod.snd))
    (List.zipIdx_map_fst 0 batches)
  rw [List.map_map] at names
  exact names

/-- The reply to the batch is one status an entry, all of them read, and the venue's own
success stands at the position. -/
def Succeeds (python : Conversions) (batch : CancelBatch) (answer : SendAnswer) (position : ℕ) :
    Prop :=
  ∃ response statuses, answer = .body response ∧
    actionOutcome python response = .ok (.statuses statuses) ∧
    statuses.length = batch.2.length ∧
    (∀ status ∈ statuses, ∃ verdict, cancelVerdict status = .ok verdict) ∧
    statuses[position]? = some (.str "success")

theorem cancelVerdict_cancelled {status : Body} (read_ : cancelVerdict status = .ok .cancelled) :
    status = .str "success" := by
  simp only [cancelVerdict] at read_
  split at read_
  · rfl
  · split at read_ <;> cases read_
  · cases read_

/-- Statuses that are all read are read one by one, in their order. -/
theorem mapM_verdicts {statuses : List Body} {verdicts : List CancelVerdict} :
    statuses.mapM cancelVerdict = .ok verdicts ↔
      List.Forall₂ (fun status verdict => cancelVerdict status = .ok verdict)
        statuses verdicts := by
  induction statuses generalizing verdicts with
  | nil =>
      rw [List.mapM_nil, List.forall₂_nil_left_iff]
      exact ⟨fun same => by cases same; rfl, fun same => by rw [same]; rfl⟩
  | cons status rest ih =>
      rw [List.mapM_cons, List.forall₂_cons_left_iff]
      cases first : cancelVerdict status with
      | error error =>
          refine ⟨fun same => (by cases same), ?_⟩
          rintro ⟨verdict, _, is, -⟩
          cases is
      | ok verdict =>
          cases later : rest.mapM cancelVerdict with
          | error error =>
              refine ⟨fun same => (by cases same), ?_⟩
              rintro ⟨_, behind, -, each, -⟩
              rw [ih.mpr each] at later
              cases later
          | ok read_ =>
              constructor
              · intro same
                cases same
                exact ⟨verdict, read_, rfl, ih.mp later, rfl⟩
              · rintro ⟨_, behind, is, each, rfl⟩
                cases is
                rw [ih.mpr each] at later
                cases later
                rfl

/-- A batch's verdicts are its statuses, one an entry. -/
theorem adjudicated_verdicts {python : Conversions} {batch : CancelBatch} {reply : CancelReply}
    {verdicts : List CancelVerdict} :
    adjudicated python batch reply = .ok (.verdicts verdicts) ↔
      ∃ response statuses, reply.answer = .body response ∧
        actionOutcome python response = .ok (.statuses statuses) ∧
        statuses.length = batch.2.length ∧
        List.Forall₂ (fun status verdict => cancelVerdict status = .ok verdict)
          statuses verdicts := by
  rw [adjudicated]
  constructor
  · intro read_
    cases is : reply.answer with
    | osError | ipRateLimited =>
        rw [is] at read_
        cases read_
    | body response =>
        rw [is] at read_
        simp only [Hyperliquid.read, cancelAdjudications, bind, Except.bind] at read_
        cases outcome : actionOutcome python response with
        | error error =>
            rw [outcome] at read_
            cases read_
        | ok decoded =>
            rw [outcome] at read_
            cases decoded with
            | refused message => cases read_
            | statuses statuses =>
                simp only at read_
                split at read_
                · cases read_
                · rename_i count
                  cases whole : statuses.mapM cancelVerdict with
                  | error error =>
                      rw [whole] at read_
                      cases read_
                  | ok each =>
                      rw [whole] at read_
                      cases read_
                      exact ⟨response, statuses, rfl, outcome, not_not.mp count,
                        mapM_verdicts.mp whole⟩
  · rintro ⟨response, statuses, is, outcome, count, each⟩
    rw [is, Hyperliquid.read, cancelAdjudications, outcome]
    simp only [bind, Except.bind, count, ne_eq, not_true_eq_false, if_false,
      mapM_verdicts.mpr each, pure, Except.pure, Except.mapError]

/-- What a batch's verdicts say of a position is what its statuses do. -/
theorem succeeds_iff {python : Conversions} {batch : CancelBatch} {reply : CancelReply}
    {position : ℕ} :
    Succeeds python batch reply.answer position ↔
      ∃ verdicts, adjudicated python batch reply = .ok (.verdicts verdicts) ∧
        verdicts[position]? = some .cancelled := by
  constructor
  · rintro ⟨response, statuses, is, outcome, count, readable, success⟩
    have read_ : ∃ verdicts,
        List.Forall₂ (fun status verdict => cancelVerdict status = .ok verdict)
          statuses verdicts := by
      clear outcome count success
      induction statuses with
      | nil => exact ⟨[], .nil⟩
      | cons status rest ih =>
          obtain ⟨verdict, first⟩ := readable status List.mem_cons_self
          obtain ⟨verdicts, later⟩ := ih fun other member =>
            readable other (List.mem_cons_of_mem _ member)
          exact ⟨verdict :: verdicts, .cons first later⟩
    obtain ⟨verdicts, each⟩ := read_
    refine ⟨verdicts, adjudicated_verdicts.mpr ⟨response, statuses, is, outcome, count, each⟩, ?_⟩
    obtain ⟨inside, at_⟩ := List.getElem?_eq_some_iff.mp success
    have there : position < verdicts.length := by rw [← each.length_eq]; exact inside
    have verdict := each.get inside there
    simp only [List.get_eq_getElem, at_] at verdict
    rw [List.getElem?_eq_getElem there]
    exact congrArg some (Except.ok.inj verdict).symm
  · rintro ⟨verdicts, read_, cancelled⟩
    obtain ⟨response, statuses, is, outcome, count, each⟩ := adjudicated_verdicts.mp read_
    refine ⟨response, statuses, is, outcome, count, fun status member => ?_, ?_⟩
    · obtain ⟨i, inside, rfl⟩ := List.mem_iff_getElem.mp member
      exact ⟨_, each.get inside (by rw [← each.length_eq]; exact inside)⟩
    · obtain ⟨inside, at_⟩ := List.getElem?_eq_some_iff.mp cancelled
      have there : position < statuses.length := by rw [each.length_eq]; exact inside
      have verdict := each.get there inside
      simp only [List.get_eq_getElem, at_] at verdict
      rw [List.getElem?_eq_getElem there, cancelVerdict_cancelled verdict]

theorem mem_applyVerdict {nowNs : Nanos} {ref : CancelRef} {verdict : CancelVerdict}
    {report : OrderStatusReport} :
    .reports report ∈ applyVerdict nowNs ref verdict ↔
      ∃ ours, ref = .ours ours ∧ verdict = .cancelled ∧
        report = statusReport ours.cloid ours.symbol .cancelled none none nowNs := by
  cases ref <;> cases verdict <;> simp [applyVerdict]

/-- A batch reports an order of ours where its own entry succeeded, and nothing else. -/
theorem mem_batch_reports {python : Conversions} {batch : CancelBatch} {reply : CancelReply}
    {report : OrderStatusReport} :
    .reports report ∈ cancelBatch python batch reply ↔
      ∃ position ref entry, batch.2[position]? = some (.ours ref, entry) ∧
        Succeeds python batch reply.answer position ∧
        report = statusReport ref.cloid ref.symbol .cancelled none none (reply.nowNs position) := by
  simp only [succeeds_iff]
  rw [cancelBatch, List.mem_cons]
  cases read_ : adjudicated python batch reply with
  | error failure =>
      constructor
      · rintro (is | member)
        · cases is
        · simp only [failedRead] at member
          split at member
          · cases List.mem_singleton.mp member
          · obtain ⟨cloid, -, is⟩ := List.mem_map.mp member
            cases is
      · rintro ⟨position, ref, entry, -, ⟨verdicts, is, -⟩, -⟩
        cases is
  | ok adjudication =>
      cases adjudication with
      | refused message =>
          constructor
          · rintro (is | member)
            · cases is
            · obtain ⟨entry, -, is⟩ := List.mem_map.mp member
              cases is
          · rintro ⟨position, ref, entry, -, ⟨verdicts, is, -⟩, -⟩
            cases is
      | verdicts verdicts =>
          constructor
          · rintro (is | member)
            · cases is
            · obtain ⟨⟨⟨⟨ref, entry⟩, verdict⟩, position⟩, there, applied⟩ :=
                List.mem_flatMap.mp member
              obtain ⟨ours, rfl, rfl, is⟩ := mem_applyVerdict.mp applied
              have at_ := List.mk_mem_zipIdx_iff_getElem?.mp there
              obtain ⟨mine, its⟩ := List.getElem?_zip_eq_some.mp at_
              exact ⟨position, ours, entry, mine, ⟨verdicts, rfl, its⟩, is⟩
          · rintro ⟨position, ref, entry, mine, ⟨_, is, its⟩, rfl⟩
            cases is
            refine .inr (List.mem_flatMap.mpr
              ⟨(((.ours ref, entry), .cancelled), position), ?_, ?_⟩)
            · exact List.mk_mem_zipIdx_iff_getElem?.mpr (List.getElem?_zip_eq_some.mpr ⟨mine, its⟩)
            · exact mem_applyVerdict.mpr ⟨ref, rfl, rfl, rfl⟩

/-- **A `CANCELLED` is the venue's own success at the order's position.** -/
theorem mem_reports {python : Conversions} {batches : List CancelBatch}
    {replies : ℕ → CancelReply} {report : OrderStatusReport} :
    .reports report ∈ (batches.zipIdx.flatMap fun batch =>
        cancelBatch python batch.1 (replies batch.2)) ↔
      ∃ sent batch position ref entry, batches[sent]? = some batch ∧
        batch.2[position]? = some (.ours ref, entry) ∧
        Succeeds python batch (replies sent).answer position ∧
        report = statusReport ref.cloid ref.symbol .cancelled none none
          ((replies sent).nowNs position) := by
  constructor
  · intro member
    obtain ⟨⟨batch, sent⟩, there, reported⟩ := List.mem_flatMap.mp member
    obtain ⟨position, ref, entry, mine, succeeds, is⟩ := mem_batch_reports.mp reported
    exact ⟨sent, batch, position, ref, entry, List.mk_mem_zipIdx_iff_getElem?.mp there, mine,
      succeeds, is⟩
  · rintro ⟨sent, batch, position, ref, entry, there, mine, succeeds, is⟩
    exact List.mem_flatMap.mpr ⟨(batch, sent), List.mk_mem_zipIdx_iff_getElem?.mpr there,
      mem_batch_reports.mpr ⟨position, ref, entry, mine, succeeds, is⟩⟩

/-- The batches of each action hold its entries, in the order of the pairs. -/
theorem cancel_partition (pairs : List (CancelRef × CancelEntry)) (action : CancelAction) :
    ((batched (fun pair => pair.2.action) cancelBatchLimit pairs).filter fun batch =>
        batch.1 = action).flatMap (fun batch => batch.2.map Prod.snd) =
      (pairs.map Prod.snd).filter fun entry => entry.action = action := by
  have under := batched_under (fun pair : CancelRef × CancelEntry => pair.2.action)
    (show 0 < cancelBatchLimit by decide) pairs action
  rw [List.filter_map, ← List.map_flatMap]
  exact congrArg (List.map Prod.snd) under

/-! ## One cancel of everything listed -/

/-- What an operator's cancel of a list comes to. -/
structure CancelsEach (python : Conversions) (perps : Dict Symbol ℕ) (cache : Cache)
    (orders : List Resting) (replies : ℕ → CancelReply) (batches : List CancelBatch)
    (acts : List CancelAct) : Prop where
  /-- Each batch is sent, as one action. -/
  sent : acts.filterMap CancelAct.sent = batches.map fun batch => (batch.1, batch.2.map Prod.snd)
  /-- No action is empty, over the limit, or of two kinds. -/
  sized : ∀ batch ∈ batches, batch.2 ≠ [] ∧ batch.2.length ≤ cancelBatchLimit ∧
    ∀ pair ∈ batch.2, pair.2.action = batch.1
  /-- Each listed order has one entry that names it, and the actions hold just those. -/
  named : ∃ entries, List.Forall₂ (Addresses perps cache) orders entries ∧
    ∀ action, (batches.filter fun batch => batch.1 = action).flatMap
      (fun batch => batch.2.map Prod.snd) = entries.filter fun entry => entry.action = action
  /-- An order of ours is reported where the venue's own status for it is success. -/
  reported : ∀ report, .reports report ∈ acts ↔
    ∃ sent batch position ref entry, batches[sent]? = some batch ∧
      batch.2[position]? = some (.ours ref, entry) ∧
      Succeeds python batch (replies sent).answer position ∧
      report = statusReport ref.cloid ref.symbol .cancelled none none
        ((replies sent).nowNs position)

/-- **A cancel of what the venue lists names every order of the list once.**  Behind any
body the open order read accepts, with the engine's sagas as the venue lists them: each
perp row of the body has its order in the list, nothing raises, each listed order has one
entry, by its own oid or by the cloid of a saga without one, in an action of its kind of at
most two hundred; and whatever comes back, an order is reported cancelled only on the
venue's own success at that entry. -/
theorem listed_cancelled {python : Conversions} {perps : Dict Symbol ℕ} {response : Body}
    {listed : OpenOrders} {memory : Memory} {nowNs : Nanos} (replies : ℕ → CancelReply)
    (read_ : openOrders python perps response = .ok listed)
    (keyed : ∀ c order, memory.cache.getOrder c = some order → order.cloid = c)
    (agrees : AgreesWith memory.cache listed.orders) :
    (∃ rows, response = .list rows ∧
      List.Forall₂ (Lists python) (rows.filter (perpRow python)) listed.orders) ∧
    ∃ batches acts,
      cancelBatches perps (operatorMarks memory nowNs listed.orders).2 = some batches ∧
      cancel python perps (operatorMarks memory nowNs listed.orders).2 replies = some acts ∧
      CancelsEach python perps memory.cache listed.orders replies batches acts := by
  obtain ⟨rows, body, lists, known⟩ := openOrders_rows read_
  have marked : List.Forall₂ (RefOf memory.cache) listed.orders
      (operatorMarks memory nowNs listed.orders).2 :=
    operatorMarks_refs keyed listed.orders memory fun c saga held => ⟨saga, held, rfl, rfl, rfl⟩
  obtain ⟨pairs, addressed_, names⟩ := mapM_addressed known keyed agrees marked
  have cut : cancelBatches perps (operatorMarks memory nowNs listed.orders).2 =
      some (batched (fun pair => pair.2.action) cancelBatchLimit pairs) := by
    rw [cancelBatches, addressed_, Option.map_some]
  refine ⟨⟨rows, body, lists⟩, _,
    (batched (fun pair : CancelRef × CancelEntry => pair.2.action) cancelBatchLimit
      pairs).zipIdx.flatMap fun batch => cancelBatch python batch.1 (replies batch.2),
    cut, ?_, ?_⟩
  · rw [cancel, cut, Option.map_some]
  · exact ⟨sent_acts .., fun batch member => mem_batched (by decide) member,
      ⟨_, names, cancel_partition pairs⟩, fun report => mem_reports⟩

namespace Sample

def plainly : Conversions := ⟨fun _ => "", fun _ => .error .valueError⟩

def onlyBtc : Dict Symbol ℕ := Dict.empty.set "BTC" 3

def restingRow (oid : ℤ) (cloid : Body) : Body :=
  .mapping [("coin", .str "BTC"), ("oid", .int oid), ("cloid", cloid)]

/-- A hand-placed order, a spot order, and the engine's own. -/
def threeListed : Body :=
  .list [restingRow 91 .null,
    .mapping [("coin", .str "PURR/USDC"), ("oid", .int 92), ("cloid", .null)],
    restingRow 93 (.str "0x0a")]

def lister : StrategyId := ⟨"lister", by decide⟩

/-- The engine's own, sent and not acknowledged. -/
def unackedBid : Order where
  cloid := "0x0a"
  strategyId := lister
  signalId := ⟨lister, "BTC", 1⟩
  symbol := "BTC"
  side := .buy
  quantity := 1
  orderType := .limit
  state := .submitted
  price := some 90

def withBid : Memory where
  cache := { orders := Dict.empty.set "0x0a" unackedBid }
  portfolio :=
    { account := { accountId := "live", genesisCollateral := 0, genesisTsNs := 0, cash := 0 } }

/-- Every cancel is answered `success`. -/
def allCancelled : CancelReply where
  answer := .body (.mapping [("status", .str "ok"), ("response", .mapping [("data", .mapping
    [("statuses", .list [.str "success"])])])])
  nowNs _ := 7

theorem withBid_holds {c : Cloid} {order : Order}
    (held : withBid.cache.getOrder c = some order) : c = "0x0a" ∧ order = unackedBid := by
  have there : (Dict.empty.set "0x0a" unackedBid : Dict Cloid Order).get c = some order := held
  by_cases here : c = "0x0a"
  · subst here
    rw [Dict.get_set_self] at there
    exact ⟨rfl, (Option.some.inj there).symm⟩
  · rw [Dict.get_set_ne _ _ (Ne.symm here)] at there
    cases there

/-- The hand-placed order goes by its oid, and the engine's by its cloid. -/
theorem both_cancelled : ∃ batches acts,
    cancelBatches onlyBtc (operatorMarks withBid 5
      [.external "BTC" "91", .ours "0x0a" "BTC" (some "93")]).2 = some batches ∧
    cancel plainly onlyBtc (operatorMarks withBid 5
      [.external "BTC" "91", .ours "0x0a" "BTC" (some "93")]).2 (fun _ => allCancelled) =
        some acts ∧
    CancelsEach plainly onlyBtc withBid.cache
      [.external "BTC" "91", .ours "0x0a" "BTC" (some "93")] (fun _ => allCancelled)
      batches acts := by
  have read_ : openOrders plainly onlyBtc threeListed = .ok
      { orders := [.external "BTC" "91", .ours "0x0a" "BTC" (some "93")]
        spot := [("PURR/USDC", "92")] } := rfl
  refine (listed_cancelled (fun _ => allCancelled) read_ (fun c order held => ?_)
    fun cloid symbol venueOid member saga held => ?_).2
  · obtain ⟨rfl, rfl⟩ := withBid_holds held
    rfl
  · obtain ⟨rfl, rfl⟩ := withBid_holds held
    simp only [List.mem_cons, reduceCtorEq, Resting.ours.injEq, true_and, false_or,
      List.not_mem_nil, or_false] at member
    exact ⟨member.1.symm, .inl rfl⟩

end Sample

end Tickwright.Hyperliquid
