/-
# Hyperliquid.Preflight -- the boot leverage push

`push_leverage` aligns the venue to a resolved book before anything trades.  It
reads what the account holds, refuses the boot when a held symbol disagrees with
the book, and writes every symbol the account is flat in.  Each call is retried
until the deadline while it fails to land or comes back unreadable; the venue's own
refusal ends the push at once.

Bodies are JSON values as they arrive, read with the checks of `held_leverage`.  A
`Reply` is what the call at hand came to and how long it took, so a run is the
list of the venue's replies.

* `pushes_safely`: over any run, no write is for a held symbol, none goes out past
  a disagreement, none after a refusal; a push that returns has every symbol of the
  book held as configured or written so; any other end is an invariant violation,
  and no run is endless.
* `pushed_step` is the invariant behind it, `nextWrite` its one inner loop.
-/
import Mathlib.Data.List.Sort
import Mathlib.Data.Prod.Lex
import Tickwright.Domain.Valuation
import Tickwright.Theory.Machine

namespace Tickwright.Hyperliquid

open Tickwright.Domain Tickwright.Theory

set_option autoImplicit false

/-! ## Reading a body -/

/-- A JSON value as it arrives. -/
inductive Body
  | null
  | bool (value : Bool)
  | int (value : ℤ)
  | float (text : String)
  | str (value : String)
  | list (items : List Body)
  | mapping (fields : List (String × Body))

/-- `UNREADABLE`: what reading a reported body raises when it cannot be read. -/
inductive Unreadable
  | arithmeticError
  | keyError (key : String)
  | typeError
  | valueError
deriving DecidableEq

/-- What a call is retried after: no body arrived, or one that cannot be read. -/
inductive CallFailure
  | osError
  | unreadable (error : Unreadable)
deriving DecidableEq

namespace Body

/-- `value[key]` of a string key. -/
def subscript (value : Body) (key : String) : Except Unreadable Body :=
  match value with
  | mapping fields =>
      match fields.find? fun field => field.1 = key with
      | some field => .ok field.2
      | none => .error (.keyError key)
  | _ => .error .typeError

/-- What `for row in value` goes through. -/
def iterate : Body → Except Unreadable (List Body)
  | list items => .ok items
  | mapping fields => .ok (fields.map fun field => str field.1)
  | str value => .ok (value.toList.map fun char => str (String.singleton char))
  | null | bool _ | int _ | float _ => .error .typeError

end Body

/-- `reported_margin_mode`: one of the two literals, or a body that cannot be read. -/
def reportedMarginMode (setting : Body) : Except Unreadable MarginMode := do
  match ← setting.subscript "type" with
  | .str "cross" => pure .cross
  | .str "isolated" => pure .isolated
  | .list _ | .mapping _ => throw .typeError
  | _ => throw .valueError

/-- `reported_leverage`: the value is an integer and no boolean. -/
def reportedLeverage (setting : Body) : Except Unreadable LeverageSpec := do
  match ← setting.subscript "value" with
  | .int leverage => pure { mode := ← reportedMarginMode setting, leverage := leverage }
  | _ => throw .typeError

/-- One row of `assetPositions`. -/
def heldRow (held : Dict Symbol LeverageSpec) (row : Body) :
    Except Unreadable (Dict Symbol LeverageSpec) := do
  let position ← row.subscript "position"
  let setting ← position.subscript "leverage"
  match ← position.subscript "coin" with
  | .str coin => pure (held.set coin (← reportedLeverage setting))
  | _ => throw .typeError

/-- `held_leverage`: the stored setting of every held symbol. -/
def heldLeverage (response : Body) : Except Unreadable (Dict Symbol LeverageSpec) := do
  match response with
  | .mapping _ =>
      let rows ← (← response.subscript "assetPositions").iterate
      rows.foldlM heldRow Dict.empty
  | _ => throw .typeError

/-! ## The two calls -/

/-- What a call came to: an exception, or a body. -/
inductive Answer
  | raised (failure : CallFailure)
  | body (body : Body)

/-- The push's two refusals, both an `InvariantViolation`. -/
inductive PushViolation
  /-- `VenueLeverageMismatch`: every held symbol that disagrees, in one line each. -/
  | mismatch (disagreeing : List String)
  /-- `VenueLeveragePushFailed`: the venue's sentence on one write. -/
  | refused (symbol : Symbol) (spec : LeverageSpec) (response : Option Body)
  /-- `VenueLeveragePushFailed`: the budget went without a landed call. -/
  | exhausted (describing : String) (failure : CallFailure)

/-- `_read_held_leverage`. -/
def readHeldLeverage : Answer → Except CallFailure (Dict Symbol LeverageSpec)
  | .raised failure => .error failure
  | .body body => (heldLeverage body).mapError .unreadable

/-- What one write came to. -/
inductive WriteAnswer
  | ok
  | refused (response : Option Body)
  | failed (failure : CallFailure)

/-- `_write_leverage`: `ok` is the only success, and any other status a refusal,
with or without its sentence. -/
def writeLeverage : Answer → WriteAnswer
  | .raised failure => .failed failure
  | .body (.mapping fields) =>
      match (Body.mapping fields).subscript "status" with
      | .error error => .failed (.unreadable error)
      | .ok (.str "ok") => .ok
      | .ok _ => .refused ((fields.find? fun field => field.1 = "response").map Prod.snd)
  | .body _ => .failed (.unreadable .typeError)

/-- `_pair`: one margin setting as the venue's UI shows it. -/
def pair (spec : LeverageSpec) : String := spec.mode.value ++ " " ++ toString spec.leverage ++ "x"

/-! ## The push -/

/-- The `updateLeverage` action. -/
structure UpdateLeverage where
  asset : ℕ
  isCross : Bool
  leverage : ℤ
deriving DecidableEq

/-- One write as it is sent: the symbol it is for, and the action. -/
structure LeverageWrite where
  symbol : Symbol
  action : UpdateLeverage
deriving DecidableEq

structure PushConfig where
  address : String
  book : LeverageBook
  assetIndices : Dict Symbol ℕ
  /-- `Deadline.standsns`. -/
  deadlineNs : Nanos

/-- `_RETRY_INITIAL_BACKOFF_SECONDS` and `_RETRY_MAX_BACKOFF_SECONDS`. -/
def retryInitialNs : ℕ := 1000000000
def retryMaxNs : ℕ := 30000000000

/-- The call at hand, or how the push ended. -/
inductive PushStage
  | reading
  | writing (write : LeverageWrite) (rest : List Symbol)
  | returned
  | failed (violation : PushViolation)
  /-- `asset_indices[symbol]` has no entry. -/
  | noIndex (symbol : Symbol)

/-- The clock, the delay of the present retry loop, what the account read said, and
the writes that were answered. -/
structure LeveragePush where
  nowNs : Nanos
  backoffNs : ℕ := retryInitialNs
  stage : PushStage := .reading
  held : Option (Dict Symbol LeverageSpec) := none
  writes : List (LeverageWrite × WriteAnswer) := []
  /-- `exchange.leverage_unchanged`, one for each held symbol. -/
  unchanged : List (Symbol × LeverageSpec) := []

/-- What the call at hand came to, how long it took, and by how much the sleep of a
retry was longer than its delay. -/
structure Reply where
  answer : Answer
  tookNs : ℕ := 0
  oversleptNs : ℕ := 0

namespace PushConfig

/-- `sorted(book.entries)`. -/
def symbols (config : PushConfig) : List Symbol :=
  config.book.entries.keys.insertionSort (· ≤ ·)

/-- The write of one symbol, when it has an asset index. -/
def write (config : PushConfig) (symbol : Symbol) : Option LeverageWrite :=
  let spec := config.book.forSymbol symbol
  (config.assetIndices.get symbol).map fun asset =>
    ⟨symbol, ⟨asset, decide (spec.mode = .cross), spec.leverage⟩⟩

/-- The symbols whose held pair is not the book's. -/
def disagreeing (config : PushConfig) (held : Dict Symbol LeverageSpec) : List Symbol :=
  config.symbols.filter fun symbol =>
    (held.get symbol).any fun spec => spec ≠ config.book.forSymbol symbol

/-- One line of the mismatch. -/
def disagreement (config : PushConfig) (held : Dict Symbol LeverageSpec) (symbol : Symbol) :
    String :=
  symbol ++ " configured " ++ pair (config.book.forSymbol symbol) ++ ", venue holds " ++
    ((held.get symbol).map pair).getD ""

end PushConfig

namespace LeveragePush

/-- `until_deadline` after a failure: the deadline is asked first, then the delay is
slept and doubled up to its cap. -/
def retry (config : PushConfig) (push : LeveragePush) (describing : String)
    (failure : CallFailure) (oversleptNs : ℕ) : LeveragePush :=
  if config.deadlineNs ≤ push.nowNs then
    { push with stage := .failed (.exhausted describing failure) }
  else
    { push with
      nowNs := push.nowNs + push.backoffNs + oversleptNs
      backoffNs := min (push.backoffNs * 2) retryMaxNs }

/-- The loop over the book, up to the next write: a held symbol is left alone and
named. -/
def nextWrite (config : PushConfig) (held : Dict Symbol LeverageSpec) (push : LeveragePush) :
    List Symbol → LeveragePush
  | [] => { push with stage := .returned }
  | symbol :: rest =>
      match held.get symbol with
      | some _ =>
          let spec := config.book.forSymbol symbol
          nextWrite config held { push with unchanged := push.unchanged ++ [(symbol, spec)] } rest
      | none =>
          match config.write symbol with
          | none => { push with stage := .noIndex symbol }
          | some write => { push with stage := .writing write rest, backoffNs := retryInitialNs }

/-- The account read answered: refuse every disagreement before the first write. -/
def afterRead (config : PushConfig) (push : LeveragePush) (held : Dict Symbol LeverageSpec) :
    LeveragePush :=
  let push := { push with held := some held }
  match config.disagreeing held with
  | [] => push.nextWrite config held config.symbols
  | disagreeing => { push with
      stage := .failed (.mismatch (disagreeing.map (config.disagreement held))) }

def start (config : PushConfig) (startNs : Nanos) : LeveragePush :=
  { nowNs := startNs
    stage := if config.book.entries.entries = [] then .returned else .reading }

/-- The writes sent so far, the one at hand included. -/
def sent (push : LeveragePush) : List LeverageWrite :=
  push.writes.map Prod.fst ++ match push.stage with
    | .writing write _ => [write]
    | .reading | .returned | .failed _ | .noIndex _ => []

end LeveragePush

/-- **`push_leverage`**, from one reply of the venue to the next call. -/
def leveragePush (config : PushConfig) : Machine LeveragePush Reply where
  step push reply :=
    let push := { push with nowNs := push.nowNs + reply.tookNs }
    match push.stage with
    | .reading =>
        match readHeldLeverage reply.answer with
        | .error failure => some (push.retry config
            ("read the positions held by account " ++ config.address) failure reply.oversleptNs)
        | .ok held => some (push.afterRead config held)
    | .writing write rest =>
        let answer := writeLeverage reply.answer
        let push := { push with writes := push.writes ++ [(write, answer)] }
        match answer with
        | .failed failure => some (push.retry config
            ("align " ++ write.symbol ++ " to " ++ pair (config.book.forSymbol write.symbol))
            failure reply.oversleptNs)
        | .refused response => some { push with
            stage := .failed (.refused write.symbol (config.book.forSymbol write.symbol) response) }
        | .ok =>
            match push.held with
            | some held => some (push.nextWrite config held rest)
            | none => none
    | .returned | .failed _ | .noIndex _ => none

/-! ## What one reply does -/

variable {config : PushConfig} {push after : LeveragePush} {held : Dict Symbol LeverageSpec}

theorem write_symbol {symbol : Symbol} {write : LeverageWrite}
    (made : config.write symbol = some write) : write.symbol = symbol := by
  obtain ⟨asset, -, rfl⟩ := Option.map_eq_some_iff.mp made
  rfl

/-- A write as the push makes them: for a symbol the account is flat in, with the
book's pair. -/
def Proper (config : PushConfig) (held : Dict Symbol LeverageSpec) (write : LeverageWrite) : Prop :=
  held.get write.symbol = none ∧ config.write write.symbol = some write

variable (config held) in
/-- **Where the loop over the book stops next**: past held symbols alone, at the end,
at a proper write, or at a symbol with no asset index. -/
theorem nextWrite_cases (push : LeveragePush) (todo : List Symbol) :
    let next := push.nextWrite config held todo
    next.held = push.held ∧ next.writes = push.writes ∧ next.nowNs = push.nowNs ∧
      ((next.stage = .returned ∧ ∀ symbol ∈ todo, held.get symbol ≠ none) ∨
      (∃ write rest, next.stage = .writing write rest ∧ next.backoffNs = retryInitialNs ∧
        Proper config held write ∧ rest ⊆ todo ∧ rest.length < todo.length ∧
        ∀ symbol ∈ todo, symbol ∈ rest ∨ symbol = write.symbol ∨ held.get symbol ≠ none) ∨
      ∃ symbol ∈ todo, next.stage = .noIndex symbol ∧ config.write symbol = none) := by
  induction todo generalizing push with
  | nil => simp [LeveragePush.nextWrite]
  | cons symbol rest ih =>
      cases holds : held.get symbol with
      | some spec =>
          simp only [LeveragePush.nextWrite, holds]
          obtain ⟨sameHeld, sameWrites, sameNow, ends⟩ :=
            ih { push with
              unchanged := push.unchanged ++ [(symbol, config.book.forSymbol symbol)] }
          refine ⟨sameHeld, sameWrites, sameNow, ?_⟩
          obtain ⟨ended, all⟩ | ⟨write, left, stands, delay, proper, part, fewer, all⟩ |
            ⟨other, there, stands, none⟩ := ends
          · refine .inl ⟨ended, fun other member => ?_⟩
            rcases List.mem_cons.mp member with rfl | tail
            · simp [holds]
            · exact all other tail
          · refine .inr (.inl ⟨write, left, stands, delay, proper,
              List.Subset.trans part (List.subset_cons_self _ _),
              by simp only [List.length_cons]; omega, fun other member => ?_⟩)
            rcases List.mem_cons.mp member with rfl | tail
            · simp [holds]
            · exact all other tail
          · exact .inr (.inr ⟨other, List.mem_cons_of_mem _ there, stands, none⟩)
      | none =>
          cases made : config.write symbol with
          | none =>
              simp only [LeveragePush.nextWrite, holds, made]
              exact ⟨trivial, trivial, trivial, .inr (.inr ⟨symbol, List.mem_cons_self, rfl, made⟩)⟩
          | some write =>
              have own := write_symbol made
              simp only [LeveragePush.nextWrite, holds, made]
              refine ⟨trivial, trivial, trivial, .inr (.inl ⟨write, rest, rfl, trivial,
                ⟨by rw [own, holds], by rw [own, made]⟩, List.subset_cons_self _ _,
                by simp, fun other member => ?_⟩)⟩
              rcases List.mem_cons.mp member with rfl | tail
              · exact .inr (.inl own.symm)
              · exact .inl tail

variable (config) in
/-- A failed call ends the push past its deadline, and is made again later otherwise. -/
theorem retry_cases (push : LeveragePush) (describing : String) (failure : CallFailure)
    (oversleptNs : ℕ) :
    let next := push.retry config describing failure oversleptNs
    next.held = push.held ∧ next.writes = push.writes ∧
      ((next.stage = .failed (.exhausted describing failure)) ∨
      (next.stage = push.stage ∧ push.nowNs < config.deadlineNs ∧
        next.nowNs = push.nowNs + push.backoffNs + oversleptNs ∧
        next.backoffNs = min (push.backoffNs * 2) retryMaxNs)) := by
  simp only [LeveragePush.retry]
  split
  · exact ⟨rfl, rfl, .inl rfl⟩
  · rename_i left
    exact ⟨rfl, rfl, .inr ⟨rfl, not_le.mp left, rfl, rfl⟩⟩

/-- What the account holds of the book's symbols is the book's. -/
def Agrees (config : PushConfig) (held : Dict Symbol LeverageSpec) : Prop :=
  ∀ symbol ∈ config.symbols, ∀ spec, held.get symbol = some spec →
    spec = config.book.forSymbol symbol

variable (config) in
theorem afterRead_cases (push : LeveragePush) (held : Dict Symbol LeverageSpec) :
    (¬Agrees config held ∧ push.afterRead config held = { push with
      held := some held
      stage := .failed (.mismatch ((config.disagreeing held).map (config.disagreement held))) }) ∨
    (Agrees config held ∧ push.afterRead config held =
      ({ push with held := some held }).nextWrite config held config.symbols) := by
  cases found : config.disagreeing held with
  | nil =>
      refine .inr ⟨fun symbol member spec holds => ?_, by simp [LeveragePush.afterRead, found]⟩
      have none := List.filter_eq_nil_iff.mp found symbol member
      simpa [holds] using none
  | cons symbol rest =>
      refine .inl ⟨fun agrees => ?_, by simp [LeveragePush.afterRead, found]⟩
      have among : symbol ∈ config.disagreeing held := by simp [found]
      obtain ⟨member, differs⟩ := List.mem_filter.mp among
      cases holds : held.get symbol with
      | none => simp [holds] at differs
      | some spec =>
          rw [holds] at differs
          exact of_decide_eq_true differs (agrees symbol member spec holds)

/-- **What one reply does.** -/
theorem push_cases {reply : Reply} (moved : (leveragePush config).step push reply = some after) :
    (push.stage = .reading ∧
      ((∃ failure describing, readHeldLeverage reply.answer = .error failure ∧
        after = ({ push with nowNs := push.nowNs + reply.tookNs }).retry config describing failure
          reply.oversleptNs) ∨
      ∃ held, readHeldLeverage reply.answer = .ok held ∧
        after = ({ push with nowNs := push.nowNs + reply.tookNs }).afterRead config held)) ∨
    ∃ write rest answer, push.stage = .writing write rest ∧ writeLeverage reply.answer = answer ∧
      let answered := { push with
        nowNs := push.nowNs + reply.tookNs, writes := push.writes ++ [(write, answer)] }
      ((∃ failure describing, answer = .failed failure ∧
        after = answered.retry config describing failure reply.oversleptNs) ∨
      (∃ response violation, answer = .refused response ∧
        after = { answered with stage := .failed violation }) ∨
      (∃ held, answer = .ok ∧ push.held = some held ∧
        after = answered.nextWrite config held rest)) := by
  cases stands : push.stage with
  | reading =>
      refine .inl ⟨rfl, ?_⟩
      cases read : readHeldLeverage reply.answer with
      | error failure =>
          simp only [leveragePush, stands, read, Option.some.injEq] at moved
          exact .inl ⟨failure, _, rfl, moved.symm⟩
      | ok held =>
          simp only [leveragePush, stands, read, Option.some.injEq] at moved
          exact .inr ⟨held, rfl, moved.symm⟩
  | writing write rest =>
      refine .inr ⟨write, rest, _, rfl, rfl, ?_⟩
      cases answered : writeLeverage reply.answer with
      | failed failure =>
          simp only [leveragePush, stands, answered, Option.some.injEq] at moved
          exact .inl ⟨failure, _, rfl, moved.symm⟩
      | refused response =>
          simp only [leveragePush, stands, answered, Option.some.injEq] at moved
          exact .inr (.inl ⟨response, _, rfl, moved.symm⟩)
      | ok =>
          cases known : push.held with
          | none => simp [leveragePush, stands, answered, known] at moved
          | some held =>
              simp only [leveragePush, stands, answered, known, Option.some.injEq] at moved
              exact .inr (.inr ⟨held, rfl, rfl, moved.symm⟩)
  | returned | failed _ | noIndex _ => simp [leveragePush, stands] at moved

/-! ## What every reply keeps -/

/-- The account holds the symbol as configured, or a write of exactly that pair was
answered ok. -/
def Covered (config : PushConfig) (held : Dict Symbol LeverageSpec)
    (writes : List (LeverageWrite × WriteAnswer)) (symbol : Symbol) : Prop :=
  held.get symbol = some (config.book.forSymbol symbol) ∨
    ∃ write, config.write symbol = some write ∧ (write, WriteAnswer.ok) ∈ writes

theorem covered_append {writes : List (LeverageWrite × WriteAnswer)} {symbol : Symbol}
    (entry : LeverageWrite × WriteAnswer) (covered : Covered config held writes symbol) :
    Covered config held (writes ++ [entry]) symbol := by
  rcases covered with aligned | ⟨write, own, landed⟩
  · exact .inl aligned
  · exact .inr ⟨write, own, List.mem_append_left _ landed⟩

/-- No write was refused so far. -/
def Unrefused (push : LeveragePush) : Prop :=
  ∀ write response, (write, WriteAnswer.refused response) ∉ push.writes

/-- What was written, by what the account read said. -/
def Written (config : PushConfig) (push : LeveragePush) : Prop :=
  match push.held with
  | none => push.writes = []
  | some held => (∀ entry ∈ push.writes, Proper config held entry.1) ∧
      (push.writes ≠ [] → Agrees config held)

/-- Where the push stands, by what it has left to do. -/
def Placed (config : PushConfig) (push : LeveragePush) : PushStage → Prop
  | .reading => push.held = none
  | .writing write rest => Unrefused push ∧ rest ⊆ config.symbols ∧
      ∃ held, push.held = some held ∧ Agrees config held ∧ Proper config held write ∧
        ∀ symbol ∈ config.symbols,
          symbol ∈ rest ∨ symbol = write.symbol ∨ Covered config held push.writes symbol
  | .returned => Unrefused push ∧ (config.symbols = [] ∨
      ∃ held, push.held = some held ∧
        ∀ symbol ∈ config.symbols, Covered config held push.writes symbol)
  | .failed _ => ∀ before write response later,
      push.writes = before ++ (write, .refused response) :: later → later = []
  | .noIndex _ => False

structure Pushed (config : PushConfig) (push : LeveragePush) : Prop where
  written : Written config push
  placed : Placed config push push.stage

/-- Every symbol of the book has an asset index. -/
def Indexed (config : PushConfig) : Prop :=
  ∀ symbol ∈ config.book.entries.keys, ∃ asset, config.assetIndices.get symbol = some asset

theorem mem_symbols {symbol : Symbol} :
    symbol ∈ config.symbols ↔ symbol ∈ config.book.entries.keys :=
  List.mem_insertionSort _

theorem unrefused_append (write : LeverageWrite) {answer : WriteAnswer}
    (unrefused : Unrefused push) (answered : ∀ response, answer ≠ .refused response) :
    Unrefused { push with writes := push.writes ++ [(write, answer)] } := by
  intro other response member
  rcases List.mem_append.mp member with old | new
  · exact unrefused other response old
  · rw [List.mem_singleton, Prod.mk.injEq] at new
    exact answered response new.2.symm

/-- Among writes of which only the last may be refused, a refusal is the last. -/
theorem refusal_last {writes before later : List (LeverageWrite × WriteAnswer)}
    {entry : LeverageWrite × WriteAnswer} {write : LeverageWrite} {response : Option Body}
    (unrefused : ∀ write response, (write, WriteAnswer.refused response) ∉ writes)
    (split : writes ++ [entry] = before ++ (write, .refused response) :: later) : later = [] := by
  rcases List.eq_nil_or_concat later with rfl | ⟨rest, last, rfl⟩
  · rfl
  · have parts : writes = before ++ (write, .refused response) :: rest ∧ [entry] = [last] :=
      List.append_inj' (by simpa using split) rfl
    exact absurd (by simp [parts.1]) (unrefused write response)

/-- **The loop over the book goes on soundly** from any point of it. -/
theorem pushed_nextWrite {todo : List Symbol} (indexed : Indexed config)
    (known : push.held = some held) (agrees : Agrees config held) (unrefused : Unrefused push)
    (proper : ∀ entry ∈ push.writes, Proper config held entry.1) (within : todo ⊆ config.symbols)
    (cover : ∀ symbol ∈ config.symbols, symbol ∈ todo ∨ Covered config held push.writes symbol) :
    Pushed config (push.nextWrite config held todo) := by
  obtain ⟨sameHeld, sameWrites, -, ends⟩ := nextWrite_cases config held push todo
  have unrefused' : Unrefused (push.nextWrite config held todo) := by
    intro write response
    rw [sameWrites]
    exact unrefused write response
  constructor
  · simp only [Written, sameHeld, known, sameWrites]
    exact ⟨proper, fun _ => agrees⟩
  · have heldIs : ∀ symbol ∈ config.symbols, held.get symbol ≠ none →
        Covered config held push.writes symbol := by
      intro symbol member holds
      obtain ⟨spec, there⟩ := Option.ne_none_iff_exists'.mp holds
      exact .inl (by rw [there, agrees symbol member spec there])
    obtain ⟨stands, all⟩ | ⟨write, rest, stands, -, sends, part, -, all⟩ |
      ⟨symbol, there, -, none⟩ := ends
    · rw [stands]
      refine ⟨unrefused', .inr ⟨held, by rw [sameHeld, known], fun symbol member => ?_⟩⟩
      rw [sameWrites]
      rcases cover symbol member with left | done
      · exact heldIs symbol member (all symbol left)
      · exact done
    · rw [stands]
      refine ⟨unrefused', List.Subset.trans part within, held, by rw [sameHeld, known], agrees,
        sends, fun symbol member => ?_⟩
      rw [sameWrites]
      rcases cover symbol member with left | done
      · rcases all symbol left with later | now | holds
        · exact .inl later
        · exact .inr (.inl now)
        · exact .inr (.inr (heldIs symbol member holds))
      · exact .inr (.inr done)
    · obtain ⟨asset, found⟩ := indexed symbol (mem_symbols.mp (within there))
      simp [PushConfig.write, found] at none

/-- A retry leaves the log alone, and stays where it was or ends on the budget. -/
theorem pushed_retry {describing : String} {failure : CallFailure} {oversleptNs : ℕ}
    (pushed : Pushed config push) (unrefused : Unrefused push) :
    Pushed config (push.retry config describing failure oversleptNs) := by
  obtain ⟨sameHeld, sameWrites, ends⟩ :=
    retry_cases config push describing failure oversleptNs
  constructor
  · have written := pushed.written
    simpa only [Written, sameHeld, sameWrites] using written
  · rcases ends with stands | ⟨stands, -⟩
    · rw [stands]
      intro before write response later split
      rw [sameWrites] at split
      exact absurd (by simp [split]) (unrefused write response)
    · rw [stands]
      have placed := pushed.placed
      cases stood : push.stage with
      | noIndex symbol =>
          rw [stood] at placed
          exact placed.elim
      | _ => simpa only [stood, Placed, Unrefused, sameHeld, sameWrites] using placed

/-- **Every reply keeps the push sound.** -/
theorem pushed_step {reply : Reply} (indexed : Indexed config) (pushed : Pushed config push)
    (moved : (leveragePush config).step push reply = some after) : Pushed config after := by
  have written := pushed.written
  have placed := pushed.placed
  obtain ⟨stands, moves⟩ | ⟨write, rest, answer, stands, -, moves⟩ := push_cases moved
  · -- the account read
    rw [stands] at placed
    have unknown : push.held = none := placed
    have nothing : push.writes = [] := by simpa only [Written, unknown] using written
    have unrefused : Unrefused push := fun write response => by simp [nothing]
    obtain ⟨failure, describing, -, rfl⟩ | ⟨held, -, rfl⟩ := moves
    · refine pushed_retry ⟨?_, ?_⟩ unrefused
      · simpa only [Written] using written
      · simpa only [stands, Placed] using unknown
    · obtain ⟨-, ended⟩ | ⟨agrees, onward⟩ :=
        afterRead_cases config { push with nowNs := push.nowNs + reply.tookNs } held
      · rw [ended]
        constructor
        · simp [Written, nothing]
        · intro before write response later split
          simp [nothing] at split
      · rw [onward]
        exact pushed_nextWrite indexed rfl agrees unrefused (by simp [nothing])
          (List.Subset.refl _) fun symbol member => .inl member
  · -- a write
    rw [stands] at placed
    obtain ⟨unrefused, within, held, known, agrees, sends, cover⟩ := placed
    have properAll : ∀ entry ∈ push.writes ++ [(write, answer)], Proper config held entry.1 := by
      have proper : ∀ entry ∈ push.writes, Proper config held entry.1 := by
        simp only [Written, known] at written
        exact written.1
      intro entry member
      rcases List.mem_append.mp member with old | new
      · exact proper entry old
      · rw [List.mem_singleton.mp new]
        exact sends
    dsimp only at moves
    obtain ⟨failure, describing, rfl, rfl⟩ | ⟨response, violation, rfl, rfl⟩ |
      ⟨held', rfl, known', rfl⟩ := moves
    · have passed : ∀ response, WriteAnswer.failed failure ≠ .refused response := by simp
      have unrefused' := unrefused_append write unrefused passed
      refine pushed_retry ⟨?_, ?_⟩ unrefused'
      · simp only [Written, known]
        exact ⟨properAll, fun _ => agrees⟩
      · rw [stands]
        refine ⟨unrefused', within, held, known, agrees, sends, fun symbol member => ?_⟩
        rcases cover symbol member with left | now | done
        · exact .inl left
        · exact .inr (.inl now)
        · exact .inr (.inr (covered_append _ done))
    · constructor
      · simp only [Written, known]
        exact ⟨properAll, fun _ => agrees⟩
      · intro before other sentence later split
        exact refusal_last unrefused split
    · obtain rfl : held = held' := Option.some.inj (known.symm.trans known')
      have passed : ∀ response, WriteAnswer.ok ≠ .refused response := by simp
      have unrefused' := unrefused_append write unrefused passed
      refine pushed_nextWrite indexed known agrees unrefused' properAll within
        fun symbol member => ?_
      rcases cover symbol member with left | now | done
      · exact .inl left
      · exact .inr (.inr ⟨write, by rw [now, sends.2], by simp⟩)
      · exact .inr (covered_append _ done)

theorem pushed_start (config : PushConfig) (startNs : Nanos) :
    Pushed config (LeveragePush.start config startNs) := by
  constructor
  · simp [Written, LeveragePush.start]
  · by_cases bare : config.book.entries.entries = []
    · simp only [LeveragePush.start, bare, if_true]
      refine ⟨fun write response => by simp, .inl ?_⟩
      simp [PushConfig.symbols, Dict.keys, bare]
    · simp only [LeveragePush.start, bare, if_false]
      rfl

/-! ## What the account read said -/

/-- The account read: the first reply that reads as one. -/
def accountRead (replies : List Reply) : Option (Dict Symbol LeverageSpec) :=
  replies.findSome? fun reply => (readHeldLeverage reply.answer).toOption

theorem no_step_failed {violation : PushViolation} (stands : push.stage = .failed violation)
    (reply : Reply) : (leveragePush config).step push reply = none := by
  simp [leveragePush, stands]

variable (config held) in
/-- Past the account read, what the account holds stays as it was read. -/
theorem nextWrite_held (push : LeveragePush) (todo : List Symbol) :
    (push.nextWrite config held todo).held = push.held ∧
      (push.nextWrite config held todo).stage ≠ .reading := by
  obtain ⟨sameHeld, -, -, ⟨ends, -⟩ | ⟨_, _, ends, -⟩ | ⟨_, -, ends, -⟩⟩ :=
    nextWrite_cases config held push todo
  all_goals exact ⟨sameHeld, by simp [ends]⟩

theorem held_step {reply : Reply} (known : push.held = some held)
    (placed : push.stage ≠ .reading)
    (moved : (leveragePush config).step push reply = some after) :
    after.held = some held ∧ after.stage ≠ .reading := by
  obtain ⟨stands, -⟩ | ⟨write, rest, answer, stands, -, moves⟩ := push_cases moved
  · exact absurd stands placed
  · obtain ⟨failure, describing, -, rfl⟩ | ⟨response, violation, -, rfl⟩ |
      ⟨held', -, -, rfl⟩ := moves
    · obtain ⟨sameHeld, -, stops | ⟨stays, -⟩⟩ := retry_cases config
        { push with
          nowNs := push.nowNs + reply.tookNs, writes := push.writes ++ [(write, answer)] }
        describing failure reply.oversleptNs
      · exact ⟨sameHeld.trans known, by rw [stops]; simp⟩
      · exact ⟨sameHeld.trans known, by rw [stays, stands]; simp⟩
    · exact ⟨known, by simp⟩
    · obtain ⟨sameHeld, onward⟩ := nextWrite_held config held'
        { push with
          nowNs := push.nowNs + reply.tookNs, writes := push.writes ++ [(write, answer)] } rest
      exact ⟨sameHeld.trans known, onward⟩

theorem held_kept {replies : List Reply} (known : push.held = some held)
    (placed : push.stage ≠ .reading)
    (ran : (leveragePush config).run push replies = some after) : after.held = some held :=
  (Machine.run_induct (fun push => push.held = some held ∧ push.stage ≠ .reading)
    (fun kept moved => held_step kept.1 kept.2 moved) ⟨known, placed⟩ ran).1

/-- **What the push holds for held is what the account read said.** -/
theorem held_run {replies : List Reply} (unknown : push.held = none)
    (ready : push.stage = .reading ∨ ∀ reply, (leveragePush config).step push reply = none)
    (ran : (leveragePush config).run push replies = some after) :
    after.held = accountRead replies := by
  induction replies generalizing push with
  | nil =>
      cases ran
      exact unknown
  | cons reply rest ih =>
      obtain ⟨next, moved, tail⟩ := Machine.run_cons_eq_some.mp ran
      obtain ⟨stands, moves⟩ | ⟨write, todo, answer, stands, -⟩ := push_cases moved
      · obtain ⟨failure, describing, read, rfl⟩ | ⟨held, read, rfl⟩ := moves
        · obtain ⟨sameHeld, -, stops | ⟨stays, -⟩⟩ := retry_cases config
            { push with nowNs := push.nowNs + reply.tookNs } describing failure reply.oversleptNs
          · simpa [accountRead, read, Except.toOption] using
              ih (sameHeld.trans unknown) (.inr (no_step_failed stops)) tail
          · simpa [accountRead, read, Except.toOption] using
              ih (sameHeld.trans unknown) (.inl (stays.trans stands)) tail
        · have known : accountRead (reply :: rest) = some held := by
            simp [accountRead, read, Except.toOption]
          rw [known]
          obtain ⟨-, ended⟩ | ⟨-, onward⟩ := afterRead_cases config
            { push with nowNs := push.nowNs + reply.tookNs } held
          · rw [ended] at tail
            exact held_kept rfl (by simp) tail
          · obtain ⟨sameHeld, onward'⟩ := nextWrite_held config held
              { push with nowNs := push.nowNs + reply.tookNs, held := some held } config.symbols
            rw [onward] at tail
            exact held_kept sameHeld onward' tail
      · rcases ready with reading | stuck
        · rw [stands] at reading
          cases reading
        · rw [stuck reply] at moved
          cases moved

/-! ## The push as a whole -/

/-- What a push promises after any replies of the venue. -/
structure PushSafe (config : PushConfig) (replies : List Reply) (push : LeveragePush) : Prop where
  /-- Nothing is sent before the account was read, -/
  unread : accountRead replies = none → push.sent = []
  /-- nothing for a symbol the account holds, -/
  unheld : ∀ held, accountRead replies = some held →
    ∀ write ∈ push.sent, held.get write.symbol = none
  /-- and nothing at all when a held symbol's pair is not the book's. -/
  whole : ∀ held symbol spec, accountRead replies = some held →
    symbol ∈ config.book.entries.keys → held.get symbol = some spec →
    spec ≠ config.book.forSymbol symbol → push.sent = []
  /-- A refusal is the last answer, and nothing is sent after it. -/
  lastWord : ∀ before write response later,
    push.writes = before ++ (write, .refused response) :: later →
      later = [] ∧ push.sent = push.writes.map Prod.fst
  /-- A push that returns has every symbol of the book held with the book's pair, or
  written with it and answered ok. -/
  aligned : push.stage = .returned → ∀ symbol ∈ config.book.entries.keys,
    (∃ held, accountRead replies = some held ∧
      held.get symbol = some (config.book.forSymbol symbol)) ∨
    ∃ asset, config.assetIndices.get symbol = some asset ∧
      (⟨symbol, ⟨asset, decide ((config.book.forSymbol symbol).mode = .cross),
        (config.book.forSymbol symbol).leverage⟩⟩, WriteAnswer.ok) ∈ push.writes
  /-- Where it cannot go on it has returned, or ended in a violation. -/
  ends : (∀ reply, (leveragePush config).step push reply = none) →
    push.stage = .returned ∨ ∃ violation, push.stage = .failed violation

theorem Pushed.sent_proper (pushed : Pushed config push) (known : push.held = some held)
    (sends : push.sent ≠ []) :
    Agrees config held ∧ ∀ write ∈ push.sent, Proper config held write := by
  have written := pushed.written
  have placed := pushed.placed
  simp only [Written, known] at written
  have past : ∀ write ∈ push.writes.map Prod.fst, Proper config held write := by
    intro write member
    obtain ⟨entry, there, rfl⟩ := List.mem_map.mp member
    exact written.1 entry there
  cases stands : push.stage with
  | writing write rest =>
      rw [stands] at placed
      obtain ⟨-, -, held', known', agrees, sends, -⟩ := placed
      obtain rfl : held = held' := Option.some.inj (known.symm.trans known')
      refine ⟨agrees, fun other member => ?_⟩
      simp only [LeveragePush.sent, stands] at member
      rcases List.mem_append.mp member with old | now
      · exact past other old
      · rw [List.mem_singleton.mp now]
        exact sends
  | reading | returned | failed _ | noIndex _ =>
      simp only [LeveragePush.sent, stands, List.append_nil, ne_eq, List.map_eq_nil_iff] at sends ⊢
      exact ⟨written.2 sends, past⟩

theorem Pushed.sent_unread (pushed : Pushed config push) (unknown : push.held = none) :
    push.sent = [] := by
  have written := pushed.written
  have placed := pushed.placed
  have nothing : push.writes = [] := by simpa only [Written, unknown] using written
  cases stands : push.stage with
  | writing write rest =>
      rw [stands] at placed
      obtain ⟨-, -, held, known, -⟩ := placed
      rw [unknown] at known
      cases known
  | reading | returned | failed _ | noIndex _ => simp [LeveragePush.sent, stands, nothing]

/-- A push that was refused has nothing in flight. -/
theorem Pushed.refused (pushed : Pushed config push)
    {before later : List (LeverageWrite × WriteAnswer)} {write : LeverageWrite}
    {response : Option Body} (split : push.writes = before ++ (write, .refused response) :: later) :
    later = [] ∧ push.sent = push.writes.map Prod.fst := by
  have placed := pushed.placed
  have among : (write, WriteAnswer.refused response) ∈ push.writes := by simp [split]
  cases stands : push.stage with
  | failed violation =>
      rw [stands] at placed
      exact ⟨placed before write response later split, by simp [LeveragePush.sent, stands]⟩
  | reading =>
      have written := pushed.written
      rw [stands] at placed
      have unknown : push.held = none := placed
      simp only [Written, unknown] at written
      simp [written] at among
  | writing other rest =>
      rw [stands] at placed
      exact absurd among (placed.1 write response)
  | returned =>
      rw [stands] at placed
      exact absurd among (placed.1 write response)
  | noIndex symbol =>
      rw [stands] at placed
      exact placed.elim

theorem pushed_run {startNs : Nanos} {replies : List Reply} (indexed : Indexed config)
    (ran : (leveragePush config).run (LeveragePush.start config startNs) replies = some push) :
    Pushed config push ∧ push.held = accountRead replies := by
  refine ⟨Machine.run_induct (Pushed config) (pushed_step indexed) (pushed_start config startNs)
    ran, held_run rfl ?_ ran⟩
  by_cases bare : config.book.entries.entries = []
  · exact .inr fun reply => by simp [leveragePush, LeveragePush.start, bare]
  · exact .inl (by simp [LeveragePush.start, bare])

/-- **A push keeps its promises** after any replies. -/
theorem push_safe {startNs : Nanos} {replies : List Reply} (indexed : Indexed config)
    (ran : (leveragePush config).run (LeveragePush.start config startNs) replies = some push) :
    PushSafe config replies push := by
  obtain ⟨pushed, read⟩ := pushed_run indexed ran
  refine ⟨fun none => pushed.sent_unread (read.trans none), fun held known write member => ?_,
    fun held symbol spec known member holds differs => ?_,
    fun before write response later split => pushed.refused split,
    fun stands symbol member => ?_, fun stuck => ?_⟩
  · exact ((pushed.sent_proper (read.trans known) (List.ne_nil_of_mem member)).2 write member).1
  · by_contra sends
    exact differs ((pushed.sent_proper (read.trans known) sends).1 symbol (mem_symbols.mpr member)
      spec holds)
  · have placed := pushed.placed
    rw [stands] at placed
    obtain ⟨-, bare | ⟨held, known, cover⟩⟩ := placed
    · simp [← mem_symbols, bare] at member
    · rcases cover symbol (mem_symbols.mpr member) with holds | ⟨write, made, landed⟩
      · exact .inl ⟨held, read.symm.trans known, holds⟩
      · obtain ⟨asset, found, rfl⟩ := Option.map_eq_some_iff.mp made
        exact .inr ⟨asset, found, landed⟩
  · have placed := pushed.placed
    cases stands : push.stage with
    | returned => exact .inl rfl
    | failed violation => exact .inr ⟨violation, rfl⟩
    | noIndex symbol =>
        rw [stands] at placed
        exact placed.elim
    | reading =>
        have refusal := stuck { answer := .raised .osError }
        simp [leveragePush, stands, readHeldLeverage] at refusal
    | writing write rest =>
        have refusal := stuck { answer := .raised .osError }
        simp [leveragePush, stands, writeLeverage] at refusal

/-! ## Every push comes to an end -/

/-- The calls a push has still to make, a failed one counted once. -/
def PushConfig.callsLeft (config : PushConfig) : PushStage → ℕ
  | .reading => config.symbols.length + 1
  | .writing _ rest => rest.length + 1
  | .returned | .failed _ | .noIndex _ => 0

/-- What is left: the calls still to make, and the time until the deadline. -/
def LeveragePush.left (config : PushConfig) (push : LeveragePush) : ℕ ×ₗ ℕ :=
  toLex (config.callsLeft push.stage, (config.deadlineNs - push.nowNs).toNat)

/-- The present delay of a push that is still waiting for a reply is not zero. -/
def Waits (config : PushConfig) (push : LeveragePush) : Prop :=
  0 < config.callsLeft push.stage → 0 < push.backoffNs

/-- A retry uses up some of the time until the deadline, or gives up. -/
theorem left_retry {describing : String} {failure : CallFailure} {tookNs oversleptNs : ℕ}
    (going : 0 < config.callsLeft push.stage) (waits : Waits config push) (next : LeveragePush)
    (same : next.stage = push.stage) (delay : next.backoffNs = push.backoffNs)
    (took : next.nowNs = push.nowNs + tookNs) :
    (next.retry config describing failure oversleptNs).left config < push.left config ∧
      Waits config (next.retry config describing failure oversleptNs) := by
  have waiting := waits going
  obtain ⟨-, -, stops | ⟨stays, early, later, doubled⟩⟩ :=
    retry_cases config next describing failure oversleptNs
  · constructor
    · rw [LeveragePush.left, LeveragePush.left, stops, Prod.Lex.toLex_lt_toLex]
      exact .inl going
    · intro live
      simp [stops, PushConfig.callsLeft] at live
  · constructor
    · rw [LeveragePush.left, LeveragePush.left, stays, same, Prod.Lex.toLex_lt_toLex]
      refine .inr ⟨rfl, ?_⟩
      have onward : (0 : ℤ) < push.backoffNs := by exact_mod_cast waiting
      have further : push.nowNs < (next.retry config describing failure oversleptNs).nowNs := by
        rw [later, took, delay]
        linarith [Int.natCast_nonneg tookNs, Int.natCast_nonneg oversleptNs]
      have before : push.nowNs < config.deadlineNs := by
        rw [took] at early
        linarith [Int.natCast_nonneg tookNs]
      exact (Int.toNat_lt_toNat (by linarith)).mpr (by linarith)
    · intro _
      rw [doubled, delay]
      have cap : 0 < retryMaxNs := by decide
      omega

/-- The loop over the book has one call less to make. -/
theorem left_nextWrite {todo : List Symbol} (next : LeveragePush)
    (more : todo.length < config.callsLeft push.stage) :
    (next.nextWrite config held todo).left config < push.left config ∧
      Waits config (next.nextWrite config held todo) := by
  have initial : 0 < retryInitialNs := by decide
  obtain ⟨-, -, -, ⟨ends, -⟩ | ⟨write, rest, ends, delay, -, -, fewer, -⟩ | ⟨symbol, -, ends, -⟩⟩ :=
    nextWrite_cases config held next todo
  all_goals
    rw [LeveragePush.left, LeveragePush.left, ends, Prod.Lex.toLex_lt_toLex]
    refine ⟨.inl ?_, fun live => ?_⟩
  · show 0 < config.callsLeft push.stage
    omega
  · simp [ends, PushConfig.callsLeft] at live
  · show rest.length + 1 < config.callsLeft push.stage
    omega
  · rw [delay]
    exact initial
  · show 0 < config.callsLeft push.stage
    omega
  · simp [ends, PushConfig.callsLeft] at live

theorem left_step {reply : Reply} (waits : Waits config push)
    (moved : (leveragePush config).step push reply = some after) :
    after.left config < push.left config ∧ Waits config after := by
  obtain ⟨stands, moves⟩ | ⟨write, rest, answer, stands, -, moves⟩ := push_cases moved
  · have going : config.callsLeft push.stage = config.symbols.length + 1 := by
      rw [stands, PushConfig.callsLeft]
    obtain ⟨failure, describing, -, rfl⟩ | ⟨held, -, rfl⟩ := moves
    · exact left_retry (by omega) waits _ rfl rfl rfl
    · obtain ⟨-, ended⟩ | ⟨-, onward⟩ := afterRead_cases config
        { push with nowNs := push.nowNs + reply.tookNs } held
      · rw [ended]
        constructor
        · rw [LeveragePush.left, LeveragePush.left, Prod.Lex.toLex_lt_toLex]
          refine .inl ?_
          show 0 < config.callsLeft push.stage
          omega
        · intro live
          simp [PushConfig.callsLeft] at live
      · rw [onward]
        exact left_nextWrite _ (by omega)
  · have going : config.callsLeft push.stage = rest.length + 1 := by
      rw [stands, PushConfig.callsLeft]
    obtain ⟨failure, describing, -, rfl⟩ | ⟨response, violation, -, rfl⟩ |
      ⟨held, -, -, rfl⟩ := moves
    · exact left_retry (by omega) waits _ rfl rfl rfl
    · constructor
      · rw [LeveragePush.left, LeveragePush.left, Prod.Lex.toLex_lt_toLex]
        refine .inl ?_
        show 0 < config.callsLeft push.stage
        omega
      · intro live
        simp [PushConfig.callsLeft] at live
    · exact left_nextWrite _ (by omega)

/-- **The boot push is safe and ends.**  After any replies it has kept its promises,
and no sequence of replies goes on for ever. -/
theorem pushes_safely (indexed : Indexed config) (startNs : Nanos) :
    (∀ replies push, (leveragePush config).run (LeveragePush.start config startNs) replies =
      some push → PushSafe config replies push) ∧
    ∀ (pushes : ℕ → LeveragePush) (replies : ℕ → Reply),
      pushes 0 = LeveragePush.start config startNs →
      ¬∀ k, (leveragePush config).step (pushes k) (replies k) = some (pushes (k + 1)) := by
  refine ⟨fun replies push ran => push_safe indexed ran, fun pushes replies begun goes => ?_⟩
  have initial : 0 < retryInitialNs := by decide
  refine Machine.not_endless (fun left push => push.left config = left ∧ Waits config push)
    (fun {left push reply after} kept moved => ?_) pushes replies
    ⟨rfl, fun _ => begun ▸ initial⟩ goes
  obtain ⟨lower, waits⟩ := left_step kept.2 moved
  exact ⟨after.left config, kept.1 ▸ lower, rfl, waits⟩

/-! ## A sample push -/

namespace Sample

/-- Two symbols, one of them held as configured. -/
def twoSymbols : PushConfig where
  address := "0xabc"
  book := ⟨(Dict.empty.set "ETH" ⟨.isolated, 3⟩).set "BTC" ⟨.cross, 5⟩⟩
  assetIndices := (Dict.empty.set "BTC" 0).set "ETH" 1
  deadlineNs := 60000000000

/-- The body of an account that holds BTC at cross 5x. -/
def holdsBtc : Body :=
  .mapping [("assetPositions", .list [.mapping [("position", .mapping [("coin", .str "BTC"),
    ("leverage", .mapping [("type", .str "cross"), ("value", .int 5)])])]])]

/-- A blip on the read, a garbled envelope on the write, and then it lands. -/
def blips : List Reply :=
  [{ answer := .raised .osError }, { answer := .body holdsBtc },
    { answer := .body (.mapping []), oversleptNs := 7 },
    { answer := .body (.mapping [("status", .str "ok")]) }]

theorem pushes_safely_blips : ∃ push,
    (leveragePush twoSymbols).run (LeveragePush.start twoSymbols 0) blips = some push ∧
      push.sent = [⟨"ETH", ⟨1, false, 3⟩⟩, ⟨"ETH", ⟨1, false, 3⟩⟩] ∧
      push.unchanged = [("BTC", ⟨.cross, 5⟩)] ∧ PushSafe twoSymbols blips push := by
  have ended : ((leveragePush twoSymbols).run (LeveragePush.start twoSymbols 0) blips).map
      (fun push => (push.sent, push.unchanged)) =
        some ([⟨"ETH", ⟨1, false, 3⟩⟩, ⟨"ETH", ⟨1, false, 3⟩⟩], [("BTC", ⟨.cross, 5⟩)]) := by
    decide +kernel
  obtain ⟨push, ran, logs⟩ := Option.map_eq_some_iff.mp ended
  have indexed : Indexed twoSymbols := by
    intro symbol member
    have listed : symbol = "ETH" ∨ symbol = "BTC" := by
      simpa [twoSymbols, Dict.set, Dict.put, Dict.empty, Dict.keys] using member
    rcases listed with rfl | rfl
    · exact ⟨1, by decide +kernel⟩
    · exact ⟨0, by decide +kernel⟩
  exact ⟨push, ran, (Prod.mk.inj logs).1, (Prod.mk.inj logs).2,
    (pushes_safely indexed 0).1 blips push ran⟩

end Sample

end Tickwright.Hyperliquid
