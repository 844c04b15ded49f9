/-
# Engine.Recovery -- a fresh process over the tables holds what the live one held

The engine of `Engine.Life` writes records; a database holds columns.  Here the
two run together: every step reads the records its tables load as, and commits
its transactions to the tables.  Nothing else of a life survives into the next.

* `Level` says the tables are exactly the rows of the store the life runs over,
  and `step_level` keeps it through every step, crashes and restarts included;
* `run_recovers` is the result: whenever no send is awaited, the tables load,
  and a recovery over what they load as agrees with the live process.
-/
import Tickwright.Domain.Texts
import Tickwright.Engine.Life
import Tickwright.Store.Records
import Tickwright.Theory.Plain
import Mathlib.Data.Rat.Encodable
import Mathlib.Logic.Equiv.List

namespace Tickwright.Engine

open Tickwright.Domain Tickwright.Theory Tickwright.Store

set_option autoImplicit false

/-- A life beside the tables its writes went to. -/
structure Durable where
  life : Life
  tables : Tables

/-- The transactions among a script's effects, in order. -/
def writesOf (effects : List Effect) : List Txn :=
  effects.filterMap fun effect => match effect with
    | .write txn => some txn
    | _ => none

/-- What a boot writes: the genesis row, where recovery seeds one. -/
def restartWrites (config : Config) (store : Store) (restartNs : Nanos) : List Txn :=
  match recover config store restartNs with
  | .error _ => []
  | .ok (_, txns) => txns

/-- The transactions one step commits. -/
def committed (deriveCloid : SignalId → Cloid) (config : Config) (life : Life) :
    Label → List Txn
  | .handle input nowNs => writesOf (scriptOf deriveCloid config life.process nowNs input).effects
  | .sent nowNs =>
      match life.sending with
      | none => []
      | some cloid => writesOf (afterSend life.process.memory cloid nowNs).effects
  | .crash restartNs => restartWrites config life.process.store restartNs
  | .crashIn input nowNs steps restartNs =>
      let effects := (scriptOf deriveCloid config life.process nowNs input).effects.take steps
      writesOf effects ++ restartWrites config (life.process.play effects).store restartNs

/-- The life over the records its tables load as. -/
def Durable.loaded (codec : Codec) (durable : Durable) : Option Life :=
  (durable.tables.load codec).map fun store =>
    { durable.life with process := { durable.life.process with store := store } }

/-- The engine over a database. -/
def onTables (codec : Codec) (deriveCloid : SignalId → Cloid) (config : Config) :
    Machine Durable Label where
  step durable label :=
    (durable.loaded codec).bind fun life =>
      ((engine deriveCloid config).step life label).map fun next =>
        { life := next
          tables := (committed deriveCloid config life label).foldl (Tables.commit codec)
            durable.tables }

variable {codec : Codec} {deriveCloid : SignalId → Cloid} {config : Config}

/-! ## The tables follow the records -/

/-- The rows a script leaves are those its transactions leave. -/
theorem play_store (process : Process) (effects : List Effect) :
    (process.play effects).store = (writesOf effects).foldl Store.commit process.store := by
  induction effects generalizing process with
  | nil => rfl
  | cons effect rest ih =>
      refine (ih (perform process effect)).trans ?_
      cases effect <;> rfl

/-- What a restart leaves is what its boot wrote. -/
theorem restart_store {process : Process} {restartNs : Nanos} {next : Life}
    (restarted : restart config process restartNs = some next) :
    next.process.store =
      (restartWrites config process.store restartNs).foldl Store.commit process.store := by
  cases recovery : recover config process.store restartNs with
  | error mismatch =>
      simp only [restart, recovery] at restarted
      cases restarted
  | ok recovered =>
      simp only [restart, recovery] at restarted
      cases restarted
      simp only [restartWrites, recovery]

/-- **A step's records are its transactions over the records before it.** -/
theorem step_store {life next : Life} {label : Label}
    (stepped : (engine deriveCloid config).step life label = some next) :
    next.process.store =
      (committed deriveCloid config life label).foldl Store.commit life.process.store := by
  cases label with
  | handle input nowNs =>
      simp only [engine] at stepped
      split at stepped
      · cases stepped
        exact play_store _ _
      · cases stepped
  | sent nowNs =>
      cases waiting : life.sending with
      | none =>
          simp only [engine, waiting] at stepped
          cases stepped
      | some cloid =>
          simp only [engine, waiting] at stepped
          cases stepped
          simp only [committed, waiting]
          exact play_store _ _
  | crash restartNs => exact restart_store stepped
  | crashIn input nowNs steps restartNs =>
      simp only [engine] at stepped
      split at stepped
      · rw [restart_store stepped, committed, List.foldl_append, ← play_store]
      · cases stepped

/-- The tables are exactly the rows of the records the life runs over, and every
position row keeps what a row keeps. -/
structure Level (codec : Codec) (durable : Durable) : Prop where
  tables : durable.tables = Tables.of codec durable.life.process.store
  positions : ∀ k position, durable.life.process.store.positions.get k = some position →
    position.durable = position

/-- Level tables load as the records the life runs over. -/
theorem Level.load {durable : Durable} (level : Level codec durable) :
    durable.tables.load codec = some durable.life.process.store := by
  rw [level.tables]
  exact Tables.load_of _ level.positions

theorem Level.loaded {durable : Durable} (level : Level codec durable) :
    durable.loaded codec = some durable.life := by
  rw [Durable.loaded, level.load]
  rfl

/-- A step over level tables is a step of the engine. -/
theorem Level.engine_step {durable next : Durable} {label : Label} (level : Level codec durable)
    (stepped : (onTables codec deriveCloid config).step durable label = some next) :
    (engine deriveCloid config).step durable.life label = some next.life ∧
      next.tables = Tables.of codec next.life.process.store := by
  simp only [onTables, level.loaded, Option.bind_some] at stepped
  obtain ⟨life, enabled, rfl⟩ := Option.map_eq_some_iff.mp stepped
  refine ⟨enabled, ?_⟩
  rw [step_store enabled, Tables.of_commits, ← level.tables]

/-- A steady life over level tables. -/
structure Kempt (codec : Codec) (config : Config) (durable : Durable) : Prop where
  level : Level codec durable
  steady : Steady config durable.life

/-- A life that is steady keeps position rows as rows keep them. -/
theorem Steady.level {durable : Durable} (steady : Steady config durable.life)
    (tables : durable.tables = Tables.of codec durable.life.process.store) :
    Kempt codec config durable :=
  ⟨⟨tables, fun k position there => (steady.synced.sound.positions k position there).2⟩, steady⟩

/-- **Every step keeps the tables level with a steady life.** -/
theorem step_kempt {durable next : Durable} {label : Label} (kempt : Kempt codec config durable)
    (stepped : (onTables codec deriveCloid config).step durable label = some next) :
    Kempt codec config next := by
  obtain ⟨enabled, tables⟩ := kempt.level.engine_step stepped
  exact (step_steady kempt.steady enabled).level tables

/-- **Every run of the engine runs over level tables too**: no step is refused for
what a table holds. -/
theorem run_onTables {durable : Durable} {next : Life} {labels : List Label}
    (kempt : Kempt codec config durable)
    (ran : (engine deriveCloid config).run durable.life labels = some next) :
    ∃ last, (onTables codec deriveCloid config).run durable labels = some last ∧
      last.life = next := by
  induction labels generalizing durable with
  | nil => cases ran; exact ⟨durable, rfl, rfl⟩
  | cons label rest ih =>
      obtain ⟨middle, enabled, tail⟩ := Machine.run_cons_eq_some.mp ran
      have stepped : (onTables codec deriveCloid config).step durable label =
          some { life := middle
                 tables := (committed deriveCloid config durable.life label).foldl
                   (Tables.commit codec) durable.tables } := by
        simp only [onTables, kempt.level.loaded, Option.bind_some, enabled, Option.map_some]
      obtain ⟨last, later, same⟩ := ih (step_kempt kempt stepped) tail
      exact ⟨last, Machine.run_cons_eq_some.mpr ⟨_, stepped, later⟩, same⟩

/-- A dead process over the tables of its records: what the first boot finds. -/
def Durable.unbooted (codec : Codec) (process : Process) : Durable where
  life := { process := process }
  tables := Tables.of codec process.store

/-- The first boot, over an open ledger or one paper seeds, starts a steady life. -/
theorem boot_kempt {process : Process} {startNs : Nanos} {first : Durable}
    (opens : Sound config process.store ∨ Untraded config process.store)
    (booted : (onTables codec deriveCloid config).step (.unbooted codec process)
      (.crash startNs) = some first) : Kempt codec config first := by
  have positions : ∀ k position, process.store.positions.get k = some position →
      position.durable = position := by
    intro k position there
    rcases opens with sound | untraded
    · exact (sound.positions k position there).2
    · rw [untraded.positions] at there
      cases there
  have level : Level codec (.unbooted codec process) := ⟨rfl, positions⟩
  obtain ⟨enabled, tables⟩ := level.engine_step booted
  have steady : Steady config first.life := by
    rcases opens with sound | untraded
    · exact (restart_steady sound enabled).1
    · exact (untraded_steady untraded enabled).1
  exact steady.level tables

/-- **A recovery equals the live state.**  After any run over the tables, with
crashes anywhere, and at any moment no send is awaited: the tables load, recovery
over what they load as is allowed and writes nothing, and it holds the same
orders, partitions, account, seqs and funding marks as the live process. -/
theorem run_recovers {process : Process} {startNs tsNs : Nanos} {last : Durable}
    {labels : List Label} (opens : Sound config process.store ∨ Untraded config process.store)
    (ran : (onTables codec deriveCloid config).run (.unbooted codec process)
      (.crash startNs :: labels) = some last) (idle : last.life.sending = none) :
    ∃ store recovered, last.tables.load codec = some store ∧
      recover config store tsNs = .ok (recovered, []) ∧
      Agrees recovered last.life.process.memory ∧
      ∀ symbol, store.fundingMarks.get symbol =
        last.life.process.store.fundingMarks.get symbol := by
  obtain ⟨first, booted, tail⟩ := Machine.run_cons_eq_some.mp ran
  have kempt : Kempt codec config last :=
    Machine.run_induct (Kempt codec config) (fun kept stepped => step_kempt kept stepped)
      (boot_kempt opens booted) tail
  have synced := kempt.steady.idle idle
  obtain ⟨recovered, recovery, _⟩ := recover_of_sound synced.sound tsNs
  exact ⟨_, recovered, kempt.level.load, recovery, agrees_of_synced synced recovery, fun _ => rfl⟩

/-! ## A codec -/

namespace Sample

/-! The source's own `str` and `json`, for decimals in plain notation and texts that JSON
escapes nothing of.  What is not read back so is written in strokes. -/

/-- `json.dumps` writes the character as it is. -/
def unescaped (c : Char) : Bool :=
  decide (0x20 ≤ c.toNat ∧ c.toNat ≤ 0x7e ∧ c.toNat ≠ 0x22 ∧ c.toNat ≠ 0x5c)

def quote (name : String) : Text := '\x22' :: (name.toList ++ ['\x22'])

/-- `[one, two, ...]`. -/
def array (items : List Text) : Text := '[' :: ((items.intersperse [',', ' ']).flatten ++ [']'])

def readName : Text → Option (String × Text)
  | '\x22' :: text =>
      match text.dropWhile unescaped with
      | '\x22' :: rest => some (String.ofList (text.takeWhile unescaped), rest)
      | _ => none
  | _ => none

/-- A number in a pair: whatever stands in front of the pair's end. -/
def readNumber (text : Text) : Option (ℤ × Text) :=
  (Domain.int (text.takeWhile (· ≠ ']'))).map fun number => (number, text.dropWhile (· ≠ ']'))

def readPair {α : Type} (second : Text → Option (α × Text)) : Text → Option ((String × α) × Text)
  | '[' :: text => do
      match ← readName text with
      | (name, ',' :: ' ' :: rest) =>
          match ← second rest with
          | (value, ']' :: rest) => pure ((name, value), rest)
          | _ => none
      | _ => none
  | _ => none

/-- The items up to the end of the list.  `fuel` is no less than how many there are. -/
def readItems {α : Type} (item : Text → Option (α × Text)) : ℕ → Text → Option (List α)
  | 0, _ => none
  | fuel + 1, text => do
      match ← item text with
      | (one, [']']) => pure [one]
      | (one, ',' :: ' ' :: rest) => pure (one :: (← readItems item fuel rest))
      | _ => none

def readArray {α : Type} (item : Text → Option (α × Text)) (text : String) : Option (List α) :=
  match text.toList with
  | ['[', ']'] => some []
  | '[' :: rest => readItems item rest.length rest
  | _ => none

/-- What stands in front of the first colon, and behind it. -/
def cutColon (text : Text) : Text × Text :=
  (text.takeWhile (· ≠ ':'), (text.dropWhile (· ≠ ':')).drop 1)

/-- The id a dedup text stands for. -/
def readEvent (text : String) : Option EventId :=
  let (front, rest) := cutColon text.toList
  let (word, behind) := cutColon rest
  if front = "reconcile".toList then
    (cutLast ':' rest).bind fun parts =>
      (Domain.int parts.2).map fun tsNs => .reconcile (String.ofList parts.1) tsNs
  else if front = "leftover".toList then
    let (tsNs, owner) := cutColon behind
    (Domain.int tsNs).map fun tsNs => .leftover (String.ofList word) tsNs (String.ofList owner)
  else if word ≠ "fill".toList then
    (orderStateOf (String.ofList rest)).map (.state (String.ofList front) ·)
  else if ':' ∈ behind then
    let (tradeId, owner) := cutColon behind
    some (.piece (String.ofList front) (String.ofList tradeId) (String.ofList owner))
  else some (.fill (String.ofList front) (String.ofList behind))

def readSignal (text : String) : Option SignalId :=
  (SignalFields.parse text.toList).bind fun fields =>
    (strategyOf fields.strategyId).map fun strategyId =>
      ⟨strategyId, fields.symbol, fields.seq.toNat⟩

section Strokes

variable {α : Type} [DecidableEq α] [Encodable α]

/-- As the writer writes it, where the reader reads that back, and in strokes elsewhere. -/
def written (write : α → Text) (read : String → Option α) (x : α) : String :=
  if read (String.ofList (write x)) = some x ∧ (write x).head? ≠ some '|' then
    String.ofList (write x)
  else String.ofList (List.replicate (Encodable.encode x + 1) '|')

def readBack (read : String → Option α) (text : String) : Option α :=
  if text.toList.head? = some '|' then Encodable.decode (text.length - 1) else read text

theorem readBack_written (write : α → Text) (read : String → Option α) (x : α) :
    readBack read (written write read x) = some x := by
  unfold written
  split
  · rename_i reads
    rw [readBack, String.toList_ofList, if_neg reads.2, reads.1]
  · rw [readBack, String.toList_ofList, List.replicate_succ, List.head?_cons, if_pos rfl,
      String.length_ofList, List.length_cons, List.length_replicate, Nat.add_sub_cancel,
      Encodable.encodek]

end Strokes

instance encodableChar : Encodable Char := .ofLeftInverse Char.toNat Char.ofNat Char.ofNat_toNat

instance encodableString : Encodable String :=
  .ofLeftInverse String.toList String.ofList fun _ => String.ofList_toList

instance encodableSignalId : Encodable SignalId :=
  .ofLeftInverse (fun id => (id.strategyId.id, id.symbol, id.seq))
    (fun parts => ⟨(strategyOf parts.1).getD operator, parts.2.1, parts.2.2⟩)
    fun id => by simp

/-- An event id as a kind, its names and its instant. -/
def eventParts : EventId → ℕ × List String × ℤ
  | .state cloid state => (0, [cloid, state.value], 0)
  | .fill cloid tradeId => (1, [cloid, tradeId], 0)
  | .piece cloid tradeId owner => (2, [cloid, tradeId, owner], 0)
  | .reconcile symbol tsNs => (3, [symbol], tsNs)
  | .leftover symbol tsNs owner => (4, [symbol, owner], tsNs)

def eventOfParts : ℕ × List String × ℤ → EventId
  | (0, [cloid, state], _) => .state cloid ((orderStateOf state).getD .pending)
  | (1, [cloid, tradeId], _) => .fill cloid tradeId
  | (2, [cloid, tradeId, owner], _) => .piece cloid tradeId owner
  | (3, [symbol], tsNs) => .reconcile symbol tsNs
  | (4, [symbol, owner], tsNs) => .leftover symbol tsNs owner
  | _ => .state "" .pending

instance encodableEventId : Encodable EventId :=
  .ofLeftInverse eventParts eventOfParts fun id => by
    cases id with
    | state cloid state => simp [eventParts, eventOfParts]
    | fill _ _ | piece _ _ _ | reconcile _ _ | leftover _ _ _ => rfl

def readDecimal (text : String) : Option Decimal := ofPlain text.toList

def dumpNames (names : List String) : Text := array (names.map quote)

def dumpPairs (pairs : List (String × String)) : Text :=
  array (pairs.map fun pair => array [quote pair.1, quote pair.2])

def dumpTrail (trail : List (String × ℤ)) : Text :=
  array (trail.map fun entry => array [quote entry.1, decimal entry.2])

/-- The texts the source writes. -/
def inText : Codec where
  str := written plain readDecimal
  decimal := readBack readDecimal
  dumps := written dumpNames (readArray readName)
  loads := readBack (readArray readName)
  dumpsPairs := written dumpPairs (readArray (readPair readName))
  loadsPairs := readBack (readArray (readPair readName))
  dumpsTrail := written dumpTrail (readArray (readPair readNumber))
  loadsTrail := readBack (readArray (readPair readNumber))
  signalText := written (fun id => id.fields.render) readSignal
  signalOf := readBack readSignal
  eventText := written EventId.render readEvent
  eventOf := readBack readEvent
  decimal_str := readBack_written _ _
  loads_dumps := readBack_written _ _
  loads_dumpsPairs := readBack_written _ _
  loads_dumpsTrail := readBack_written _ _
  signalOf_text := readBack_written _ _
  eventOf_text := readBack_written _ _

/-- A row's decimal, its dedup set and its history. -/
example : inText.str (1001 / 10) = "100.1" ∧
    inText.dumps ["0x01:fill:7", "0x01:live"] = "[\"0x01:fill:7\", \"0x01:live\"]" ∧
    inText.dumpsTrail [("pending", 3), ("submitted", 4)] =
      "[[\"pending\", 3], [\"submitted\", 4]]" ∧
    inText.eventText (.fill "0x01" "7") = "0x01:fill:7" ∧
    inText.eventText (.leftover "BTC" 5 "carry") = "leftover:BTC:5:carry" := by
  decide +kernel

end Sample

/-- An order filled in part across a crash is recovered whole. -/
theorem sample_recovers :
    ∃ last : Durable, (onTables Sample.inText Sample.cloidOf Sample.paper).run
        (.unbooted Sample.inText Sample.unstarted) (.crash 0 :: Sample.labels) = some last ∧
      (last.life.process.memory.cache.getOrder "0x01").map Order.state =
        some .partiallyFilled ∧
      ∃ store recovered, last.tables.load Sample.inText = some store ∧
        recover Sample.paper store 7 = .ok (recovered, []) ∧
        Agrees recovered last.life.process.memory ∧
        ∀ symbol, store.fundingMarks.get symbol =
          last.life.process.store.fundingMarks.get symbol := by
  have lived : (((engine Sample.cloidOf Sample.paper).run { process := Sample.unstarted }
      (.crash 0 :: Sample.labels)).map fun last =>
        (last.sending, (last.process.memory.cache.getOrder "0x01").map Order.state)) =
      some (none, some .partiallyFilled) := by
    decide +kernel
  obtain ⟨end', ran, seen⟩ := Option.map_eq_some_iff.mp lived
  simp only [Prod.mk.injEq] at seen
  obtain ⟨first, booted, tail⟩ := Machine.run_cons_eq_some.mp ran
  have opens : Sound Sample.paper Sample.unstarted.store ∨
      Untraded Sample.paper Sample.unstarted.store := Or.inr Sample.unstarted_untraded
  have level : Level Sample.inText (.unbooted Sample.inText Sample.unstarted) := ⟨rfl, nofun⟩
  have onBoot : (onTables Sample.inText Sample.cloidOf Sample.paper).step
      (.unbooted Sample.inText Sample.unstarted) (.crash 0) =
        some { life := first
               tables := (committed Sample.cloidOf Sample.paper
                 { process := Sample.unstarted } (.crash 0)).foldl (Tables.commit Sample.inText)
                   (Tables.of Sample.inText Sample.unstarted.store) } := by
    simp only [onTables, level.loaded, Option.bind_some]
    rw [show (Durable.unbooted Sample.inText Sample.unstarted).life =
      { process := Sample.unstarted } from rfl, booted]
    rfl
  obtain ⟨last, later, same⟩ := run_onTables (boot_kempt opens onBoot) tail
  have whole := Machine.run_cons_eq_some.mpr ⟨_, onBoot, later⟩
  rw [← same] at seen
  exact ⟨last, whole, seen.2, run_recovers opens whole seen.1⟩

end Tickwright.Engine
