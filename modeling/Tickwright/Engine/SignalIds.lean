/-
# Engine.SignalIds -- no signal id is ever given out twice

A `Desk` is a life beside its emitters and the signals on their way out: a verb
allocates a seq, the emitter records it, and only then is the signal published.
A crash may fall between any two of the three, and takes the emitters and what
was not published.

* `store_records_mono`: no step of the engine, no crash and no recovery lowers a
  seq record;
* `Issued` is the invariant: what was published is under its strategy's durable
  record, what was allocated is under its emitter's counter, and no two of them
  share an id;
* `run_issued` carries it over every run, so a counter resumed from the high
  water starts above all that was ever published (`resumed_above`).
-/
import Tickwright.Domain.Emitter
import Tickwright.Engine.Life

namespace Tickwright.Engine

open Tickwright.Domain Tickwright.Theory Tickwright.Store

set_option autoImplicit false

/-! ## The desk -/

/-- A life, its emitters, and the signals they have built. -/
structure Desk where
  life : Life
  /-- The emitters resumed in this life, by strategy; the operator's is one. -/
  emitters : Dict StrategyId SignalEmitter := Dict.empty
  /-- Built in this life and not yet recorded. -/
  allocated : List Signal := []
  /-- Recorded in this life and not yet published. -/
  recorded : List Signal := []
  /-- Published in this life or an earlier one. -/
  published : List Signal := []

/-- Every signal whose id is taken. -/
def Desk.signals (desk : Desk) : List Signal :=
  desk.allocated ++ (desk.recorded ++ desk.published)

/-- One step of the desk. -/
inductive DeskLabel
  /-- The engine handles, sends, or dies and recovers. -/
  | engine (label : Label)
  /-- `set_next_seq` on a new emitter, from the high water. -/
  | resume (strategyId : StrategyId)
  /-- A verb takes a seq and builds its signal. -/
  | allocate (strategyId : StrategyId) (verb : EmitterVerb)
  /-- `record_seq`: the store, then the cache. -/
  | record (signal : Signal) (nowNs : Nanos)
  | publish (signal : Signal)

/-- Whether the engine's step ends the process. -/
def Label.ends : Label → Bool
  | .crash _ | .crashIn .. => true
  | .handle .. | .sent _ => false

/-- The emitters and the unpublished signals die with their process. -/
def Desk.moved (desk : Desk) (label : Label) (life : Life) : Desk :=
  if label.ends then { life := life, published := desk.published }
  else { desk with life := life }

/-- The desk's machine. -/
def deskMachine (deriveCloid : SignalId → Cloid) (config : Config) : Machine Desk DeskLabel where
  step desk
    | .engine label =>
        ((engine deriveCloid config).step desk.life label).map (desk.moved label)
    | .resume strategyId =>
        if desk.emitters.get strategyId = none then
          some { desk with
            emitters := desk.emitters.set strategyId
              (SignalEmitter.setNextSeq { strategyId := strategyId }
                (desk.life.process.memory.cache.seqHighWater strategyId + 1)) }
        else none
    | .allocate strategyId verb =>
        match desk.emitters.get strategyId with
        | none => none
        | some emitter =>
            match emitter.emit verb with
            | .error _ => none
            | .ok (signal, moved) =>
                some { desk with
                  emitters := desk.emitters.set strategyId moved
                  allocated := signal :: desk.allocated }
    | .record signal nowNs =>
        if signal ∈ desk.allocated then
          ((engine deriveCloid config).step desk.life
            (.handle (.emit signal.strategyId signal.seq) nowNs)).map fun life =>
              { desk with
                life := life
                allocated := desk.allocated.erase signal
                recorded := signal :: desk.recorded }
        else none
    | .publish signal =>
        if signal ∈ desk.recorded then
          some { desk with
            recorded := desk.recorded.erase signal
            published := signal :: desk.published }
        else none

variable {deriveCloid : SignalId → Cloid} {config : Config}

/-! ## The records only go up -/

/-- One strategy's durable seq record; a strategy with none stands at zero. -/
def recordOf (store : Store) (strategyId : StrategyId) : ℕ :=
  (store.seqRecords.get strategyId).getD 0

/-- No transaction lowers a record. -/
theorem commit_records_mono (store : Store) (txn : Txn) (strategyId : StrategyId) :
    recordOf store strategyId ≤ recordOf (store.commit txn) strategyId := by
  cases txn with
  | checkpoint order tsNs => exact le_refl _
  | checkpointLedger rows =>
      have kept := store.checkpointLedger_seqRecords rows
      simp only [recordOf, Store.commit, kept, le_refl]
  | raiseSeq raised seq =>
      simp only [recordOf, Store.commit, Store.raiseSeq_get]
      split
      · rename_i same
        rw [same]
        exact le_max_left _ _
      · exact le_refl _

theorem foldl_commit_records_mono (txns : List Txn) (store : Store) (strategyId : StrategyId) :
    recordOf store strategyId ≤ recordOf (txns.foldl Store.commit store) strategyId := by
  induction txns generalizing store with
  | nil => exact le_refl _
  | cons txn rest ih => exact (commit_records_mono store txn strategyId).trans (ih _)

theorem play_records_mono (effects : List Effect) (process : Process) (strategyId : StrategyId) :
    recordOf process.store strategyId ≤ recordOf (process.play effects).store strategyId := by
  induction effects generalizing process with
  | nil => exact le_refl _
  | cons effect rest ih =>
      have one : recordOf process.store strategyId ≤
          recordOf (perform process effect).store strategyId := by
        cases effect with
        | write txn => exact commit_records_mono process.store txn strategyId
        | memory _ | announce _ | place _ | cancel _ => exact le_refl _
      exact one.trans (ih _)

theorem restart_records_mono {process : Process} {restartNs : Nanos} {next : Life}
    (restarted : restart config process restartNs = some next) (strategyId : StrategyId) :
    recordOf process.store strategyId ≤ recordOf next.process.store strategyId := by
  simp only [restart] at restarted
  split at restarted
  · cases restarted
  · cases restarted
    exact foldl_commit_records_mono _ process.store strategyId

/-- **No step of the engine lowers a seq record**, a crash and the recovery after
it included. -/
theorem store_records_mono {life next : Life} {label : Label}
    (stepped : (engine deriveCloid config).step life label = some next)
    (strategyId : StrategyId) :
    recordOf life.process.store strategyId ≤ recordOf next.process.store strategyId := by
  cases label with
  | handle input nowNs =>
      simp only [engine] at stepped
      split at stepped
      · cases stepped
        exact play_records_mono _ life.process strategyId
      · cases stepped
  | sent nowNs =>
      simp only [engine] at stepped
      split at stepped
      · cases stepped
      · cases stepped
        exact play_records_mono _ life.process strategyId
  | crash restartNs => exact restart_records_mono stepped strategyId
  | crashIn input nowNs steps restartNs =>
      simp only [engine] at stepped
      split at stepped
      · exact (play_records_mono _ life.process strategyId).trans
          (restart_records_mono stepped strategyId)
      · cases stepped

/-- The fold starts from the seq records. -/
theorem le_foldl_max (seqs : List ℕ) (start : ℕ) : start ≤ seqs.foldl max start := by
  induction seqs generalizing start with
  | nil => exact le_refl _
  | cons seq rest ih => exact (le_max_left start seq).trans (ih _)

theorem record_le_seqHighWater (cache : Cache) (strategyId : StrategyId) :
    (cache.seqRecords.get strategyId).getD 0 ≤ cache.seqHighWater strategyId :=
  le_foldl_max _ _

/-- **The high water is at least the durable record.** -/
theorem Steady.record_le {life : Life} (steady : Steady config life) (strategyId : StrategyId) :
    recordOf life.process.store strategyId ≤
      life.process.memory.cache.seqHighWater strategyId := by
  rw [recordOf, ← steady.synced.orders.seqs strategyId]
  exact record_le_seqHighWater _ _

/-! ## The invariant -/

/-- Where every id that was taken stands. -/
structure Issued (config : Config) (desk : Desk) : Prop where
  steady : Steady config desk.life
  /-- What left its emitter's hands was made durable first. -/
  written : ∀ signal ∈ desk.recorded ++ desk.published,
    signal.seq ≤ recordOf desk.life.process.store signal.strategyId
  /-- What this life built came from an emitter that is open. -/
  opened : ∀ signal ∈ desk.allocated ++ desk.recorded,
    (desk.emitters.get signal.strategyId).isSome = true
  keyed : ∀ strategyId emitter, desk.emitters.get strategyId = some emitter →
    emitter.strategyId = strategyId
  /-- An open counter is above every id taken under its strategy. -/
  above : ∀ strategyId emitter, desk.emitters.get strategyId = some emitter →
    ∀ signal ∈ desk.signals, signal.strategyId = strategyId → signal.seq < emitter.nextSeq
  distinct : (desk.signals.map Signal.signalId).Nodup

namespace Issued

variable {desk : Desk}

theorem published_mem {signal : Signal} (member : signal ∈ desk.published) :
    signal ∈ desk.signals :=
  List.mem_append_right _ (List.mem_append_right _ member)

/-- What was published is under the record of its strategy. -/
theorem published_le (issued : Issued config desk) {signal : Signal}
    (member : signal ∈ desk.published) :
    signal.seq ≤ recordOf desk.life.process.store signal.strategyId :=
  issued.written signal (List.mem_append_right _ member)

/-- The published ids are distinct. -/
theorem published_nodup (issued : Issued config desk) :
    (desk.published.map Signal.signalId).Nodup :=
  issued.distinct.sublist
    (((List.sublist_append_right desk.recorded desk.published).trans
      (List.sublist_append_right desk.allocated _)).map Signal.signalId)

/-- The engine moves on, and the process lives. -/
theorem lives (issued : Issued config desk) {life : Life} (steady : Steady config life)
    (mono : ∀ strategyId, recordOf desk.life.process.store strategyId ≤
      recordOf life.process.store strategyId) : Issued config { desk with life := life } where
  steady := steady
  written signal member := (issued.written signal member).trans (mono _)
  opened := issued.opened
  keyed := issued.keyed
  above := issued.above
  distinct := issued.distinct

/-- A process that dies leaves what was published, and nothing of the rest. -/
theorem dies (issued : Issued config desk) {life : Life} (steady : Steady config life)
    (mono : ∀ strategyId, recordOf desk.life.process.store strategyId ≤
      recordOf life.process.store strategyId) :
    Issued config { life := life, published := desk.published } where
  steady := steady
  written signal member := (issued.published_le member).trans (mono _)
  opened _ member := by cases member
  keyed _ _ there := by cases there
  above _ _ there := by cases there
  distinct := issued.published_nodup

/-- **A counter resumed from the high water starts above all that was
published.** -/
theorem resume (issued : Issued config desk) {strategyId : StrategyId}
    (unopened : desk.emitters.get strategyId = none) :
    Issued config { desk with
      emitters := desk.emitters.set strategyId
        (SignalEmitter.setNextSeq { strategyId := strategyId }
          (desk.life.process.memory.cache.seqHighWater strategyId + 1)) } where
  steady := issued.steady
  written := issued.written
  opened signal member := by
    rw [Dict.get_set]
    split
    · rfl
    · exact issued.opened signal member
  keyed other emitter there := by
    rw [Dict.get_set] at there
    split at there
    · rename_i same
      cases there
      exact same
    · exact issued.keyed other emitter there
  above other emitter there signal member owned := by
    rw [Dict.get_set] at there
    split at there
    · rename_i same
      cases there
      -- No emitter was open, so the strategy's ids are all of published signals.
      have published : signal ∈ desk.published := by
        rcases List.mem_append.mp member with built | later
        · have still := issued.opened signal (List.mem_append_left _ built)
          rw [owned, ← same, unopened] at still
          cases still
        · rcases List.mem_append.mp later with built | published
          · have still := issued.opened signal (List.mem_append_right _ built)
            rw [owned, ← same, unopened] at still
            cases still
          · exact published
      have durable := (issued.published_le published).trans
        (issued.steady.record_le signal.strategyId)
      rw [owned, ← same] at durable
      exact Nat.lt_succ_of_le durable
    · exact issued.above other emitter there signal member owned
  distinct := issued.distinct

/-- A verb takes an id none has. -/
theorem allocate (issued : Issued config desk) {strategyId : StrategyId} {verb : EmitterVerb}
    {emitter moved : SignalEmitter} {signal : Signal}
    (there : desk.emitters.get strategyId = some emitter)
    (emitted : emitter.emit verb = .ok (signal, moved)) :
    Issued config { desk with
      emitters := desk.emitters.set strategyId moved
      allocated := signal :: desk.allocated } := by
  obtain ⟨named, taken, rfl⟩ := SignalEmitter.emit_takes emitted
  have owner : emitter.strategyId = strategyId := issued.keyed strategyId emitter there
  have owned : signal.strategyId = strategyId := named.trans owner
  constructor
  · exact issued.steady
  · exact issued.written
  · intro other member
    rw [Dict.get_set]
    split
    · rfl
    · rename_i different
      rcases List.mem_cons.mp member with rfl | member
      · exact absurd owned.symm different
      · exact issued.opened other member
  · intro other opened found
    rw [Dict.get_set] at found
    split at found
    · rename_i same
      cases found
      exact owner.trans same
    · exact issued.keyed other opened found
  · intro other opened found taker member of
    rw [Dict.get_set] at found
    split at found
    · rename_i same
      cases found
      rcases List.mem_cons.mp member with rfl | member
      · simp only [taken]
        omega
      · have below := issued.above strategyId emitter there taker member (of.trans same.symm)
        simp only
        omega
    · rename_i different
      rcases List.mem_cons.mp member with rfl | member
      · exact absurd (owned.symm.trans of) different
      · exact issued.above other opened found taker member of
  · show ((signal :: desk.signals).map Signal.signalId).Nodup
    rw [List.map_cons, List.nodup_cons]
    refine ⟨fun used => ?_, issued.distinct⟩
    obtain ⟨earlier, member, same⟩ := List.mem_map.mp used
    have sameOwner : earlier.strategyId = signal.strategyId :=
      congrArg SignalId.strategyId same
    have sameSeq : earlier.seq = signal.seq := congrArg SignalId.seq same
    have below := issued.above strategyId emitter there earlier member (sameOwner.trans owned)
    omega

/-- The signals change places, and no id changes. -/
theorem rearrange {moved : Desk} (issued : Issued config desk)
    (perm : moved.signals.Perm desk.signals) (emitters : moved.emitters = desk.emitters)
    (steady : Steady config moved.life)
    (written : ∀ signal ∈ moved.recorded ++ moved.published,
      signal.seq ≤ recordOf moved.life.process.store signal.strategyId)
    (fewer : ∀ signal ∈ moved.allocated ++ moved.recorded,
      signal ∈ desk.allocated ++ desk.recorded) : Issued config moved where
  steady := steady
  written := written
  opened signal member := by
    rw [emitters]
    exact issued.opened signal (fewer signal member)
  keyed strategyId emitter there := issued.keyed strategyId emitter (emitters ▸ there)
  above strategyId emitter there signal member :=
    issued.above strategyId emitter (emitters ▸ there) signal (perm.mem_iff.mp member)
  distinct := (perm.map Signal.signalId).nodup_iff.mpr issued.distinct

/-- The record is durable before the signal leaves. -/
theorem record (issued : Issued config desk) {signal : Signal} {nowNs : Nanos} {life : Life}
    (member : signal ∈ desk.allocated)
    (stepped : (engine deriveCloid config).step desk.life
      (.handle (.emit signal.strategyId signal.seq) nowNs) = some life) :
    Issued config { desk with
      life := life
      allocated := desk.allocated.erase signal
      recorded := signal :: desk.recorded } := by
  have mono := store_records_mono stepped
  have raised : signal.seq ≤ recordOf life.process.store signal.strategyId := by
    simp only [engine] at stepped
    split at stepped
    · cases stepped
      have written : recordOf (desk.life.process.store.raiseSeq signal.strategyId signal.seq)
          signal.strategyId = max (recordOf desk.life.process.store signal.strategyId)
            signal.seq := by
        simp only [recordOf, Store.raiseSeq_get, if_true]
      exact (le_max_right _ _).trans written.symm.le
    · cases stepped
  refine issued.rearrange ?_ rfl (step_steady issued.steady stepped) ?_ ?_
  · have front : (desk.allocated.erase signal ++ signal :: (desk.recorded ++ desk.published)).Perm
        (signal :: (desk.allocated.erase signal ++ (desk.recorded ++ desk.published))) :=
      List.perm_middle
    exact front.trans (((List.perm_cons_erase member).append_right _).symm)
  · intro other there
    rcases List.mem_cons.mp there with rfl | there
    · exact raised
    · exact (issued.written other there).trans (mono _)
  · intro other there
    rcases List.mem_append.mp there with kept | there
    · exact List.mem_append_left _ (List.mem_of_mem_erase kept)
    · rcases List.mem_cons.mp there with rfl | there
      · exact List.mem_append_left _ member
      · exact List.mem_append_right _ there

theorem publish (issued : Issued config desk) {signal : Signal}
    (member : signal ∈ desk.recorded) :
    Issued config { desk with
      recorded := desk.recorded.erase signal
      published := signal :: desk.published } := by
  refine issued.rearrange ?_ rfl issued.steady ?_ ?_
  · have front : (desk.recorded.erase signal ++ signal :: desk.published).Perm
        (signal :: (desk.recorded.erase signal ++ desk.published)) := List.perm_middle
    exact (front.trans ((List.perm_cons_erase member).append_right _).symm).append_left _
  · intro other there
    rcases List.mem_append.mp there with kept | there
    · exact issued.written other (List.mem_append_left _ (List.mem_of_mem_erase kept))
    · rcases List.mem_cons.mp there with rfl | there
      · exact issued.written other (List.mem_append_left _ member)
      · exact issued.written other (List.mem_append_right _ there)
  · intro other there
    rcases List.mem_append.mp there with kept | there
    · exact List.mem_append_left _ kept
    · exact List.mem_append_right _ (List.mem_of_mem_erase there)

end Issued

/-- **Every step of the desk keeps every taken id in its place.** -/
theorem step_issued {desk next : Desk} {label : DeskLabel} (issued : Issued config desk)
    (stepped : (deskMachine deriveCloid config).step desk label = some next) :
    Issued config next := by
  cases label with
  | engine label =>
      obtain ⟨life, moved, rfl⟩ := Option.map_eq_some_iff.mp stepped
      have steady := step_steady issued.steady moved
      have mono := store_records_mono moved
      simp only [Desk.moved]
      split
      · exact issued.dies steady mono
      · exact issued.lives steady mono
  | resume strategyId =>
      simp only [deskMachine] at stepped
      split at stepped
      · rename_i unopened
        cases stepped
        exact issued.resume unopened
      · cases stepped
  | allocate strategyId verb =>
      simp only [deskMachine] at stepped
      split at stepped
      · cases stepped
      · rename_i emitter there
        split at stepped
        · cases stepped
        · rename_i signal moved emitted
          cases stepped
          exact issued.allocate there emitted
  | record signal nowNs =>
      simp only [deskMachine] at stepped
      split at stepped
      · rename_i member
        obtain ⟨life, moved, rfl⟩ := Option.map_eq_some_iff.mp stepped
        exact issued.record member moved
      · cases stepped
  | publish signal =>
      simp only [deskMachine] at stepped
      split at stepped
      · rename_i member
        cases stepped
        exact issued.publish member
      · cases stepped

/-- A life that has just begun, with no emitter resumed and nothing published. -/
theorem Steady.issued {life : Life} (steady : Steady config life) :
    Issued config { life := life } where
  steady := steady
  written _ member := by cases member
  opened _ member := by cases member
  keyed _ _ there := by cases there
  above _ _ there := by cases there
  distinct := List.nodup_nil

/-- A first life over an untraded store, or one over sound rows, begins with no
id taken. -/
theorem restart_issued {process : Process} {startNs : Nanos} {first : Life}
    (start : Untraded config process.store ∨ Sound config process.store)
    (begun : restart config process startNs = some first) :
    Issued config { life := first } := by
  rcases start with untraded | sound
  · exact (untraded_steady untraded begun).1.issued
  · exact (restart_steady sound begun).1.issued

/-- Every run keeps every taken id in its place. -/
theorem issued_of_run {desk last : Desk} {labels : List DeskLabel} (issued : Issued config desk)
    (ran : (deskMachine deriveCloid config).run desk labels = some last) : Issued config last :=
  Machine.run_induct (Issued config) (fun kept stepped => step_issued kept stepped) issued ran

/-- A counter resumed now starts above everything published so far. -/
theorem Issued.resumed_above {desk next : Desk} {strategyId : StrategyId}
    (issued : Issued config desk)
    (resumed : (deskMachine deriveCloid config).step desk (.resume strategyId) = some next) :
    ∃ emitter, next.emitters.get strategyId = some emitter ∧
      ∀ signal ∈ desk.published, signal.strategyId = strategyId →
        signal.seq < emitter.nextSeq := by
  have after := step_issued issued resumed
  simp only [deskMachine] at resumed
  split at resumed
  · cases resumed
    refine ⟨_, Dict.get_set_self _ _ _, fun signal member owned => ?_⟩
    exact after.above strategyId _ (Dict.get_set_self _ _ _) signal
      (Issued.published_mem member) owned
  · cases resumed

/-- The next process, whenever it starts, reads a high water no lower than
anything published. -/
theorem Issued.recovered_le {desk : Desk} {restartNs : Nanos} {next : Life}
    (issued : Issued config desk)
    (restarted : restart config desk.life.process restartNs = some next) :
    ∀ signal ∈ desk.published,
      signal.seq ≤ next.process.memory.cache.seqHighWater signal.strategyId := by
  intro signal member
  have recovered := (restart_steady issued.steady.synced.sound restarted).1
  calc signal.seq
      ≤ recordOf desk.life.process.store signal.strategyId := issued.published_le member
    _ ≤ recordOf next.process.store signal.strategyId :=
        restart_records_mono restarted signal.strategyId
    _ ≤ next.process.memory.cache.seqHighWater signal.strategyId :=
        recovered.record_le signal.strategyId

/-- **No two published signals share an id**, over any number of lives and with a
crash between any two steps.  An open counter is above every seq published for
its strategy, a counter resumed now starts above them, and so does the high water
of the process that lives and of any that recovers from it. -/
theorem run_issued {process : Process} {startNs : Nanos} {first : Life} {last : Desk}
    {labels : List DeskLabel}
    (start : Untraded config process.store ∨ Sound config process.store)
    (begun : restart config process startNs = some first)
    (ran : (deskMachine deriveCloid config).run { life := first } labels = some last) :
    (last.published.map Signal.signalId).Nodup ∧
    (∀ strategyId emitter, last.emitters.get strategyId = some emitter →
      ∀ signal ∈ last.published, signal.strategyId = strategyId →
        signal.seq < emitter.nextSeq) ∧
    (∀ strategyId next,
      (deskMachine deriveCloid config).step last (.resume strategyId) = some next →
        ∃ emitter, next.emitters.get strategyId = some emitter ∧
          ∀ signal ∈ last.published, signal.strategyId = strategyId →
            signal.seq < emitter.nextSeq) ∧
    (∀ signal ∈ last.published,
      signal.seq ≤ last.life.process.memory.cache.seqHighWater signal.strategyId) ∧
    (∀ restartNs next, restart config last.life.process restartNs = some next →
      ∀ signal ∈ last.published,
        signal.seq ≤ next.process.memory.cache.seqHighWater signal.strategyId) := by
  have issued := issued_of_run (restart_issued start begun) ran
  refine ⟨issued.published_nodup, ?_, ?_, ?_, ?_⟩
  · intro strategyId emitter there signal member owned
    exact issued.above strategyId emitter there signal (Issued.published_mem member) owned
  · exact fun strategyId next resumed => issued.resumed_above resumed
  · exact fun signal member => (issued.published_le member).trans (issued.steady.record_le _)
  · exact fun restartNs next restarted => issued.recovered_le restarted

namespace Sample

/-- One placement sent and handled, a cancel recorded and lost in a crash, and a
cancel-all in the next life. -/
def deskLabels : List DeskLabel :=
  [.resume momentum,
    .allocate momentum (.place "BTC" .buy 10 .limit .gtc (some 2) false false),
    .record (.place buy) 1, .publish (.place buy),
    .engine (.handle (.place {} buy approval) 2), .engine (.sent 3),
    .allocate momentum (.cancel "BTC" buy.signalId),
    .record (.cancel ⟨momentum, "BTC", 2, buy.signalId⟩) 4,
    .engine (.crash 5), .resume momentum, .allocate momentum (.cancelAll "BTC"),
    .record (.cancelAll ⟨momentum, "BTC", 3⟩) 6, .publish (.cancelAll ⟨momentum, "BTC", 3⟩)]

/-- The second life numbers its first signal past the one that was lost. -/
theorem desk_ids_once :
    ∃ first last, restart paper unstarted 0 = some first ∧
      (deskMachine cloidOf paper).run { life := first } deskLabels = some last ∧
      last.published.map Signal.seq = [3, 1] ∧
      (last.published.map Signal.signalId).Nodup := by
  have lived : ((restart paper unstarted 0).bind fun first =>
      ((deskMachine cloidOf paper).run { life := first } deskLabels).map fun last =>
        last.published.map Signal.seq) = some [3, 1] := by
    decide +kernel
  obtain ⟨first, begun, lived⟩ := Option.bind_eq_some_iff.mp lived
  obtain ⟨last, ran, seqs⟩ := Option.map_eq_some_iff.mp lived
  exact ⟨first, last, begun, ran, seqs,
    (run_issued (Or.inl unstarted_untraded) begun ran).1⟩

end Sample

end Tickwright.Engine
