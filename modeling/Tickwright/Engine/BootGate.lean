/-
# Engine.BootGate -- nothing before the barrier

The startup barrier as the acts of the runs show it.  `Gated` reads them newest first:
every order sent, and every start of the strategies, the feed or the operator's job, has
behind it, in its own life, a startup pass that cleared right behind the account proof.

Between the two proofs nothing is logged, since a signal heard there is denied by the
saga's own gate; that is the invariant's delicate clause (`Barred.midway`).

* `nothing_before_barrier`: so it is in every run, over any number of lives, and an exit
  run places no order but the operator's own flatten orders.
-/
import Tickwright.Engine.Runner

namespace Tickwright.Engine

open Tickwright.Domain Tickwright.Theory Tickwright.Store

set_option autoImplicit false

namespace Runner

variable {config : RunnerConfig} {host after : Runner}

/-- Both proofs cleared, one behind the other, in this life. -/
def Cleared (acts : List Act) : Prop :=
  ∃ newer older, acts = newer ++ .proved .sagas :: .proved .account :: older ∧ .boots ∉ newer

/-- The input is the operator's own flatten order. -/
def Flattens : Input → Prop
  | .place _ signal _ => signal.strategyId = operator ∧ signal.isFlatten = true
  | _ => False

/-- What must have happened before an act. -/
def Allowed (exitRun : Bool) (older : List Act) : Act → Prop
  | .sends input _ => Cleared older ∧ (exitRun = true → Flattens input)
  | .calls .hostStart | .calls .feedStart => Cleared older ∧ exitRun = false
  | .calls .job => Cleared older ∧ exitRun = true
  | _ => True

/-- Every act had what it needs behind it. -/
def Gated (exitRun : Bool) : List Act → Prop
  | [] => True
  | act :: older => Allowed exitRun older act ∧ Gated exitRun older

/-- The orders sent, oldest first. -/
def sent (acts : List Act) : List PlaceOrder :=
  acts.reverse.filterMap fun
    | .sends _ request => some request
    | _ => none

/-- An act that needs nothing behind it, of the same life. -/
def Act.plain : Act → Bool
  | .boots | .sends .. | .calls .hostStart | .calls .feedStart | .calls .job => false
  | _ => true

theorem Cleared.behind {acts newer : List Act} (cleared : Cleared acts) (alive : .boots ∉ newer) :
    Cleared (newer ++ acts) := by
  obtain ⟨since, older, rfl, same⟩ := cleared
  refine ⟨newer ++ since, older, by rw [List.append_assoc], fun member => ?_⟩
  rcases List.mem_append.mp member with new | old
  · exact alive new
  · exact same old

theorem Cleared.cons {acts : List Act} {act : Act} (cleared : Cleared acts) (alive : act ≠ .boots) :
    Cleared (act :: acts) :=
  cleared.behind fun (member : Act.boots ∈ [act]) => alive (List.mem_singleton.mp member).symm

theorem gated_cons_plain {exitRun : Bool} {acts : List Act} {act : Act} (gated : Gated exitRun acts)
    (plain : act.plain = true) : Gated exitRun (act :: acts) := by
  refine ⟨?_, gated⟩
  cases act with
  | calls call => cases call <;> trivial
  | sends input request => cases plain
  | boots | proved _ | froze _ | waits _ | faulted _ | ends _ => trivial

theorem ne_boots_of_plain {act : Act} (plain : act.plain = true) : act ≠ .boots := by
  rintro rfl
  cases plain

/-- Whether the barrier is still ahead. -/
def Phase.before : Phase → Bool
  | .locking | .admitting | .recovering | .busStarting | .exchangeStarting | .proving ..
  | .backingOff .. => true
  | _ => false

/-- Whether the barrier is behind, and the shutdown ahead. -/
def Phase.behind : Phase → Bool
  | .hosting | .feeding | .running => true
  | _ => false

theorem Phase.behind_of_before {phase : Phase} (before : phase.before = true) :
    phase.behind = false := by
  cases phase <;> first | rfl | cases before

theorem Phase.before_of_late {phase : Phase} (late : phase.late = true) :
    phase.before = false := by
  cases phase <;> first | rfl | cases late

theorem Phase.behind_of_late {phase : Phase} (late : phase.late = true) :
    phase.behind = false := by
  cases phase <;> first | rfl | cases late

/-- **The gates stand as the acts say.** -/
structure Barred (config : RunnerConfig) (host : Runner) : Prop where
  gated : Gated config.exitRun host.acts
  cleared : host.barrierCleared = true → Cleared host.acts
  before : host.phase.before = true → host.barrierCleared = false
  behind : host.phase.behind = true → host.barrierCleared = true
  /-- Between the two proofs nothing happens. -/
  midway : ∀ pace, host.phase = .proving pace .sagas →
    ∃ older, host.acts = .proved .account :: older
  trades : host.phase = .hosting ∨ host.phase = .feeding → config.exitRun = false

theorem plain_of_shuts {act : Act} (shuts : act.shuts = true) : act.plain = true := by
  cases act with
  | calls call => cases call <;> first | rfl | cases shuts
  | boots | proved _ | froze _ | waits _ | sends _ _ | faulted _ | ends _ =>
      first | rfl | cases shuts

theorem barred_shuts (gated : Gated config.exitRun host.acts)
    (cleared : host.barrierCleared = true → Cleared host.acts) (shuts : Shuts host after) :
    Barred config after := by
  obtain ⟨new, acts, kind⟩ := shuts.acts
  have late := shuts.late
  refine ⟨?_, fun flag => ?_, fun ahead => ?_, fun past => ?_, fun pace at_ => ?_, fun at_ => ?_⟩
  · rw [acts]
    clear acts
    induction new with
    | nil => exact gated
    | cons act rest ih =>
        exact gated_cons_plain (ih fun other member => kind other (List.mem_cons_of_mem _ member))
          (plain_of_shuts (kind act List.mem_cons_self))
  · rw [acts]
    exact (cleared (shuts.barrierCleared ▸ flag)).behind fun member => by cases kind _ member
  · rw [Phase.before_of_late late] at ahead
    cases ahead
  · rw [Phase.behind_of_late late] at past
    cases past
  · rw [at_] at late
    cases late
  · rcases at_ with at_ | at_ <;> rw [at_] at late <;> cases late

/-- A plain act into a phase that needs nothing of it. -/
theorem Barred.notes (barred : Barred config host) {phase : Phase} {act : Act} {life : Life}
    (plain : act.plain = true) (ahead : host.phase.before = true) (before : phase.before = true)
    (elsewhere : ∀ pace, phase ≠ .proving pace .sagas) :
    Barred config { host with phase := phase, life := life, acts := act :: host.acts } where
  gated := gated_cons_plain barred.gated plain
  cleared flag := (barred.cleared flag).cons (ne_boots_of_plain plain)
  before _ := barred.before ahead
  behind past := by
    rw [Phase.behind_of_before before] at past
    cases past
  midway pace at_ := absurd at_ (elsewhere pace)
  trades at_ := by
    rcases at_ with at_ | at_ <;> cases at_ <;> cases before

/-- A script only adds to what was sent. -/
theorem play_placed (process : Process) (effects : List Effect) :
    ∃ more, (process.play effects).placed = process.placed ++ more := by
  induction effects generalizing process with
  | nil => exact ⟨[], (List.append_nil _).symm⟩
  | cons effect rest ih =>
      obtain ⟨more, played⟩ := ih (perform process effect)
      cases effect with
      | place request =>
          refine ⟨request :: more, played.trans ?_⟩
          show (process.placed ++ [request]) ++ more = _
          rw [List.append_assoc, List.singleton_append]
      | memory _ | write _ | announce _ | cancel _ => exact ⟨more, played⟩

/-- **What a handler sends, the gates let through.** -/
theorem plays_allowed {input : Input} {steps : ℕ} (taken : host.takes config input = true) :
    (host.life.process.play ((scriptOf config.deriveCloid config.ledger host.life.process
        host.nowNs input).effects.take steps)).placed = host.life.process.placed ∨
      host.barrierCleared = true ∧ (config.exitRun = true → Flattens input) := by
  cases input with
  | place gates signal verdict =>
      simp only [takes, Bool.and_eq_true, beq_iff_eq] at taken
      obtain ⟨_, barrier, exits⟩ := taken
      have closed (denied : ∃ reason, gatedDecision gates signal verdict = .denied reason) :
          (host.life.process.play ((scriptOf config.deriveCloid config.ledger host.life.process
            host.nowNs (.place gates signal verdict)).effects.take steps)).placed =
              host.life.process.placed :=
        ((silent_gated host.life.process host.nowNs denied).take steps).placed _
      cases open_ : host.barrierCleared with
      | false =>
          refine Or.inl (closed ⟨"the startup barrier has not cleared", ?_⟩)
          unfold gatedDecision
          rw [barrier, open_]
          rfl
      | true =>
          by_cases flattens : signal.strategyId = operator ∧ signal.isFlatten = true
          · exact Or.inr ⟨rfl, fun _ => flattens⟩
          · cases exit : config.exitRun with
            | false => exact Or.inr ⟨rfl, fun absurd_ => by cases absurd_⟩
            | true =>
                refine Or.inl (closed ?_)
                unfold gatedDecision
                rw [barrier, open_, exits, exit]
                by_cases own : signal.strategyId = operator
                · have plain : signal.isFlatten = false :=
                    Bool.eq_false_iff.mpr fun flatten => flattens ⟨own, flatten⟩
                  exact ⟨_, by simp [own, plain]; rfl⟩
                · exact ⟨_, by simp [own]; rfl⟩
  | cancel _ | cancelAll _ | report _ | funding _ | emit _ _ | operatorCancel _ | heal _ _ _
  | leftover _ =>
      exact Or.inl (((silent_others host.life.process host.nowNs rfl).take steps).placed _)

/-- The acts of a handler's sends, behind what was there. -/
theorem gated_sends {exitRun : Bool} {acts : List Act} {input : Input} (gated : Gated exitRun acts)
    (cleared : Cleared acts) (flattens : exitRun = true → Flattens input)
    (requests : List PlaceOrder) :
    Gated exitRun ((requests.map (Act.sends input)).reverse ++ acts) ∧
      Cleared ((requests.map (Act.sends input)).reverse ++ acts) := by
  induction requests using List.reverseRecOn with
  | nil => exact ⟨gated, cleared⟩
  | append_singleton earlier request ih =>
      rw [List.map_append, List.reverse_append]
      exact ⟨⟨⟨ih.2, flattens⟩, ih.1⟩, ih.2.cons (by rintro ⟨⟩)⟩

theorem Barred.plays (barred : Barred config host) {input : Input} {life : Life} {steps : ℕ}
    (taken : host.takes config input = true)
    (part : life.process = host.life.process.play
      ((scriptOf config.deriveCloid config.ledger host.life.process host.nowNs
        input).effects.take steps)) : Barred config (host.plays input life) := by
  rcases (plays_allowed taken : (host.life.process.play (List.take steps _)).placed = _ ∨ _) with
    silent | ⟨open_, flattens⟩
  · have same : (host.plays input life).acts = host.acts := by
      simp only [Runner.plays, part, silent, List.drop_length, List.map_nil, List.reverse_nil,
        List.nil_append]
    exact ⟨same ▸ barred.gated, fun flag => same ▸ barred.cleared flag, barred.before,
      barred.behind, fun pace at_ => same ▸ barred.midway pace at_, barred.trades⟩
  · obtain ⟨gated, cleared⟩ := gated_sends barred.gated (barred.cleared open_) flattens
      (life.process.placed.drop host.life.process.placed.length)
    refine ⟨gated, fun _ => cleared, barred.before, barred.behind, fun pace at_ => ?_,
      barred.trades⟩
    -- no proof is under way behind the barrier
    have ahead : host.phase = .proving pace .sagas := at_
    have shut := barred.before (by rw [ahead]; rfl)
    rw [open_] at shut
    cases shut

theorem barred_boot (life : Life) (nowNs : Nanos) {acts : List Act}
    (gated : Gated config.exitRun acts) : Barred config (boot life nowNs acts) where
  gated := gated_cons_plain ⟨trivial, gated⟩ rfl
  cleared flag := by cases flag
  before _ := rfl
  behind past := by cases past
  midway pace at_ := by cases at_
  trades at_ := by rcases at_ with at_ | at_ <;> cases at_

/-- **Every step keeps the gates.** -/
theorem Turn.barred (turn : Turn config host after) (barred : Barred config host) :
    Barred config after := by
  cases turn with
  | idles later still unsent =>
      exact ⟨barred.gated, barred.cleared, barred.before, barred.behind, barred.midway,
        barred.trades⟩
  | jobEnds runs =>
      exact ⟨barred.gated, barred.cleared, barred.before, barred.behind, barred.midway,
        barred.trades⟩
  | plays taken part => exact barred.plays taken part
  | asks at_ exits => exact barred.notes rfl (by rw [at_]; rfl) rfl (by rintro _ ⟨⟩)
  | recovers at_ =>
      exact barred.notes rfl (by rcases at_ with at_ | at_ <;> rw [at_] <;> rfl) rfl
        (by rintro _ ⟨⟩)
  | recovered at_ unsent => exact barred.notes rfl (by rw [at_]; rfl) rfl (by rintro _ ⟨⟩)
  | busStarted at_ => exact barred.notes rfl (by rw [at_]; rfl) rfl (by rintro _ ⟨⟩)
  | exchangeStarted at_ =>
      exact ⟨barred.gated, barred.cleared, fun _ => barred.before (by rw [at_]; rfl),
        fun past => (by cases past), fun pace at_ => (by cases at_),
        fun at_ => by rcases at_ with at_ | at_ <;> cases at_⟩
  | wakes at_ due =>
      exact ⟨barred.gated, barred.cleared, fun _ => barred.before (by rw [at_]; rfl),
        fun past => (by cases past), fun pace at_ => (by cases at_),
        fun at_ => by rcases at_ with at_ | at_ <;> cases at_⟩
  | account at_ unsent =>
      exact ⟨gated_cons_plain barred.gated rfl,
        fun flag => (barred.cleared flag).cons (by rintro ⟨⟩),
        fun _ => barred.before (by rw [at_]; rfl), fun past => (by cases past),
        fun pace at_ => ⟨_, rfl⟩, fun at_ => by rcases at_ with at_ | at_ <;> cases at_⟩
  | clears at_ exits =>
      obtain ⟨older, acts⟩ := barred.midway _ at_
      refine ⟨gated_cons_plain barred.gated rfl, fun _ => ⟨[], older, ?_, by rintro ⟨⟩⟩,
        fun ahead => (by cases ahead), fun _ => rfl, fun pace at_ => (by cases at_),
        fun at_ => by rcases at_ with at_ | at_ <;> cases at_⟩
      exact congrArg (List.cons (Act.proved .sagas)) acts
  | hosts at_ trades =>
      obtain ⟨older, acts⟩ := barred.midway _ at_
      have cleared : Cleared (Act.proved .sagas :: host.acts) :=
        ⟨[], older, congrArg (List.cons (Act.proved .sagas)) acts, by rintro ⟨⟩⟩
      exact ⟨⟨⟨cleared, trades⟩, gated_cons_plain barred.gated rfl⟩,
        fun _ => cleared.cons (by rintro ⟨⟩), fun ahead => (by cases ahead), fun _ => rfl,
        fun pace at_ => (by cases at_), fun _ => trades⟩
  | waits at_ window =>
      exact ⟨gated_cons_plain (gated_cons_plain barred.gated rfl) rfl,
        fun flag => ((barred.cleared flag).cons (by rintro ⟨⟩)).cons (by rintro ⟨⟩),
        fun _ => barred.before (by rw [at_]; rfl), fun past => (by cases past),
        fun pace at_ => (by cases at_), fun at_ => by rcases at_ with at_ | at_ <;> cases at_⟩
  | @gaveUp pace proof at_ spent =>
      have gated : Gated config.exitRun (.froze proof :: host.acts) :=
        gated_cons_plain barred.gated rfl
      have cleared (flag : host.barrierCleared = true) : Cleared (.froze proof :: host.acts) :=
        (barred.cleared flag).cons (by rintro ⟨⟩)
      exact barred_shuts gated cleared (shuts_faults false)
  | hosted at_ =>
      have trades := barred.trades (Or.inl at_)
      have open_ := barred.behind (by rw [at_]; rfl)
      have cleared := barred.cleared open_
      exact ⟨⟨⟨cleared, trades⟩, barred.gated⟩, fun _ => cleared.cons (by rintro ⟨⟩),
        fun ahead => (by cases ahead), fun _ => open_, fun pace at_ => (by cases at_),
        fun _ => trades⟩
  | fed at_ =>
      exact ⟨barred.gated, barred.cleared, fun ahead => (by cases ahead),
        fun _ => barred.behind (by rw [at_]; rfl), fun pace at_ => (by cases at_),
        fun at_ => by rcases at_ with at_ | at_ <;> cases at_⟩
  | job at_ exits =>
      have open_ := barred.behind (by rw [at_]; rfl)
      have cleared := barred.cleared open_
      exact ⟨⟨⟨cleared, exits⟩, barred.gated⟩, fun _ => cleared.cons (by rintro ⟨⟩),
        fun ahead => (by cases ahead), fun _ => open_, fun pace at_ => (by cases at_),
        fun at_ => by rcases at_ with at_ | at_ <;> cases at_⟩
  | closes at_ failed => exact barred_shuts barred.gated barred.cleared (shuts_closes _)
  | faults at_ => exact barred_shuts barred.gated barred.cleared (shuts_faults _)
  | stops at_ => exact barred_shuts barred.gated barred.cleared (shuts_stops _)
  | stopsNext at_ => exact barred_shuts barred.gated barred.cleared (shuts_stops _)
  | salvagesNext at_ => exact barred_shuts barred.gated barred.cleared (shuts_salvages _ _)
  | closed at_ => exact barred_shuts barred.gated barred.cleared (shuts_ends _)

theorem sent_append (newer older : List Act) :
    sent (newer ++ older) = sent older ++ sent newer := by
  unfold sent
  rw [List.reverse_append, List.filterMap_append]

theorem sent_sends (input : Input) (requests : List PlaceOrder) :
    sent (requests.map (Act.sends input)).reverse = requests := by
  unfold sent
  rw [List.reverse_reverse]
  induction requests with
  | nil => rfl
  | cons request rest ih => rw [List.map_cons, List.filterMap_cons, ih]

theorem sent_plain {new : List Act} (plain : ∀ act ∈ new, act.plain = true) : sent new = [] := by
  unfold sent
  refine List.filterMap_eq_nil_iff.mpr fun act member => ?_
  have quiet := plain act (List.mem_reverse.mp member)
  cases act with
  | sends input request => cases quiet
  | boots | calls _ | proved _ | froze _ | waits _ | faulted _ | ends _ => rfl

/-- **The acts list what was sent.** -/
def Listed (base : List PlaceOrder) (host : Runner) : Prop :=
  host.life.process.placed = base ++ sent host.acts

theorem Listed.unsent {base : List PlaceOrder} (listed : Listed base host) (new : List Act)
    (acts : after.acts = new ++ host.acts) (quiet : sent new = [])
    (placed : after.life.process.placed = host.life.process.placed) : Listed base after := by
  unfold Listed at listed ⊢
  rw [placed, listed, acts, sent_append, quiet, List.append_nil]

theorem Listed.shuts {base : List PlaceOrder} (listed : Listed base host)
    (shuts : Shuts host after) : Listed base after := by
  obtain ⟨new, acts, kind⟩ := shuts.acts
  exact listed.unsent new acts (sent_plain fun act member => plain_of_shuts (kind act member))
    shuts.placed

theorem Listed.plays {base : List PlaceOrder} (listed : Listed base host) {input : Input}
    {life : Life} (grown : ∃ more, life.process.placed = host.life.process.placed ++ more) :
    Listed base (host.plays input life) := by
  obtain ⟨more, placed⟩ := grown
  have kept : host.life.process.placed = base ++ sent host.acts := listed
  show life.process.placed = base ++ sent (_ ++ host.acts)
  rw [sent_append, placed, List.drop_left, sent_sends, kept, List.append_assoc]

theorem Turn.listed {base : List PlaceOrder} (turn : Turn config host after)
    (listed : Listed base host) : Listed base after := by
  cases turn with
  | idles later still unsent => exact listed.unsent [] rfl rfl unsent
  | jobEnds runs => exact listed.unsent [] rfl rfl rfl
  | plays taken part => exact listed.plays (part ▸ play_placed _ _)
  | asks at_ exits => exact listed.unsent [_] rfl rfl rfl
  | recovers at_ => exact listed.unsent [_] rfl rfl rfl
  | recovered at_ unsent => exact listed.unsent [_] rfl rfl unsent
  | busStarted at_ => exact listed.unsent [_] rfl rfl rfl
  | exchangeStarted at_ => exact listed.unsent [] rfl rfl rfl
  | wakes at_ due => exact listed.unsent [] rfl rfl rfl
  | account at_ unsent => exact listed.unsent [_] rfl rfl unsent
  | clears at_ exits => exact listed.unsent [_] rfl rfl rfl
  | hosts at_ trades => exact listed.unsent [_, _] rfl rfl rfl
  | waits at_ window => exact listed.unsent [_, _] rfl rfl rfl
  | @gaveUp pace proof at_ spent =>
      have froze : Listed base { host with acts := .froze proof :: host.acts } :=
        listed.unsent [.froze proof] rfl rfl rfl
      exact froze.shuts (shuts_faults false)
  | hosted at_ => exact listed.unsent [_] rfl rfl rfl
  | fed at_ => exact listed.unsent [] rfl rfl rfl
  | job at_ exits => exact listed.unsent [_] rfl rfl rfl
  | closes at_ failed => exact listed.shuts (shuts_closes _)
  | faults at_ => exact listed.shuts (shuts_faults _)
  | stops at_ => exact listed.shuts (shuts_stops _)
  | stopsNext at_ => exact listed.shuts (shuts_stops _)
  | salvagesNext at_ => exact listed.shuts (shuts_salvages _ _)
  | closed at_ => exact listed.shuts (shuts_ends _)

variable {life : Life} {startNs : Nanos} {moves : List Move} {last : Runner}

/-- **Nothing before the barrier.**  Whatever the venue, the bus and the operator do, and
however often the process dies, every order sent, and every start of the strategies, the
feed or the job, has both proofs of its own life behind it, and an exit run places no order
but the operator's own flatten orders. -/
theorem nothing_before_barrier
    (ran : (runner config).run (boot life startNs []) moves = some last) :
    Gated config.exitRun last.acts ∧
      last.life.process.placed = life.process.placed ++ sent last.acts := by
  have begun : Barred config (boot life startNs []) := barred_boot life startNs trivial
  have empty : Listed life.process.placed (boot life startNs []) := (List.append_nil _).symm
  constructor
  · exact (run_induct (fun turn barred => turn.barred barred)
      (fun barred => barred_boot _ _ barred.gated) begun ran).gated
  · exact run_induct (fun turn listed => turn.listed listed)
      (fun listed => listed.unsent [.calls .lock, .boots] rfl rfl rfl) empty ran

namespace Sample

open Tickwright.Engine.Sample

def traded : RunnerConfig where
  deriveCloid := cloidOf
  ledger := paper

/-- An order an earlier life left in the topic is heard before the venue is reached, and
the first startup pass freezes. -/
def slowBoot : List Move :=
  [.returns, .returns, .returns, .hears (.place ⟨false, false⟩ buy approval),
    .returns, .materialises none, .rebuilds false, .advances 1000000000, .wakes,
    .materialises none, .rebuilds true, .returns, .returns]

/-- An order of this life. -/
def trades : List Move :=
  [.hears (.place ⟨true, false⟩ { buy with seq := 2 } approval), .sent]

/-- Only the second order was sent. -/
theorem slowBoot_gated :
    ∃ last, (runner traded).run (boot { process := unstarted } 0 []) (slowBoot ++ trades) =
        some last ∧ Gated false last.acts ∧
      last.life.process.placed = unstarted.placed ++ sent last.acts ∧
      last.life.process.placed.length = 1 := by
  have lived : ((runner traded).run (boot { process := unstarted } 0 [])
      (slowBoot ++ trades)).map (fun last => last.life.process.placed.length) = some 1 := by
    decide +kernel
  obtain ⟨last, ran, one⟩ := Option.map_eq_some_iff.mp lived
  obtain ⟨gated, placed⟩ := nothing_before_barrier ran
  exact ⟨last, ran, gated, placed, one⟩

end Sample

end Runner

end Tickwright.Engine
