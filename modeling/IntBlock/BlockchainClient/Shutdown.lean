import IntBlock.BlockchainClient.Stream

/-!
# Shutting the stream down

The flag `streaming` reaches nobody: the worker never reads it.  What ends a
worker in its event loop is `stop()`, and only the destructor calls that, after
the join of `main`.  So `main` waits as long as the server keeps the connection.

## Main definitions

* `State.Blocked`, `State.JoinSafe` — a thread blocked in `stream_thread.join()`
  waits for a worker that has been released.
* `Action.ends` — the actions that end the worker or its connection.
* `Inv` — what the state reached has to do with the actions taken.

## Main results

* `inv_of_run` — **the invariant of all schedules.**
* `joinSafe_iff` — **a run has no wait for a worker nobody asked to stop exactly
  if the stream is over before `main` joins.**
* `joining_of_run` — such a wait lasts as long as the server keeps the connection.
-/

namespace IntBlock
namespace BlockchainClient

open Schedule

/-! ### What the threads wait for -/

/-- A thread is blocked in `stream_thread.join()`. -/
def State.Blocked (s : State) : Prop := s.main = .joining ∨ s.main = .dtorJoining

/-- The worker has returned, or its connection has ended. -/
def WorkerPC.gone : WorkerPC → Bool
  | .returned => true
  | .running .ended => true
  | _ => false

/-- `stop()` has been called on the client of the worker. -/
def State.stopped (s : State) : Bool := s.wsClient.any WSClient.stopped

/-- A blocked thread waits for a worker that has returned, whose connection has
ended or whose client has been stopped. -/
def State.JoinSafe (s : State) : Prop := s.Blocked → s.worker.gone ∨ s.stopped

/-- The actions that end the worker or its connection: a call of the worker
fails, or the server closes or fails the connection. -/
def Action.ends : Action → Bool
  | .worker .fails => true
  | .server .onClose => true
  | .server .onFail => true
  | _ => false

/-- Among the actions there is one that ends the worker or its connection. -/
def Ended (as : List Action) : Prop := ∃ a ∈ as, a.ends

theorem Ended.append {as : List Action} (h : Ended as) (as' : List Action) : Ended (as ++ as') := by
  obtain ⟨a, ha, hends⟩ := h
  exact ⟨a, List.mem_append_left _ ha, hends⟩

theorem ended_concat {as : List Action} {a : Action} :
    Ended (as ++ [a]) ↔ Ended as ∨ a.ends := by
  simp [Ended, or_and_right, exists_or]

/-- The main thread goes to `join` the worker after its ten seconds. -/
def JoinTaken (as : List Action) : Prop :=
  Takes step .init (fun s => s.main = .testJoinable) (.main .ok) as

/-! ### The invariant -/

/-- The stretches of the main thread. -/
inductive Phase
  | starting
  | sleeping
  | joining
  | leaving
  | stopping
  | joiningAgain
  | finished
  deriving DecidableEq, Repr

def MainPC.phase : MainPC → Phase
  | .queries | .resetCount | .testStreaming | .setStreaming | .makeThread => .starting
  | .sleeping | .clearStreaming | .testJoinable => .sleeping
  | .joining => .joining
  | .report | .catching | .dtorClearStreaming | .dtorTestClient => .leaving
  | .dtorTestJoinable => .stopping
  | .dtorJoining => .joiningAgain
  | .exited | .aborted => .finished

/-- What holds in each stretch of the main thread.  Before the destructor nobody
has called `stop()`, and a thread still joinable after the streaming block has
been joined in it, in vain. -/
def MainInv (as : List Action) (s : State) : Prop :=
  match s.main.phase with
  | .starting => s.worker = .absent ∧ s.joinable = false ∧ s.stopped = false
  | .sleeping => s.joinable = true ∧ s.stopped = false
  | .joining => s.stopped = false ∧ JoinTaken as
  | .leaving => s.stopped = false ∧ (s.joinable = true → JoinTaken as)
  | .stopping => s.joinable = true → JoinTaken as
  | .joiningAgain => JoinTaken as
  | .finished => True

/-- What the state has to do with the actions that led to it. -/
structure Inv (as : List Action) (s : State) : Prop where
  main : MainInv as s
  gone_of_ended : Ended as → s.worker.gone
  ended_of_gone : s.worker.gone → Ended as ∨ s.stopped

/-- A step within one stretch of the main thread, or of another party. -/
theorem MainInv.frame {as : List Action} {s s' : State} (hs : MainInv as s) (a : Action)
    (hphase : s'.main.phase = s.main.phase) (hworker : s.worker = .absent → s'.worker = .absent)
    (hjoinable : s'.joinable = s.joinable) (hstopped : s.stopped = false → s'.stopped = false) :
    MainInv (as ++ [a]) s' := by
  unfold MainInv at hs ⊢
  rw [hphase, hjoinable]
  cases hphase : s.main.phase with
  | starting =>
    rw [hphase] at hs
    exact ⟨hworker hs.1, hs.2.1, hstopped hs.2.2⟩
  | sleeping =>
    rw [hphase] at hs
    exact ⟨hs.1, hstopped hs.2⟩
  | joining =>
    rw [hphase] at hs
    exact ⟨hstopped hs.1, hs.2.append _⟩
  | leaving =>
    rw [hphase] at hs
    exact ⟨hstopped hs.1, fun h => (hs.2 h).append _⟩
  | stopping =>
    rw [hphase] at hs
    exact fun h => (hs h).append _
  | joiningAgain =>
    rw [hphase] at hs
    exact hs.append _
  | finished => trivial

/-- A thread that is not joinable need not have been joined. -/
theorem not_joinable {joinable : Bool} {p : Prop} (h : joinable = false) : joinable = true → p :=
  fun h' => absurd (h.symm.trans h') Bool.false_ne_true

/-- What a step of the main thread keeps: its invariant, and whether the worker
is gone or stopped. -/
structure Keeps (as : List Action) (s s' : State) : Prop where
  main : MainInv as s'
  gone : s'.worker.gone = s.worker.gone
  stopped : s.stopped → s'.stopped

theorem MainInv.step_ok {as : List Action} {s s' : State} (hs : MainInv as s)
    (hrun : run step .init as = some s) (h : mainStep s .ok = some s') :
    Keeps (as ++ [.main .ok]) s s' := by
  obtain ⟨main, worker, streaming, joinable, wsClient, count⟩ := s
  cases main with
  | queries | resetCount | setStreaming | sleeping | clearStreaming | report | catching
  | dtorClearStreaming =>
    obtain rfl := Option.some.inj h
    exact ⟨hs.frame _ rfl id rfl id, rfl, id⟩
  | testStreaming =>
    obtain rfl := Option.some.inj h
    refine ⟨?_, rfl, id⟩
    cases streaming with
    | true => exact ⟨hs.2.2, not_joinable hs.2.1⟩
    | false => exact hs.frame _ rfl id rfl id
  | makeThread =>
    -- there was no worker before
    obtain rfl : worker = .absent := hs.1
    obtain rfl := Option.some.inj h
    exact ⟨⟨rfl, hs.2.2⟩, rfl, id⟩
  | testJoinable =>
    obtain rfl := Option.some.inj h
    obtain rfl : joinable = true := hs.1
    exact ⟨⟨hs.2, .concat hrun rfl⟩, rfl, id⟩
  | joining =>
    by_cases hworker : worker = .returned
    · obtain rfl := Option.some.inj ((if_pos hworker).symm.trans h)
      exact ⟨⟨hs.1, not_joinable rfl⟩, rfl, id⟩
    · cases (if_neg hworker).symm.trans h
  | dtorTestClient =>
    cases wsClient with
    | none =>
      obtain rfl := Option.some.inj h
      exact ⟨fun hj => (hs.2 hj).append _, rfl, id⟩
    | some c =>
      by_cases hasio : c.asio
      · obtain rfl := Option.some.inj ((if_pos hasio).symm.trans h)
        exact ⟨fun hj => (hs.2 hj).append _, rfl, fun _ => rfl⟩
      · obtain rfl := Option.some.inj ((if_neg hasio).symm.trans h)
        exact ⟨trivial, rfl, id⟩
  | dtorTestJoinable =>
    obtain rfl := Option.some.inj h
    refine ⟨?_, rfl, id⟩
    cases joinable with
    | true => exact (hs rfl).append _
    | false => trivial
  | dtorJoining =>
    by_cases hworker : worker = .returned
    · obtain rfl := Option.some.inj ((if_pos hworker).symm.trans h)
      exact ⟨trivial, rfl, id⟩
    · cases (if_neg hworker).symm.trans h
  | exited | aborted => cases h

/-- The calls of the main thread that can fail. -/
theorem MainInv.step_fails {as : List Action} {s s' : State} (hs : MainInv as s)
    (h : mainStep s .fails = some s') : Keeps (as ++ [.main .fails]) s s' := by
  obtain ⟨main, worker, streaming, joinable, wsClient, count⟩ := s
  cases main with
  | queries | makeThread =>
    obtain rfl := Option.some.inj h
    exact ⟨⟨hs.2.2, not_joinable hs.2.1⟩, rfl, id⟩
  | joining =>
    obtain rfl := Option.some.inj h
    exact ⟨⟨hs.1, fun _ => hs.2.append _⟩, rfl, id⟩
  | dtorJoining =>
    obtain rfl := Option.some.inj h
    exact ⟨trivial, rfl, id⟩
  | _ => cases h

/-! ### Steps of the worker and the server -/

/-- A step of the worker fails, leaves the event loop, or takes the worker
towards it.  None of them stops the client. -/
theorem workerStep_cases {s s' : State} {o : Outcome} (h : workerStep s o = some s') :
    s.worker ≠ .absent ∧ s'.main = s.main ∧ s'.joinable = s.joinable ∧
    (s.stopped = false → s'.stopped = false) ∧
    (o = .fails ∧ s'.worker.gone ∨
      o = .ok ∧ s'.worker.gone ∧ (s.worker.gone ∨ s.stopped) ∧ s'.stopped = s.stopped ∨
      o = .ok ∧ s.worker.gone = false ∧ s'.worker.gone = false) := by
  obtain ⟨main, worker, streaming, joinable, wsClient, count⟩ := s
  cases o with
  | fails =>
    cases worker with
    | absent | returned => cases h
    | makeClient | initAsio | getConnection | connect | running =>
      obtain rfl := Option.some.inj h
      exact ⟨nofun, rfl, rfl, id, Or.inl ⟨rfl, rfl⟩⟩
  | ok =>
    cases worker with
    | absent | returned => cases h
    | makeClient =>
      obtain rfl := Option.some.inj h
      exact ⟨nofun, rfl, rfl, fun _ => rfl, Or.inr (Or.inr ⟨rfl, rfl, rfl⟩)⟩
    | initAsio =>
      obtain rfl := Option.some.inj h
      refine ⟨nofun, rfl, rfl, fun hstopped => ?_, Or.inr (Or.inr ⟨rfl, rfl, rfl⟩)⟩
      cases wsClient <;> exact hstopped
    | getConnection | connect =>
      obtain rfl := Option.some.inj h
      exact ⟨nofun, rfl, rfl, id, Or.inr (Or.inr ⟨rfl, rfl, rfl⟩)⟩
    | running con =>
      -- the event loop returns once it has nothing to wait for
      by_cases hend : con = .ended ∨ wsClient.any WSClient.stopped
      · obtain rfl := Option.some.inj ((if_pos hend).symm.trans h)
        refine ⟨nofun, rfl, rfl, id, Or.inr (Or.inl ⟨rfl, rfl, hend.imp ?_ id, rfl⟩)⟩
        rintro rfl
        rfl
      · cases (if_neg hend).symm.trans h

/-- An event of the server concerns a connection that has not ended, and ends it
if it is to close or to fail. -/
theorem serverStep_cases {s s' : State} {e : ServerEvent} (h : serverStep s e = some s') :
    s.worker ≠ .absent ∧ s'.main = s.main ∧ s'.joinable = s.joinable ∧ s'.stopped = s.stopped ∧
    s.worker.gone = false ∧ s'.worker.gone = (Action.server e).ends := by
  obtain ⟨main, worker, streaming, joinable, wsClient, count⟩ := s
  cases worker with
  | running con =>
    cases con with
    | connecting =>
      cases e with
      | onOpen | onFail =>
        obtain rfl := Option.some.inj h
        exact ⟨nofun, rfl, rfl, rfl, rfl, rfl⟩
      | onMessage | onClose => cases h
    | opened =>
      cases e with
      | onMessage | onClose =>
        obtain rfl := Option.some.inj h
        exact ⟨nofun, rfl, rfl, rfl, rfl, rfl⟩
      | onOpen | onFail => cases h
    | ended => cases e <;> cases h
  | _ => cases e <;> cases h

/-! ### The invariant of all schedules -/

theorem Inv.init : Inv [] .init where
  main := ⟨rfl, rfl, rfl⟩
  gone_of_ended := by simp [Ended]
  ended_of_gone := nofun

theorem Inv.step {as : List Action} {s s' : State} (hs : Inv as s)
    (hrun : run step .init as = some s) {a : Action} (h : step s a = some s') :
    Inv (as ++ [a]) s' := by
  cases a with
  | main o =>
    have hkeeps : Keeps (as ++ [.main o]) s s' := by
      cases o with
      | ok => exact hs.main.step_ok hrun h
      | fails => exact hs.main.step_fails h
    refine ⟨hkeeps.main, fun hended => ?_, fun hgone => ?_⟩
    · rw [hkeeps.gone]
      exact hs.gone_of_ended ((ended_concat.mp hended).resolve_right nofun)
    · rw [hkeeps.gone] at hgone
      exact (hs.ended_of_gone hgone).imp (Ended.append · _) hkeeps.stopped
  | worker o =>
    obtain ⟨hworker, hmain, hjoinable, hstopped, hcases⟩ := workerStep_cases h
    refine ⟨hs.main.frame _ (by rw [hmain]) (absurd · hworker) hjoinable hstopped, ?_, ?_⟩
    · intro hended
      rcases hcases with ⟨-, hgone⟩ | ⟨-, hgone, -⟩ | ⟨rfl, hnot, -⟩
      · exact hgone
      · exact hgone
      · -- the worker was gone before
        have hgone := hs.gone_of_ended ((ended_concat.mp hended).resolve_right nofun)
        exact absurd (hnot.symm.trans hgone) Bool.false_ne_true
    · intro hgone
      rcases hcases with ⟨rfl, -⟩ | ⟨-, -, hend, hsame⟩ | ⟨-, -, hnot⟩
      · exact Or.inl (ended_concat.mpr (Or.inr rfl))
      · -- the event loop has returned, and had a reason to
        rw [hsame]
        rcases hend with hend | hend
        · exact (hs.ended_of_gone hend).imp (Ended.append · _) id
        · exact Or.inr hend
      · exact absurd (hnot.symm.trans hgone) Bool.false_ne_true
  | server e =>
    obtain ⟨hworker, hmain, hjoinable, hstopped, hnot, hgone⟩ := serverStep_cases h
    refine ⟨hs.main.frame _ (by rw [hmain]) (absurd · hworker) hjoinable hstopped.trans, ?_, ?_⟩
    · intro hended
      rw [hgone]
      refine (ended_concat.mp hended).resolve_left fun hended' => ?_
      exact absurd (hnot.symm.trans (hs.gone_of_ended hended')) Bool.false_ne_true
    · intro hgone'
      exact Or.inl (ended_concat.mpr (Or.inr (hgone.symm.trans hgone')))

/-- **The invariant of all schedules.** -/
theorem inv_of_run {as : List Action} {s : State} (h : run step .init as = some s) : Inv as s :=
  history_invariant .init (fun _ _ _ _ hs ha hrun => hs.step hrun ha) h

/-! ### When the join can wait -/

/-- **When the shutdown is safe.**  In every state of a run a thread blocked in
`join()` waits for a worker that has returned, lost its connection or been
stopped, exactly if `main` goes to join the worker only after a call of the worker
failed or the server closed or failed the connection. -/
theorem joinSafe_iff (as : List Action) :
    (∀ pre s, pre <+: as → run step .init pre = some s → s.JoinSafe) ↔
      Guarded step .init (fun s => s.main = .testJoinable) (.main .ok) Action.ends as := by
  constructor
  · intro hsafe pre s hpre hrun hmain
    have hs := inv_of_run hrun
    obtain ⟨hjoinable, hstopped⟩ : s.joinable = true ∧ s.stopped = false := by
      have hinv := hs.main
      rw [MainInv, hmain] at hinv
      exact hinv
    -- the next state is blocked, and no more released than this one
    have hnext : run step .init (pre ++ [.main .ok]) = some { s with main := .joining } := by
      rw [run_concat_eq_some]
      refine ⟨s, hrun, ?_⟩
      unfold step mainStep
      simp only [hmain, hjoinable, if_true]
    have hreleased := hsafe _ _ hpre hnext (Or.inl rfl)
    rcases hreleased with hgone | hstopped'
    · exact (hs.ended_of_gone hgone).resolve_right (by simp [hstopped])
    · exact absurd (hstopped.symm.trans hstopped') Bool.false_ne_true
  · intro hguarded pre s hpre hrun hblocked
    have hs := inv_of_run hrun
    have htaken : JoinTaken pre := by
      have hinv := hs.main
      rw [MainInv] at hinv
      rcases hblocked with hmain | hmain
      · rw [hmain] at hinv
        exact hinv.2
      · rw [hmain] at hinv
        exact hinv
    exact Or.inl (hs.gone_of_ended (hguarded.exists_of_takes hpre htaken))

/-- The main thread clears `streaming` and joins a worker that is reading an open
connection. -/
theorem not_joinSafe :
    ¬ ∀ as s, run step .init as = some s → s.JoinSafe := by
  intro h
  let start : List Action := List.replicate 5 (.main .ok)
  let connect : List Action := List.replicate 4 (.worker .ok) ++ [.server .onOpen]
  let join : List Action := List.replicate 3 (.main .ok)
  have hrun : run step .init (start ++ connect ++ join) =
      some ⟨.joining, .running .opened, false, true, some ⟨true, false⟩, 0⟩ := by decide
  have hsafe := h _ _ hrun (Or.inl rfl)
  exact absurd hsafe (by decide)

/-- Once `main` waits for a worker in its event loop, it waits until the server
ends the connection or a call fails, whatever else happens. -/
theorem joining_of_run {s s' : State} (hmain : s.main = .joining) (hgone : s.worker.gone = false)
    (hstopped : s.stopped = false) {as : List Action}
    (has : ∀ a ∈ as, a.ends = false ∧ a ≠ .main .fails) (h : run step s as = some s') :
    s'.main = .joining := by
  let P (s : State) := s.main = .joining ∧ s.worker.gone = false ∧ s.stopped = false
  suffices hP : P s' from hP.1
  refine run_invariant (P := P) ?_ ⟨hmain, hgone, hstopped⟩ has h
  rintro s a s' ⟨hmain, hgone, hstopped⟩ ⟨hends, hfails⟩ ha
  cases a with
  | main o =>
    cases o with
    | ok =>
      have hworker : s.worker ≠ .returned := by
        intro hreturned
        rw [hreturned] at hgone
        cases hgone
      unfold step mainStep at ha
      simp only [hmain, if_neg hworker] at ha
      cases ha
    | fails => exact absurd rfl hfails
  | worker o =>
    obtain ⟨-, hmain', -, hstopped', hcases⟩ := workerStep_cases ha
    rcases hcases with ⟨rfl, -⟩ | ⟨-, -, hend, -⟩ | ⟨-, -, hgone'⟩
    · cases hends
    · simp [hgone, hstopped] at hend
    · exact ⟨hmain'.trans hmain, hgone', hstopped' hstopped⟩
  | server e =>
    obtain ⟨-, hmain', -, hstopped', -, hgone'⟩ := serverStep_cases ha
    exact ⟨hmain'.trans hmain, hgone'.trans hends, hstopped'.trans hstopped⟩

end BlockchainClient
end IntBlock
