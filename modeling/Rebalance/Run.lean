import Rebalance.Migration
import Rebalance.Workers
import Rebalance.Token
/-!
# Rebalancing runs

A run moves the cluster from a current topology towards a target one. It takes the rebalancing
token, plans the movements, and has its workers work through the plan's tasks (one per
stealer), as `Rebalance.Workers` describes. Tasks still in the queue when the workers are done
(after an abort) are skipped.

The report lists the outcomes in the order they were recorded. A run always gives the token
back, unless it could not take it.

`rebalance_token_frame` says that the token ends as it started on every path, that a run with
invalid settings changes nothing, and that a run finding the token held only caches the current
topology.
-/

namespace Rebalance

/-- What a run leaves behind: its result, the cluster and the token. -/
structure RunResult where
  result : Except RunError Report
  cluster : Cluster
  token : Token

namespace RunState

/-- The report of a run whose workers left `s`: the outcomes recorded, then the movements of
the tasks still queued, skipped. -/
def report (s : RunState) : Report :=
  ⟨s.outcomes ++ (s.queue.flatMap Task.movements).map fun m => ⟨m, .skipped abortReason⟩, 0⟩

/-- What a run whose workers left `s` answers: an abort carrying the report and the fatal error,
or the report. -/
def result (s : RunState) : Except RunError Report :=
  match s.fatal with
  | some e => .error (.aborted s.report e)
  | none => .ok s.report

end RunState

/-- A rebalancing run over the cluster with the given plan (see the module text). `now` stamps
the clocks the run writes. -/
def rebalance (c : Cluster) (token : Token) (settings : Settings) (plan : List Movement)
    (current target : Topology) (stores : List String) (now : Int) : RunResult :=
  match settings.validate with
  | .error e => ⟨.error (.settings e), c, token⟩
  | .ok () =>
    let c := { c with cached := current }
    match token.acquire with
    | (false, token) => ⟨.error .tokenUnavailable, c, token⟩
    | (true, token) =>
      match selectPlan plan current target stores with
      | .error e => ⟨.error (.planner e.message), c, token.release⟩
      | .ok tasks =>
        let start : RunState := ⟨Committer.make c settings, target, tasks, false, none, []⟩
        -- a worker beyond the tasks finds the queue empty at once
        let s := (runWorkers now settings.timeoutSecs
          (min settings.maxParallel (tasks.length + turnsPerCheck)) start).run
        ⟨s.result, s.committer.cluster, token.release⟩

/-- A run leaves the token as it found it, whichever way it ends. Invalid settings stop it
before it touches anything; a token already held stops it after it cached the current
topology, before any planning or write. -/
theorem rebalance_token_frame (c : Cluster) (token : Token) (s : Settings) (plan : List Movement)
    (current target : Topology) (stores : List String) (now : Int) :
    (rebalance c token s plan current target stores now).token.held = token.held ∧
    (∀ e, s.validate = .error e →
      rebalance c token s plan current target stores now = ⟨.error (.settings e), c, token⟩) ∧
    (s.validate = .ok () → token.held = true →
      rebalance c token s plan current target stores now =
        ⟨.error .tokenUnavailable, { c with cached := current }, token⟩) := by
  refine ⟨?_, ?_, ?_⟩
  · cases hv : s.validate with
    | error e => simp [rebalance, hv]
    | ok u =>
      cases hh : token.held with
      | true =>
        cases token
        simp_all [rebalance, Token.acquire]
      | false =>
        cases hp : selectPlan plan current target stores with
        | error e => simp [rebalance, hv, Token.acquire, hh, hp, Token.release, Token.free]
        | ok tasks => simp [rebalance, hv, Token.acquire, hh, hp, Token.release, Token.free]
  · intro e hv
    simp [rebalance, hv]
  · intro hv hh
    cases token
    simp_all [rebalance, Token.acquire]

/-- With no workers allowed a run stops on its settings, and with valid settings and the token
held it stops after caching the current topology; both times the held token stays held. -/
theorem stopped_runs_keep_token :
    (⟨0, 86400, false, .affectedNodes⟩ : Settings).validate =
        .error (.invalidValue "max_parallel_rebalancing" "0") ∧
      rebalance (Cluster.make (Topology.empty "t")) ⟨true⟩ ⟨0, 86400, false, .affectedNodes⟩ []
          (Topology.empty "t") (Topology.empty "t") [] 0 =
        ⟨.error (.settings (.invalidValue "max_parallel_rebalancing" "0")),
          Cluster.make (Topology.empty "t"), ⟨true⟩⟩ ∧
      Settings.defaults.validate = .ok () ∧ (⟨true⟩ : Token).held = true ∧
      rebalance (Cluster.make (Topology.empty "t")) ⟨true⟩ .defaults [] (Topology.empty "t")
          (Topology.empty "t") [] 0 =
        ⟨.error .tokenUnavailable, { Cluster.make (Topology.empty "t") with
          cached := Topology.empty "t" }, ⟨true⟩⟩ := by
  have hz : (⟨0, 86400, false, .affectedNodes⟩ : Settings).validate =
      .error (.invalidValue "max_parallel_rebalancing" "0") := rfl
  have hd : Settings.defaults.validate = .ok () := rfl
  exact ⟨hz, (rebalance_token_frame _ ⟨true⟩ _ [] _ _ [] 0).2.1 _ hz, hd, rfl,
    (rebalance_token_frame _ ⟨true⟩ _ [] _ _ [] 0).2.2 hd rfl⟩

end Rebalance
