import Rebalance.Cluster
/-!
# Migrating a movement's stores

A committed movement still has its data to move: one migration job per pending store, started
and then awaited, one store at a time. A store whose job cannot be started, fails, or never
finishes has failed; a store whose job succeeds is removed from the movement's pending stores.

The admin client is a parameter (`MigrationClient`): the two calls migrating makes of it, over
whatever state the client keeps. The simulated cluster is one such client (`Cluster.client`).

Here the waiting is not timed: a job that never finishes counts as timed out as soon as it is
awaited, as it does when nothing else is running while its timer runs out. A run's workers wait
on such jobs with real timers (see `Rebalance.Workers`).
-/

namespace Rebalance

/-- What migrating stores asks of an admin client, over the client's state `σ`: to issue the
migration job of a store of a movement, giving the job's id, and to await a node's job. -/
structure MigrationClient (σ : Type) where
  startMigration : σ → String → Movement → Except ClientError Nat × σ
  awaitJob : σ → Nat → Nat → JobResult × σ

/-- The simulated cluster as a client, with no other await in flight. -/
def Cluster.client : MigrationClient Cluster :=
  ⟨Cluster.startMigration, fun c => c.awaitJob 0⟩

variable {σ : Type}

/-- What migrating one store ends in: its job started and then awaited. -/
def migrateStore (a : MigrationClient σ) (s : σ) (store : String) (m : Movement) :
    Except RunError Unit × σ :=
  match a.startMigration s store m with
  | (.error e, s) => (.error (.client e), s)
  | (.ok job, s) =>
    match a.awaitJob s m.stealer job with
    | (.done, s) => (.ok (), s)
    | (.pending, s) => (.error (.migrationTimeout store m.stealer), s)
    | (.failed e, s) => (.error (.client e), s)

/-- Migrates the listed stores in order, removing each migrated one from the movement; gives the
stores that failed, in order. -/
def migrateStores (a : MigrationClient σ) (s : σ) : List String → Movement →
    List String × Movement × σ
  | [], m => ([], m, s)
  | store :: rest, m =>
    match migrateStore a s store m with
    | (.ok (), s) => migrateStores a s rest (m.completeStore store).2
    | (.error _, s) =>
      let (failed, m, s) := migrateStores a s rest m
      (store :: failed, m, s)

/-- Migrates every pending store of the movement. Fails, naming the movement as it ended and the
stores that failed, when any store failed. -/
def attemptMigration (a : MigrationClient σ) (s : σ) (m : Movement) :
    Except RunError Unit × Movement × σ :=
  let (failed, m, s) := migrateStores a s m.storesPending m
  if failed.isEmpty then (.ok (), m, s)
  else (.error (.migrationFailed m.render failed), m, s)

end Rebalance
