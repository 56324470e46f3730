import Mathlib.Data.List.Forall2
import Rebalance.Proofs.MonotoneViews
import Rebalance.Proofs.CachedTopology
import Rebalance.Proofs.ClockLaws
/-!
# When the stealer's and the donor's clocks conflict

A commit writes its clock to its stealer and its donor only. Two commits on pairs of nodes that
share none therefore leave clocks that neither contains: one node of each pair, brought
together by a later commit, hold concurrent clocks, and that commit is refused although one
committer wrote both. This is the only way a run meets concurrent clocks. Start from a cluster
where every node holds the same counters and no failure is injected; then, whatever the tasks
and the order of the workers' steps, a commit is refused for concurrent clocks only after the
run wrote to two pairs of nodes that share no node (`concurrent_clocks_need_apart_writes`).

The run's writes are the records its propagations add to the log. Without injected failures a
write reaches no node (a revert with no rollback targets) or installs its clock on two distinct
nodes (`Propagation.Paired`), or else the committer halts and writes nothing more. While no two
writes are apart (`Propagation.Meeting`), the views keep `Cluster.Ordered`: any two clocks are
ordered, so the stealer's and the donor's never conflict. The new clock of a write is above
every view (`Cluster.Ordered.le_write`): a node a write reached is below the other node of such
a write (its partner), and that write shares a node with the new one, which is then the
partner; a node no write reached still holds its first clock, below every later one.

A committer halts only when a rollback fails. Its clock is above every view all the same, so
whatever part of it got through, every two clocks stay ordered while the writes meet
(`Cluster.Chained.propagate`).

`Committer.ClockRecord` gathers these facts about a committer; a commit keeps it and writes to
its stealer and its donor only (`clockRecord_commit`), every other step of a worker writes
nothing, and the run keeps it by induction on the steps (`Pool.clockRecord_of_moves`), which
lists the writes of each call beside it, so that the writes before a refused commit are those
of the calls before it.
-/

namespace Rebalance

namespace Cluster

variable {c c' cl : Cluster} {t : Topology} {clock : Clock}

/-- No failure is injected: the cluster is not poisoned and no node has a failure pending. -/
def Faultless (c : Cluster) : Prop := c.poisoned = false ∧ ∀ n, c.failing.getD n 0 = 0

/-- Every node holds a clock with the same counters as every other node. -/
def SameClocks (c : Cluster) : Prop :=
  ∀ n m vn vm, c.view? n = some vn → c.view? m = some vm → vn.clock ≤ vm.clock

/-- `c'` holds what `c` holds of the writes: the same views, propagation log, failure counters
and poisoned flag. -/
structure SameWrites (c c' : Cluster) : Prop where
  views : c'.views = c.views
  log : c'.log = c.log
  failing : c'.failing = c.failing
  poisoned : c'.poisoned = c.poisoned

theorem SameWrites.refl (c : Cluster) : c.SameWrites c := ⟨rfl, rfl, rfl, rfl⟩

theorem SameWrites.trans {c'' : Cluster} (h : c.SameWrites c') (h' : c'.SameWrites c'') :
    c.SameWrites c'' :=
  ⟨h'.views.trans h.views, h'.log.trans h.log, h'.failing.trans h.failing,
    h'.poisoned.trans h.poisoned⟩

theorem SameWrites.view? (h : c.SameWrites c') (n : Nat) : c'.view? n = c.view? n := by
  simp only [Cluster.view?, h.views]

theorem SameWrites.faultless (h : c.SameWrites c') (hf : c.Faultless) : c'.Faultless :=
  ⟨h.poisoned.trans hf.1, fun n => by rw [h.failing]; exact hf.2 n⟩

/-- Issuing a migration job writes nothing. -/
theorem startMigration_sameWrites (c : Cluster) (store : String) (m : Movement) :
    c.SameWrites (c.startMigration store m).2 := by
  unfold startMigration
  split
  · exact .refl c
  · split
    · exact .refl c
    · exact ⟨rfl, rfl, rfl, rfl⟩

/-- Awaiting a migration job writes nothing. -/
theorem awaitJob_sameWrites (c : Cluster) (others node job : Nat) :
    c.SameWrites (c.awaitJob others node job).2 := by
  simp only [awaitJob]
  split
  · exact ⟨rfl, rfl, rfl, rfl⟩
  · split <;> exact ⟨rfl, rfl, rfl, rfl⟩

/-! ## Deliveries without failures -/

/-- A faultless cluster stays faultless through a delivery: only a node holding a clock not
before the new one can refuse it, and that refusal changes nothing. -/
theorem faultless_deliver (t : Topology) (clock : Clock) :
    ∀ (ns : List Nat) {c : Cluster}, c.Faultless → (deliver t clock ns c).2.Faultless
  | [], _, hf => hf
  | n :: rest, c, hf => by
    have hn : ¬ 0 < c.failing.getD n 0 := by rw [hf.2 n]; exact Nat.lt_irrefl 0
    rw [deliver.eq_2, if_neg (by simp [hf.1]), if_neg hn]
    -- a view set on the way keeps the counters and the flag
    split
    · split
      · exact hf
      · exact faultless_deliver t clock rest hf
    · exact faultless_deliver t clock rest hf

theorem faultless_propagate (hf : c.Faultless) (t : Topology) (clock : Clock) (ns : List Nat) :
    (c.propagate t clock ns).2.Faultless := by
  rw [propagate_eq]
  exact faultless_deliver t clock ns hf

/-- A delivery that visits one node twice fails: the second visit finds the new clock there
already, and no clock is after itself. -/
theorem deliver_twice_error (t : Topology) (clock : Clock) (n : Nat) (c : Cluster) :
    (deliver t clock [n, n] c).1 ≠ .ok () := by
  intro h
  rw [deliver_cons_of_accepts (accepts_of_deliver_ok h)] at h
  have hself := (accepts_of_deliver_ok h).2.2 ⟨t, clock⟩ (by simp)
  rw [Clock.compare_eq_equal_iff.2 fun _ => rfl] at hself
  cases hself

theorem propagate_twice_error (c : Cluster) (t : Topology) (clock : Clock) (n : Nat) :
    (c.propagate t clock [n, n]).1 ≠ .ok () := by
  rw [propagate_eq]
  exact deliver_twice_error t clock n c

/-- `c'` is `c` after the write `e` got through: every target of `e` holds its topology and clock,
every other view is as it was, `e` is logged, and no failure counter or flag changed. -/
structure Wrote (c : Cluster) (e : Propagation) (c' : Cluster) : Prop where
  views : ∀ j, c'.view? j = if j ∈ e.targets then some ⟨e.topology, e.clock⟩ else c.view? j
  log : c'.log = c.log ++ [e]
  failing : c'.failing = c.failing
  poisoned : c'.poisoned = c.poisoned

theorem Wrote.faultless {e : Propagation} (h : c.Wrote e c') (hf : c.Faultless) : c'.Faultless :=
  ⟨h.poisoned.trans hf.1, fun n => by rw [h.failing]; exact hf.2 n⟩

/-- After a write a node holds the written view, or the one it held. -/
theorem Wrote.view?_cases {e : Propagation} (h : c.Wrote e c') {j : Nat} {v : View}
    (hj : c'.view? j = some v) :
    (j ∈ e.targets ∧ v = ⟨e.topology, e.clock⟩) ∨ (j ∉ e.targets ∧ c.view? j = some v) := by
  rw [h.views j] at hj
  split at hj
  · cases hj
    exact .inl ⟨‹_›, rfl⟩
  · exact .inr ⟨‹_›, hj⟩

/-- A propagation to no node gets through and only logs itself. -/
theorem propagate_nil (c : Cluster) (t : Topology) (clock : Clock) :
    (c.propagate t clock []).1 = .ok () ∧ c.Wrote ⟨t, clock, [], true⟩ (c.propagate t clock []).2 :=
  ⟨rfl, fun _ => rfl, rfl, rfl, rfl⟩

/-- A faultless propagation to two distinct nodes, under a clock after the clocks they hold, gets
through: it installs the view on both and logs one successful record. -/
theorem propagate_pair {s d : Nat} (hf : c.Faultless) (hsd : s ≠ d)
    (hs : ∀ v, c.view? s = some v → clock.compare v.clock = .after)
    (hd : ∀ v, c.view? d = some v → clock.compare v.clock = .after) :
    (c.propagate t clock [s, d]).1 = .ok () ∧
      c.Wrote ⟨t, clock, [s, d], true⟩ (c.propagate t clock [s, d]).2 := by
  have hacc : ∀ n ∈ [s, d], c.Accepts clock n := by
    intro n hn
    simp only [List.mem_cons, List.not_mem_nil, or_false] at hn
    rcases hn with rfl | rfl
    · exact ⟨hf.1, hf.2 n, hs⟩
    · exact ⟨hf.1, hf.2 n, hd⟩
  have hdel := deliver_of_accepts (t := t) (by simp [hsd]) hacc
  rw [propagate_eq, hdel]
  refine ⟨rfl, fun j => ?_, rfl, rfl, rfl⟩
  simp only [Cluster.view?, KeyMap.get?_foldl_insert]

end Cluster

/-! ## Writes that share a node -/

namespace Propagation

/-- Two writes went to pairs of nodes that share none: each reached a node, and no node is a
target of both. -/
def Apart (a b : Propagation) : Prop :=
  a.targets ≠ [] ∧ b.targets ≠ [] ∧ ∀ n ∈ a.targets, n ∉ b.targets

/-- A write that reached no node, or two distinct ones. -/
def Paired (e : Propagation) : Prop := e.targets = [] ∨ ∃ a b, a ≠ b ∧ e.targets = [a, b]

/-- No two of the writes are apart. -/
def Meeting (written : List Propagation) : Prop := ∀ a ∈ written, ∀ b ∈ written, ¬ a.Apart b

theorem Meeting.of_append {written more : List Propagation} (h : Meeting (written ++ more)) :
    Meeting written :=
  fun a ha b hb => h a (List.mem_append_left _ ha) b (List.mem_append_left _ hb)

/-- Two writes that reached nodes and are not apart share one. -/
theorem share_of_not_apart {a b : Propagation} (h : ¬ a.Apart b) (ha : a.targets ≠ [])
    (hb : b.targets ≠ []) : ∃ n ∈ a.targets, n ∈ b.targets :=
  Classical.byContradiction fun hno => h ⟨ha, hb, fun n hn hnb => hno ⟨n, hn, hnb⟩⟩

/-- A write to two nodes that shares a node with `ts` has, for its node `z` outside `ts`, the
other node `w` inside. -/
theorem partner_mem {e : Propagation} (hp : e.Paired) {z w : Nat} (hz : z ∈ e.targets)
    (hw : w ∈ e.targets) (hwz : w ≠ z) {ts : List Nat} (hshare : ∃ u ∈ e.targets, u ∈ ts)
    (hzts : z ∉ ts) : w ∈ ts := by
  obtain ⟨u, hu, hts⟩ := hshare
  rcases hp with he | ⟨a, b, hab, he⟩
  · rw [he] at hz
    cases hz
  · rw [he] at hz hw hu
    simp only [List.mem_cons, List.not_mem_nil, or_false] at hz hw hu
    -- the shared node is not `z`, and the pair has one node besides `z`
    have huz : u ≠ z := fun h => hzts (h ▸ hts)
    have huw : u = w := by omega
    exact huw ▸ hts

/-- A node some write of `written ++ [e]` reached, outside `e`, was reached by a write of
`written`. -/
theorem reached_before {written : List Propagation} {e : Propagation} {n : Nat}
    (h : ∃ x ∈ written ++ [e], n ∈ x.targets) (hn : n ∉ e.targets) :
    ∃ x ∈ written, n ∈ x.targets := by
  obtain ⟨x, hx, hnx⟩ := h
  rcases List.mem_append.1 hx with hx | hx
  · exact ⟨x, hx, hnx⟩
  · rw [List.mem_singleton.1 hx] at hnx
    exact absurd hnx hn

end Propagation

/-! ## Ordered clocks -/

namespace Cluster

variable {c c' cl : Cluster}

/-- Every two clocks the nodes hold are ordered. -/
def Chained (cl : Cluster) : Prop :=
  ∀ n m vn vm, cl.view? n = some vn → cl.view? m = some vm →
    vn.clock ≤ vm.clock ∨ vm.clock ≤ vn.clock

theorem Chained.of_views (h : cl.Chained) (hv : ∀ j, c'.view? j = cl.view? j) : c'.Chained :=
  fun n m vn vm hn hm => h n m vn vm (hv n ▸ hn) (hv m ▸ hm)

/-- Clocks stay ordered when every node holds a view it held or one new view, whose clock is
above every clock held before. -/
theorem Chained.of_above {v : View} (h : cl.Chained)
    (hle : ∀ z vz, cl.view? z = some vz → vz.clock ≤ v.clock)
    (hcases : ∀ j vj, c'.view? j = some vj → vj = v ∨ cl.view? j = some vj) : c'.Chained := by
  intro n m vn vm hn hm
  rcases hcases n vn hn with rfl | hn' <;> rcases hcases m vm hm with rfl | hm'
  · exact .inl (Clock.le_refl _)
  · exact .inr (hle m vm hm')
  · exact .inl (hle n vn hn')
  · exact h n m vn vm hn' hm'

/-- A propagation of a clock above every view keeps every two clocks ordered, whether it gets
through or not: each node holds the new clock or the one it held. -/
theorem Chained.propagate {clock : Clock} (h : cl.Chained)
    (hle : ∀ z vz, cl.view? z = some vz → vz.clock ≤ clock) (t : Topology) (ns : List Nat) :
    (cl.propagate t clock ns).2.Chained :=
  h.of_above (v := ⟨t, clock⟩) hle fun _ _ hj => view?_propagate_cases hj

/-- What the writes `written`, made from `c`, leave in `cl`: any two clocks are ordered, every
clock is above every clock `c` had, a node no write reached holds its view from `c`, and a node
a write reached holds a clock below that of the other node of some write that reached it. -/
structure Ordered (c : Cluster) (written : List Propagation) (cl : Cluster) : Prop where
  chain : ∀ n m vn vm, cl.view? n = some vn → cl.view? m = some vm →
    vn.clock ≤ vm.clock ∨ vm.clock ≤ vn.clock
  floor : ∀ n m vn vm, c.view? n = some vn → cl.view? m = some vm → vn.clock ≤ vm.clock
  untouched : ∀ n, (∀ e ∈ written, n ∉ e.targets) → cl.view? n = c.view? n
  partner : ∀ n vn, cl.view? n = some vn → (∃ e ∈ written, n ∈ e.targets) →
    ∃ e ∈ written, n ∈ e.targets ∧
      ∃ w ∈ e.targets, w ≠ n ∧ ∃ vw, cl.view? w = some vw ∧ vn.clock ≤ vw.clock

namespace Ordered

variable {written : List Propagation} {e : Propagation}

/-- Before any write, clocks with the same counters are ordered. -/
theorem start (h : c.SameClocks) : c.Ordered [] c where
  chain n m vn vm hn hm := .inl (h n m vn vm hn hm)
  floor := h
  untouched _ _ := rfl
  partner _ _ _ := by
    rintro ⟨x, hx, -⟩
    cases hx

/-- The views are all it reads. -/
theorem of_views (h : c.Ordered written cl) (hv : ∀ j, c'.view? j = cl.view? j) :
    c.Ordered written c' where
  chain n m vn vm hn hm := h.chain n m vn vm (hv n ▸ hn) (hv m ▸ hm)
  floor n m vn vm hn hm := h.floor n m vn vm hn (hv m ▸ hm)
  untouched n hn := (hv n).trans (h.untouched n hn)
  partner n vn hn ht := by
    obtain ⟨x, hx, hnx, w, hwx, hwn, vw, hvw, hle⟩ := h.partner n vn (hv n ▸ hn) ht
    exact ⟨x, hx, hnx, w, hwx, hwn, vw, (hv w).trans hvw, hle⟩

/-- A write to no node keeps the clocks ordered. -/
theorem empty (h : c.Ordered written cl) (he : e.targets = []) (hv : ∀ j, c'.view? j = cl.view? j) :
    c.Ordered (written ++ [e]) c' := by
  have h' := h.of_views hv
  refine ⟨h'.chain, h'.floor, fun n hn => h'.untouched n fun x hx => hn x (List.mem_append_left _ hx),
    fun n vn hn ht => ?_⟩
  obtain ⟨x, hx, rest⟩ :=
    h'.partner n vn hn (Propagation.reached_before ht (by rw [he]; exact List.not_mem_nil))
  exact ⟨x, List.mem_append_left _ hx, rest⟩

/-- Every view is below the clock of a write to two nodes, above the clocks they held, that
shares a node with each earlier write. A node of the write holds a clock below it; a node an
earlier write reached is below its partner in that write, which the sharing makes a node of the
new write; a node no write reached holds its first clock, below every later one. -/
theorem le_write {s d : Nat} {sv dv : View} (h : c.Ordered written cl)
    (hmeet : Propagation.Meeting (written ++ [e])) (hpaired : ∀ x ∈ written, x.Paired)
    (he : e.targets = [s, d]) (hs : cl.view? s = some sv) (hd : cl.view? d = some dv)
    (hsle : sv.clock ≤ e.clock) (hdle : dv.clock ≤ e.clock) :
    ∀ z vz, cl.view? z = some vz → vz.clock ≤ e.clock := by
  have hpair : ∀ u vu, u ∈ e.targets → cl.view? u = some vu → vu.clock ≤ e.clock := by
    intro u vu hu hvu
    rw [he] at hu
    simp only [List.mem_cons, List.not_mem_nil, or_false] at hu
    rcases hu with rfl | rfl
    · rw [hs] at hvu
      cases hvu
      exact hsle
    · rw [hd] at hvu
      cases hvu
      exact hdle
  intro z vz hz
  by_cases hze : z ∈ e.targets
  · exact hpair z vz hze hz
  by_cases ht : ∃ x ∈ written, z ∈ x.targets
  · obtain ⟨x, hx, hzx, w, hwx, hwz, vw, hvw, hle⟩ := h.partner z vz hz ht
    have hshare := Propagation.share_of_not_apart
      (hmeet x (List.mem_append_left _ hx) e (List.mem_append_right _ (List.mem_singleton_self e)))
      (List.ne_nil_of_mem hzx) (by rw [he]; exact List.cons_ne_nil _ _)
    have hw := Propagation.partner_mem (hpaired x hx) hzx hwx hwz hshare hze
    exact Clock.le_trans hle (hpair w vw hw hvw)
  · have hfirst : c.view? z = some vz := by
      rw [← h.untouched z fun x hx hzx => ht ⟨x, hx, hzx⟩]
      exact hz
    exact Clock.le_trans (h.floor z s vz sv hfirst hs) hsle

/-- A write to two distinct nodes, above the clocks they held, that shares a node with each
earlier write keeps the clocks ordered. -/
theorem write {s d : Nat} {sv dv : View} (h : c.Ordered written cl)
    (hmeet : Propagation.Meeting (written ++ [e])) (hpaired : ∀ x ∈ written, x.Paired)
    (he : e.targets = [s, d]) (hsd : s ≠ d) (hs : cl.view? s = some sv)
    (hd : cl.view? d = some dv) (hsle : sv.clock ≤ e.clock) (hdle : dv.clock ≤ e.clock)
    (hw : cl.Wrote e c') : c.Ordered (written ++ [e]) c' := by
  have hle := h.le_write hmeet hpaired he hs hd hsle hdle
  have hmem : e ∈ written ++ [e] := List.mem_append_right _ (List.mem_singleton_self e)
  refine ⟨Chained.of_above h.chain hle fun _ _ hj => (hw.view?_cases hj).imp And.right And.right,
    fun n m vn vm hn hm => ?_, fun n hn => ?_, fun n vn hn ht => ?_⟩
  · rcases hw.view?_cases hm with ⟨-, rfl⟩ | ⟨-, hm'⟩
    · exact Clock.le_trans (h.floor n s vn sv hn hs) hsle
    · exact h.floor n m vn vm hn hm'
  · have hne : n ∉ e.targets := hn e hmem
    rw [hw.views n, if_neg hne]
    exact h.untouched n fun x hx => hn x (List.mem_append_left _ hx)
  · rcases hw.view?_cases hn with ⟨hne, rfl⟩ | ⟨hne, hn'⟩
    · -- a node of the write has the other node, which holds the same clock, as partner
      obtain ⟨w, hwe, hwn⟩ : ∃ w ∈ e.targets, w ≠ n := by
        rw [he] at hne ⊢
        simp only [List.mem_cons, List.not_mem_nil, or_false] at hne
        rcases hne with rfl | rfl
        · exact ⟨d, by simp, fun h => hsd h.symm⟩
        · exact ⟨s, by simp, hsd⟩
      exact ⟨e, hmem, hne, w, hwe, hwn, _, by rw [hw.views w, if_pos hwe], Clock.le_refl _⟩
    · -- a node reached before keeps its partner, whose clock only rose
      obtain ⟨x, hx, hnx, w, hwx, hwn, vw, hvw, hlew⟩ :=
        h.partner n vn hn' (Propagation.reached_before ht hne)
      refine ⟨x, List.mem_append_left _ hx, hnx, w, hwx, hwn, ?_⟩
      by_cases hwe : w ∈ e.targets
      · exact ⟨_, by rw [hw.views w, if_pos hwe], Clock.le_trans hlew (hle w vw hvw)⟩
      · exact ⟨vw, by rw [hw.views w, if_neg hwe]; exact hvw, hlew⟩

end Ordered

end Cluster

/-! ## The committer's record of its writes -/

namespace Committer

open Cluster

variable {c : Cluster} {written : List Propagation} {k k' : Committer} {m : Movement} {now : Int}
  {clock : Clock}

/-- What a committer `k` holds of the writes `written` made from `c`: its cluster's log is `c`'s
followed by them, no failure is injected, and while it is not halted every write got through to
no node or to two distinct ones and, while no two writes are apart, the clocks are ordered as
`Cluster.Ordered` says. Halted or not, while no two writes are apart every two clocks are
ordered. -/
structure ClockRecord (c : Cluster) (written : List Propagation) (k : Committer) : Prop where
  log : k.cluster.log = c.log ++ written
  faultless : k.cluster.Faultless
  paired : k.halted = false → ∀ e ∈ written, e.Paired
  delivered : k.halted = false → ∀ e ∈ written, e.succeeded = true
  ordered : k.halted = false → Propagation.Meeting written → c.Ordered written k.cluster
  chain : Propagation.Meeting written → k.cluster.Chained

namespace ClockRecord

/-- Before any write, over a cluster whose nodes hold the same counters and where no failure is
injected. -/
theorem start (hsame : c.SameClocks) (hf : c.Faultless) (hk : c.SameWrites k.cluster) :
    k.ClockRecord c [] where
  log := by rw [hk.log, List.append_nil]
  faultless := hk.faultless hf
  paired _ _ he := nomatch he
  delivered _ _ he := nomatch he
  ordered _ _ := (Cluster.Ordered.start hsame).of_views hk.view?
  chain _ := ((Cluster.Ordered.start hsame).of_views hk.view?).chain

/-- A step that writes nothing and keeps the halt flag keeps the record. -/
theorem of_sameWrites (h : k.ClockRecord c written) (hs : k.cluster.SameWrites k'.cluster)
    (hh : k'.halted = k.halted) : k'.ClockRecord c written where
  log := hs.log.trans h.log
  faultless := hs.faultless h.faultless
  paired hk' := h.paired (hh ▸ hk')
  delivered hk' := h.delivered (hh ▸ hk')
  ordered hk' hmeet := (h.ordered (hh ▸ hk') hmeet).of_views hs.view?
  chain hmeet := (h.chain hmeet).of_views hs.view?

/-- A halted committer only has to account for its log, the absence of failures and, while no
two writes are apart, its clocks' order. -/
theorem halt {more : List Propagation} (h : k.ClockRecord c written)
    (hl : k'.cluster.log = k.cluster.log ++ more) (hf : k'.cluster.Faultless) (hh : k'.halted = true)
    (hc : Propagation.Meeting (written ++ more) → k'.cluster.Chained) :
    k'.ClockRecord c (written ++ more) where
  log := by rw [hl, h.log, List.append_assoc]
  faultless := hf
  paired hk' := nomatch hh.symm.trans hk'
  delivered hk' := nomatch hh.symm.trans hk'
  ordered hk' := nomatch hh.symm.trans hk'
  chain := hc

variable {cl₀ : Cluster}

/-- A write that got through, from the cluster of a running committer with another topology
cached, to no node or to two distinct ones, keeps the record of a committer holding its result
when it keeps the clocks ordered. -/
theorem wrote {e : Propagation} {cl : Cluster} (h : k.ClockRecord c written)
    (hh : k.halted = false) (h₀ : k.cluster.SameWrites cl₀) (hw : cl₀.Wrote e cl)
    (hp : e.Paired) (hok : e.succeeded = true)
    (hord : Propagation.Meeting (written ++ [e]) → c.Ordered (written ++ [e]) cl)
    (hs : cl.SameWrites k'.cluster) : k'.ClockRecord c (written ++ [e]) where
  log := by rw [hs.log, hw.log, h₀.log, h.log, List.append_assoc]
  faultless := hs.faultless (hw.faultless (h₀.faultless h.faultless))
  paired _ x hx := by
    rcases List.mem_append.1 hx with hx | hx
    · exact h.paired hh x hx
    · rw [List.mem_singleton.1 hx]
      exact hp
  delivered _ x hx := by
    rcases List.mem_append.1 hx with hx | hx
    · exact h.delivered hh x hx
    · rw [List.mem_singleton.1 hx]
      exact hok
  ordered _ hmeet := (hord hmeet).of_views hs.view?
  chain hmeet := ((hord hmeet).of_views hs.view?).chain

/-- A propagation to no node, from the cluster of a running committer with another topology
cached, gets through and keeps the record. -/
theorem writeNone (h : k.ClockRecord c written) (hh : k.halted = false)
    (h₀ : k.cluster.SameWrites cl₀) (t : Topology) (clock : Clock) :
    (cl₀.propagate t clock []).1 = .ok () ∧
      ∀ k' : Committer, (cl₀.propagate t clock []).2.SameWrites k'.cluster →
        k'.ClockRecord c (written ++ [⟨t, clock, [], true⟩]) := by
  obtain ⟨hok, hw⟩ := Cluster.propagate_nil cl₀ t clock
  refine ⟨hok, fun k' hs => h.wrote hh h₀ hw (.inl rfl) rfl (fun hmeet => ?_) hs⟩
  refine (h.ordered hh hmeet.of_append).empty rfl fun j => ?_
  rw [hw.views j, if_neg List.not_mem_nil, h₀.view? j]

/-- A propagation to two distinct nodes of a clock after the views they hold, from the cluster of
a running committer with another topology cached, gets through and keeps the record. -/
theorem writePair (h : k.ClockRecord c written) (hh : k.halted = false)
    (h₀ : k.cluster.SameWrites cl₀) {s d : Nat} {sv dv : View} (hsd : s ≠ d)
    (hs : k.cluster.view? s = some sv) (hd : k.cluster.view? d = some dv)
    (hsa : clock.compare sv.clock = .after) (hda : clock.compare dv.clock = .after) (t : Topology) :
    (cl₀.propagate t clock [s, d]).1 = .ok () ∧
      ∀ k' : Committer, (cl₀.propagate t clock [s, d]).2.SameWrites k'.cluster →
        k'.ClockRecord c (written ++ [⟨t, clock, [s, d], true⟩]) := by
  have hs₀ : cl₀.view? s = some sv := (h₀.view? s).trans hs
  have hd₀ : cl₀.view? d = some dv := (h₀.view? d).trans hd
  obtain ⟨hok, hw⟩ := Cluster.propagate_pair (t := t) (h₀.faultless h.faultless) hsd
    (fun v hv => by rw [hs₀] at hv; cases hv; exact hsa)
    (fun v hv => by rw [hd₀] at hv; cases hv; exact hda)
  refine ⟨hok, fun k' hsame =>
    h.wrote hh h₀ hw (.inr ⟨s, d, hsd, rfl⟩) rfl (fun hmeet => ?_) hsame⟩
  -- the clocks are ordered in `cl₀`, which has the committer's views
  have hord := (h.ordered hh hmeet.of_append).of_views fun j => h₀.view? j
  exact hord.write hmeet (h.paired hh) rfl hsd hs₀ hd₀ (Clock.le_of_compare_eq_after hsa)
    (Clock.le_of_compare_eq_after hda) hw

/-- A propagation to the stealer `s` and the donor `d`, from a running committer, of a clock above
the views they hold keeps every two clocks ordered while the writes meet, whether it gets
through or not: the new clock is above every view (`Cluster.Ordered.le_write`). -/
theorem chained_propagate (h : k.ClockRecord c written) (hh : k.halted = false)
    (h₀ : k.cluster.SameWrites cl₀) {s d : Nat} {sv dv : View} (hs : k.cluster.view? s = some sv)
    (hd : k.cluster.view? d = some dv) (hsle : sv.clock ≤ clock) (hdle : dv.clock ≤ clock)
    {t : Topology} {ok : Bool} (hmeet : Propagation.Meeting (written ++ [⟨t, clock, [s, d], ok⟩])) :
    (cl₀.propagate t clock [s, d]).2.Chained := by
  have hord := (h.ordered hh hmeet.of_append).of_views fun j => h₀.view? j
  have hle := hord.le_write hmeet (h.paired hh) rfl ((h₀.view? s).trans hs) ((h₀.view? d).trans hd)
    hsle hdle
  exact Cluster.Chained.propagate hord.chain hle t [s, d]

/-- A revert, from a running committer, of a clock not below the views of the stealer `s` and
the donor `d` keeps the record: it faults before writing, writes to no node or to both, or halts
the committer. What it writes goes to `s` and `d` only. -/
theorem revert (h : k.ClockRecord c written) (hh : k.halted = false) {s d : Nat} {sv dv : View}
    (hs : k.cluster.view? s = some sv) (hd : k.cluster.view? d = some dv) (hsle : sv.clock ≤ clock)
    (hdle : dv.clock ≤ clock) (previous : Topology) (cause : RunError) (now : Int) :
    ∃ more, (stateOf (Committer.revert s d previous clock cause now k)).ClockRecord c
      (written ++ more) ∧ ∀ e ∈ more, ∀ j ∈ e.targets, j = s ∨ j = d := by
  have h₀ : k.cluster.SameWrites { k.cluster with cached := previous } := ⟨rfl, rfl, rfl, rfl⟩
  have hpath := revert_path s d previous clock cause now k
  generalize Committer.revert s d previous clock cause now k = x at hpath
  cases hpath with
  | overflow _ =>
    exact ⟨[], by rw [List.append_nil]; exact h, fun _ he => (List.not_mem_nil he).elim⟩
  | @reverted back cl hb hp =>
    have hsa := Clock.compare_increment_after hsle hb
    have hda := Clock.compare_increment_after hdle hb
    -- the rollback targets are nobody, or the stealer and the donor, which are then distinct
    cases ht : k.rollbackTargets with
    | none =>
      rw [ht, RollbackTargets.nodes] at hp
      obtain ⟨-, hrec⟩ := h.writeNone hh h₀ previous back
      rw [hp] at hrec
      refine ⟨_, hrec _ (.refl cl), fun e he j hj => ?_⟩
      rw [List.mem_singleton.1 he] at hj
      exact (List.not_mem_nil hj).elim
    | affectedNodes =>
      rw [ht, RollbackTargets.nodes] at hp
      by_cases hsd : s = d
      · subst hsd
        exact absurd (congrArg Prod.fst hp) (Cluster.propagate_twice_error _ previous back s)
      · obtain ⟨-, hrec⟩ := h.writePair hh h₀ hsd hs hd hsa hda previous
        rw [hp] at hrec
        refine ⟨_, hrec _ (.refl cl), fun e he j hj => ?_⟩
        rw [List.mem_singleton.1 he] at hj
        simpa using hj
  | @halted back rb cl hb hp =>
    -- a rollback to nobody gets through, so this one went to the stealer and the donor
    cases ht : k.rollbackTargets with
    | none =>
      rw [ht, RollbackTargets.nodes] at hp
      exact absurd (congrArg Prod.fst hp) (by rw [(Cluster.propagate_nil _ previous back).1]; simp)
    | affectedNodes =>
      rw [ht, RollbackTargets.nodes] at hp
      have hl := Cluster.propagate_log { k.cluster with cached := previous } previous back [s, d]
      have hf := Cluster.faultless_propagate (h₀.faultless h.faultless) previous back [s, d]
      rw [hp] at hl hf
      have hc : Propagation.Meeting (written ++ [⟨previous, back, [s, d], false⟩]) →
          cl.Chained := fun hmeet => by
        have hchain := h.chained_propagate hh h₀ hs hd
          (Clock.le_of_compare_eq_after (Clock.compare_increment_after hsle hb))
          (Clock.le_of_compare_eq_after (Clock.compare_increment_after hdle hb)) hmeet
        rw [hp] at hchain
        exact hchain
      refine ⟨_, h.halt hl hf rfl hc, fun e he j hj => ?_⟩
      rw [List.mem_singleton.1 he] at hj
      simpa using hj

end ClockRecord

theorem stateOf_map {α β : Type} (f : α → β) (x : CommitM α) (k : Committer) :
    stateOf ((f <$> x) k) = stateOf (x k) := by
  rw [map_apply]
  cases x k <;> rfl

/-- A commit keeps the record of a committer's writes, and writes to its stealer and its donor
only. Without injected failures a write it propagates always gets through: its clock is a step
of the resolved clock, after the stealer's and the donor's. -/
theorem clockRecord_commit (h : k.ClockRecord c written) (m : Movement) (now : Int) :
    ∃ more, (stateOf (commit m now k)).ClockRecord c (written ++ more) ∧
      ∀ e ∈ more, ∀ j ∈ e.targets, j = m.stealer ∨ j = m.donor := by
  have hpath := commit_path m now k
  generalize commit m now k = x at hpath
  cases hpath with
  | halted _ | refused _ _ _ | overflow _ _ _ =>
    exact ⟨[], by rw [List.append_nil]; exact h, fun _ he => (List.not_mem_nil he).elim⟩
  | unmoved hr _ =>
    rw [stateOf_map]
    obtain ⟨hsle, hdle⟩ := Clock.le_resolveLatest hr.resolved
    exact h.revert hr.running hr.stealer hr.donor hsle hdle _ _ _
  | written hr hu hc hp =>
    obtain ⟨hsle, hdle⟩ := Clock.le_resolveLatest hr.resolved
    obtain ⟨-, hrec⟩ := h.writePair hr.running (.refl _) (Topology.ne_of_reassign hu) hr.stealer
      hr.donor (Clock.compare_increment_after hsle hc) (Clock.compare_increment_after hdle hc) _
    rw [hp] at hrec
    refine ⟨_, hrec _ ⟨rfl, rfl, rfl, rfl⟩, fun e he j hj => ?_⟩
    rw [List.mem_singleton.1 he] at hj
    simpa using hj
  | undelivered hr hu hc hp =>
    obtain ⟨hsle, hdle⟩ := Clock.le_resolveLatest hr.resolved
    obtain ⟨hok, -⟩ := h.writePair hr.running (.refl _) (Topology.ne_of_reassign hu) hr.stealer
      hr.donor (Clock.compare_increment_after hsle hc) (Clock.compare_increment_after hdle hc) _
    rw [hp] at hok
    cases hok

/-- Past resolution a commit refuses nothing: it answers a record, faults, or answers what its
revert answered. -/
theorem refusesWrite_of_resolves {sv dv : View} {c₀ : Clock} {r : RunError}
    (hr : k.Resolves m sv dv c₀) (h : commit m now k = .ok (.error r) k') :
    r.refusesWrite = false := by
  cases hu : k.cluster.cached.reassign m.stealer m.donor m.primaryPartitions with
  | error e =>
    rw [commit_of_reassign_error hr hu] at h
    rcases map_revert_answer h with ⟨rfl, -⟩ | ⟨⟨_, rfl⟩, -⟩ <;> rfl
  | ok updated =>
    by_cases hlt : c₀.counter m.stealer < maxU64
    · obtain ⟨c₁, hc₁⟩ : ∃ c₁, c₀.increment m.stealer now = .ok c₁ :=
        ⟨_, Clock.increment_eq_ok now hlt⟩
      rcases hp : k.cluster.propagate updated c₁ [m.stealer, m.donor] with ⟨res, cl⟩
      cases res with
      | ok u =>
        rw [commit_of_written hr hu hc₁ hp] at h
        cases h
      | error e =>
        rw [commit_of_undelivered hr hu hc₁ hp] at h
        rcases map_revert_answer h with ⟨rfl, -⟩ | ⟨⟨_, rfl⟩, -⟩ <;> rfl
    · rw [commit_of_overflow hr hu (Nat.not_lt.1 hlt)] at h
      cases h

/-- A commit refused for concurrent clocks came from a running committer whose stealer's and
donor's views hold concurrent clocks. -/
theorem concurrent_of_commit {s d : Nat} {sc dc : Clock}
    (h : commit m now k = .ok (.error (.concurrentClocks s sc d dc)) k') :
    k.halted = false ∧ ∃ sv dv, k.cluster.view? m.stealer = some sv ∧
      k.cluster.view? m.donor = some dv ∧ sv.clock.compare dv.clock = .concurrent := by
  by_cases hh : k.halted = true
  · rw [commit_of_halted hh] at h
    cases h
  have hh : k.halted = false := by simpa using hh
  cases hs : k.cluster.view? m.stealer with
  | none =>
    rw [commit_of_stealer_unknown hh hs] at h
    cases h
  | some sv =>
    cases hd : k.cluster.view? m.donor with
    | none =>
      rw [commit_of_donor_unknown hh hs hd] at h
      cases h
    | some dv =>
      refine ⟨hh, sv, dv, rfl, rfl, ?_⟩
      -- the refusal is resolution's, which refuses concurrent clocks only
      cases hres : Clock.resolveLatest m.stealer sv.clock m.donor dv.clock k.acceptIdentical with
      | error e =>
        rw [commit_of_unresolved hh hs hd hres] at h
        cases h
        rcases Clock.resolveLatest_error hres with he | he <;> cases he
        exact Clock.resolveLatest_eq_concurrent_iff.1 hres
      | ok c₀ => exact absurd (refusesWrite_of_resolves ⟨hh, hs, hd, hres⟩ h) Bool.noConfusion

/-- Adding a node writes nothing. -/
theorem sameWrites_ensureNode (target : Topology) (node : Nat) (k : Committer) :
    k.cluster.SameWrites (stateOf (ensureNode target node k)).cluster := by
  unfold ensureNode
  simp only [get_bind_apply]
  split
  · exact .refl _
  split
  · exact .refl _
  cases target.node? node <;> exact ⟨rfl, rfl, rfl, rfl⟩

/-- A step's answer comes from a step that did not fault. -/
theorem eq_ok_of_answerOf {α : Type} {x : EStateM.Result Fault Committer α} {a : α}
    (h : answerOf x = some a) : x = .ok a (stateOf x) := by
  cases x with
  | ok b k =>
    cases h
    rfl
  | error e k => cases h

/-- A commit refused for concurrent clocks finds two writes in the record that got through and
are apart: were no two apart, the clocks would be ordered, and the stealer's and the donor's
could not conflict. -/
theorem ClockRecord.apart_of_concurrent (h : k.ClockRecord c written) {s d : Nat} {sc dc : Clock}
    (hc : commit m now k = .ok (.error (.concurrentClocks s sc d dc)) k') :
    ∃ a ∈ written, ∃ b ∈ written, a.succeeded = true ∧ b.succeeded = true ∧ a.Apart b := by
  obtain ⟨hh, sv, dv, hs, hd, hconc⟩ := concurrent_of_commit hc
  obtain ⟨a, ha, b, hb, hab⟩ : ∃ a ∈ written, ∃ b ∈ written, a.Apart b := by
    refine Classical.byContradiction fun hno => ?_
    have hmeet : Propagation.Meeting written := fun a ha b hb hab => hno ⟨a, ha, b, hb, hab⟩
    obtain ⟨⟨i, hi⟩, j, hj⟩ := Clock.compare_eq_concurrent_iff.1 hconc
    rcases (h.ordered hh hmeet).chain _ _ sv dv hs hd with hle | hle
    · exact absurd (hle i) (Nat.not_le.2 hi)
    · exact absurd (hle j) (Nat.not_le.2 hj)
  exact ⟨a, ha, b, hb, h.delivered hh a ha, h.delivered hh b hb, hab⟩

end Committer

/-! ## Runs -/

namespace Cluster

/-- Issuing a migration job and awaiting it writes nothing. -/
theorem sameWrites_migrate {c c₁ c₂ : Cluster} {store : String} {m : Movement}
    {r : Except ClientError Nat} {others node job : Nat} {r' : JobResult}
    (hm : c.startMigration store m = (r, c₁)) (hj : c₁.awaitJob others node job = (r', c₂)) :
    c.SameWrites c₂ := by
  have h₁ := c.startMigration_sameWrites store m
  have h₂ := c₁.awaitJob_sameWrites others node job
  rw [hm] at h₁
  rw [hj] at h₂
  exact h₁.trans h₂

end Cluster

namespace Pool

open Committer (answerOf stateOf)

variable {now : Int} {timeout : Nat} {w budget : Nat} {ph : Phase} {p p' q : Pool} {n : Next}
  {call : Option Call} {calls : List Call} {c : Cluster} {written : List Propagation}

/-- A step that makes no committer call writes nothing: at most it issues and awaits a
migration job. -/
theorem sameWrites_of_stepCase (hs : StepCase now timeout w budget ph p n p' none) :
    p.run.committer.cluster.SameWrites p'.run.committer.cluster := by
  cases hs with
  | wait _ ha =>
    have hq := congrArg (fun r => r.2.run) ha
    simp only [acquire_run] at hq
    rw [← hq]
    exact .refl _
  | @unissued _ m _ store _ _ _ _ hm =>
    have h := p.run.committer.cluster.startMigration_sameWrites store m
    rw [hm] at h
    exact h
  | migrate hm hj => exact Cluster.sameWrites_migrate hm hj
  | jobFailed hm hj => exact Cluster.sameWrites_migrate hm hj
  | stall hm hj => exact Cluster.sameWrites_migrate hm hj
  | _ => exact .refl _

/-- One step keeps the record of the committer's writes, adding those of its call, which is a
commit writing to its stealer and its donor only; a commit it makes that is refused for
concurrent clocks finds two writes in the record that got through and are apart. -/
theorem clockRecord_of_stepCase (hs : StepCase now timeout w budget ph p n p' call)
    (h : p.run.committer.ClockRecord c written) :
    ∃ more, p'.run.committer.ClockRecord c (written ++ more) ∧
      (∀ e ∈ more, ∃ m answer, call = some (.commit m answer) ∧
        ∀ j ∈ e.targets, j = m.stealer ∨ j = m.donor) ∧
      ∀ m s sc d dc, call = some (.commit m (some (.error (.concurrentClocks s sc d dc)))) →
        ∃ a ∈ written, ∃ b ∈ written, a.succeeded = true ∧ b.succeeded = true ∧ a.Apart b := by
  rcases stepCase_run hs with ⟨rfl, hf⟩ | ⟨t, a, k', rfl, he, hrun⟩ | ⟨m, rest, rfl, hrun⟩
  · refine ⟨[], ?_, fun _ he => (List.not_mem_nil he).elim, fun _ _ _ _ _ hcall => nomatch hcall⟩
    rw [List.append_nil]
    exact h.of_sameWrites (sameWrites_of_stepCase hs) hf.halted
  · -- a joining worker's call adds a node to the cached topology and keeps the halt flag
    refine ⟨[], ?_, fun _ he => (List.not_mem_nil he).elim, fun _ _ _ _ _ hcall => nomatch hcall⟩
    have hsame := Committer.sameWrites_ensureNode p.run.target t.stealer p.run.committer
    obtain ⟨_, _, he', hh, -⟩ := Committer.ensureNode_cases p.run.target t.stealer p.run.committer
    rw [he] at hsame he'
    cases he'
    rw [hrun, RunState.afterJoin_committer, List.append_nil]
    exact h.of_sameWrites hsame hh
  · rw [hrun, RunState.afterCommit_committer]
    obtain ⟨more, hrec, htargets⟩ := Committer.clockRecord_commit h m now
    refine ⟨more, hrec, fun e he => ⟨m, _, rfl, htargets e he⟩, fun m' s sc d dc hcall => ?_⟩
    simp only [Option.some.injEq, Call.commit.injEq] at hcall
    exact h.apart_of_concurrent (Committer.eq_ok_of_answerOf hcall.2)

/-- Splitting `l ++ [x]` around one element splits `l` around it, or splits off `x`. -/
theorem split_append_singleton {α : Type} {l pre post : List α} {x y : α}
    (h : l ++ [x] = pre ++ y :: post) : (∃ post', l = pre ++ y :: post') ∨ (pre = l ∧ y = x) := by
  rcases List.eq_nil_or_concat post with rfl | ⟨post', last, rfl⟩
  · obtain ⟨rfl, hlast⟩ := List.append_inj' h rfl
    exact .inr ⟨rfl, (List.cons.inj hlast).1.symm⟩
  · have h' : l ++ [x] = (pre ++ y :: post') ++ [last] := by
      rw [h]
      simp
    exact .inl ⟨post', (List.append_inj' h' rfl).1⟩

/-- Along every run, in any order of the workers' steps, the record of the committer's writes
holds. Its writes are those of the run's calls, in order: a commit writes to its stealer and its
donor only, and every other call writes nothing. A commit refused for concurrent clocks finds,
among the writes of the calls before it, two that got through and are apart. The induction is
on the run; each step adds the writes of its call. -/
theorem clockRecord_of_moves (h : Moves now timeout p calls q)
    (hp : p.run.committer.ClockRecord c []) :
    ∃ writes : List (List Propagation), q.run.committer.ClockRecord c writes.flatten ∧
      List.Forall₂ (fun call part => ∀ e ∈ part, ∃ m answer, call = .commit m answer ∧
        ∀ j ∈ e.targets, j = m.stealer ∨ j = m.donor) calls writes ∧
      ∀ pre m s sc d dc post,
        calls = pre ++ Call.commit m (some (.error (.concurrentClocks s sc d dc))) :: post →
        ∃ a ∈ (writes.take pre.length).flatten, ∃ b ∈ (writes.take pre.length).flatten,
          a.succeeded = true ∧ b.succeeded = true ∧ a.Apart b := by
  induction h with
  | refl =>
    refine ⟨[], hp, .nil, fun pre _ _ _ _ _ post hcalls => ?_⟩
    cases pre <;> cases hcalls
  | @advance q calls w budget _ ih =>
    obtain ⟨writes, hrec, hall, hcalls⟩ := ih
    obtain ⟨more, hrec', hmore, hcall⟩ :=
      clockRecord_of_stepCase (@stepCase now timeout w budget (q.phase w) q) hrec
    rw [advance_run]
    cases hc : q.call now w budget (q.phase w) with
    | none =>
      -- a step that makes no call writes nothing
      have hnil : more = [] := List.eq_nil_iff_forall_not_mem.2 fun e he => by
        obtain ⟨_, _, hsome, -⟩ := hmore e he
        rw [hc] at hsome
        cases hsome
      rw [hnil, List.append_nil] at hrec'
      refine ⟨writes, hrec', by simpa using hall, fun pre m s sc d dc post hpre => ?_⟩
      exact hcalls pre m s sc d dc post (by simpa using hpre)
    | some call =>
      have hlen := hall.length_eq
      refine ⟨writes ++ [more], by simpa using hrec',
        List.rel_append hall (.cons (fun e he => ?_) .nil), fun pre m s sc d dc post hpre => ?_⟩
      · obtain ⟨m, answer, hsome, ht⟩ := hmore e he
        rw [hc] at hsome
        cases hsome
        exact ⟨m, answer, rfl, ht⟩
      -- the refused commit is an earlier call, or this step's
      rcases split_append_singleton (by simpa only [Option.toList_some] using hpre) with
        ⟨post', hearlier⟩ | ⟨rfl, rfl⟩
      · have hle : pre.length ≤ writes.length := by
          rw [← hlen, hearlier]
          simp
        rw [List.take_append_of_le_length hle]
        exact hcalls pre m s sc d dc post' hearlier
      · rw [List.take_left' hlen.symm]
        exact hcall m s sc d dc hc
  | reschedule _ hs ih =>
    rw [hs.run]
    exact ih

end Pool

/-- Start a rebalancing run on a cluster where every node holds a clock with the same counters
and no failure is injected. Whatever the settings, the tasks and the order of the workers'
steps, the run's writes are the records its propagations add to the log, call by call: each
commit writes its clock to its stealer and its donor only, and no other call writes. While the
committer runs, every write got through, to two distinct nodes or to none. While every two
writes share a node, every two clocks the nodes hold are ordered and no commit is refused for
concurrent clocks; a commit is so refused only after two writes of the calls before it got
through to pairs of nodes that share none. -/
theorem concurrent_clocks_need_apart_writes (c : Cluster) (settings : Settings)
    (current target : Topology) (tasks : List Task) (now : Int) (timeout workers : Nat)
    (hsame : c.SameClocks) (hclean : c.Faultless) (calls : List Call) (q : Pool)
    (hq : Pool.Moves now timeout (Pool.start
      ⟨Committer.make { c with cached := current } settings, target, tasks, false, none, []⟩
        workers) calls q) :
    ∃ writes : List (List Propagation), q.run.committer.cluster.log = c.log ++ writes.flatten ∧
      List.Forall₂ (fun call part => ∀ e ∈ part, ∃ m answer, call = .commit m answer ∧
        ∀ n ∈ e.targets, n = m.stealer ∨ n = m.donor) calls writes ∧
      (q.run.committer.halted = false → ∀ e ∈ writes.flatten, e.succeeded = true ∧ e.Paired) ∧
      (Propagation.Meeting writes.flatten →
        (∀ n n' v v', q.run.committer.cluster.view? n = some v →
          q.run.committer.cluster.view? n' = some v' → v.clock ≤ v'.clock ∨ v'.clock ≤ v.clock) ∧
        ∀ m s sc d dc, Call.commit m (some (.error (.concurrentClocks s sc d dc))) ∉ calls) ∧
      ∀ pre m s sc d dc post,
        calls = pre ++ Call.commit m (some (.error (.concurrentClocks s sc d dc))) :: post →
        ∃ a ∈ (writes.take pre.length).flatten, ∃ b ∈ (writes.take pre.length).flatten,
          a.succeeded = true ∧ b.succeeded = true ∧ a.Apart b := by
  have hstart : (Committer.make { c with cached := current } settings).ClockRecord c [] :=
    .start hsame hclean ⟨rfl, rfl, rfl, rfl⟩
  obtain ⟨writes, hrec, hall, hbefore⟩ := Pool.clockRecord_of_moves hq hstart
  refine ⟨writes, hrec.log, hall, fun hh e he => ⟨hrec.delivered hh e he, hrec.paired hh e he⟩,
    fun hmeet => ⟨hrec.chain hmeet, fun m s sc d dc hm => ?_⟩, hbefore⟩
  -- a refused commit would find two writes apart among the earlier ones
  obtain ⟨pre, post, hsplit⟩ := List.append_of_mem hm
  obtain ⟨a, ha, b, hb, -, -, hab⟩ := hbefore pre m s sc d dc post hsplit
  have hsub : ∀ x ∈ (writes.take pre.length).flatten, x ∈ writes.flatten := fun x hx => by
    obtain ⟨part, hpart, hx⟩ := List.mem_flatten.1 hx
    exact List.mem_flatten.2 ⟨part, List.mem_of_mem_take hpart, hx⟩
  exact hmeet a (hsub a ha) b (hsub b hb) hab

/-! ## Two commits apart, then a crossing one -/

namespace Cluster

theorem view?_make (t : Topology) (n : Nat) :
    (Cluster.make t).view? n = if n ∈ t.nodeIds then some ⟨t, Clock.empty⟩ else none := by
  simp only [Cluster.make, Cluster.view?, KeyMap.ofList, List.foldl_map, KeyMap.get?_foldl_insert]
  rfl

/-- A new cluster's nodes all hold the empty clock. -/
theorem sameClocks_make (t : Topology) : (Cluster.make t).SameClocks := by
  have hclock : ∀ j v, (Cluster.make t).view? j = some v → v.clock = Clock.empty := by
    intro j v hv
    rw [view?_make] at hv
    split at hv
    · cases hv
      rfl
    · cases hv
  intro n m vn vm hn hm
  rw [hclock n vn hn, hclock m vm hm]
  exact Clock.le_refl _

theorem faultless_make (t : Topology) : (Cluster.make t).Faultless := ⟨rfl, fun _ => rfl⟩

end Cluster

/-- Nodes 0 to 3 with partitions 0 and 1, 2, 3 and 4, and 5. -/
def crossTopology : Topology :=
  ⟨"test", (List.range 4).map fun i => ⟨i, "h" ++ toString i, 1, 2, 3, [[0, 1], [2], [3, 4], [5]].getD i []⟩,
    List.pairwise_map.2 List.pairwise_lt_range⟩

/-- A descriptor moving partition `p` from `d` to `s`, over one store. -/
def crossMove (s d p : Nat) : Movement :=
  ⟨s, d, KeyMap.empty.insert 0 [p], KeyMap.empty, ["users"], 0, crossTopology⟩

/-- Node 3 takes partition 3 from node 2, node 1 takes partition 0 from node 0, then node 1
takes partition 4 from node 2. -/
def crossPlan : List Movement := [crossMove 3 2 3, crossMove 1 0 0, crossMove 1 2 4]

/-- One worker, identical clocks accepted, reverts sent to the stealer and the donor. -/
def crossSettings : Settings := ⟨1, 86400, true, .affectedNodes⟩

/-- The first two commits write to nodes 3 and 2 and to nodes 1 and 0, which share none; the
third then finds node 1 at `1:1` and node 2 at `3:1`, which are concurrent, on a cluster whose
nodes started with the same clock and where no failure was injected. -/
theorem crossing_commits_conflict :
    (Cluster.make crossTopology).SameClocks ∧ (Cluster.make crossTopology).Faultless ∧
      ((rebalance (Cluster.make crossTopology) Token.free crossSettings crossPlan crossTopology
        crossTopology ["users"] 0).result.toOption.map fun r => r.outcomes.map Outcome.status) =
        some [.completed, .completed, .commitFailed (RunError.concurrentClocks
          1 ⟨KeyMap.empty.insert 1 1, 0⟩ 2 ⟨KeyMap.empty.insert 3 1, 0⟩).message] :=
  ⟨Cluster.sameClocks_make _, Cluster.faultless_make _, by decide +kernel⟩

/-- Where the crossing plan's run on a fresh cluster of `crossTopology` starts. -/
def crossStart : RunState :=
  ⟨Committer.make { Cluster.make crossTopology with cached := crossTopology } crossSettings,
    crossTopology, groupByStealer crossPlan, false, none, []⟩

/-- The crossing plan's run, with one worker, on the cluster of `crossing_commits_conflict`: its
writes are the first two commits', to nodes 3 and 2 and to nodes 1 and 0, which are apart. -/
theorem crossing_run_writes_apart :
    (Cluster.make crossTopology).SameClocks ∧ (Cluster.make crossTopology).Faultless ∧
      ∃ calls, Pool.Moves 0 86400 (Pool.start crossStart 1) calls (runWorkers 0 86400 1 crossStart) ∧
        ∃ writes : List (List Propagation),
          writes.flatten.map Propagation.targets = [[3, 2], [1, 0]] ∧
          ¬ Propagation.Meeting writes.flatten := by
  obtain ⟨calls, hm⟩ := Pool.runWorkers_moves 0 86400 1 crossStart
  obtain ⟨writes, hlog, -⟩ := concurrent_clocks_need_apart_writes (Cluster.make crossTopology)
    crossSettings crossTopology crossTopology (groupByStealer crossPlan) 0 86400 1
    (Cluster.sameClocks_make _) (Cluster.faultless_make _) calls _ hm
  -- the run logs the two commits' writes, on a cluster that had logged nothing
  have hrun : (runWorkers 0 86400 1 crossStart).run.committer.cluster.log.map
      Propagation.targets = [[3, 2], [1, 0]] := by
    decide +kernel
  have hflat : writes.flatten.map Propagation.targets = [[3, 2], [1, 0]] := by
    rw [← hrun, hlog]
    rfl
  refine ⟨Cluster.sameClocks_make _, Cluster.faultless_make _, calls, hm, writes, hflat,
    fun hmeet => ?_⟩
  -- the two writes, to nodes 3 and 2 and to nodes 1 and 0, are apart
  obtain ⟨a, rest, hw, ha, hrest⟩ := List.map_eq_cons_iff.1 hflat
  obtain ⟨b, rest', hrest', hb, -⟩ := List.map_eq_cons_iff.1 hrest
  have hab : writes.flatten = a :: b :: rest' := by rw [hw, hrest']
  exact hmeet a (by rw [hab]; simp) b (by rw [hab]; simp)
    ⟨by simp [ha], by simp [hb], by simp [ha, hb]⟩

end Rebalance
