import Rebalance.Proofs.MovementProgress
/-!
# Which records read as a movement

Reading a flat record checks its members one field at a time, in a fixed order (`headFields`,
then `tierFields`): the four counts `stealerId`, `donorId`, `attempt` and `maxReplicas`, each a
non-negative integer of 32 bits; the pending stores, an array of strings; the initial topology, a
string that reads as a topology document; then for every tier from 0 up to `maxReplicas` its
moved and then its deleted partitions, each an array of 32-bit partition ids. `Field.Passes`
states each check on the member alone, without the reader.

`ofRecord` reads a record exactly when every field passes and the stealer is not the donor
(`Accepted`). When it fails, the error names the first field in that order that does not pass,
and only with every field passing is it a stealer equal to its donor (`Refused`). Members of
other keys and tiers above the highest are never looked at. Main statement:
`ofRecord_accepts_exactly`.

Each reader is shown to read its field (`Field.Reads`): it succeeds exactly when the field
passes, and its errors name the field's key. The order of the errors then follows from the chain
of reads alone (`Field.Reads.failsAt`).
-/

namespace Rebalance

namespace MovementError

/-- The key of the record member an error is about; none for a stealer equal to its donor or an
unreadable line. -/
def key? : MovementError → Option String
  | missingField k => some k
  | invalidField k _ => some k
  | _ => none

/-- The message of an error about a member names the member's key. -/
theorem message_names_key {e : MovementError} {k : String} (h : e.key? = some k) :
    ∃ before after, e.message = before ++ k ++ after := by
  cases e with
  | missingField k' =>
    cases h
    exact ⟨"missing field '", "'", rfl⟩
  | invalidField k' p =>
    cases h
    exact ⟨"invalid field '", "': " ++ p.text, String.append_assoc⟩
  | sameNode _ => cases h
  | unreadable _ _ => cases h

end MovementError

/-! ## Checking every item of a list -/

section MapM

variable {α β ε : Type} {f : α → Except ε β}

/-- A `mapM` succeeds exactly when every step does. -/
theorem exists_mapM_eq_ok_iff : ∀ {xs : List α},
    (∃ bs, xs.mapM f = .ok bs) ↔ ∀ x ∈ xs, ∃ b, f x = .ok b := by
  intro xs
  induction xs with
  | nil => simp [List.mapM_nil, pure, Except.pure]
  | cons x xs ih =>
    rw [List.mapM_cons, List.forall_mem_cons, ← ih]
    cases hx : f x with
    | error e => simp [bind, Except.bind]
    | ok b =>
      cases hxs : xs.mapM f with
      | error e => simp [bind, Except.bind]
      | ok bs => simp [bind, Except.bind, pure, Except.pure]

/-- A failed `mapM` failed at one of its steps. -/
theorem exists_of_mapM_eq_error {e : ε} : ∀ {xs : List α},
    xs.mapM f = .error e → ∃ x ∈ xs, f x = .error e := by
  intro xs
  induction xs with
  | nil => simp [List.mapM_nil, pure, Except.pure]
  | cons x xs ih =>
    rw [List.mapM_cons]
    cases hx : f x with
    | error e' =>
      intro h
      cases h
      exact ⟨x, List.mem_cons_self, hx⟩
    | ok b =>
      cases hxs : xs.mapM f with
      | error e' =>
        intro h
        cases h
        obtain ⟨y, hy, hfy⟩ := ih hxs
        exact ⟨y, List.mem_cons_of_mem _ hy, hfy⟩
      | ok bs =>
        intro h
        cases h

end MapM

namespace Movement

open Json (Value)

/-- The member of key `k` is the non-negative 32-bit integer `n`. -/
def CountIs (ms : List (String × Value)) (k : String) (n : Nat) : Prop :=
  lookup ms k = some (.number (.nat n)) ∧ n ≤ maxU32

/-- A field of the flat record, by the check its member must pass. -/
inductive Field where
  /-- A 32-bit count. -/
  | count (key : String)
  /-- The pending stores. -/
  | stores
  /-- The initial topology's document. -/
  | topology
  /-- The partitions of one tier, moved or deleted. -/
  | partitions (key : String)

namespace Field

/-- The key of the member the field is read from. -/
def key : Field → String
  | count k => k
  | stores => "storesPending"
  | topology => "initialTopology"
  | partitions k => k

/-- The member for the field is there and passes its check. -/
def Passes (ms : List (String × Value)) : Field → Prop
  | count k => ∃ n, CountIs ms k n
  | stores => ∃ xs, lookup ms "storesPending" = some (.array xs) ∧
      ∀ x ∈ xs, ∃ s, x = .string s
  | topology => ∃ s t, lookup ms "initialTopology" = some (.string s) ∧
      Topology.ofJson s = .ok t
  | partitions k => ∃ xs, lookup ms k = some (.array xs) ∧
      ∀ x ∈ xs, ∃ p, x = .number (.nat p) ∧ p ≤ maxU32

end Field

/-- The fields read before the tiers, in order. -/
def headFields : List Field :=
  [.count "stealerId", .count "donorId", .count "attempt", .count "maxReplicas", .stores,
    .topology]

/-- The moved and the deleted partitions of `count` tiers from tier `t` on, in order. -/
def tierFields (t count : Nat) : List Field :=
  (List.range' t count).flatMap fun k => [.partitions (moveKey k), .partitions (deleteKey k)]

/-- Error `e` is the failure of the first field of `fs` that does not pass, all fields before it
passing; or every field of `fs` passes and `after` holds. -/
def FailsAt (ms : List (String × Value)) (e : MovementError) (fs : List Field) (after : Prop) :
    Prop :=
  (∃ pre f post, fs = pre ++ f :: post ∧ (∀ g ∈ pre, g.Passes ms) ∧ ¬ f.Passes ms ∧
    e.key? = some f.key) ∨ ((∀ f ∈ fs, f.Passes ms) ∧ after)

/-- A record that reads as a movement: the head fields pass, so do both lists of every tier up to
the highest, and the stealer is not the donor. -/
structure Accepted (ms : List (String × Value)) : Prop where
  head : ∀ f ∈ headFields, f.Passes ms
  tiers : ∀ r, CountIs ms "maxReplicas" r → ∀ f ∈ tierFields 0 (r + 1), f.Passes ms
  distinct : ∀ s d, CountIs ms "stealerId" s → CountIs ms "donorId" d → s ≠ d

/-- How reading a record fails: at the first head field that does not pass; with all of them
passing, at the first field of the tiers up to the highest that does not pass; with all of those
passing too, on a stealer equal to its donor. -/
def Refused (ms : List (String × Value)) (e : MovementError) : Prop :=
  FailsAt ms e headFields (∃ r, CountIs ms "maxReplicas" r ∧
    FailsAt ms e (tierFields 0 (r + 1))
      (∃ n, CountIs ms "stealerId" n ∧ CountIs ms "donorId" n ∧ e = .sameNode n))

/-- `r` reads field `f` of the record: it succeeds exactly when the field passes, and each of its
errors names the field's key. -/
structure Field.Reads {α : Type} (ms : List (String × Value)) (f : Field)
    (r : Except MovementError α) : Prop where
  ok_iff : (∃ a, r = .ok a) ↔ f.Passes ms
  key : ∀ e, r = .error e → e.key? = some f.key

section Reads

variable {ms : List (String × Value)}

/-- A read of a field that goes on with `g`: it fails at the field, or the field passes and the
failure is what `g` makes it. -/
theorem Field.Reads.failsAt {α β : Type} {f : Field} {r : Except MovementError α}
    {g : α → Except MovementError β} {e : MovementError} {fs : List Field} {after : Prop}
    (hr : f.Reads ms r) (h : (r >>= g) = .error e)
    (hg : ∀ a, r = .ok a → g a = .error e → FailsAt ms e fs after) :
    FailsAt ms e (f :: fs) after := by
  cases hra : r with
  | error e' =>
    rw [hra] at h
    cases h
    have hnp : ¬ f.Passes ms := fun hp => by
      obtain ⟨a, ha⟩ := hr.ok_iff.2 hp
      rw [hra] at ha
      cases ha
    exact .inl ⟨[], f, fs, rfl, fun _ hg => absurd hg List.not_mem_nil, hnp, hr.key _ hra⟩
  | ok a =>
    rw [hra] at h
    have hp : f.Passes ms := hr.ok_iff.1 ⟨a, hra⟩
    -- the field passes, so it joins the passing prefix of whatever `g` fails at
    rcases hg a hra h with ⟨pre, f', post, hfs, hpre, hf', hk⟩ | ⟨hall, hafter⟩
    · exact .inl ⟨f :: pre, f', post, by rw [hfs]; rfl,
        List.forall_mem_cons.2 ⟨hp, hpre⟩, hf', hk⟩
    · exact .inr ⟨List.forall_mem_cons.2 ⟨hp, hall⟩, hafter⟩

/-- A count member reads as the 32-bit integer it holds. -/
theorem readCount_eq_ok_iff {k : String} {n : Nat} : readCount ms k = .ok n ↔ CountIs ms k n := by
  unfold readCount CountIs
  cases lookup ms k with
  | none => simp
  | some v =>
    cases v with
    | number x =>
      cases x with
      | nat m =>
        by_cases hm : m ≤ maxU32
        · simp only [hm, if_true, Except.ok.injEq, Option.some.injEq, Value.number.injEq,
            Json.Number.nat.injEq]
          exact ⟨fun h => ⟨h, h ▸ hm⟩, fun h => h.1⟩
        · simp only [hm, if_false, reduceCtorEq, Option.some.injEq, Value.number.injEq,
            Json.Number.nat.injEq, false_iff, not_and]
          exact fun h => h ▸ hm
      | neg _ => simp
      | float _ => simp
    | _ => simp

theorem reads_readCount (k : String) : (Field.count k).Reads ms (readCount ms k) := by
  refine ⟨by simp only [Field.Passes, readCount_eq_ok_iff], fun e h => ?_⟩
  unfold readCount at h
  split at h
  · cases h
    rfl
  · split at h
    · cases h
    · cases h
      rfl
  · cases h
    rfl

/-- An array member reads as its items. -/
theorem readArray_eq_ok_iff {k : String} {xs : List Value} :
    readArray ms k = .ok xs ↔ lookup ms k = some (.array xs) := by
  unfold readArray
  cases lookup ms k with
  | none => simp
  | some v => cases v <;> simp

theorem readArray_key {k : String} {e : MovementError} (h : readArray ms k = .error e) :
    e.key? = some k := by
  unfold readArray at h
  split at h <;> cases h <;> rfl

theorem reads_readStores : Field.stores.Reads ms (readStores ms) := by
  unfold readStores
  constructor
  · simp only [Field.Passes]
    constructor
    · rintro ⟨ss, h⟩
      obtain ⟨xs, hxs, h⟩ := exists_of_bind_eq_ok h
      refine ⟨xs, readArray_eq_ok_iff.1 hxs, fun x hx => ?_⟩
      obtain ⟨s, hs⟩ := exists_mapM_eq_ok_iff.1 ⟨ss, h⟩ x hx
      cases x <;> simp_all
    · rintro ⟨xs, hl, hall⟩
      rw [readArray_eq_ok_iff.2 hl]
      refine exists_mapM_eq_ok_iff.2 fun x hx => ?_
      obtain ⟨s, rfl⟩ := hall x hx
      exact ⟨s, rfl⟩
  · intro e h
    cases hxs : readArray ms "storesPending" with
    | error e' =>
      rw [hxs] at h
      cases h
      exact readArray_key hxs
    | ok xs =>
      rw [hxs] at h
      -- an item that is not a string is the error
      obtain ⟨x, -, hx⟩ := exists_of_mapM_eq_error h
      cases x <;> cases hx <;> rfl

theorem reads_readPartitions (k : String) :
    (Field.partitions k).Reads ms (readPartitions ms k) := by
  unfold readPartitions
  constructor
  · simp only [Field.Passes]
    constructor
    · rintro ⟨ps, h⟩
      obtain ⟨xs, hxs, h⟩ := exists_of_bind_eq_ok h
      refine ⟨xs, readArray_eq_ok_iff.1 hxs, fun x hx => ?_⟩
      obtain ⟨p, hp⟩ := exists_mapM_eq_ok_iff.1 ⟨ps, h⟩ x hx
      rcases x with _ | _ | ((n | _ | _)) | _ | _ | _ <;> simp_all
      by_cases hn : n ≤ maxU32 <;> simp_all
    · rintro ⟨xs, hl, hall⟩
      rw [readArray_eq_ok_iff.2 hl]
      refine exists_mapM_eq_ok_iff.2 fun x hx => ?_
      obtain ⟨p, rfl, hp⟩ := hall x hx
      exact ⟨p, by simp [hp]⟩
  · intro e h
    cases hxs : readArray ms k with
    | error e' =>
      rw [hxs] at h
      cases h
      exact readArray_key hxs
    | ok xs =>
      rw [hxs] at h
      -- an item that is not a 32-bit partition id is the error
      obtain ⟨x, -, hx⟩ := exists_of_mapM_eq_error h
      rcases x with _ | _ | ((n | _ | _)) | _ | _ | _ <;> try (cases hx; rfl)
      -- what is left is a non-negative integer, and it is above 32 bits
      have hn : ¬ n ≤ maxU32 := fun hn => by simp [hn] at hx
      simp only [hn, if_false, Except.error.injEq] at hx
      subst hx
      rfl

theorem reads_readTopology : Field.topology.Reads ms (readTopology ms) := by
  unfold readTopology
  constructor
  · simp only [Field.Passes]
    cases lookup ms "initialTopology" with
    | none => simp
    | some v =>
      cases v with
      | string s =>
        cases ht : Topology.ofJson s with
        | error e => simp [ht]
        | ok t => simp [ht]
      | _ => simp
  · intro e h
    split at h
    · cases h
      rfl
    · split at h
      · cases h
      · cases h
        rfl
    · cases h
      rfl

/-- A read of a field that goes on with `g` succeeds exactly when the field passes and `g` goes
through on what was read. -/
theorem Field.Reads.exists_bind_eq_ok_iff {α β : Type} {f : Field} {r : Except MovementError α}
    {g : α → Except MovementError β} {Q : Prop} (hr : f.Reads ms r)
    (hg : ∀ a, r = .ok a → ((∃ b, g a = .ok b) ↔ Q)) :
    (∃ b, (r >>= g) = .ok b) ↔ f.Passes ms ∧ Q := by
  rw [← hr.ok_iff]
  cases hra : r with
  | error e => simp [bind, Except.bind]
  | ok a => simpa [bind, Except.bind] using hg a hra

/-! ## The tiers -/

theorem tierFields_zero (t : Nat) : tierFields t 0 = [] := rfl

theorem tierFields_succ (t count : Nat) :
    tierFields t (count + 1) =
      .partitions (moveKey t) :: .partitions (deleteKey t) :: tierFields (t + 1) count := by
  simp [tierFields, List.range'_succ]

/-- Reading `count` tiers from `t` succeeds exactly when both lists of each of them pass. -/
theorem readTiers_ok_iff (count : Nat) : ∀ (t : Nat) (moves deletes : Tiers),
    (∃ r, readTiers ms t count moves deletes = .ok r) ↔
      ∀ f ∈ tierFields t count, f.Passes ms := by
  induction count with
  | zero => simp [readTiers, tierFields_zero]
  | succ count ih =>
    intro t moves deletes
    simp only [readTiers, tierFields_succ, List.forall_mem_cons]
    exact (reads_readPartitions _).exists_bind_eq_ok_iff fun _ _ =>
      (reads_readPartitions _).exists_bind_eq_ok_iff fun _ _ => ih _ _ _

/-- Reading tiers fails at the first of their lists that does not pass, or else it is what the
reading after them makes it. -/
theorem readTiers_failsAt {β : Type} {g : Tiers × Tiers → Except MovementError β}
    {e : MovementError} {after : Prop} (count : Nat) : ∀ (t : Nat) (moves deletes : Tiers),
    (readTiers ms t count moves deletes >>= g) = .error e →
      (∀ r, readTiers ms t count moves deletes = .ok r → g r = .error e → after) →
      FailsAt ms e (tierFields t count) after := by
  induction count with
  | zero =>
    intro t moves deletes h hg
    exact .inr ⟨fun f hf => absurd hf (by simp [tierFields_zero]), hg _ rfl h⟩
  | succ count ih =>
    intro t moves deletes h hg
    simp only [readTiers, bind_assoc] at h hg
    rw [tierFields_succ]
    refine (reads_readPartitions _).failsAt h fun moved hm h => ?_
    refine (reads_readPartitions _).failsAt h fun deleted hd h => ?_
    refine ih _ _ _ h fun r hr hgr => hg r ?_ hgr
    simp only [hm, hd]
    exact hr

end Reads

/-! ## Reading a record -/

section Record

variable {ms : List (String × Value)}

/-- One member holds one count. -/
theorem CountIs.unique {k : String} {n n' : Nat} (h : CountIs ms k n) (h' : CountIs ms k n') :
    n = n' := by
  have hv := h.1.symm.trans h'.1
  simpa using hv

/-- A record that reads as a movement passes every check. -/
theorem accepted_of_ofRecord {m : Movement} (h : ofRecord ms = .ok m) : Accepted ms := by
  unfold ofRecord at h
  obtain ⟨s, hs, h⟩ := exists_of_bind_eq_ok h
  obtain ⟨d, hd, h⟩ := exists_of_bind_eq_ok h
  obtain ⟨a, ha, h⟩ := exists_of_bind_eq_ok h
  obtain ⟨r, hr, h⟩ := exists_of_bind_eq_ok h
  obtain ⟨ss, hss, h⟩ := exists_of_bind_eq_ok h
  obtain ⟨t, ht, h⟩ := exists_of_bind_eq_ok h
  obtain ⟨⟨moves, deletes⟩, hmd, h⟩ := exists_of_bind_eq_ok h
  refine ⟨?_, fun r' hr' => ?_, fun s' d' hs' hd' => ?_⟩
  · simp only [headFields, List.forall_mem_cons]
    exact ⟨(reads_readCount _).ok_iff.1 ⟨s, hs⟩, (reads_readCount _).ok_iff.1 ⟨d, hd⟩,
      (reads_readCount _).ok_iff.1 ⟨a, ha⟩, (reads_readCount _).ok_iff.1 ⟨r, hr⟩,
      reads_readStores.ok_iff.1 ⟨ss, hss⟩, reads_readTopology.ok_iff.1 ⟨t, ht⟩,
      fun _ hf => absurd hf List.not_mem_nil⟩
  · -- the tiers read are those up to the count read
    rw [← CountIs.unique (readCount_eq_ok_iff.1 hr) hr']
    exact (readTiers_ok_iff _ _ _ _).1 ⟨_, hmd⟩
  · rw [← CountIs.unique (readCount_eq_ok_iff.1 hs) hs',
      ← CountIs.unique (readCount_eq_ok_iff.1 hd) hd']
    exact exists_make_eq_ok_iff.1 ⟨m, h⟩

/-- A record that passes every check reads as a movement. -/
theorem exists_ofRecord_of_accepted (h : Accepted ms) : ∃ m, ofRecord ms = .ok m := by
  have hhead := h.head
  simp only [headFields, List.forall_mem_cons] at hhead
  obtain ⟨⟨s, hs⟩, ⟨d, hd⟩, ⟨a, ha⟩, ⟨r, hr⟩, hstores, htopology, -⟩ := hhead
  obtain ⟨ss, hss⟩ := reads_readStores.ok_iff.2 hstores
  obtain ⟨t, ht⟩ := reads_readTopology.ok_iff.2 htopology
  obtain ⟨⟨moves, deletes⟩, hmd⟩ :=
    (readTiers_ok_iff (r + 1) 0 KeyMap.empty KeyMap.empty).2 (h.tiers r hr)
  obtain ⟨m, hm⟩ : ∃ m, make s d moves deletes ss t a = .ok m :=
    exists_make_eq_ok_iff.2 (h.distinct s d hs hd)
  refine ⟨m, ?_⟩
  simp only [ofRecord, readCount_eq_ok_iff.2 hs, readCount_eq_ok_iff.2 hd,
    readCount_eq_ok_iff.2 ha, readCount_eq_ok_iff.2 hr, hss, ht, bind, Except.bind, hmd]
  exact hm

/-- A record that does not read fails at the first check it does not pass, in reading order. -/
theorem refused_of_ofRecord {e : MovementError} (h : ofRecord ms = .error e) : Refused ms e := by
  unfold ofRecord at h
  unfold Refused
  refine (reads_readCount _).failsAt h fun s hs h => ?_
  refine (reads_readCount _).failsAt h fun d hd h => ?_
  refine (reads_readCount _).failsAt h fun a _ h => ?_
  refine (reads_readCount _).failsAt h fun r hr h => ?_
  refine reads_readStores.failsAt h fun ss _ h => ?_
  refine reads_readTopology.failsAt h fun t _ h => ?_
  -- every head field passed: the tiers up to the count read come next
  refine .inr ⟨fun _ hf => absurd hf List.not_mem_nil, r, readCount_eq_ok_iff.1 hr, ?_⟩
  refine readTiers_failsAt _ _ _ _ h fun md _ h => ?_
  -- and with every tier passing, only the two nodes can fail
  obtain ⟨moves, deletes⟩ := md
  obtain ⟨hsd, rfl⟩ := make_eq_error h
  exact ⟨s, readCount_eq_ok_iff.1 hs, hsd ▸ readCount_eq_ok_iff.1 hd, rfl⟩

/-- A flat record reads as a movement exactly when its counts, stores, topology and the lists of
every tier up to the highest pass their checks and the stealer is not the donor; other members
are ignored. A record that does not read fails at the first check in that order that it does not
pass, with an error whose message names that member's key, and on a stealer equal to its donor
only once every check passes. -/
theorem ofRecord_accepts_exactly (ms : List (String × Value)) :
    ((∃ m, ofRecord ms = .ok m) ↔ Accepted ms) ∧
      (∀ e, ofRecord ms = .error e → Refused ms e) ∧
      ∀ (e : MovementError) k, e.key? = some k →
        ∃ before after, e.message = before ++ k ++ after :=
  ⟨⟨fun h => h.elim fun _ hm => accepted_of_ofRecord hm, exists_ofRecord_of_accepted⟩,
    fun _ h => refused_of_ofRecord h, fun _ _ h => MovementError.message_names_key h⟩

/-- A record whose four counts pass, whose stores member lists a number, and which has no
initial topology and no tiers. -/
def numberStoreRecord : List (String × Value) :=
  [("attempt", .number (.nat 0)), ("donorId", .number (.nat 0)), ("maxReplicas", .number (.nat 0)),
    ("stealerId", .number (.nat 1)), ("storesPending", .array [.number (.nat 7)])]

/-- The stores are checked before the topology, so their error is the one reported. -/
theorem number_store_refused :
    ofRecord numberStoreRecord = .error (.invalidField "storesPending" .notString) ∧
      Refused numberStoreRecord (.invalidField "storesPending" .notString) := by
  have h : ofRecord numberStoreRecord = .error (.invalidField "storesPending" .notString) := rfl
  exact ⟨h, (ofRecord_accepts_exactly numberStoreRecord).2.1 _ h⟩

end Record

end Movement

end Rebalance
