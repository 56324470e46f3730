import Mathlib.Data.List.Nodup
import Rebalance.Movement.Record
import Rebalance.Proofs.PlannedTasks
import Rebalance.Proofs.TopologyDocument
/-!
# A movement's record reads back as the movement

A movement is stored as a flat record (`Movement.toRecord`) and as one JSON line
(`Movement.toLine`). Reading the record back (`Movement.ofRecord`) gives the movement itself,
every field included, for every movement a run can hold: one built by `Movement.make` from
32-bit numbers or read from a record, then changed by completing or keeping stores and by
setting or stepping its attempt (`Movement.Obtained`), with an initial topology that passes
validation and whose nodes' numbers fit their widths. What such a movement keeps
(`Movement.WellFormed`) is what reading needs: a stealer other than its donor, numbers in 32
bits, no empty tier and no repeated store.

The topology's document is read back as it was written (`Topology.document_round_trip`); reading
the line is taken to give back the value it was written from, the hypothesis of
`record_round_trip`.

* The record's keys are distinct (`nodup_memberKeys`), so each member is found under its key
  (`lookup_toRecord_of_mem`).
* Each tier is read back where it was written and an empty one is not stored
  (`readTiers_spec`), so the tier maps come back equal (`KeyMap.ext_get?`,
  `readTiers_toRecord`), and `make` rebuilds the movement as it was (`make_of_wellFormed`).
* The topology's document is read back and rebuilt as it was (`Topology.document_round_trip`).

A read is checked on a given text by evaluating it and comparing values with `Json.Value.same`,
which accepts only equal values (`Json.Value.eq_of_same`).
-/

namespace Rebalance

/-- A chain of steps that succeeds has a first step that succeeds. -/
theorem exists_of_bind_eq_ok {ε α β : Type} {x : Except ε α} {f : α → Except ε β} {b : β}
    (h : x >>= f = .ok b) : ∃ a, x = .ok a ∧ f a = .ok b := by
  cases x with
  | error e => cases h
  | ok a => exact ⟨a, rfl, h⟩

/-! ## Comparing values -/

namespace Json

mutual
/-- Whether two values are equal, as a computation: a read is checked by evaluating it. -/
def Value.same : Value → Value → Bool
  | .null, .null => true
  | .bool x, .bool y => x == y
  | .number x, .number y => decide (x = y)
  | .string x, .string y => decide (x = y)
  | .array xs, .array ys => Value.sameItems xs ys
  | .object xs, .object ys => Value.sameMembers xs ys
  | _, _ => false
def Value.sameItems : List Value → List Value → Bool
  | [], [] => true
  | x :: xs, y :: ys => Value.same x y && Value.sameItems xs ys
  | _, _ => false
def Value.sameMembers : List (String × Value) → List (String × Value) → Bool
  | [], [] => true
  | (k, x) :: xs, (j, y) :: ys => decide (k = j) && Value.same x y && Value.sameMembers xs ys
  | _, _ => false
end

mutual
/-- Values the comparison accepts are equal. -/
theorem Value.eq_of_same : ∀ {a b : Value}, a.same b = true → a = b
  | .null, .null, _ => rfl
  | .bool x, .bool y, h => by simp only [Value.same, beq_iff_eq] at h; rw [h]
  | .number x, .number y, h => by simp only [Value.same, decide_eq_true_eq] at h; rw [h]
  | .string x, .string y, h => by simp only [Value.same, decide_eq_true_eq] at h; rw [h]
  | .array xs, .array ys, h => congrArg _ (Value.eq_of_sameItems h)
  | .object xs, .object ys, h => congrArg _ (Value.eq_of_sameMembers h)
  | .null, .bool _, h | .null, .number _, h | .null, .string _, h | .null, .array _, h
  | .null, .object _, h => nomatch h
  | .bool _, .null, h | .bool _, .number _, h | .bool _, .string _, h | .bool _, .array _, h
  | .bool _, .object _, h => nomatch h
  | .number _, .null, h | .number _, .bool _, h | .number _, .string _, h | .number _, .array _, h
  | .number _, .object _, h => nomatch h
  | .string _, .null, h | .string _, .bool _, h | .string _, .number _, h | .string _, .array _, h
  | .string _, .object _, h => nomatch h
  | .array _, .null, h | .array _, .bool _, h | .array _, .number _, h | .array _, .string _, h
  | .array _, .object _, h => nomatch h
  | .object _, .null, h | .object _, .bool _, h | .object _, .number _, h | .object _, .string _, h
  | .object _, .array _, h => nomatch h
theorem Value.eq_of_sameItems : ∀ {xs ys : List Value}, Value.sameItems xs ys = true → xs = ys
  | [], [], _ => rfl
  | x :: xs, y :: ys, h => by
    simp only [Value.sameItems, Bool.and_eq_true] at h
    rw [Value.eq_of_same h.1, Value.eq_of_sameItems h.2]
  | [], _ :: _, h | _ :: _, [], h => nomatch h
theorem Value.eq_of_sameMembers :
    ∀ {xs ys : List (String × Value)}, Value.sameMembers xs ys = true → xs = ys
  | [], [], _ => rfl
  | (k, x) :: xs, (j, y) :: ys, h => by
    simp only [Value.sameMembers, Bool.and_eq_true, decide_eq_true_eq] at h
    rw [h.1.1, Value.eq_of_same h.1.2, Value.eq_of_sameMembers h.2]
  | [], _ :: _, h | _ :: _, [], h => nomatch h
end

/-- A read the comparison accepts gives the value compared with. -/
theorem eq_ok_of_same {ε : Type} {r : Except ε Value} {v : Value}
    (h : (match r with | .ok w => w.same v | .error _ => false) = true) : r = .ok v := by
  cases r with
  | error e => nomatch h
  | ok w => rw [Value.eq_of_same h]

end Json

/-! ## Maps equal key by key -/

namespace Keyed

variable {α : Type}

theorem key_of_find? {key : α → Nat} {k : Nat} {l : List α} {x : α} (h : find? key k l = some x) :
    key x = k := by
  simpa [find?] using List.find?_some h

/-- A key below every key of a list is not found in it. -/
theorem find?_eq_none_of_lt {key : α → Nat} {k : Nat} {l : List α} (h : ∀ x ∈ l, k < key x) :
    find? key k l = none := by
  simp only [find?, List.find?_eq_none, beq_iff_eq]
  intro x hx hxk
  have := h x hx
  omega

theorem find?_cons_self (key : α → Nat) (x : α) (l : List α) :
    find? key (key x) (x :: l) = some x := by
  simp [find?]

/-- Two lists increasing in key with the same entry under every key are equal. -/
theorem eq_of_find? : ∀ {l l' : List (Nat × α)}, Increasing Prod.fst l → Increasing Prod.fst l' →
    (∀ k, find? Prod.fst k l = find? Prod.fst k l') → l = l'
  | [], [], _, _, _ => rfl
  | [], b :: _, _, _, h => by
    have := h b.1
    simp [find?] at this
  | a :: _, [], _, _, h => by
    have := h a.1
    simp [find?] at this
  | a :: r, b :: r', hl, hl', h => by
    obtain ⟨ha, hr⟩ := List.pairwise_cons.1 hl
    obtain ⟨hb, hr'⟩ := List.pairwise_cons.1 hl'
    -- the smaller of two first keys is below every key of the other list
    have hbelow : ∀ {c d : Nat × α} {l : List (Nat × α)}, c.1 < d.1 → (∀ x ∈ l, d.1 < x.1) →
        find? Prod.fst c.1 (d :: l) = none := fun hcd hd => find?_eq_none_of_lt fun x hx => by
      rcases List.mem_cons.1 hx with rfl | hx
      · exact hcd
      · exact Nat.lt_trans hcd (hd x hx)
    have hab : a.1 = b.1 := by
      rcases Nat.lt_trichotomy a.1 b.1 with hlt | heq | hgt
      · have hn := hbelow hlt hb
        rw [← h, find?_cons_self] at hn
        cases hn
      · exact heq
      · have hn := hbelow hgt ha
        rw [h, find?_cons_self] at hn
        cases hn
    have hfirst : a = b := by
      have := h a.1
      rw [find?_cons_self, hab, find?_cons_self] at this
      exact Option.some.inj this
    subst hfirst
    -- past the first key, the rest agree key by key
    refine congrArg _ (eq_of_find? hr hr' fun k => ?_)
    by_cases hk : a.1 = k
    · subst hk
      rw [find?_eq_none_of_lt ha, find?_eq_none_of_lt hb]
    · have := h k
      simpa [find?, List.find?_cons, hk] using this

end Keyed

namespace KeyMap

variable {α : Type}

/-- Maps with the same value under every key are equal. -/
theorem ext_get? {m m' : KeyMap α} (h : ∀ k, m.get? k = m'.get? k) : m = m' := by
  obtain ⟨l, hl⟩ := m
  obtain ⟨l', hl'⟩ := m'
  -- an entry found under `k` has key `k`, so its value fixes it
  have hfind : ∀ k, Keyed.find? Prod.fst k l = Keyed.find? Prod.fst k l' := by
    intro k
    have hk := h k
    simp only [get?] at hk
    cases hx : Keyed.find? Prod.fst k l with
    | none =>
      rw [hx] at hk
      exact (Option.map_eq_none_iff.1 hk.symm).symm
    | some x =>
      rw [hx] at hk
      obtain ⟨y, hy, hxy⟩ := Option.map_eq_some_iff.1 hk.symm
      rw [hy]
      have hkey : y.1 = x.1 := (Keyed.key_of_find? hy).trans (Keyed.key_of_find? hx).symm
      exact congrArg some (Prod.ext hkey hxy).symm
  have := Keyed.eq_of_find? hl hl' hfind
  subst this
  rfl

/-- Keeping the values that satisfy `p` keeps them under their keys. -/
theorem get?_filterValues (p : α → Bool) (m : KeyMap α) (k : Nat) :
    (m.filterValues p).get? k = (m.get? k).filter p := by
  obtain ⟨l, hl⟩ := m
  simp only [filterValues, get?, Keyed.find?]
  induction l with
  | nil => rfl
  | cons x rest ih =>
    obtain ⟨hlt, hr⟩ := List.pairwise_cons.1 hl
    by_cases hx : x.1 = k
    · -- a dropped entry leaves no later entry of its key
      have hnone : List.find? (fun y => y.1 == k) (rest.filter fun e => p e.2) = none := by
        simp only [List.find?_eq_none, List.mem_filter, beq_iff_eq]
        intro y hy hyk
        have := hlt y hy.1
        omega
      by_cases hp : p x.2 = true
      · simp [hp, hx, Option.filter_some]
      · simp [hp, hx, hnone, Option.filter_some]
    · have hx' : (x.1 == k) = false := by simpa using hx
      by_cases hp : p x.2 = true
      · simp only [List.filter_cons, hp, if_true, List.find?_cons, hx', ih hr]
      · simp only [List.filter_cons, hp, Bool.false_eq_true, if_false, List.find?_cons, hx', ih hr]

/-- Keeping the values that satisfy `p` keeps the map when every value does. -/
theorem filterValues_of_forall {p : α → Bool} {m : KeyMap α}
    (h : ∀ k v, m.get? k = some v → p v = true) : m.filterValues p = m := by
  refine ext_get? fun k => ?_
  rw [get?_filterValues]
  cases hk : m.get? k with
  | none => rfl
  | some v => simp [Option.filter_some, h k v hk]

theorem exists_get?_of_mem_keys {m : KeyMap α} {k : Nat} (h : k ∈ m.keys) :
    ∃ v, m.get? k = some v := by
  obtain ⟨x, hx, rfl⟩ := List.mem_map.1 h
  have hs : (Keyed.find? Prod.fst x.1 m.entries).isSome := List.find?_isSome.2 ⟨x, hx, by simp⟩
  obtain ⟨y, hy⟩ := Option.isSome_iff_exists.1 hs
  exact ⟨y.2, by simp [get?, hy]⟩

theorem mem_keys_of_get? {m : KeyMap α} {k : Nat} {v : α} (h : m.get? k = some v) :
    k ∈ m.keys := by
  simp only [get?, Option.map_eq_some_iff] at h
  obtain ⟨x, hx, -⟩ := h
  exact Keyed.key_of_find? hx ▸ List.mem_map_of_mem (List.mem_of_find?_eq_some hx)

end KeyMap

namespace Movement

open Json (Value)

/-! ## Keys -/

theorem toString_injective {a b : Nat} (h : toString a = toString b) : a = b := by
  have hd : Nat.toDigits 10 a = Nat.toDigits 10 b := by
    have := congrArg String.toList h
    simpa only [Nat.toString_eq_repr, Nat.toList_repr] using this
  have := congrArg (fun l => Nat.ofDigitChars 10 l 0) hd
  simpa only [Nat.ofDigitChars_toDigits (by decide : 1 < 10) (by decide : 10 ≤ 10)] using this

theorem take_append_toList (p s : String) {n : Nat} (h : n ≤ p.toList.length) :
    (p ++ s).toList.take n = p.toList.take n := by
  rw [String.toList_append, List.take_append_of_le_length h]

/-- Keys with one prefix and different numbers differ. -/
theorem append_toString_injective {p : String} {a b : Nat}
    (h : p ++ toString a = p ++ toString b) : a = b := by
  apply toString_injective
  apply String.ext
  have := congrArg String.toList h
  rwa [String.toList_append, String.toList_append, List.append_cancel_left_eq] at this

theorem moveKey_injective {a b : Nat} (h : moveKey a = moveKey b) : a = b :=
  append_toString_injective h

theorem deleteKey_injective {a b : Nat} (h : deleteKey a = deleteKey b) : a = b :=
  append_toString_injective h

theorem moveKey_take (a : Nat) :
    (moveKey a).toList.take 10 = ("replicaToPartitions" : String).toList.take 10 :=
  take_append_toList _ _ (by decide)

theorem deleteKey_take (a : Nat) :
    (deleteKey a).toList.take 10 = ("replicaToDeletePartitions" : String).toList.take 10 :=
  take_append_toList _ _ (by decide)

theorem moveKey_ne_deleteKey (a b : Nat) : moveKey a ≠ deleteKey b := by
  intro h
  have h10 : (moveKey a).toList.take 10 = (deleteKey b).toList.take 10 := by rw [h]
  rw [moveKey_take, deleteKey_take] at h10
  exact absurd h10 (by decide)

/-- A key whose first letter is not `r` is no tier's key. -/
theorem ne_tierKey {k : String} (hk : k.toList.take 1 ≠ ['r']) (t : Nat) :
    k ≠ moveKey t ∧ k ≠ deleteKey t := by
  have hm : (moveKey t).toList.take 1 = ['r'] := take_append_toList _ _ (by decide)
  have hd : (deleteKey t).toList.take 1 = ['r'] := take_append_toList _ _ (by decide)
  exact ⟨fun h => hk (h ▸ hm), fun h => hk (h ▸ hd)⟩

/-! ## Finding a member -/

theorem lookup_cons (e : String × Value) (l : List (String × Value)) (k : String) :
    lookup (e :: l) k = if e.1 = k then some e.2 else lookup l k := by
  unfold lookup
  by_cases h : e.1 = k <;> simp [h]

/-- A member is found under its key when no other member has that key. -/
theorem lookup_eq_of_mem : ∀ {l : List (String × Value)} {k : String} {v : Value},
    (l.map Prod.fst).Nodup → (k, v) ∈ l → lookup l k = some v
  | [], _, _, _, h => nomatch h
  | e :: l, k, v, hd, h => by
    obtain ⟨he, hl⟩ := List.nodup_cons.1 hd
    rw [lookup_cons]
    rcases List.mem_cons.1 h with rfl | h
    · simp
    · -- the first member has another key, since `k` is among the later ones
      have hk : e.1 ≠ k := fun hk => he (hk ▸ List.mem_map_of_mem h)
      rw [if_neg hk]
      exact lookup_eq_of_mem hl h

theorem lookup_insertMember (k : String) (v : Value) (j : String) :
    ∀ acc : List (String × Value),
      lookup (Json.insertMember k v acc) j = if k = j then some v else lookup acc j
  | [] => by simp [Json.insertMember, lookup]
  | (k', v') :: rest => by
    unfold Json.insertMember
    by_cases hlt : k < k'
    · simp only [hlt, if_true, lookup_cons]
    · by_cases heq : k = k'
      · subst heq
        by_cases hj : k = j <;> simp [hj, lookup_cons]
      · simp only [hlt, heq, if_false, lookup_cons, lookup_insertMember k v j rest]
        by_cases hj : k = j
        · subst hj
          simp [Ne.symm heq]
        · simp [hj]

/-- Members with distinct keys, put in key order, are found as in the list. -/
theorem lookup_foldl_insertMember (j : String) :
    ∀ {l : List (String × Value)} (acc : List (String × Value)), (l.map Prod.fst).Nodup →
      lookup (l.foldl (fun acc e => Json.insertMember e.1 e.2 acc) acc) j =
        (lookup l j).or (lookup acc j)
  | [], _, _ => by simp [lookup]
  | e :: l, acc, hd => by
    obtain ⟨he, hl⟩ := List.nodup_cons.1 hd
    rw [List.foldl_cons, lookup_foldl_insertMember j _ hl, lookup_insertMember, lookup_cons]
    by_cases hj : e.1 = j
    · -- the later members do not have the key
      subst hj
      have hnone : lookup l e.1 = none := by
        unfold lookup
        simp only [Option.map_eq_none_iff, List.find?_eq_none, beq_iff_eq]
        exact fun x hx hxe => he (hxe ▸ List.mem_map_of_mem hx)
      simp [hnone]
    · simp [hj]

/-! ## The record's members -/

@[simp] theorem map_fst_tierMembers (m : Movement) (n : Nat) :
    (m.tierMembers n).map Prod.fst = (List.range n).flatMap fun t => [moveKey t, deleteKey t] := by
  simp [tierMembers, List.map_flatMap]

theorem nodup_tierKeys (n : Nat) :
    ((List.range n).flatMap fun t => [moveKey t, deleteKey t]).Nodup := by
  refine List.nodup_flatMap.2 ⟨fun t _ => ?_, List.nodup_range.imp fun hne => ?_⟩
  · simpa using moveKey_ne_deleteKey t t
  · -- keys of different tiers differ in their number
    intro k hk hk'
    simp only [List.mem_cons, List.not_mem_nil, or_false] at hk hk'
    rcases hk with rfl | rfl <;> rcases hk' with h | h
    · exact hne (moveKey_injective h)
    · exact moveKey_ne_deleteKey _ _ h
    · exact moveKey_ne_deleteKey _ _ h.symm
    · exact hne (deleteKey_injective h)

/-- No two members of a record share a key. -/
theorem nodup_memberKeys (m : Movement) : (m.members.map Prod.fst).Nodup := by
  rw [members, List.map_append, map_fst_tierMembers]
  refine List.nodup_append.2 ⟨by simp only [List.map_cons, List.map_nil]; decide,
    nodup_tierKeys _, ?_⟩
  -- the fixed keys do not start with the letter every tier key starts with
  intro k hk j hj
  have hr : k.toList.take 1 ≠ ['r'] := by
    simp only [List.map_cons, List.map_nil, List.mem_cons, List.not_mem_nil, or_false] at hk
    rcases hk with rfl | rfl | rfl | rfl | rfl | rfl <;> decide
  obtain ⟨t, -, hj⟩ := List.mem_flatMap.1 hj
  simp only [List.mem_cons, List.not_mem_nil, or_false] at hj
  rcases hj with rfl | rfl
  exacts [(ne_tierKey hr t).1, (ne_tierKey hr t).2]

theorem lookup_toRecord (m : Movement) (k : String) :
    lookup m.toRecord k = lookup m.members k := by
  rw [toRecord, lookup_foldl_insertMember k [] (nodup_memberKeys m)]
  simp [lookup]

/-- Every member is found in the record under its key. -/
theorem lookup_toRecord_of_mem {m : Movement} {k : String} {v : Value} (h : (k, v) ∈ m.members) :
    lookup m.toRecord k = some v := by
  rw [lookup_toRecord]
  exact lookup_eq_of_mem (nodup_memberKeys m) h

/-! ## Reading members -/

section Read

variable {ms : List (String × Value)}

theorem readCount_of_lookup {k : String} {n : Nat} (h : lookup ms k = some (.number (.nat n)))
    (hn : n ≤ maxU32) : readCount ms k = .ok n := by
  simp [readCount, h, hn]

theorem readStores_of_lookup {ss : List String}
    (h : lookup ms "storesPending" = some (.array (ss.map Value.string))) :
    readStores ms = .ok ss := by
  simp only [readStores, readArray, h]
  exact mapM_map_eq_pure fun _ _ => rfl

theorem readPartitions_of_lookup {k : String} {ps : List Nat}
    (h : lookup ms k = some (natArray ps)) (hps : ∀ p ∈ ps, p ≤ maxU32) :
    readPartitions ms k = .ok ps := by
  simp only [readPartitions, readArray, h, natArray]
  exact mapM_map_eq_pure fun p hp => by simp [hps p hp]; rfl

theorem readTopology_of_lookup {t : Topology}
    (h : lookup ms "initialTopology" = some (.string t.toJson))
    (ht : Topology.ofJson t.toJson = .ok t) : readTopology ms = .ok t := by
  simp [readTopology, h, ht]

theorem readCount_le {k : String} {n : Nat} (h : readCount ms k = .ok n) : n ≤ maxU32 := by
  unfold readCount at h
  split at h
  · cases h
  · split at h
    · cases h
      assumption
    · cases h
  · cases h

theorem readPartitions_le {k : String} {ps : List Nat} (h : readPartitions ms k = .ok ps) :
    ∀ p ∈ ps, p ≤ maxU32 := by
  unfold readPartitions at h
  cases hr : readArray ms k with
  | error e =>
    rw [hr] at h
    cases h
  | ok xs =>
    rw [hr] at h
    intro p hp
    -- each partition is the answer for one element, and only a 32-bit number gives one
    obtain ⟨x, -, hx⟩ := mapM_ok_mem h p hp
    split at hx
    · split at hx
      · cases hx
        assumption
      · cases hx
    · cases hx

end Read

/-! ## Tiers -/

/-- Tier numbers and partition ids of a tier map fit in 32 bits. -/
def TiersInRange (ts : Tiers) : Prop :=
  ∀ t ps, ts.get? t = some ps → t ≤ maxU32 ∧ ∀ p ∈ ps, p ≤ maxU32

/-- A tier map as a movement stores it: in 32 bits and with no empty tier. -/
structure TiersStored (ts : Tiers) : Prop where
  range : TiersInRange ts
  nonempty : ∀ t ps, ts.get? t = some ps → ps ≠ []

theorem tiersInRange_filterValues {ts : Tiers} (h : TiersInRange ts) (p : List Nat → Bool) :
    TiersInRange (ts.filterValues p) := by
  intro t ps hps
  rw [KeyMap.get?_filterValues, Option.filter_eq_some_iff] at hps
  exact h t ps hps.1

/-- The tier maps `make` keeps are stored ones. -/
theorem tiersStored_make {ts : Tiers} (h : TiersInRange ts) :
    TiersStored (ts.filterValues fun ps => !ps.isEmpty) := by
  refine ⟨tiersInRange_filterValues h _, fun t ps hps => ?_⟩
  rw [KeyMap.get?_filterValues, Option.filter_eq_some_iff] at hps
  simpa using hps.2

/-- Every stored tier is at most the highest one. -/
theorem le_maxTier {m : Movement} {t : Nat} (h : t ∈ m.moves.keys ++ m.deletes.keys) :
    t ≤ m.maxTier := by
  unfold maxTier
  rw [List.foldl_max]
  exact Nat.le_trans (List.le_max?_getD_of_mem h) (Nat.le_max_right _ _)

theorem maxTier_le {m : Movement} {b : Nat} (h : ∀ t ∈ m.moves.keys ++ m.deletes.keys, t ≤ b) :
    m.maxTier ≤ b := by
  unfold maxTier
  rw [List.foldl_max]
  cases hx : (m.moves.keys ++ m.deletes.keys).max? with
  | none => simp
  | some x => simpa using h x (List.max?_mem hx)

/-- `M` holds the tiers `f k` that are not empty for `t ≤ k < t + count`, and `ts` elsewhere. -/
def StoresFrom (f : Nat → List Nat) (t count : Nat) (ts M : Tiers) : Prop :=
  ∀ k, M.get? k = if t ≤ k ∧ k < t + count ∧ f k ≠ [] then some (f k) else ts.get? k

theorem storesFrom_zero (f : Nat → List Nat) (t : Nat) (ts : Tiers) : StoresFrom f t 0 ts ts := by
  intro k
  rw [if_neg (by omega)]

/-- Storing tier `t` first and the next `count` tiers after it stores `count + 1` tiers. -/
theorem storesFrom_succ {f : Nat → List Nat} {t count : Nat} {ts M : Tiers}
    (h : StoresFrom f (t + 1) count (if (f t).isEmpty then ts else ts.insert t (f t)) M) :
    StoresFrom f t (count + 1) ts M := by
  intro k
  rw [h k]
  by_cases hk : k = t
  · subst hk
    by_cases he : f k = [] <;> simp [he]
  · -- away from `t` the map read before is the same, and the range condition too
    have hts : (if (f t).isEmpty then ts else ts.insert t (f t)).get? k = ts.get? k := by
      split <;> simp [hk]
    have hc : (t + 1 ≤ k ∧ k < t + 1 + count ∧ f k ≠ []) ↔
        (t ≤ k ∧ k < t + (count + 1) ∧ f k ≠ []) := by
      constructor <;> rintro ⟨h1, h2, h3⟩ <;> exact ⟨by omega, by omega, h3⟩
    rw [hts]
    exact if_congr hc rfl rfl

/-- Reading `count` tiers from `t` stores each one read that is not empty. -/
theorem readTiers_spec {ms : List (String × Value)} {f g : Nat → List Nat} :
    ∀ (count t : Nat) (moves deletes : Tiers),
      (∀ s, t ≤ s → s < t + count →
        readPartitions ms (moveKey s) = .ok (f s) ∧ readPartitions ms (deleteKey s) = .ok (g s)) →
      ∃ M D, readTiers ms t count moves deletes = .ok (M, D) ∧
        StoresFrom f t count moves M ∧ StoresFrom g t count deletes D
  | 0, t, moves, deletes, _ =>
    ⟨moves, deletes, rfl, storesFrom_zero f t moves, storesFrom_zero g t deletes⟩
  | count + 1, t, moves, deletes, h => by
    obtain ⟨hf, hg⟩ := h t (Nat.le_refl t) (by omega)
    obtain ⟨M, D, hr, hM, hD⟩ := readTiers_spec count (t + 1)
      (if (f t).isEmpty then moves else moves.insert t (f t))
      (if (g t).isEmpty then deletes else deletes.insert t (g t))
      fun s hs hs' => h s (by omega) (by omega)
    refine ⟨M, D, ?_, storesFrom_succ hM, storesFrom_succ hD⟩
    simp only [readTiers, hf, hg]
    exact hr

theorem tiersInRange_insert {ts : Tiers} {t : Nat} {ps : List Nat} (h : TiersInRange ts)
    (ht : t ≤ maxU32) (hps : ∀ p ∈ ps, p ≤ maxU32) : TiersInRange (ts.insert t ps) := by
  intro k qs hk
  rw [KeyMap.get?_insert] at hk
  split at hk
  · cases hk
    subst k
    exact ⟨ht, hps⟩
  · exact h k qs hk

theorem tier_le {ts : Tiers} (h : TiersInRange ts) (t : Nat) : ∀ p ∈ tier ts t, p ≤ maxU32 := by
  intro p hp
  cases hk : ts.get? t with
  | none => simp [tier, KeyMap.getD, hk] at hp
  | some ps =>
    simp only [tier, KeyMap.getD, hk, Option.getD_some] at hp
    exact (h t ps hk).2 p hp

/-- The tiers read from a record fit in 32 bits. -/
theorem readTiers_range {ms : List (String × Value)} :
    ∀ {count t : Nat} {moves deletes M D : Tiers},
      readTiers ms t count moves deletes = .ok (M, D) → t + count ≤ maxU32 + 1 →
      TiersInRange moves → TiersInRange deletes → TiersInRange M ∧ TiersInRange D
  | 0, _, _, _, _, _, h, _, hm, hd => by
    cases h
    exact ⟨hm, hd⟩
  | count + 1, t, moves, deletes, M, D, h, hc, hm, hd => by
    simp only [readTiers] at h
    cases hf : readPartitions ms (moveKey t) with
    | error e => simp [hf] at h; cases h
    | ok moved =>
      cases hg : readPartitions ms (deleteKey t) with
      | error e => simp [hf, hg] at h; cases h
      | ok deleted =>
        simp only [hf, hg] at h
        -- tier `t` is in range, and so are the partitions read for it
        refine readTiers_range h (by omega) ?_ ?_
        · split
          · exact hm
          · exact tiersInRange_insert hm (by omega) (readPartitions_le hf)
        · split
          · exact hd
          · exact tiersInRange_insert hd (by omega) (readPartitions_le hg)

/-- Reading every tier up to the highest gives a stored map back. -/
theorem eq_of_storesFrom {ts M : Tiers} {n : Nat} (hs : TiersStored ts)
    (hn : ∀ t ∈ ts.keys, t < n) (h : StoresFrom (tier ts) 0 n KeyMap.empty M) : M = ts := by
  refine KeyMap.ext_get? fun k => ?_
  rw [h k, KeyMap.get?_empty]
  cases hk : ts.get? k with
  | none =>
    -- a tier not stored reads as empty
    have he : tier ts k = [] := by simp [tier, KeyMap.getD, hk]
    simp [he]
  | some ps =>
    have hkn := hn k (KeyMap.mem_keys_of_get? hk)
    have he : tier ts k = ps := by simp [tier, KeyMap.getD, hk]
    simp [he, hkn, hs.nonempty k ps hk]

/-! ## Movements a run can hold -/

/-- What a movement keeps that reading its record back needs: a stealer other than its donor,
numbers in 32 bits, no empty tier and no repeated store. -/
structure WellFormed (m : Movement) : Prop where
  distinct : m.stealer ≠ m.donor
  stealer : m.stealer ≤ maxU32
  donor : m.donor ≤ maxU32
  attempt : m.attempt ≤ maxU32
  moves : TiersStored m.moves
  deletes : TiersStored m.deletes
  stores : m.storesPending.Nodup

/-- The movements a run can hold: built by `make` from 32-bit numbers or read from a record,
then changed by completing or keeping stores and by setting or stepping the attempt. -/
inductive Obtained : Movement → Prop
  | make {stealer donor : Nat} {moves deletes : Tiers} {stores : List String}
      {topology : Topology} {attempt : Nat} {m : Movement} :
      stealer ≤ maxU32 → donor ≤ maxU32 → attempt ≤ maxU32 → TiersInRange moves →
      TiersInRange deletes →
      Movement.make stealer donor moves deletes stores topology attempt = .ok m → Obtained m
  | ofRecord {ms : List (String × Value)} {m : Movement} : Movement.ofRecord ms = .ok m → Obtained m
  | completeStore {m : Movement} (store : String) : Obtained m → Obtained (m.completeStore store).2
  | retainStores {m : Movement} (keep : String → Bool) : Obtained m → Obtained (m.retainStores keep)
  | setAttempt {m : Movement} {attempt : Nat} :
      attempt ≤ maxU32 → Obtained m → Obtained (m.setAttempt attempt)
  | nextAttempt {m m' : Movement} : Obtained m → m.nextAttempt = .ok m' → Obtained m'

namespace WellFormed

variable {m : Movement}

theorem of_make {stealer donor attempt : Nat} {moves deletes : Tiers} {stores : List String}
    {topology : Topology} (hs : stealer ≤ maxU32) (hd : donor ≤ maxU32) (ha : attempt ≤ maxU32)
    (hm : TiersInRange moves) (hl : TiersInRange deletes)
    (h : make stealer donor moves deletes stores topology attempt = .ok m) : m.WellFormed := by
  unfold make at h
  split at h
  · cases h
  · cases h
    exact ⟨by assumption, hs, hd, ha, tiersStored_make hm, tiersStored_make hl,
      nodup_firstOccurrences stores⟩

/-- A movement read from a record is built by `make` from what was read, all in 32 bits. -/
theorem of_ofRecord {ms : List (String × Value)} (h : ofRecord ms = .ok m) : m.WellFormed := by
  unfold ofRecord at h
  obtain ⟨stealer, hs, h⟩ := exists_of_bind_eq_ok h
  obtain ⟨donor, hd, h⟩ := exists_of_bind_eq_ok h
  obtain ⟨attempt, ha, h⟩ := exists_of_bind_eq_ok h
  obtain ⟨maxReplicas, hx, h⟩ := exists_of_bind_eq_ok h
  obtain ⟨stores, -, h⟩ := exists_of_bind_eq_ok h
  obtain ⟨topology, -, h⟩ := exists_of_bind_eq_ok h
  obtain ⟨⟨moves, deletes⟩, ht, h⟩ := exists_of_bind_eq_ok h
  -- the tiers run from 0 to the highest, itself a 32-bit count
  have hr := readTiers_range ht (by have := readCount_le hx; omega)
    (fun _ _ h => by simp at h) (fun _ _ h => by simp at h)
  exact of_make (readCount_le hs) (readCount_le hd) (readCount_le ha) hr.1 hr.2 h

theorem completeStore (hw : m.WellFormed) (store : String) :
    (m.completeStore store).2.WellFormed :=
  { hw with stores := hw.stores.filter _ }

theorem retainStores (hw : m.WellFormed) (keep : String → Bool) :
    (m.retainStores keep).WellFormed :=
  { hw with stores := hw.stores.filter _ }

theorem setAttempt (hw : m.WellFormed) {a : Nat} (ha : a ≤ maxU32) : (m.setAttempt a).WellFormed :=
  { hw with attempt := ha }

theorem nextAttempt (hw : m.WellFormed) {m' : Movement} (h : m.nextAttempt = .ok m') :
    m'.WellFormed := by
  unfold Movement.nextAttempt bump at h
  split at h
  · rename_i a hb
    cases h
    split at hb
    · cases hb
      exact { hw with attempt := by simp only; omega }
    · cases hb
  · cases h

theorem tiers_le (hw : m.WellFormed) : ∀ t ∈ m.moves.keys ++ m.deletes.keys, t ≤ maxU32 := by
  intro t ht
  rcases List.mem_append.1 ht with h | h
  · obtain ⟨ps, hps⟩ := KeyMap.exists_get?_of_mem_keys h
    exact (hw.moves.range t ps hps).1
  · obtain ⟨ps, hps⟩ := KeyMap.exists_get?_of_mem_keys h
    exact (hw.deletes.range t ps hps).1

end WellFormed

/-- Every movement a run can hold keeps what reading its record needs. -/
theorem Obtained.wellFormed {m : Movement} (h : m.Obtained) : m.WellFormed := by
  induction h with
  | make hs hd ha hm hl h => exact .of_make hs hd ha hm hl h
  | ofRecord h => exact .of_ofRecord h
  | completeStore store _ ih => exact ih.completeStore store
  | retainStores keep _ ih => exact ih.retainStores keep
  | setAttempt ha _ ih => exact ih.setAttempt ha
  | nextAttempt _ h ih => exact ih.nextAttempt h

/-! ## Reading the record back -/

/-- Both tiers of every number up to the highest are members of the record. -/
theorem tierMembers_mem {m : Movement} {s : Nat} (hs : s ≤ m.maxTier) :
    (moveKey s, natArray (tier m.moves s)) ∈ m.members ∧
      (deleteKey s, natArray (tier m.deletes s)) ∈ m.members := by
  have hmem : ∀ {e}, e ∈ [(moveKey s, natArray (tier m.moves s)),
      (deleteKey s, natArray (tier m.deletes s))] → e ∈ m.members :=
    fun he => List.mem_append_right _ (List.mem_flatMap.2 ⟨s, List.mem_range.2 (by omega), he⟩)
  exact ⟨hmem (by simp), hmem (by simp)⟩

/-- The tiers of a well-formed movement's record are read back as its tier maps. -/
theorem readTiers_toRecord {m : Movement} (hw : m.WellFormed) :
    readTiers m.toRecord 0 (m.maxTier + 1) KeyMap.empty KeyMap.empty =
      .ok (m.moves, m.deletes) := by
  -- each tier up to the highest is found with its partitions
  have htier : ∀ s, 0 ≤ s → s < 0 + (m.maxTier + 1) →
      readPartitions m.toRecord (moveKey s) = .ok (tier m.moves s) ∧
        readPartitions m.toRecord (deleteKey s) = .ok (tier m.deletes s) := by
    intro s _ hs
    have hmem := tierMembers_mem (m := m) (s := s) (by omega)
    exact ⟨readPartitions_of_lookup (lookup_toRecord_of_mem hmem.1) (tier_le hw.moves.range s),
      readPartitions_of_lookup (lookup_toRecord_of_mem hmem.2) (tier_le hw.deletes.range s)⟩
  obtain ⟨M, D, hr, hM, hD⟩ := readTiers_spec (m.maxTier + 1) 0 KeyMap.empty KeyMap.empty htier
  -- no tier is stored above the highest, so reading up to it gives both maps back
  have hlt : ∀ t ∈ m.moves.keys ++ m.deletes.keys, t < m.maxTier + 1 :=
    fun t ht => Nat.lt_succ_of_le (le_maxTier ht)
  rw [hr, eq_of_storesFrom hw.moves (fun t ht => hlt t (List.mem_append_left _ ht)) hM,
    eq_of_storesFrom hw.deletes (fun t ht => hlt t (List.mem_append_right _ ht)) hD]

/-- `make` rebuilds a well-formed movement from its own fields. -/
theorem make_of_wellFormed {m : Movement} (hw : m.WellFormed) :
    make m.stealer m.donor m.moves m.deletes m.storesPending m.initialTopology m.attempt =
      .ok m := by
  -- no stored tier is empty and no store repeats, so nothing is dropped
  unfold make
  rw [if_neg hw.distinct,
    KeyMap.filterValues_of_forall fun t ps h => by simpa using hw.moves.nonempty t ps h,
    KeyMap.filterValues_of_forall fun t ps h => by simpa using hw.deletes.nonempty t ps h,
    firstOccurrences_of_nodup hw.stores]

/-- Reading a well-formed movement's record gives the movement back, once its topology's
document is read back as the topology. -/
theorem ofRecord_toRecord {m : Movement} (hw : m.WellFormed)
    (ht : Topology.ofJson m.initialTopology.toJson = .ok m.initialTopology) :
    ofRecord m.toRecord = .ok m := by
  have hmax : m.maxTier ≤ maxU32 := maxTier_le hw.tiers_le
  have hstores : lookup m.toRecord "storesPending" =
      some (.array (m.storesPending.map Value.string)) :=
    lookup_toRecord_of_mem (by simp [members])
  unfold ofRecord
  rw [readCount_of_lookup (lookup_toRecord_of_mem (by simp [members])) hw.stealer,
    readCount_of_lookup (lookup_toRecord_of_mem (by simp [members])) hw.donor,
    readCount_of_lookup (lookup_toRecord_of_mem (by simp [members])) hw.attempt,
    readCount_of_lookup (lookup_toRecord_of_mem (by simp [members])) hmax,
    readStores_of_lookup hstores,
    readTopology_of_lookup (lookup_toRecord_of_mem (by simp [members])) ht]
  show (readTiers m.toRecord 0 (m.maxTier + 1) KeyMap.empty KeyMap.empty >>= fun tiers =>
    make m.stealer m.donor tiers.1 tiers.2 m.storesPending m.initialTopology m.attempt) = .ok m
  rw [readTiers_toRecord hw]
  exact make_of_wellFormed hw

/-- Every movement a run can hold, with an initial topology that validates and whose nodes'
numbers fit their widths, reads back from its record and from its JSON line as itself, every
field included: given that reading the line gives back the value it was written from. -/
theorem record_round_trip {m : Movement} (hm : m.Obtained)
    (hv : m.initialTopology.validate = .ok ())
    (hnodes : ∀ n ∈ m.initialTopology.nodes, n.InRange)
    (hline : Json.readDocument .object m.toLine = .ok (.object m.toRecord)) :
    ofRecord m.toRecord = .ok m ∧ ofLine m.toLine = .ok m := by
  have hr := ofRecord_toRecord hm.wellFormed (Topology.document_round_trip hv hnodes)
  refine ⟨hr, ?_⟩
  simp only [ofLine, hline]
  exact hr

/-- A movement whose top tier moves nothing and whose tier 0 lists one partition twice. -/
def smallMovement : Movement :=
  ⟨1, 0, KeyMap.empty.insert 0 [2, 2], KeyMap.empty.insert 1 [5], ["users"], 3, Topology.empty "t"⟩

theorem small_movement_reads_back :
    smallMovement.Obtained ∧ smallMovement.initialTopology.validate = .ok () ∧
      (∀ n ∈ smallMovement.initialTopology.nodes, n.InRange) ∧
      Json.readDocument .object smallMovement.toLine = .ok (.object smallMovement.toRecord) ∧
      (ofRecord smallMovement.toRecord = .ok smallMovement ∧
        ofLine smallMovement.toLine = .ok smallMovement) := by
  have hmk : make 1 0 (KeyMap.empty.insert 0 [2, 2]) (KeyMap.empty.insert 1 [5]) ["users", "users"]
      (Topology.empty "t") 3 = .ok smallMovement := rfl
  have hm : smallMovement.Obtained := .make (by decide) (by decide) (by decide)
    (tiersInRange_insert (fun _ _ h => by simp at h) (by decide) (by decide))
    (tiersInRange_insert (fun _ _ h => by simp at h) (by decide) (by decide)) hmk
  have hv : smallMovement.initialTopology.validate = .ok () := rfl
  have hnodes : ∀ n ∈ smallMovement.initialTopology.nodes, n.InRange := by decide
  -- the line is read by evaluating the reader and comparing what it gives
  have hline : Json.readDocument .object smallMovement.toLine =
      .ok (.object smallMovement.toRecord) := Json.eq_ok_of_same (by decide +kernel)
  exact ⟨hm, hv, hnodes, hline, record_round_trip hm hv hnodes hline⟩

end Movement

end Rebalance
