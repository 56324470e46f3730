import Rebalance.Proofs.RecordRoundTrip
/-!
# A plan's JSON lines read back

A plan is written one movement per line (`planToLines`), and read by splitting the text at line
feeds, trimming white space from each piece and reading every piece left non-empty as one
movement (`planOfLines`). Reading what was written gives the movements back, in order, and so it
does when white space, blank lines among it, stands before any line or after the last.

The framing rests on two facts about the written lines:

* the compact writer never writes a line feed (`Json.Value.lineFeed_not_mem_write`): a line feed
  inside a store, host or topology name is escaped, and numbers are digits and signs;
* a line is an object, so it starts with `{` and ends with `}`, which are not white space, and
  trimming leaves it whole (`textLines_of_enclosed`).

Splitting then cuts the text exactly after each line (`textLines_append_lineFeed`), and white
space before a line or at the end of the text yields nothing (`textLines_white_append`).
-/

namespace Rebalance

/-! ## The compact writer writes no line feed -/

namespace Json

theorem lineFeed_not_mem_toString (n : Nat) : '\n' ∉ (toString n).toList := by
  rw [Nat.toString_eq_repr, Nat.toList_repr]
  intro h
  exact absurd (Nat.isDigit_of_mem_toDigits (by decide) (by decide) h) (by decide)

theorem lineFeed_not_mem_intToString (i : Int) : '\n' ∉ (toString i).toList := by
  rw [Int.toString_eq_repr, Int.repr_eq_if]
  split
  · exact lineFeed_not_mem_toString _
  · simpa using lineFeed_not_mem_toString _

/-- A number laid out in a style is digits, a point, an `e` and signs. -/
theorem lineFeed_not_mem_layout (style : Decimal.Style) (digits : Nat) (p : Int) :
    '\n' ∉ (Decimal.layout style digits p).toList := by
  have hs : '\n' ∉ Nat.toDigits 10 digits := by simpa using lineFeed_not_mem_toString digits
  have htake : ∀ k, '\n' ∉ (Nat.toDigits 10 digits).take k := fun _ h => hs (List.mem_of_mem_take h)
  have hdrop : ∀ k, '\n' ∉ (Nat.toDigits 10 digits).drop k := fun _ h => hs (List.mem_of_mem_drop h)
  have htail : '\n' ∉ (Nat.toDigits 10 digits).tail := fun h => hs (List.mem_of_mem_tail h)
  have he := lineFeed_not_mem_intToString ((toString digits).length + p - 1)
  unfold Decimal.layout
  simp only [Decimal.zeros]
  split_ifs <;> simp_all [List.mem_replicate]

theorem lineFeed_not_mem_number (n : Number) : '\n' ∉ n.write.toList := by
  cases n with
  | nat n => exact lineFeed_not_mem_toString n
  | neg n => exact lineFeed_not_mem_intToString n
  | float x =>
    simp only [Number.write, Decimal.render]
    split_ifs <;> simp [lineFeed_not_mem_layout]

/-- A character is written escaped when it is a line feed or another control character. -/
theorem lineFeed_not_mem_escapeChar (c : Char) : '\n' ∉ (escapeChar c).toList := by
  unfold escapeChar
  split
  all_goals try decide
  rename_i _ _ hn _ _ _ _
  split
  · -- a control character is written `\u00` and two hex digits of its code
    rename_i hc
    have hhex : ∀ k < 0x20, '\n' ∉ (hex2 k).toList := by decide
    simpa using hhex c.toNat hc
  · simpa [eq_comm] using hn

theorem lineFeed_not_mem_quote (s : String) : '\n' ∉ (quote s).toList := by
  simp only [quote, String.toList_append, String.toList_join, List.mem_append, not_or]
  refine ⟨⟨by decide, ?_⟩, by decide⟩
  rintro h
  obtain ⟨_, hmem, h⟩ := List.mem_flatMap.1 h
  obtain ⟨c, -, rfl⟩ := List.mem_map.1 hmem
  exact lineFeed_not_mem_escapeChar c h

mutual

/-- The compact text of a value has no line feed. -/
theorem Value.lineFeed_not_mem_write : ∀ v : Value, '\n' ∉ v.write.toList
  | .null => by decide
  | .bool true => by decide
  | .bool false => by decide
  | .number n => lineFeed_not_mem_number n
  | .string s => lineFeed_not_mem_quote s
  | .array items => by
    simpa [Value.write] using lineFeed_not_mem_writeItems items
  | .object members => by
    simpa [Value.write] using lineFeed_not_mem_writeMembers members

theorem lineFeed_not_mem_writeItems : ∀ vs : List Value, '\n' ∉ (writeItems vs).toList
  | [] => by decide
  | [v] => Value.lineFeed_not_mem_write v
  | v :: w :: rest => by
    have hv := Value.lineFeed_not_mem_write v
    have hrest := lineFeed_not_mem_writeItems (w :: rest)
    simp only [writeItems, String.toList_append, List.mem_append, not_or]
    exact ⟨⟨hv, by decide⟩, hrest⟩

theorem lineFeed_not_mem_writeMembers :
    ∀ ms : List (String × Value), '\n' ∉ (writeMembers ms).toList
  | [] => by decide
  | [(k, v)] => by
    have hk := lineFeed_not_mem_quote k
    have hv := Value.lineFeed_not_mem_write v
    simp only [writeMembers, String.toList_append, List.mem_append, not_or]
    exact ⟨⟨hk, by decide⟩, hv⟩
  | (k, v) :: m :: rest => by
    have hk := lineFeed_not_mem_quote k
    have hv := Value.lineFeed_not_mem_write v
    have hrest := lineFeed_not_mem_writeMembers (m :: rest)
    simp only [writeMembers, String.toList_append, List.mem_append, not_or]
    exact ⟨⟨⟨⟨hk, by decide⟩, hv⟩, by decide⟩, hrest⟩

end

/-- An object is written between braces. -/
theorem toList_write_object (ms : List (String × Value)) :
    (Value.object ms).write.toList = '{' :: ((writeMembers ms).toList ++ ['}']) := by
  simp [Value.write]

end Json

/-! ## The lines of a text -/

section Lines

theorem trimWhite_white_cons {c : Char} (hc : isWhite c = true) (l : List Char) :
    trimWhite (String.ofList (c :: l)) = trimWhite (String.ofList l) := by
  simp [trimWhite, List.dropWhile_cons_of_pos hc]

@[simp] theorem textLines_nil : textLines [] = [] := rfl

/-- A line feed cuts the text in two. -/
theorem textLines_append_lineFeed (x y : List Char) :
    textLines (x ++ '\n' :: y) = textLines x ++ textLines y := by
  unfold textLines
  rw [List.splitOn_append_cons_self, List.map_append, List.filter_append]

/-- A white character in front shows in no line: a line feed ends an empty piece, any other joins
the first piece and is trimmed off it. -/
theorem textLines_white_cons {c : Char} (hc : isWhite c = true) (t : List Char) :
    textLines (c :: t) = textLines t := by
  by_cases hn : c = '\n'
  · subst hn
    simpa using textLines_append_lineFeed [] t
  · obtain ⟨h, rest, hsplit⟩ := List.exists_cons_of_ne_nil (List.splitOn_ne_nil '\n' t)
    have hcons : (c :: t).splitOn '\n' = (c :: h) :: rest := by
      rw [List.splitOn_cons_eq_if_modifyHead, if_neg (by simpa using hn), hsplit]
      rfl
    unfold textLines
    rw [hcons, hsplit, List.map_cons, List.map_cons, trimWhite_white_cons hc]

theorem textLines_white_append {w : List Char} (hw : ∀ c ∈ w, isWhite c = true) (t : List Char) :
    textLines (w ++ t) = textLines t := by
  induction w with
  | nil => rfl
  | cons c w ih =>
    rw [List.cons_append, textLines_white_cons (hw c List.mem_cons_self),
      ih fun c hc => hw c (List.mem_cons_of_mem _ hc)]

/-- A piece with no line feed, between two characters that are not white space, is one line,
trimmed of nothing. -/
theorem textLines_of_enclosed {a b : Char} {body : List Char} (ha : isWhite a = false)
    (hb : isWhite b = false) (hn : '\n' ∉ body) :
    textLines (a :: (body ++ [b])) = [String.ofList (a :: (body ++ [b]))] := by
  -- a line feed is white space, so neither end is one
  have ha' : a ≠ '\n' := fun h => by subst h; exact absurd ha (by decide)
  have hb' : b ≠ '\n' := fun h => by subst h; exact absurd hb (by decide)
  have hnl : '\n' ∉ a :: (body ++ [b]) := by
    simp only [List.mem_cons, List.mem_append, List.not_mem_nil, or_false, not_or]
    exact ⟨Ne.symm ha', hn, Ne.symm hb'⟩
  unfold textLines
  rw [List.splitOn_eq_singleton hnl]
  simp [trimWhite, List.dropWhile_cons_of_neg, ha, hb]

end Lines

/-! ## Plans -/

namespace Movement

/-- What reading a movement's line back rests on, as for its record: the movement is one a run can
hold and its initial topology validates, and reading the topology's document and the movement's
line gives back the values they were written from. -/
structure LineReadable (m : Movement) : Prop where
  obtained : m.Obtained
  valid : m.initialTopology.validate = .ok ()
  document : Json.readDocument Topology.shape m.initialTopology.toJson =
    .ok m.initialTopology.shapedValue
  line : Json.readDocument .object m.toLine = .ok (.object m.toRecord)

theorem LineReadable.ofLine_toLine {m : Movement} (h : m.LineReadable) : ofLine m.toLine = .ok m := by
  simp only [ofLine, h.line]
  exact ofRecord_toRecord h.obtained.wellFormed (Topology.ofJson_toJson h.valid h.document)

/-- A movement's line, ended by a line feed, is read as one line whatever follows. -/
theorem textLines_toLine (m : Movement) (rest : List Char) :
    textLines (m.toLine.toList ++ '\n' :: rest) = m.toLine :: textLines rest := by
  have hn : '\n' ∉ (Json.writeMembers m.toRecord).toList := Json.lineFeed_not_mem_writeMembers _
  rw [textLines_append_lineFeed, toLine, Json.toList_write_object,
    textLines_of_enclosed (by decide) (by decide) hn, ← Json.toList_write_object,
    String.ofList_toList]
  rfl

end Movement

/-- The lines of movements, each after white space, with white space at the end, are the
movements' lines. -/
theorem textLines_padded (tail : String) (htail : ∀ c ∈ tail.toList, isWhite c = true) :
    ∀ (ws : List String) (ms : List Movement), ws.length = ms.length →
      (∀ w ∈ ws, ∀ c ∈ w.toList, isWhite c = true) →
      textLines (String.join ((ws.zip ms).map fun p => p.1 ++ p.2.toLine ++ "\n") ++ tail).toList =
        ms.map Movement.toLine
  | [], [], _, _ => by simpa using textLines_white_append htail []
  | w :: ws, m :: ms, hlen, hw => by
    have hrest := textLines_padded tail htail ws ms (by simpa using hlen)
      fun w' hw' => hw w' (List.mem_cons_of_mem _ hw')
    simp only [List.zip_cons_cons, List.map_cons, String.join_cons, String.toList_append,
      List.append_assoc] at hrest ⊢
    rw [textLines_white_append (hw w List.mem_cons_self)]
    simpa [Movement.textLines_toLine] using hrest

/-- Reading a plan's JSON lines gives back its movements, in order, when each movement's line
reads back as the movement: also with white space, blank lines among it, before any line and
after the last. -/
theorem plan_lines_round_trip {ms : List Movement} (hms : ∀ m ∈ ms, m.LineReadable) :
    planOfLines (planToLines ms) = .ok ms ∧
      ∀ (ws : List String) (tail : String), ws.length = ms.length →
        (∀ w ∈ tail :: ws, ∀ c ∈ w.toList, isWhite c = true) →
        planOfLines (String.join ((ws.zip ms).map fun p => p.1 ++ p.2.toLine ++ "\n") ++ tail) =
          .ok ms := by
  have hread : (ms.map Movement.toLine).mapM Movement.ofLine = .ok ms :=
    mapM_map_eq_pure fun m hm => (hms m hm).ofLine_toLine
  have hpadded : ∀ (ws : List String) (tail : String), ws.length = ms.length →
      (∀ w ∈ tail :: ws, ∀ c ∈ w.toList, isWhite c = true) →
      planOfLines (String.join ((ws.zip ms).map fun p => p.1 ++ p.2.toLine ++ "\n") ++ tail) =
        .ok ms := by
    intro ws tail hlen hw
    unfold planOfLines
    rw [textLines_padded tail (hw tail List.mem_cons_self) ws ms hlen
      fun w hw' => hw w (List.mem_cons_of_mem _ hw')]
    exact hread
  refine ⟨?_, hpadded⟩
  -- the plan's own text has nothing before its lines and nothing after them
  have htext : planToLines ms =
      String.join (((ms.map fun _ => "").zip ms).map fun p => p.1 ++ p.2.toLine ++ "\n") ++ "" := by
    clear hms hread hpadded
    induction ms with
    | nil => rfl
    | cons m ms ih => simpa [planToLines] using ih
  rw [htext]
  exact hpadded _ "" (by simp) (by simp)

namespace Movement

/-- Two movements whose store names and topology name hold a line feed, a carriage return, a tab
and a line separator. -/
def brokenNamesPlan : List Movement :=
  [⟨1, 0, KeyMap.empty.insert 0 [2], KeyMap.empty, ["a\nb", "c\u2028"], 0, Topology.empty "t\r\n"⟩,
    ⟨2, 0, KeyMap.empty.insert 1 [3], KeyMap.empty.insert 0 [4], [" \t"], 7, Topology.empty "u"⟩]

theorem broken_names_plan_reads_back :
    (∀ m ∈ brokenNamesPlan, m.LineReadable) ∧
      (planOfLines (planToLines brokenNamesPlan) = .ok brokenNamesPlan ∧
        ∀ (ws : List String) (tail : String), ws.length = brokenNamesPlan.length →
          (∀ w ∈ tail :: ws, ∀ c ∈ w.toList, isWhite c = true) →
          planOfLines (String.join ((ws.zip brokenNamesPlan).map fun p =>
            p.1 ++ p.2.toLine ++ "\n") ++ tail) = .ok brokenNamesPlan) := by
  have hempty : TiersInRange KeyMap.empty := fun _ _ h => by simp at h
  -- each movement is built by make, and its texts are read by evaluating the reader
  have hmk₁ : make 1 0 (KeyMap.empty.insert 0 [2]) KeyMap.empty ["a\nb", "c\u2028"]
      (Topology.empty "t\r\n") 0 =
      .ok ⟨1, 0, KeyMap.empty.insert 0 [2], KeyMap.empty, ["a\nb", "c\u2028"], 0,
        Topology.empty "t\r\n"⟩ := rfl
  have hmk₂ : make 2 0 (KeyMap.empty.insert 1 [3]) (KeyMap.empty.insert 0 [4]) [" \t"]
      (Topology.empty "u") 7 =
      .ok ⟨2, 0, KeyMap.empty.insert 1 [3], KeyMap.empty.insert 0 [4], [" \t"], 7,
        Topology.empty "u"⟩ := rfl
  have hfirst : LineReadable ⟨1, 0, KeyMap.empty.insert 0 [2], KeyMap.empty, ["a\nb", "c\u2028"], 0,
      Topology.empty "t\r\n"⟩ :=
    ⟨.make (by decide) (by decide) (by decide) (tiersInRange_insert hempty (by decide) (by decide))
      hempty hmk₁, rfl, Json.eq_ok_of_same (by decide +kernel),
      Json.eq_ok_of_same (by decide +kernel)⟩
  have hsecond : LineReadable ⟨2, 0, KeyMap.empty.insert 1 [3], KeyMap.empty.insert 0 [4], [" \t"], 7,
      Topology.empty "u"⟩ :=
    ⟨.make (by decide) (by decide) (by decide) (tiersInRange_insert hempty (by decide) (by decide))
      (tiersInRange_insert hempty (by decide) (by decide)) hmk₂, rfl,
      Json.eq_ok_of_same (by decide +kernel), Json.eq_ok_of_same (by decide +kernel)⟩
  have hms : ∀ m ∈ brokenNamesPlan, m.LineReadable := by
    simp only [brokenNamesPlan, List.mem_cons, List.not_mem_nil, or_false, forall_eq_or_imp,
      forall_eq]
    exact ⟨hfirst, hsecond⟩
  exact ⟨hms, plan_lines_round_trip hms⟩

end Movement

end Rebalance
