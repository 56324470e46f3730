import Rebalance.Fault
import Rebalance.Json.Read
/-!
# Reading back what the writer wrote

The reader gives back the value of every text the writer produces for the shapes a document is
read in: strings, bounded counts, lists, and records written as objects with their fields in
declaration order.

A reading step is judged by what it does to the characters ahead of the cursor: `Passes r text v
rest` says that from every cursor with `text` ahead of `rest`, `r` passes exactly `text` and gives
`v`. Positions play no part: they only name the place of an error. Steps compose as the reader's
`do` blocks do (`Passes.bind`), so each reader's lemma follows its own definition.

* The leaves are the scanners: a string's characters each come back from their escape
  (`scanString_escapeChar`), and the decimal digits of a 64-bit count come back as the count
  (`scanIntegerDigits_toDigits`).
* `Written sh d t v`: the text `t` opens a value, and `readShaped` at depth `d` reads it as `v`
  with any fuel that covers it, whatever closes after it. Strings and counts are written
  (`written_string`, `written_count`); so is a list of written items (`written_list`), and a
  record whose members are written under distinct keys in field order (`written_record`).
* A document whose text is a value written in its shape is read as that value
  (`readDocument_of_written`).

Fuel covers a text when it is at least the text's length: every member or item passes at least
one character, and the nesting passes a bracket per level.
-/

namespace Rebalance.Json

/-! ## The cursor -/

namespace Cursor

theorem advance_rest {c : Cursor} {ch : Char} {l : List Char} (h : c.rest = ch :: l) :
    c.advance.rest = l := by
  obtain ⟨rest, line, column⟩ := c
  cases h
  show (if ch = '\n' then _ else _ : Cursor).rest = l
  split <;> rfl

theorem advanceChars_rest (n : Nat) (c : Cursor) : (c.advanceChars n).rest = c.rest.drop n := by
  induction n generalizing c with
  | zero => rfl
  | succ n ih =>
    rw [advanceChars, ih]
    cases hc : c.rest with
    | nil => simp [advance, hc]
    | cons ch l => simp [advance_rest hc]

/-- The characters `skipBlanks` passes. -/
def Blank (ch : Char) : Prop := ch = ' ' ∨ ch = '\t' ∨ ch = '\r' ∨ ch = '\n'

instance : DecidablePred Blank := fun ch =>
  inferInstanceAs (Decidable (ch = ' ' ∨ ch = '\t' ∨ ch = '\r' ∨ ch = '\n'))

theorem skipBlanks_of_rest {c : Cursor} {ch : Char} {l : List Char} (h : c.rest = ch :: l)
    (hb : ¬ Blank ch) : c.skipBlanks = c := by
  simp only [Blank, not_or] at hb
  obtain ⟨h₁, h₂, h₃, h₄⟩ := hb
  obtain ⟨rest, line, column⟩ := c
  cases h
  simp [skipBlanks, skipBlanksFrom, h₁, h₂, h₃, h₄]

theorem skipBlanks_of_nil {c : Cursor} (h : c.rest = []) : c.skipBlanks = c := by
  obtain ⟨rest, line, column⟩ := c
  cases h
  rfl

end Cursor

/-! ## Steps that pass a text -/

theorem peekBlank_apply (c : Cursor) : peekBlank c = .ok c.skipBlanks.rest.head? c.skipBlanks :=
  rfl

theorem bump_apply (c : Cursor) : bump c = .ok () c.advance := rfl

theorem enter_apply {d : Nat} (h : 2 ≤ d) (c : Cursor) : enter d c = .ok (d - 1) c := by
  simp only [enter, if_neg (show ¬ d ≤ 1 by omega)]
  rfl

theorem scanWith_done {α : Type} {scan : List Char → Scan α} {c : Cursor} {v : α} {used : Nat}
    (h : scan c.rest = .done v used) : scanWith scan c = .ok v (c.advanceChars used) := by
  unfold scanWith
  simp only [bind, EStateM.bind, get, getThe, MonadStateOf.get]
  delta EStateM.get
  simp only [h]
  rfl

/-- From every cursor with `text` ahead of `rest`, the reader `r` passes `text` and gives `v`. -/
def Passes {α : Type} (r : Reader α) (text : List Char) (v : α) (rest : List Char) : Prop :=
  ∀ c : Cursor, c.rest = text ++ rest → ∃ c', r c = .ok v c' ∧ c'.rest = rest

namespace Passes

variable {α β : Type} {text rest : List Char}

theorem bind {x : Reader α} {f : α → Reader β} {t₁ t₂ : List Char} {a : α} {b : β}
    (hx : Passes x t₁ a (t₂ ++ rest)) (hf : Passes (f a) t₂ b rest) :
    Passes (x >>= f) (t₁ ++ t₂) b rest := by
  intro c hc
  obtain ⟨c₁, hx₁, hr₁⟩ := hx c (by simp [hc])
  obtain ⟨c₂, hf₂, hr₂⟩ := hf c₁ hr₁
  refine ⟨c₂, ?_, hr₂⟩
  show EStateM.bind x f c = _
  simp [EStateM.bind, hx₁, hf₂]

theorem pure (a : α) : Passes (Pure.pure a : Reader α) [] a rest :=
  fun c hc => ⟨c, rfl, hc⟩

/-- A step that passes nothing, then one that passes the text. -/
theorem bind_nil {x : Reader α} {f : α → Reader β} {a : α} {b : β}
    (hx : Passes x [] a (text ++ rest)) (hf : Passes (f a) text b rest) :
    Passes (x >>= f) text b rest :=
  bind hx hf

/-- A step that passes the whole text, then one that passes nothing. -/
theorem bind_last {x : Reader α} {f : α → Reader β} {a : α} {b : β}
    (hx : Passes x text a rest) (hf : Passes (f a) [] b rest) : Passes (x >>= f) text b rest := by
  have h : Passes (x >>= f) (text ++ []) b rest := bind (by rwa [List.nil_append]) hf
  rwa [List.append_nil] at h

theorem placing {r : Reader α} {v : α} (h : Passes r text v rest) :
    Passes (Json.placing r) text v rest := by
  intro c hc
  obtain ⟨c', hr, hr'⟩ := h c hc
  exact ⟨c', by simp [Json.placing, hr], hr'⟩

theorem closing {r : Reader α} {close : Reader Unit} {t₁ t₂ : List Char} {v : α}
    (hr : Passes r t₁ v (t₂ ++ rest)) (hc : Passes close t₂ () rest) :
    Passes (Json.closing r close) (t₁ ++ t₂) v rest := by
  intro c hct
  obtain ⟨c₁, hr₁, hrest₁⟩ := hr c (by simp [hct])
  obtain ⟨c₂, hc₂, hrest₂⟩ := hc c₁ hrest₁
  exact ⟨c₂, by simp [Json.closing, hr₁, hc₂], hrest₂⟩

/-- The next character is looked at, not passed, when it is not a blank. -/
theorem peekBlank {ch : Char} {l : List Char} (hb : ¬ Cursor.Blank ch) :
    Passes Json.peekBlank [] (some ch) (ch :: l) := by
  intro c hc
  exact ⟨c, by rw [peekBlank_apply, Cursor.skipBlanks_of_rest hc hb, hc]; rfl, hc⟩

theorem peekBlank_end : Passes Json.peekBlank [] none [] := by
  intro c hc
  exact ⟨c, by rw [peekBlank_apply, Cursor.skipBlanks_of_nil hc, hc]; rfl, hc⟩

/-- Looking at the next character, then going on from what was seen. -/
theorem peekBlank_bind {f : Option Char → Reader α} {ch : Char} {l : List Char} {v : α}
    (hb : ¬ Cursor.Blank ch) (ht : text ++ rest = ch :: l) (h : Passes (f (some ch)) text v rest) :
    Passes (Json.peekBlank >>= f) text v rest := by
  have hp : Passes Json.peekBlank [] (some ch) (text ++ rest) := ht ▸ peekBlank hb
  exact bind hp h

theorem bump (ch : Char) : Passes Json.bump [ch] () rest :=
  fun c hc => ⟨c.advance, bump_apply c, Cursor.advance_rest hc⟩

/-- Passing one character, then going on. -/
theorem bump_bind {f : Unit → Reader α} {ch : Char} {l : List Char} {v : α}
    (h : Passes (f ()) l v rest) : Passes (Json.bump >>= f) (ch :: l) v rest :=
  bind (bump ch) h

theorem scanWith {scan : List Char → Scan α} {v : α}
    (h : scan (text ++ rest) = .done v text.length) : Passes (Json.scanWith scan) text v rest := by
  intro c hc
  exact ⟨c.advanceChars text.length, scanWith_done (hc ▸ h),
    by simp [Cursor.advanceChars_rest, hc]⟩

theorem enter {d : Nat} (h : 2 ≤ d) : Passes (Json.enter d) [] (d - 1) rest :=
  fun c hc => ⟨c, enter_apply h c, hc⟩

end Passes

/-! ## Strings -/

/-- The characters a string is written with between its quotes. -/
def escaped (cs : List Char) : List Char := cs.flatMap fun c => (escapeChar c).toList

theorem quote_toList (s : String) : (quote s).toList = '"' :: escaped s.toList ++ ['"'] := by
  simp [quote, escaped, String.toList_join, List.flatMap_map]

/-- A string none of whose characters needs an escape is written as it is, between quotes. -/
theorem quote_toList_of_escaped {s : String} (h : escaped s.toList = s.toList) :
    (quote s).toList = '"' :: s.toList ++ ['"'] := by
  rw [quote_toList, h]

/-- Each pair of hex digits the writer uses for a control character reads back as it. -/
theorem hex2_reads : ∀ n < 32, (hex2 n).toList.length = 2 ∧
    hex4? '0' '0' ((hex2 n).toList.getD 0 'x') ((hex2 n).toList.getD 1 'x') = some n := by
  decide

theorem scanString_plain {c : Char} (h₁ : c ≠ '"') (h₂ : c ≠ '\\') (h₃ : ¬ c.toNat < 0x20)
    (acc l : List Char) (used : Nat) :
    scanString acc (c :: l) used = scanString (c :: acc) l (used + 1) := by
  -- the last equation: no quote, and no backslash to start an escape
  rw [scanString.eq_7 acc used c l h₁ (fun _ _ _ _ _ h _ => h₂ h) (fun _ h _ => h₂ h)
    (fun h _ => h₂ h) (fun _ _ h _ => h₂ h), if_neg h₃]

theorem scanString_control {c : Char} (h : c.toNat < 0x20) (acc l : List Char) (used : Nat) :
    scanString acc (('\\' :: 'u' :: '0' :: '0' :: (hex2 c.toNat).toList) ++ l) used =
      scanString (c :: acc) l (used + 6) := by
  obtain ⟨hlen, hread⟩ := hex2_reads c.toNat h
  obtain ⟨a, b, hx⟩ : ∃ a b, (hex2 c.toNat).toList = [a, b] := by
    rcases hx : (hex2 c.toNat).toList with _ | ⟨a, _ | ⟨b, _ | ⟨_, _⟩⟩⟩ <;> rw [hx] at hlen
    · simp at hlen
    · simp at hlen
    · exact ⟨a, b, rfl⟩
    · simp at hlen
  rw [hx] at hread
  change hex4? '0' '0' a b = some c.toNat at hread
  rw [hx]
  show scanString acc ('\\' :: 'u' :: '0' :: '0' :: a :: b :: l) used = _
  rw [scanString, hread]
  simp only
  -- a control character is no surrogate
  rw [if_neg (by omega), if_pos (by omega), Char.ofNat_toNat]

/-- A character comes back from its escape, whatever follows it. -/
theorem scanString_escapeChar (c : Char) (acc l : List Char) (used : Nat) :
    scanString acc ((escapeChar c).toList ++ l) used =
      scanString (c :: acc) l (used + (escapeChar c).length) := by
  unfold escapeChar
  split
  -- the short escapes
  next => rfl
  next => rfl
  next => rfl
  next => rfl
  next => rfl
  next => rfl
  next => rfl
  next _ h₁ h₂ _ _ _ _ _ =>
    split
    next hc =>
      have hlen : (hex2 c.toNat).length = 2 := by
        rw [← String.length_toList]; exact (hex2_reads c.toNat hc).1
      have hu : "\\u00".toList = ['\\', 'u', '0', '0'] := by decide
      have hul : "\\u00".length = 4 := by decide
      simp only [String.toList_append, String.length_append, hu, hul, hlen]
      exact scanString_control hc acc l used
    next hc =>
      simp only [Char.toString_eq_singleton, String.toList_singleton, String.length_singleton]
      exact scanString_plain h₁ h₂ hc acc l used

/-- The escaped characters of a string, up to the closing quote, come back as the string. -/
theorem scanString_escaped (cs : List Char) (acc rest : List Char) (used : Nat) :
    scanString acc (escaped cs ++ '"' :: rest) used =
      .done (String.ofList (acc.reverse ++ cs)) (used + (escaped cs).length + 1) := by
  induction cs generalizing acc used with
  | nil => simp [escaped, scanString]
  | cons c cs ih =>
    have he : escaped (c :: cs) = (escapeChar c).toList ++ escaped cs := by simp [escaped]
    rw [he, List.append_assoc, scanString_escapeChar, ih]
    simp only [List.reverse_cons, List.append_assoc, List.singleton_append, List.length_append,
      String.length_toList]
    congr 1
    omega

theorem Passes.readStringBody {rest : List Char} (s : String) :
    Passes readStringBody (escaped s.toList ++ ['"']) s rest := by
  apply Passes.scanWith
  rw [List.append_assoc, List.singleton_append, scanString_escaped]
  simp

/-! ## Counts -/

/-- What may follow a written value: the end of the text, a comma or a closing bracket. -/
def Closes (rest : List Char) : Prop :=
  rest.head? = none ∨ rest.head? = some ',' ∨ rest.head? = some ']' ∨ rest.head? = some '}'

theorem Closes.cases {l : List Char} (hl : Closes l) :
    l = [] ∨ ∃ r, l = ',' :: r ∨ l = ']' :: r ∨ l = '\x7d' :: r := by
  rcases l with _ | ⟨ch, r⟩
  · exact Or.inl rfl
  · simp only [Closes, List.head?_cons, Option.some.injEq, reduceCtorEq, false_or] at hl
    rcases hl with rfl | rfl | rfl
    · exact Or.inr ⟨r, Or.inl rfl⟩
    · exact Or.inr ⟨r, Or.inr (Or.inl rfl)⟩
    · exact Or.inr ⟨r, Or.inr (Or.inr rfl)⟩

/-- Items after a value, each after its comma, then what closed it: they close the value too. -/
theorem Closes.commas {α : Type} (f : α → List Char) (xs : List α) {l : List Char}
    (hl : Closes l) : Closes ((xs.flatMap fun x => ',' :: f x) ++ l) := by
  cases xs with
  | nil => simpa using hl
  | cons x xs => simp [Closes]

theorem digitChar_reads : ∀ n < 10, isDigit n.digitChar = true ∧ digitValue n.digitChar = n := by
  decide

theorem overflowsU64_eq_false {s d : Nat} (hd : d ≤ 9) (h : s * 10 + d ≤ maxU64) :
    overflowsU64 s d = false := by
  unfold maxU64 at h
  simp only [overflowsU64, Bool.or_eq_false_iff, decide_eq_false_iff_not, Bool.and_eq_false_imp,
    beq_iff_eq]
  omega

theorem scanIntegerDigits_digit {positive : Bool} {sig : Nat} {c : Char} (hc : isDigit c = true)
    (hd : digitValue c ≤ 9) (hs : sig * 10 + digitValue c ≤ maxU64) (rest : List Char)
    (used : Nat) :
    scanIntegerDigits positive sig (c :: rest) used =
      scanIntegerDigits positive (sig * 10 + digitValue c) rest (used + 1) := by
  rw [scanIntegerDigits, if_pos hc, overflowsU64_eq_false hd hs]
  rfl

/-- The decimal digits of a 64-bit count are read as the count. -/
theorem scanIntegerDigits_toDigits (positive : Bool) (n : Nat) (hn : n ≤ maxU64)
    (l : List Char) (used : Nat) :
    scanIntegerDigits positive 0 (Nat.toDigits 10 n ++ l) used =
      scanIntegerDigits positive n l (used + (Nat.toDigits 10 n).length) := by
  -- by strong induction: the digits of `n` are those of `n / 10`, then the last one
  induction n using Nat.strongRecOn generalizing l used with
  | ind n ih =>
    by_cases h10 : n < 10
    · obtain ⟨hdig, hval⟩ := digitChar_reads n h10
      rw [Nat.toDigits_of_lt_base h10, List.singleton_append,
        scanIntegerDigits_digit hdig (by omega) (by omega), hval]
      simp
    · have hq : n / 10 < n := Nat.div_lt_self (by omega) (by decide)
      obtain ⟨hdig, hval⟩ := digitChar_reads (n % 10) (Nat.mod_lt n (by decide))
      rw [Nat.toDigits_of_base_le (by decide) (by omega), List.append_assoc,
        List.singleton_append, ih (n / 10) hq (by omega),
        scanIntegerDigits_digit hdig (by omega) (by omega), hval, Nat.div_add_mod' n 10]
      rw [List.length_append, List.length_singleton, Nat.add_assoc]

theorem Closes.afterInteger {l : List Char} (hl : Closes l) (positive : Bool) (sig used : Nat) :
    Json.afterInteger positive sig l used = .done (integerOf positive sig) used := by
  rcases hl.cases with rfl | ⟨r, rfl | rfl | rfl⟩ <;> rfl

theorem Closes.scanIntegerDigits {l : List Char} (hl : Closes l) (positive : Bool)
    (sig used : Nat) :
    Json.scanIntegerDigits positive sig l used = Json.afterInteger positive sig l used := by
  rcases hl.cases with rfl | ⟨r, rfl | rfl | rfl⟩ <;> rfl

/-- The leading digit of a positive count is a digit other than zero. -/
theorem toDigits_head {n : Nat} (hn : 0 < n) :
    ∃ d ds, Nat.toDigits 10 n = d :: ds ∧ d ≠ '0' ∧ isDigit d = true ∧ digitValue d ≤ 9 := by
  induction n using Nat.strongRecOn with
  | ind n ih =>
    by_cases h10 : n < 10
    · obtain ⟨hdig, hval⟩ := digitChar_reads n h10
      refine ⟨n.digitChar, [], Nat.toDigits_of_lt_base h10, ?_, hdig, by omega⟩
      simp only [ne_eq, Nat.digitChar_eq_zero]
      omega
    · obtain ⟨d, ds, h, hd⟩ := ih (n / 10) (Nat.div_lt_self (by omega) (by decide)) (by omega)
      refine ⟨d, ds ++ [(n % 10).digitChar], ?_, hd⟩
      rw [Nat.toDigits_of_base_le (by decide) (by omega), h, List.cons_append]

/-- The decimal digits of a count open with a digit. -/
theorem toDigits_cons (n : Nat) : ∃ d ds, Nat.toDigits 10 n = d :: ds ∧ isDigit d = true := by
  rcases Nat.eq_zero_or_pos n with rfl | hpos
  · exact ⟨'0', [], Nat.toDigits_zero 10, rfl⟩
  · obtain ⟨d, ds, hds, -, hdig, -⟩ := toDigits_head hpos
    exact ⟨d, ds, hds, hdig⟩

/-- A 64-bit count is read back from its decimal digits. -/
theorem scanNumber_toDigits {n : Nat} (hn : n ≤ maxU64) {l : List Char} (hl : Closes l) :
    scanNumber true (Nat.toDigits 10 n ++ l) = .done (.nat n) (Nat.toDigits 10 n).length := by
  rcases Nat.eq_zero_or_pos n with rfl | hpos
  · rw [Nat.toDigits_zero]
    rcases hl.cases with rfl | ⟨r, rfl | rfl | rfl⟩ <;> rfl
  · obtain ⟨d, ds, hds, hd0, hdig, hd9⟩ := toDigits_head hpos
    -- a leading digit other than zero starts the digit loop
    have hstart : scanNumber true (d :: (ds ++ l)) =
        scanIntegerDigits true 0 (d :: (ds ++ l)) 0 := by
      rw [scanIntegerDigits_digit hdig hd9 (by unfold maxU64; omega)]
      simp [scanNumber, hd0, hdig]
    rw [hds, List.cons_append, hstart, ← List.cons_append, ← hds,
      scanIntegerDigits_toDigits true n hn, hl.scanIntegerDigits, hl.afterInteger]
    simp [integerOf]

theorem toString_toList (n : Nat) : (toString n).toList = Nat.toDigits 10 n := by
  show (Nat.repr n).toList = _
  simp [Nat.repr]

theorem Passes.readNumber {n : Nat} (hn : n ≤ maxU64) {rest : List Char} (hr : Closes rest) :
    Passes (Json.readNumber true) (Nat.toDigits 10 n) (.nat n) rest :=
  Passes.scanWith (scanNumber_toDigits hn hr)

/-! ## Written values -/

/-- The characters that open a written value. -/
def Opens (ch : Char) : Prop := ch = '"' ∨ ch = '[' ∨ ch = '\x7b' ∨ isDigit ch = true

instance : DecidablePred Opens := fun ch =>
  inferInstanceAs (Decidable (ch = '"' ∨ ch = '[' ∨ ch = '\x7b' ∨ isDigit ch = true))

theorem Opens.not_blank {ch : Char} (h : Opens ch) : ¬ Cursor.Blank ch := by
  rintro (rfl | rfl | rfl | rfl) <;> revert h <;> decide

/-- A value does not open with what ends a list or an object, or separates their parts. -/
theorem Opens.ne {ch : Char} (h : Opens ch) : ch ≠ ']' ∧ ch ≠ '\x7d' ∧ ch ≠ ',' := by
  refine ⟨?_, ?_, ?_⟩ <;> rintro rfl <;> revert h <;> decide

/-- The characters `t` are a written value of shape `sh` for a reader at depth `d`: they open a
value, and `readShaped` reads them as `v` with any fuel that covers them, whatever closes after
them. -/
structure Written (sh : Shape) (d : Nat) (t : List Char) (v : Value) : Prop where
  opens : ∃ ch l, t = ch :: l ∧ Opens ch
  reads : ∀ fuel rest, t.length ≤ fuel → Closes rest → Passes (readShaped d fuel sh) t v rest

theorem written_string (d : Nat) (s : String) : Written .string d (quote s).toList (.string s) where
  opens := ⟨'"', _, quote_toList s, Or.inl rfl⟩
  reads fuel rest hf _ := by
    obtain ⟨f, rfl⟩ : ∃ f, fuel = f + 1 := ⟨fuel - 1, by simp [quote_toList] at hf; omega⟩
    rw [readShaped, quote_toList]
    refine Passes.placing (Passes.peekBlank_bind (by decide) rfl ?_)
    exact Passes.bump_bind (Passes.bind_last (Passes.readStringBody s) (Passes.pure _))

theorem written_count {n max : Nat} (h : n ≤ max) (hn : n ≤ maxU64) (d : Nat) (name : String) :
    Written (.count max name) d (toString n).toList (.number (.nat n)) where
  opens := by
    obtain ⟨d, ds, hds, hdig⟩ := toDigits_cons n
    exact ⟨d, ds, by rw [toString_toList, hds], Or.inr (Or.inr (Or.inr hdig))⟩
  reads fuel rest hf hr := by
    rw [toString_toList] at hf ⊢
    obtain ⟨d, ds, hds, hdig⟩ := toDigits_cons n
    obtain ⟨f, rfl⟩ : ∃ f, fuel = f + 1 := ⟨fuel - 1, by rw [hds] at hf; simp at hf; omega⟩
    rw [readShaped]
    refine Passes.placing ?_
    rw [hds]
    refine Passes.peekBlank_bind (Opens.not_blank (Or.inr (Or.inr (Or.inr hdig)))) rfl ?_
    split
    next _ heq => cases heq
    next _ heq =>
      cases heq
      exact absurd hdig (by decide)
    next _ _ _ heq =>
      cases heq
      rw [if_pos hdig, ← hds]
      refine Passes.bind_last (Passes.readNumber hn hr) ?_
      simp only [checkCount, if_pos h]
      exact Passes.pure _

/-! ## Lists -/

theorem intercalate_comma (t : List Char) (ts : List (List Char)) :
    List.intercalate [','] (t :: ts) = t ++ ts.flatMap (',' :: ·) := by
  induction ts generalizing t with
  | nil => simp
  | cons t' ts ih => rw [List.intercalate_cons_cons, ih]; simp

theorem Passes.nextElement_close (first : Bool) {rest : List Char} :
    Passes (nextElement first) [] none (']' :: rest) := by
  unfold nextElement
  exact Passes.peekBlank_bind (by decide) rfl (Passes.pure none)

theorem Passes.nextElement_first {ch : Char} {l : List Char} (h : Opens ch) :
    Passes (nextElement true) [] (some ()) (ch :: l) := by
  unfold nextElement
  refine Passes.peekBlank_bind h.not_blank rfl ?_
  split
  next heq => cases heq; exact absurd rfl h.ne.1
  next => exact Passes.pure _
  next => exact Passes.pure _
  next => cases ‹some ch = none›

theorem Passes.nextElement_comma {ch : Char} {l : List Char} (h : Opens ch) :
    Passes (nextElement false) [','] (some ()) (ch :: l) := by
  unfold nextElement
  refine Passes.peekBlank_bind (by decide) rfl (Passes.bump_bind ?_)
  refine Passes.peekBlank_bind h.not_blank rfl ?_
  split
  next heq => cases heq; exact absurd rfl h.ne.1
  next => exact Passes.pure _
  next => cases ‹some ch = none›

/-- One item of an array, then the items after it. -/
theorem readShapedItems_step {d F : Nat} {item : Shape} {first : Bool} {acc : List Value}
    {sep t R rest : List Char} {v : Value} {out : List Value}
    (hnext : Passes (nextElement first) sep (some ()) (t ++ R ++ rest))
    (hw : Written item d t v) (hf : t.length ≤ F) (hc : Closes (R ++ rest))
    (hr : Passes (readShapedItems d F item false (v :: acc)) R out rest) :
    Passes (readShapedItems d (F + 1) item first acc) (sep ++ (t ++ R)) out rest := by
  rw [readShapedItems]
  refine Passes.bind hnext ?_
  exact Passes.bind (hw.reads F (R ++ rest) hf hc) hr

theorem readShapedItems_end {d F : Nat} {item : Shape} {first : Bool} {acc : List Value}
    {rest : List Char} :
    Passes (readShapedItems d (F + 1) item first acc) [] acc.reverse (']' :: rest) := by
  rw [readShapedItems]
  refine Passes.bind_last (Passes.nextElement_close first) ?_
  exact Passes.pure _

/-- The items after the first, each after its comma, up to the closing bracket. -/
theorem readShapedItems_after {d : Nat} {item : Shape} {rest : List Char}
    (ps : List (List Char × Value)) (hps : ∀ p ∈ ps, Written item d p.1 p.2) :
    ∀ (F : Nat) (acc : List Value), (ps.flatMap (',' :: ·.1)).length < F →
      Passes (readShapedItems d F item false acc) (ps.flatMap (',' :: ·.1))
        (acc.reverse ++ ps.map Prod.snd) (']' :: rest) := by
  induction ps with
  | nil =>
    intro F acc hF
    obtain ⟨F, rfl⟩ : ∃ G, F = G + 1 := ⟨F - 1, by omega⟩
    have h : Passes (readShapedItems d (F + 1) item false acc) [] acc.reverse (']' :: rest) :=
      readShapedItems_end
    simpa using h
  | cons p ps ih =>
    intro F acc hF
    obtain ⟨F, rfl⟩ : ∃ G, F = G + 1 := ⟨F - 1, by simp at hF; omega⟩
    have hw := hps p List.mem_cons_self
    obtain ⟨ch, l, hp, ho⟩ := hw.opens
    have hr := ih (fun q hq => hps q (List.mem_cons_of_mem _ hq)) F (p.2 :: acc)
      (by simp at hF ⊢; omega)
    -- what follows the item is the next comma or the closing bracket
    have hc : Closes (ps.flatMap (',' :: ·.1) ++ ']' :: rest) :=
      Closes.commas _ ps (by simp [Closes])
    have hnext : Passes (nextElement false) [','] (some ())
        (p.1 ++ ps.flatMap (',' :: ·.1) ++ ']' :: rest) := by
      rw [hp]
      exact Passes.nextElement_comma ho
    have h := readShapedItems_step hnext hw (by simp at hF; omega) hc hr
    simpa using h

/-- All the items of an array, up to its closing bracket. -/
theorem readShapedItems_all {d F : Nat} {item : Shape} {rest : List Char}
    (ps : List (List Char × Value)) (hps : ∀ p ∈ ps, Written item d p.1 p.2)
    (hF : (List.intercalate [','] (ps.map Prod.fst)).length < F) :
    Passes (readShapedItems d F item true []) (List.intercalate [','] (ps.map Prod.fst))
      (ps.map Prod.snd) (']' :: rest) := by
  obtain ⟨F, rfl⟩ : ∃ G, F = G + 1 := ⟨F - 1, by omega⟩
  cases ps with
  | nil => exact readShapedItems_end
  | cons p ps =>
    rw [List.map_cons, intercalate_comma, List.flatMap_map] at hF ⊢
    have hw := hps p List.mem_cons_self
    obtain ⟨ch, l, hp, ho⟩ := hw.opens
    have hr := @readShapedItems_after d item rest ps
      (fun q hq => hps q (List.mem_cons_of_mem _ hq)) F [p.2]
      (by
        have h1 := congrArg List.length hp
        rw [List.length_cons] at h1
        rw [List.length_append] at hF
        omega)
    have hc : Closes (ps.flatMap (',' :: ·.1) ++ ']' :: rest) :=
      Closes.commas _ ps (by simp [Closes])
    have hnext : Passes (nextElement true) [] (some ())
        (p.1 ++ ps.flatMap (',' :: ·.1) ++ ']' :: rest) := by
      rw [hp]
      exact Passes.nextElement_first ho
    have h := readShapedItems_step hnext hw (by rw [List.length_append] at hF; omega) hc hr
    simpa using h

theorem Passes.closeArray {rest : List Char} : Passes Json.closeArray [']'] () rest := by
  unfold Json.closeArray
  exact Passes.peekBlank_bind (by decide) rfl (Passes.bump ']')

/-- The text of an array: its items' texts between brackets, separated by commas. -/
def arrayText (ts : List (List Char)) : List Char := '[' :: List.intercalate [','] ts ++ [']']

/-- An array of written items is written. -/
theorem written_list {d : Nat} (hd : 2 ≤ d) {item : Shape} (ps : List (List Char × Value))
    (hps : ∀ p ∈ ps, Written item (d - 1) p.1 p.2) :
    Written (.list item) d (arrayText (ps.map Prod.fst)) (.array (ps.map Prod.snd)) where
  opens := ⟨'[', _, rfl, Or.inr (Or.inl rfl)⟩
  reads fuel rest hf _ := by
    obtain ⟨f, rfl⟩ : ∃ f, fuel = f + 1 := ⟨fuel - 1, by simp [arrayText] at hf; omega⟩
    rw [readShaped, arrayText]
    refine Passes.placing (Passes.peekBlank_bind (by decide) rfl ?_)
    split
    next heq => cases heq
    next =>
      refine Passes.bind_nil (Passes.enter hd) (Passes.bump_bind ?_)
      refine Passes.bind_last (Passes.closing (readShapedItems_all ps hps ?_) Passes.closeArray) ?_
      · simp [arrayText] at hf
        omega
      · exact Passes.pure _
    next hne heq => cases heq; exact absurd rfl hne

/-! ## Records -/

/-- A field of a record as written: its key, the shape it is read in, its text and its value. -/
structure Member where
  key : String
  shape : Shape
  text : List Char
  value : Value

namespace Member

/-- The field the member fills. -/
def field (m : Member) : String × Shape := (m.key, m.shape)

/-- The member as written in an object: its quoted key, a colon, and its value's text. -/
def written (m : Member) : List Char := (quote m.key).toList ++ ':' :: m.text

end Member

/-- The text of a record written as an object: its members in order between braces. -/
def objectText (ms : List Member) : List Char :=
  '\x7b' :: List.intercalate [','] (ms.map Member.written) ++ ['\x7d']

theorem Passes.nextMember_close (first : Bool) {rest : List Char} :
    Passes (nextMember first) [] none ('\x7d' :: rest) := by
  unfold nextMember
  exact Passes.peekBlank_bind (by decide) rfl (Passes.pure none)

theorem Passes.nextMember_first {l : List Char} :
    Passes (nextMember true) [] (some ()) ('"' :: l) := by
  unfold nextMember
  exact Passes.peekBlank_bind (by decide) rfl (Passes.pure _)

theorem Passes.nextMember_comma {l : List Char} :
    Passes (nextMember false) [','] (some ()) ('"' :: l) := by
  unfold nextMember
  refine Passes.peekBlank_bind (by decide) rfl (Passes.bump_bind ?_)
  exact Passes.peekBlank_bind (by decide) rfl (Passes.pure _)

theorem Passes.readKey (k : String) {rest : List Char} :
    Passes Json.readKey (quote k).toList k rest := by
  rw [quote_toList]
  exact Passes.bump_bind (Passes.readStringBody k)

theorem Passes.readColon {rest : List Char} : Passes Json.readColon [':'] () rest := by
  unfold Json.readColon
  exact Passes.peekBlank_bind (by decide) rfl (Passes.bump ':')

/-- One member of an object, then the members after it. -/
theorem readFieldMembers_step {d F : Nat} {fields : List (String × Shape)} {first : Bool}
    {slots : List (Option Value)} {i : Nat} {m : Member} {sep R rest : List Char}
    {out : List (Option Value)}
    (hnext : Passes (nextMember first) sep (some ()) (m.written ++ R ++ rest))
    (hi : fieldIndex? fields m.key = some i) (hslot : slots[i]? = some none)
    (hfield : fields[i]? = some m.field)
    (hw : Written m.shape d m.text m.value) (hf : m.text.length ≤ F) (hc : Closes (R ++ rest))
    (hr : Passes (readFieldMembers d F fields false (slots.set i (some m.value))) R out rest) :
    Passes (readFieldMembers d (F + 1) fields first slots) (sep ++ (m.written ++ R)) out rest := by
  rw [readFieldMembers]
  refine Passes.bind hnext ?_
  rw [Member.written, List.append_assoc, List.cons_append]
  refine Passes.bind (Passes.readKey m.key) ?_
  -- the key names the field's slot, still empty
  simp only [hi, hslot, hfield, Option.map_some, Option.getD_some, Member.field]
  refine Passes.bind Passes.readColon ?_
  exact Passes.bind (hw.reads F (R ++ rest) hf hc) hr

theorem readFieldMembers_end {d F : Nat} {fields : List (String × Shape)} {first : Bool}
    {slots : List (Option Value)} {rest : List Char} :
    Passes (readFieldMembers d (F + 1) fields first slots) [] slots ('\x7d' :: rest) := by
  rw [readFieldMembers]
  refine Passes.bind_last (Passes.nextMember_close first) ?_
  exact Passes.pure _

/-- Under distinct keys, a member's key names its own field. -/
theorem fieldIndex?_key {pre suf : List Member} {m : Member}
    (hkeys : ((pre ++ m :: suf).map Member.key).Nodup) :
    fieldIndex? ((pre ++ m :: suf).map Member.field) m.key = some pre.length := by
  induction pre with
  | nil => simp [fieldIndex?, List.findIdx?_cons, Member.field]
  | cons q pre ih =>
    have hq : q.key ≠ m.key := by
      intro h
      exact (List.nodup_cons.1 hkeys).1 (by simp [h])
    have hi := ih (List.nodup_cons.1 hkeys).2
    simp only [fieldIndex?] at hi ⊢
    rw [List.cons_append, List.map_cons, List.findIdx?_cons, hi]
    simp [Member.field, hq]

/-- The slots of a record's fields once the members `pre` are read and `suf` are not. -/
def slotsAfter (pre suf : List Member) : List (Option Value) :=
  pre.map (some ∘ Member.value) ++ suf.map fun _ => none

theorem slotsAfter_get (pre suf : List Member) (m : Member) :
    (slotsAfter pre (m :: suf))[pre.length]? = some none := by
  simp [slotsAfter]

theorem slotsAfter_set (pre suf : List Member) (m : Member) :
    (slotsAfter pre (m :: suf)).set pre.length (some m.value) = slotsAfter (pre ++ [m]) suf := by
  simp [slotsAfter, List.set_append_right]

/-- The members after the first, each after its comma, up to the closing brace. -/
theorem readFieldMembers_after {d : Nat} {rest : List Char} {ms : List Member}
    (hkeys : (ms.map Member.key).Nodup) (hms : ∀ m ∈ ms, Written m.shape d m.text m.value)
    (suf : List Member) :
    ∀ (pre : List Member), ms = pre ++ suf → ∀ F, (suf.flatMap (',' :: ·.written)).length < F →
      Passes (readFieldMembers d F (ms.map Member.field) false (slotsAfter pre suf))
        (suf.flatMap (',' :: ·.written)) (ms.map (some ∘ Member.value)) ('\x7d' :: rest) := by
  induction suf with
  | nil =>
    intro pre hms F hF
    obtain ⟨F, rfl⟩ : ∃ G, F = G + 1 := ⟨F - 1, by omega⟩
    subst hms
    simpa [slotsAfter] using
      (readFieldMembers_end : Passes (readFieldMembers d (F + 1) _ false (slotsAfter pre [])) _ _ _)
  | cons m suf ih =>
    intro pre hsplit F hF
    obtain ⟨F, rfl⟩ : ∃ G, F = G + 1 := ⟨F - 1, by simp at hF; omega⟩
    have hw := hms m (by simp [hsplit])
    have hr := ih (pre ++ [m]) (by simp [hsplit]) F (by simp [Member.written] at hF ⊢; omega)
    rw [← slotsAfter_set] at hr
    -- what follows the member is the next comma or the closing brace
    have hc : Closes (suf.flatMap (',' :: ·.written) ++ '\x7d' :: rest) :=
      Closes.commas _ suf (by simp [Closes])
    have hnext : Passes (nextMember false) [','] (some ())
        (m.written ++ suf.flatMap (',' :: ·.written) ++ '\x7d' :: rest) := by
      simp only [Member.written, quote_toList, List.cons_append, List.append_assoc]
      exact Passes.nextMember_comma
    subst hsplit
    have h := readFieldMembers_step hnext (fieldIndex?_key hkeys) (slotsAfter_get pre suf m)
      (by simp) hw (by simp [Member.written] at hF; omega) hc hr
    simpa using h

/-- All members of an object, up to its closing brace. -/
theorem readFieldMembers_all {d F : Nat} {rest : List Char} {ms : List Member}
    (hkeys : (ms.map Member.key).Nodup) (hms : ∀ m ∈ ms, Written m.shape d m.text m.value)
    (hF : (List.intercalate [','] (ms.map Member.written)).length < F) :
    Passes (readFieldMembers d F (ms.map Member.field) true (slotsAfter [] ms))
      (List.intercalate [','] (ms.map Member.written)) (ms.map (some ∘ Member.value))
      ('\x7d' :: rest) := by
  obtain ⟨F, rfl⟩ : ∃ G, F = G + 1 := ⟨F - 1, by omega⟩
  cases ms with
  | nil => exact readFieldMembers_end
  | cons m suf =>
    rw [@List.map_cons _ _ Member.written, intercalate_comma, List.flatMap_map] at hF ⊢
    have hw := hms m List.mem_cons_self
    have hr := @readFieldMembers_after d rest (m :: suf) hkeys hms suf [m] rfl F
      (by simp [Member.written] at hF ⊢; omega)
    rw [← List.nil_append [m], ← slotsAfter_set] at hr
    have hc : Closes (suf.flatMap (',' :: ·.written) ++ '\x7d' :: rest) :=
      Closes.commas _ suf (by simp [Closes])
    have hnext : Passes (nextMember true) [] (some ())
        (m.written ++ suf.flatMap (',' :: ·.written) ++ '\x7d' :: rest) := by
      simp only [Member.written, quote_toList, List.cons_append, List.append_assoc]
      exact Passes.nextMember_first
    have h := readFieldMembers_step hnext (@fieldIndex?_key [] suf m hkeys)
      (slotsAfter_get [] suf m) (by simp) hw (by simp [Member.written] at hF; omega) hc hr
    simpa using h

theorem Passes.closeObject {rest : List Char} : Passes Json.closeObject ['\x7d'] () rest := by
  unfold Json.closeObject
  exact Passes.peekBlank_bind (by decide) rfl (Passes.bump '\x7d')

/-- Filled slots give their values, in order. -/
theorem fieldValues_filled (ms : List Member) :
    fieldValues (ms.map Member.field) (ms.map (some ∘ Member.value)) = pure (ms.map Member.value) := by
  induction ms with
  | nil => rfl
  | cons m ms ih =>
    simp only [List.map_cons, Member.field, Function.comp_apply, fieldValues, ih]
    rfl

/-- A record written as an object, its keys distinct and its members written, is read back as
the array of its members' values. -/
theorem written_record {d : Nat} (hd : 2 ≤ d) (name : String) (ms : List Member)
    (hkeys : (ms.map Member.key).Nodup) (hms : ∀ m ∈ ms, Written m.shape (d - 1) m.text m.value) :
    Written (.record name (ms.map Member.field)) d (objectText ms) (.array (ms.map Member.value)) where
  opens := ⟨'\x7b', _, rfl, Or.inr (Or.inr (Or.inl rfl))⟩
  reads fuel rest hf _ := by
    obtain ⟨f, rfl⟩ : ∃ f, fuel = f + 1 := ⟨fuel - 1, by simp [objectText] at hf; omega⟩
    rw [readShaped, objectText]
    refine Passes.placing (Passes.peekBlank_bind (by decide) rfl ?_)
    split
    next heq => cases heq
    next heq => cases heq
    next =>
      refine Passes.bind_nil (Passes.enter hd) (Passes.bump_bind ?_)
      have hall := @readFieldMembers_all (d - 1) f rest ms hkeys hms
        (by simp [objectText] at hf; omega)
      have hslots : (ms.map Member.field).map (fun _ => none) = slotsAfter [] ms := by
        simp only [slotsAfter, List.map_nil, List.nil_append, List.map_map]
        rfl
      rw [hslots]
      refine Passes.bind_last (Passes.closing hall Passes.closeObject) ?_
      rw [fieldValues_filled]
      exact Passes.bind_nil (Passes.pure _) (Passes.pure _)
    next _ hne heq => cases heq; exact absurd rfl hne

/-! ## Documents -/

/-- A document whose whole text is a value written in the shape is read as that value. -/
theorem readDocument_of_written {sh : Shape} {s : String} {v : Value}
    (hw : Written sh 128 s.toList v) : readDocument sh s = .ok v := by
  have hfuel : s.toList.length ≤ 2 * s.length + 8 := by
    rw [String.length_toList]
    omega
  -- the value takes the whole text, and nothing but the end follows it
  obtain ⟨c, hc, hrest⟩ := hw.reads _ [] hfuel (Or.inl rfl) (Cursor.start s)
    (by simp [Cursor.start])
  obtain ⟨c', hc', -⟩ := Passes.peekBlank_end c hrest
  simp only [readDocument, EStateM.run, bind, EStateM.bind, hc, hc']
  rfl

end Rebalance.Json
