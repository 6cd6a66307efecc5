import Comprehend.Proofs.Number.Numeral
import Comprehend.Script.Property

/-! # Texts as keys of arrays

A text of digits is taken for an index and read as an integer, and the two go by different digits. Any
digit makes a text one of digits, and only decimal ones can be read, of whatever script they are and
with zeros in front. So an item is found under many texts, its plain numeral among them, and a text of
digits that denotes no integer ends the run. -/

namespace Comprehend

/-! ## Texts of digits -/

namespace Decimal

open Text

/-- A text of decimal digits, at least one and no more than the limit, and the number that they make. -/
def Denotes (s : String) (n : Nat) : Prop :=
  ∃ ds : List Nat, s.toList.map decimalValue? = ds.map some ∧ ds ≠ [] ∧ ds.length ≤ digitLimit ∧
    ofDigits 10 ds = n

/-- A text of digits that has too many of them, or one that is in no numeral. -/
def Unreadable (s : String) : Prop :=
  allDigits s = true ∧ (digitLimit < s.toList.length ∨ ∃ c ∈ s.toList, isDecimal c = false)

section

variable {s : String} {n : Nat} {c : Char} {cs : List Char} {ds : List Nat}

theorem allDigits_iff : allDigits s = true ↔ s.toList ≠ [] ∧ ∀ c ∈ s.toList, isDigit c = true := by
  simp [allDigits]

theorem isDecimal_of_map (h : cs.map decimalValue? = ds.map some) :
    ∀ c ∈ cs, isDecimal c = true := by
  intro c hc
  have hmem : decimalValue? c ∈ ds.map some := h ▸ List.mem_map_of_mem hc
  obtain ⟨d, -, hd⟩ := List.mem_map.1 hmem
  rw [isDecimal, ← hd]
  rfl

theorem exists_map_of_isDecimal (h : ∀ c ∈ cs, isDecimal c = true) :
    ∃ ds : List Nat, cs.map decimalValue? = ds.map some := by
  induction cs with
  | nil => exact ⟨[], rfl⟩
  | cons c cs ih =>
    obtain ⟨hc, hcs⟩ := List.forall_mem_cons.1 h
    obtain ⟨d, hd⟩ := Option.isSome_iff_exists.1 hc
    obtain ⟨ds, hds⟩ := ih hcs
    exact ⟨d :: ds, by rw [List.map_cons, List.map_cons, hd, hds]⟩

theorem Denotes.allDigits (h : Denotes s n) : allDigits s = true := by
  obtain ⟨ds, hds, hne, -⟩ := h
  refine allDigits_iff.2 ⟨fun hnil => hne ?_, fun c hc => ?_⟩
  · rw [hnil] at hds
    exact List.map_eq_nil_iff.1 hds.symm
  · exact isDigit_of_isDecimal (isDecimal_of_map hds c hc)

/-- A text of digits denotes a number unless it cannot be read. -/
theorem denotes_or_unreadable (h : allDigits s = true) : (∃ n, Denotes s n) ∨ Unreadable s := by
  by_cases hlone : ∃ c ∈ s.toList, isDecimal c = false
  · exact .inr ⟨h, .inr hlone⟩
  · have hdecimal : ∀ c ∈ s.toList, isDecimal c = true := by
      intro c hc
      by_contra hfalse
      exact hlone ⟨c, hc, Bool.eq_false_iff.2 hfalse⟩
    obtain ⟨ds, hds⟩ := exists_map_of_isDecimal hdecimal
    have hlength : s.toList.length = ds.length := by simpa using congrArg List.length hds
    by_cases hlimit : ds.length ≤ digitLimit
    · refine .inl ⟨_, ds, hds, fun hnil => (allDigits_iff.1 h).1 ?_, hlimit, rfl⟩
      exact List.length_eq_zero_iff.1 (by rw [hlength, hnil, List.length_nil])
    · exact .inr ⟨h, .inl (by omega)⟩

/-! ## Reading them -/

theorem digitRun_of_map (h : cs.map decimalValue? = ds.map some) :
    digitRun decimalValue? true cs = some ds := by
  induction cs generalizing ds with
  | nil =>
    obtain rfl := List.map_eq_nil_iff.1 h.symm
    rfl
  | cons c cs ih =>
    cases ds with
    | nil => cases h
    | cons d ds =>
      obtain ⟨hc, hcs⟩ := List.cons.inj h
      have hlow : c ≠ '_' := by
        rintro rfl
        cases hc
      rw [digitRun, if_neg hlow, hc, ih hcs]
      rfl

/-- Among digits there is no sign and no low line. -/
theorem readDecimal_eq (hne : cs ≠ []) (h : ∀ c ∈ cs, isDigit c = true) :
    readDecimal cs = match digitRun decimalValue? true cs with
      | some ds => if ds.length ≤ digitLimit then .ok (ofDigits 10 ds) else .error .outOfDomain
      | none => .error .outOfDomain := by
  obtain ⟨c, cs, rfl⟩ := List.exists_cons_of_ne_nil hne
  have hc := h c List.mem_cons_self
  have hlow : c ≠ '_' := by
    rintro rfl
    revert hc
    decide
  have hsign : splitSign (c :: cs) = (false, c :: cs) := by
    rw [splitSign] <;>
    · rintro _ hsplit
      obtain ⟨rfl, -⟩ := List.cons.inj hsplit
      revert hc
      decide
  have hafter : digitRun decimalValue? false (c :: cs) = digitRun decimalValue? true (c :: cs) := by
    rw [digitRun, digitRun, if_neg hlow, if_neg hlow]
  rw [readDecimal, hsign]
  simp only [hafter]
  rfl

theorem Denotes.readDecimal (h : Denotes s n) : readDecimal s.toList = .ok (n : Int) := by
  obtain ⟨hne, hdigits⟩ := allDigits_iff.1 h.allDigits
  obtain ⟨ds, hds, -, hlimit, hvalue⟩ := h
  rw [readDecimal_eq hne hdigits, digitRun_of_map hds]
  simp only [if_pos hlimit, hvalue]

theorem Unreadable.readDecimal (h : Unreadable s) : readDecimal s.toList = .error .outOfDomain := by
  obtain ⟨hall, hbad⟩ := h
  obtain ⟨hne, hdigits⟩ := allDigits_iff.1 hall
  rw [readDecimal_eq hne hdigits]
  cases hrun : digitRun decimalValue? true s.toList with
  | none => rfl
  | some ds =>
    have hdecimal : ∀ c ∈ s.toList, isDecimal c = true := by
      intro c hc
      rcases mem_of_digitRun hrun hc with rfl | ⟨d, hd⟩
      · exact absurd (hdigits '_' hc) (by decide)
      · rw [isDecimal, hd]
        rfl
    obtain ⟨ds', hds⟩ := exists_map_of_isDecimal hdecimal
    obtain rfl : ds' = ds := Option.some.inj ((digitRun_of_map hds).symm.trans hrun)
    have hlength : s.toList.length = ds'.length := by simpa using congrArg List.length hds
    rcases hbad with hlong | ⟨c, hc, hlone⟩
    · simp only [if_neg (show ¬ ds'.length ≤ digitLimit by omega)]
    · rw [hdecimal c hc] at hlone
      cases hlone

/-! ## Plain numerals -/

theorem ascii_of_isDigit (h : c.isDigit = true) : 48 ≤ c.toNat ∧ c.toNat ≤ 57 := by
  simpa [Char.isDigit, UInt32.le_iff_toNat_le] using h

theorem map_decimalValue? (h : ∀ c ∈ cs, c.isDigit = true) :
    cs.map decimalValue? = (cs.map (·.toNat - 48)).map some := by
  rw [List.map_map]
  refine List.map_congr_left fun c hc => ?_
  have := ascii_of_isDigit (h c hc)
  rw [decimalValue?_of_ascii (by omega), if_pos (h c hc)]
  rfl

theorem ofDigits_map (cs : List Char) :
    ofDigits 10 (cs.map (·.toNat - 48)) = Nat.ofDigitChars 10 cs 0 := by
  rw [ofDigits, List.foldl_map]
  rfl

/-- The plain numeral of a number denotes it. -/
theorem denotes_toString (h : n < 10 ^ digitLimit) : Denotes (toString n) n := by
  have hdigits (c : Char) (hc : c ∈ Nat.toDigits 10 n) : c.isDigit = true :=
    Nat.isDigit_of_mem_toDigits (by decide) (by decide) hc
  have hlist : (toString n).toList = Nat.toDigits 10 n := by simp
  refine ⟨(Nat.toDigits 10 n).map (·.toNat - 48), ?_, by simp, ?_, ?_⟩
  · rw [hlist, map_decimalValue? hdigits]
  · rw [List.length_map]
    exact (Nat.length_toDigits_le_iff (by decide) (by decide)).2 h
  · rw [ofDigits_map, Nat.ofDigitChars_ten_toDigits]

/-- A numeral that starts with a zero is that of zero. -/
theorem eq_zero_of_toDigits (h : (Nat.toDigits 10 n).head? = some '0') : n = 0 := by
  induction n using Nat.strongRecOn with
  | ind n ih =>
    by_cases hsmall : n < 10
    · rw [Nat.toDigits_of_lt_base hsmall] at h
      simpa using h
    · obtain ⟨c, cs, hcs⟩ := List.exists_cons_of_ne_nil (Nat.toDigits_ne_nil (n := n / 10) (b := 10))
      rw [Nat.toDigits_of_base_le (by decide) (by omega), hcs] at h
      have := ih (n / 10) (by omega) (by rw [hcs]; exact h)
      omega

theorem toDigits_of_isDigit (h : c.isDigit = true) : Nat.toDigits 10 (c.toNat - 48) = [c] := by
  have := ascii_of_isDigit h
  have hchar : Nat.digitChar (c.toNat - 48) = c := by
    rw [← Char.toNat_inj, Nat.toNat_digitChar_of_lt_ten (by omega)]
    omega
  rw [Nat.toDigits_of_lt_base (by omega), hchar]

/-- Digits behind a number that is not zero are the last ones of a numeral. -/
theorem toDigits_ofDigitChars (hcs : ∀ c ∈ cs, c.isDigit = true) (hn : 0 < n) :
    Nat.toDigits 10 (Nat.ofDigitChars 10 cs n) = Nat.toDigits 10 n ++ cs := by
  induction cs generalizing n with
  | nil => simp
  | cons c cs ih =>
    obtain ⟨hc, hcs⟩ := List.forall_mem_cons.1 hcs
    have := ascii_of_isDigit hc
    calc Nat.toDigits 10 (Nat.ofDigitChars 10 (c :: cs) n)
        = Nat.toDigits 10 (10 * n + (c.toNat - 48)) ++ cs := by
          rw [Nat.ofDigitChars_cons]
          exact ih hcs (by omega)
      _ = Nat.toDigits 10 n ++ Nat.toDigits 10 (c.toNat - 48) ++ cs := by
          rw [Nat.toDigits_append_toDigits (by decide) hn (by omega)]
      _ = Nat.toDigits 10 n ++ c :: cs := by
          rw [toDigits_of_isDigit hc, List.append_assoc]
          rfl

/-- Digits without a zero in front are a numeral. -/
theorem toDigits_ofDigitChars_zero (hcs : ∀ d ∈ c :: cs, d.isDigit = true) (hc : c ≠ '0') :
    Nat.toDigits 10 (Nat.ofDigitChars 10 (c :: cs) 0) = c :: cs := by
  obtain ⟨hdigit, hcs⟩ := List.forall_mem_cons.1 hcs
  have := ascii_of_isDigit hdigit
  have hne : c.toNat ≠ 48 := fun h => hc (Char.toNat_inj.1 h)
  have hrest := toDigits_ofDigitChars (n := c.toNat - 48) hcs (by omega)
  rw [toDigits_of_isDigit hdigit] at hrest
  rw [Nat.ofDigitChars_cons, Nat.mul_zero, Nat.zero_add]
  exact hrest

/-- Of the texts that denote a number its plain numeral is the one that has no digits of another script
and no zero in front. -/
theorem Denotes.eq_toString_iff (h : Denotes s n) : s = toString n ↔
    (∀ c ∈ s.toList, c.isDigit = true) ∧ (s = "0" ∨ s.toList.head? ≠ some '0') := by
  constructor
  · rintro rfl
    have hlist : (toString n).toList = Nat.toDigits 10 n := by simp
    rw [hlist]
    refine ⟨fun c hc => Nat.isDigit_of_mem_toDigits (by decide) (by decide) hc, ?_⟩
    by_cases hzero : n = 0
    · exact .inl (hzero ▸ rfl)
    · exact .inr fun hhead => hzero (eq_zero_of_toDigits hhead)
  · rintro ⟨hdigits, hhead⟩
    have hne := (allDigits_iff.1 h.allDigits).1
    obtain ⟨ds, hds, -, -, rfl⟩ := h
    obtain rfl : ds = s.toList.map (·.toNat - 48) :=
      (List.map_inj_right fun _ _ => Option.some.inj).1 (hds.symm.trans (map_decimalValue? hdigits))
    rw [← String.toList_inj, Nat.toString_eq_repr, Nat.toList_repr, ofDigits_map]
    rcases hhead with rfl | hhead
    · rfl
    · obtain ⟨c, cs, hs⟩ := List.exists_cons_of_ne_nil hne
      rw [hs] at hdigits hhead ⊢
      exact (toDigits_ofDigitChars_zero hdigits fun hc => hhead (congrArg some hc)).symm

end

end Decimal

/-! ## Keys of arrays -/

namespace Script.Value

open Decimal Text

section

variable {s : String} {n : Nat}

theorem index?_of_denotes (h : Denotes s n) : (Value.string s).index? = .ok (some n) := by
  simp only [index?, h.allDigits, if_pos, h.readDecimal]
  rfl

theorem index?_of_unreadable (h : Unreadable s) :
    (Value.string s).index? = .error .outOfDomain := by
  simp only [index?, h.1, if_pos, h.readDecimal]
  rfl

theorem index?_of_allDigits_eq_false (h : allDigits s = false) :
    (Value.string s).index? = .ok none := by
  simp [index?, h]

theorem property_array (tag : Tag) (items : List Value) (s : String) :
    property (.array tag items) (.string s) =
      (liftM (Value.string s).index? : Run (Option Nat)) >>= fun i =>
        match i with
        | some i => pure (items[i]?.getD .undefined)
        | none => if s == "length" then pure (.int items.length)
            else method? (.array tag items) (arrayMethod? s) :=
  rfl

theorem isIn_array_of_denotes (tag : Tag) (items : List Value) (h : Denotes s n) :
    Operator.isIn.apply (.string s) (.array tag items) = .ok (.bool (n < items.length)) := by
  have hlength : (s == "length") = false := by
    refine beq_eq_false_iff_ne.2 ?_
    rintro rfl
    exact absurd h.allDigits (by decide)
  simp only [Operator.apply, has, index?_of_denotes h, text_string]
  change ((if n < items.length then pure true else pure (s == "length") : Except Stop Bool) >>=
    fun b => pure (Value.bool b)) = _
  by_cases hn : n < items.length
  · simp only [hn, decide_true]
    rfl
  · simp only [hn, decide_false, hlength]
    rfl

theorem isIn_array_of_allDigits_eq_false (tag : Tag) (items : List Value)
    (h : allDigits s = false) :
    Operator.isIn.apply (.string s) (.array tag items) = .ok (.bool (s = "length")) := by
  simp only [Operator.apply, has, index?_of_allDigits_eq_false h, text_string]
  rfl

theorem property_array_of_allDigits_eq_false (tag : Tag) (items : List Value)
    (h : allDigits s = false) (m : Memory) :
    property (.array tag items) (.string s) m = .ok
      (if s = "length" then (.int items.length, m)
      else match arrayMethod? s with
        | some k => (.method m.fresh (.array tag items) k, { m with fresh := m.fresh + 1 })
        | none => (.undefined, m)) := by
  rw [property_array, index?_of_allDigits_eq_false h]
  by_cases hlength : s = "length"
  · subst hlength
    rfl
  · have hne : (s == "length") = false := beq_eq_false_iff_ne.2 hlength
    change (if s == "length" then pure (.int items.length)
      else method? (.array tag items) (arrayMethod? s) : Run Value) m = _
    rw [hne, if_neg Bool.false_ne_true, if_neg hlength]
    cases arrayMethod? s <;> rfl

/-- Reading an array at a text, and asking whether the text is in the array. A text that denotes a
number reaches the item there, or nothing beyond the end, and is in the array if there is an item. A
text of digits that cannot be read ends the run. Every other text reaches the length, a method or
nothing, and only that of the length is in the array. The plain numeral of a number denotes it, and so
does any text that differs from it in the script of its digits or in zeros in front. -/
theorem property_array_string (tag : Tag) (items : List Value) (s : String) (m : Memory) :
    (∀ n, Denotes s n →
      property (.array tag items) (.string s) m = .ok (items[n]?.getD .undefined, m) ∧
      Operator.isIn.apply (.string s) (.array tag items) = .ok (.bool (n < items.length))) ∧
    (Unreadable s →
      property (.array tag items) (.string s) m = .error (.refusal .outOfDomain) ∧
      Operator.isIn.apply (.string s) (.array tag items) = .error (.refusal .outOfDomain)) ∧
    (allDigits s = false →
      property (.array tag items) (.string s) m = .ok
        (if s = "length" then (.int items.length, m)
        else match arrayMethod? s with
          | some k => (.method m.fresh (.array tag items) k, { m with fresh := m.fresh + 1 })
          | none => (.undefined, m)) ∧
      Operator.isIn.apply (.string s) (.array tag items) = .ok (.bool (s = "length"))) ∧
    (allDigits s = true → (∃ n, Denotes s n) ∨ Unreadable s) ∧
    (∀ n, Denotes s n → (s = toString n ↔
      (∀ c ∈ s.toList, c.isDigit = true) ∧ (s = "0" ∨ s.toList.head? ≠ some '0'))) ∧
    ∀ n < 10 ^ digitLimit, Denotes (toString n) n := by
  refine ⟨fun n h => ⟨?_, isIn_array_of_denotes tag items h⟩, fun h => ⟨?_, ?_⟩,
    fun h => ⟨property_array_of_allDigits_eq_false tag items h m,
      isIn_array_of_allDigits_eq_false tag items h⟩,
    denotes_or_unreadable, fun n h => h.eq_toString_iff, fun n h => denotes_toString h⟩
  · rw [property_array, index?_of_denotes h]
    rfl
  · rw [property_array, index?_of_unreadable h]
    rfl
  · simp only [Operator.apply, has, index?_of_unreadable h]
    rfl

/-- A zero in front is passed over, and a superscript ends the run. -/
theorem property_array_string_zeroInFront :
    let xs : List Value := [.string "a", .string "b"]
    let m : Memory := .initial
    property (.array 1 xs) (.string "1") m = .ok (.string "b", m) ∧
      property (.array 1 xs) (.string "01") m = .ok (.string "b", m) ∧
      Operator.isIn.apply (.string "01") (.array 1 xs) = .ok (.bool true) ∧ "01" ≠ toString 1 ∧
      property (.array 1 xs) (.string "²") m = .error (.refusal .outOfDomain) ∧
      property (.array 1 xs) (.string "x") m = .ok (.undefined, m) := by
  intro xs m
  have hzero : Denotes "01" 1 := ⟨[0, 1], by decide, by decide, by decide, rfl⟩
  have hlone : Unreadable "²" := ⟨by decide, .inr ⟨'²', by decide, by decide⟩⟩
  obtain ⟨hplain, -, -, -, -, hdenotes⟩ := property_array_string 1 xs "1" m
  obtain ⟨hread, -, -, -, hcanonical, -⟩ := property_array_string 1 xs "01" m
  obtain ⟨-, hstop, -⟩ := property_array_string 1 xs "²" m
  obtain ⟨-, -, hother, -⟩ := property_array_string 1 xs "x" m
  refine ⟨(hplain 1 (hdenotes 1 ?_)).1, (hread 1 hzero).1, (hread 1 hzero).2, fun h => ?_,
    (hstop hlone).1, (hother (by decide)).1⟩
  · exact Nat.one_lt_pow (by decide) (by decide)
  · exact ((hcanonical 1 hzero).1 h).2.elim (by decide) fun hhead => hhead rfl

end

end Script.Value

end Comprehend
