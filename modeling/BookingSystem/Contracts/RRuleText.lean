import BookingSystem.Base.Folding
import BookingSystem.Contracts.Expansion
import BookingSystem.Service.RRule

/-!
# The text of a rule of the Go expander

A rule that is read is printed as a text that is read as the same rule, but for the fraction of a second that `UNTIL`
may have: the parser takes it, and the printer leaves it out (`readsBack_iff`, `WholeEnd`).
-/

namespace BookingSystem.Contracts.RRuleText

open Base Service.RRule Contracts.Expansion

/-! ### Characters -/

/-- A character that no function of the parser takes for anything but part of a value. -/
def Bare (c : Char) : Prop := isSpace c = false ∧ c ≠ ';'

theorem bare_of_isDigit {c : Char} (h : c.isDigit = true) : Bare c := by
  have hrange : 48 ≤ c.toNat ∧ c.toNat ≤ 57 := Char.isDigit_iff_toNat.1 h
  refine ⟨?_, ?_⟩
  · unfold isSpace
    simp only [List.contains_eq_mem, List.mem_cons, List.not_mem_nil, or_false, Bool.or_eq_false_iff,
      decide_eq_false_iff_not, Bool.and_eq_false_iff]
    omega
  · rintro rfl
    exact absurd hrange (by decide)

instance (c : Char) : Decidable (Bare c) := by unfold Bare; infer_instance

theorem bare_of_all {s : List Char} (h : (s.all fun c => decide (Bare c)) = true) : ∀ c ∈ s, Bare c := fun c hc =>
  of_decide_eq_true (List.all_eq_true.1 h c hc)

theorem trimSpace_eq {s : List Char} (h : ∀ c ∈ s, isSpace c = false) : trimSpace s = s := by
  have hstart : s.dropWhile isSpace = s := by
    cases s with
    | nil => rfl
    | cons c s => exact List.dropWhile_cons_of_neg (by simp [h c List.mem_cons_self])
  rw [trimSpace, hstart, List.rdropWhile_eq_self_iff]
  exact fun hne => by simp [h _ (List.getLast_mem hne)]

/-! ### Numbers -/

theorem digitChar_isDigit {n : ℕ} (h : n < 10) : (Nat.digitChar n).isDigit = true := by
  rw [Nat.isDigit_digitChar, decide_eq_true h]

theorem isDigit_of_mem_decimals {w n : ℕ} {c : Char} (h : c ∈ decimals w n) : c.isDigit = true := by
  induction w generalizing n with
  | zero => cases h
  | succ w ih =>
    rcases List.mem_append.1 h with h | h
    · exact ih h
    · rw [List.mem_singleton.1 h]
      exact digitChar_isDigit (Nat.mod_lt _ (by decide))

theorem ofDigitChars_decimals (w n : ℕ) : Nat.ofDigitChars 10 (decimals w n) 0 = n % 10 ^ w := by
  induction w generalizing n with
  | zero => simp [decimals, Nat.mod_one]
  | succ w ih =>
    rw [decimals, Nat.ofDigitChars_append, ih, Nat.ofDigitChars_cons_digitChar_of_lt_ten (Nat.mod_lt _ (by decide)),
      Nat.ofDigitChars_nil, pow_succ', Nat.mod_mul]
    omega

theorem appendInt_eq {n : ℤ} {w : ℕ} (h0 : 0 ≤ n) (h1 : n < 10 ^ w) : appendInt n w = decimals w n.toNat := by
  have habs : n.natAbs = n.toNat := by omega
  have hlt : n.toNat < 10 ^ w := by
    rw [Int.toNat_lt h0]
    exact_mod_cast h1
  have hlen : (Nat.digits 10 n.toNat).length ≤ w := (Nat.digits_length_le_iff (by decide) _).2 hlt
  rw [appendInt, if_neg (not_lt.2 h0), List.nil_append, habs, decimalsFrom, max_eq_left hlen]

theorem getnum_appendInt {fixed : Bool} {n : ℤ} {s : List Char} (h0 : 0 ≤ n) (h1 : n < 100) :
    getnum fixed (appendInt n 2 ++ s) = some (n.toNat, s) := by
  have hdigits : appendInt n 2 = [Nat.digitChar (n.toNat / 10 % 10), Nat.digitChar (n.toNat % 10)] :=
    appendInt_eq h0 (by omega)
  rw [hdigits]
  simp only [List.cons_append, List.nil_append, getnum, digitChar_isDigit (Nat.mod_lt _ (show 0 < 10 by decide)),
    Bool.not_true, Bool.false_eq_true, if_false, if_true, Nat.ofDigitChars_nil,
    Nat.ofDigitChars_cons_digitChar_of_lt_ten (Nat.mod_lt _ (show 0 < 10 by decide))]
  congr 2
  omega

theorem decimal_natCast (n : ℕ) : decimal n = Nat.toDigits 10 n := by
  have h : toString (n : ℤ) = Nat.repr n := rfl
  rw [decimal, h, Nat.toList_repr]

theorem atoi_decimal {n : ℤ} (h0 : 0 ≤ n) (h1 : n < 2 ^ 63) : atoi (decimal n) = some n := by
  obtain ⟨k, rfl⟩ := Int.eq_ofNat_of_zero_le h0
  have hdigit : ∀ c ∈ Nat.toDigits 10 k, c.isDigit = true := fun c hc =>
    Nat.isDigit_of_mem_toDigits (by decide) (by decide) hc
  have hdigits : Nat.toDigits 10 k ≠ [] ∧ (Nat.toDigits 10 k).all Char.isDigit = true ∧
      -2 ^ 63 ≤ (1 : ℤ) * Nat.ofDigitChars 10 (Nat.toDigits 10 k) 0 ∧
      (1 : ℤ) * Nat.ofDigitChars 10 (Nat.toDigits 10 k) 0 < 2 ^ 63 := by
    rw [Nat.ofDigitChars_ten_toDigits]
    exact ⟨Nat.toDigits_ne_nil, List.all_eq_true.2 hdigit, by omega, by omega⟩
  rw [decimal_natCast]
  unfold atoi
  split
  · rename_i heq
    exact absurd (hdigit '-' (heq ▸ List.mem_cons_self)) (by decide)
  · rename_i heq
    exact absurd (hdigit '+' (heq ▸ List.mem_cons_self)) (by decide)
  · dsimp only
    rw [if_pos hdigits, Nat.ofDigitChars_ten_toDigits, one_mul]

/-! ### Times -/

def wholeSecond (t : Time) : Time := t - t % secondNs

/-- The year of a time has four digits. -/
def FourDigits (t : Time) : Prop := 0 ≤ monthOf (day t) ∧ monthOf (day t) < 120000

theorem parseClock_format {n : ℤ} {s : List Char} (h0 : 0 ≤ n) (h1 : n < 86400) (hs : ∀ c ∈ s.head?, c = 'Z') :
    parseClock (['T'] ++ appendInt (n / 3600) 2 ++ appendInt (n / 60 % 60) 2 ++ appendInt (n % 60) 2 ++ s) =
      some (n * secondNs, s) := by
  have hnsec : fraction s = (0, s) := by
    unfold fraction
    split
    · rename_i c d rest
      obtain rfl := hs c rfl
      rfl
    · rfl
  have hhour : (n / 3600).toNat < 24 ∧ (n / 60 % 60).toNat < 60 ∧ (n % 60).toNat < 60 := by omega
  have hsum : (((n / 3600).toNat * 3600 + (n / 60 % 60).toNat * 60 + (n % 60).toNat : ℤ)) = n := by omega
  simp only [List.append_assoc, List.cons_append, List.nil_append, parseClock]
  simp (disch := omega) only [getnum_appendInt, Option.bind_eq_bind, Option.bind_some, hnsec]
  simp only [hhour, and_self, if_true, hsum, Nat.cast_zero, add_zero]

/-- A time is printed and read but for its fraction. -/
theorem timeParse_format {t : Time} (h : FourDigits t) : timeParse true ['Z'] (format t) = some (wholeSecond t) := by
  obtain ⟨h0, h1⟩ := h
  have hclock : 0 ≤ clock t / secondNs ∧ clock t / secondNs < 86400 := by
    unfold clock secondNs dayNs
    omega
  have hday := firstDay_monthOf (day t)
  have hlen := monthLength_range (monthOf (day t))
  have hdom : 1 ≤ dayOfMonth (day t) ∧ dayOfMonth (day t) ≤ monthLength (monthOf (day t)) := by
    rw [dayOfMonth_eq]
    unfold monthLength
    omega
  have hyear : appendInt (monthOf (day t) / 12) 4 = decimals 4 (monthOf (day t) / 12).toNat :=
    appendInt_eq (by omega) (by omega)
  have hfour : (decimals 4 (monthOf (day t) / 12).toNat).length = 4 := length_decimals _ _
  have hformat : format t = decimals 4 (monthOf (day t) / 12).toNat ++ (appendInt (monthOf (day t) % 12 + 1) 2 ++
      (appendInt (dayOfMonth (day t)) 2 ++ (['T'] ++ appendInt (clock t / secondNs / 3600) 2 ++
        appendInt (clock t / secondNs / 60 % 60) 2 ++ appendInt (clock t / secondNs % 60) 2 ++ ['Z']))) := by
    simp only [format, hyear, List.append_assoc]
  have hvalue : Nat.ofDigitChars 10 (decimals 4 (monthOf (day t) / 12).toNat) 0 = (monthOf (day t) / 12).toNat := by
    rw [ofDigitChars_decimals, Nat.mod_eq_of_lt (by omega)]
  have htime := @parseClock_format (clock t / secondNs) ['Z'] hclock.1 hclock.2 (by simp)
  rw [timeParse, hformat, List.take_left' hfour, List.drop_left' hfour]
  simp (disch := omega) only [getnum_appendInt, Option.bind_eq_bind, Option.bind_some, parseTime, if_true, htime,
    hvalue]
  have hmonth : 12 * ((monthOf (day t) / 12).toNat : ℤ) + (((monthOf (day t) % 12 + 1).toNat : ℤ) - 1) =
      monthOf (day t) := by omega
  have hdigits : (decimals 4 (monthOf (day t) / 12).toNat).all Char.isDigit = true :=
    List.all_eq_true.2 fun c hc => isDigit_of_mem_decimals hc
  have hdate : date (monthOf (day t)) (dayOfMonth (day t)) (clock t / secondNs * secondNs) = wholeSecond t := by
    have hparts : ∀ x : ℤ, x - x % secondNs = x / dayNs * dayNs + x % dayNs / secondNs * secondNs := fun x => by
      unfold secondNs dayNs
      omega
    have hwhole : wholeSecond t = day t * dayNs + clock t / secondNs * secondNs := hparts t
    rw [hwhole, date, dayOfMonth_eq]
    ring
  rw [hmonth, Int.toNat_of_nonneg (by omega), hdate, if_pos]
  exact ⟨hfour, hdigits, by omega, by omega, trivial, by omega, hdom.2⟩

theorem mem_format {t : Time} (h : FourDigits t) {c : Char} (hc : c ∈ format t) : Bare c := by
  obtain ⟨h0, h1⟩ := h
  have hclock : 0 ≤ clock t / secondNs ∧ clock t / secondNs < 86400 := by
    unfold clock secondNs dayNs
    omega
  have hdom : 1 ≤ dayOfMonth (day t) ∧ dayOfMonth (day t) ≤ 31 := by
    have hday := firstDay_monthOf (day t)
    have hlen := (monthLength_range (monthOf (day t))).2
    unfold monthLength at hlen
    rw [dayOfMonth_eq]
    omega
  have hdigits : ∀ {n : ℤ} {w : ℕ}, 0 ≤ n → n < 10 ^ w → c ∈ appendInt n w → Bare c := fun hn hw hc =>
    bare_of_isDigit (isDigit_of_mem_decimals (appendInt_eq hn hw ▸ hc))
  simp only [format, List.mem_append, List.mem_singleton] at hc
  obtain ((((((h | h) | h) | rfl) | h) | h) | h) | rfl := hc
  · exact hdigits (by omega) (by omega) h
  · exact hdigits (by omega) (by omega) h
  · exact hdigits (by omega) (by omega) h
  · decide
  · exact hdigits (by omega) (by omega) h
  · exact hdigits (by omega) (by omega) h
  · exact hdigits (by omega) (by omega) h
  · decide

/-! ### The text that is printed -/

/-- A rule that the parser may return. -/
structure Printable (r : Rule) : Prop where
  interval : 0 < r.interval ∧ r.interval < 2 ^ 63
  count : 0 ≤ r.count ∧ r.count < 2 ^ 63
  untilTime : ∀ t, r.untilTime = some t → FourDigits t ∧ t ≠ zeroTime
  byMonthDay : 0 ≤ r.byMonthDay ∧ r.byMonthDay ≤ 31
  bounded : 0 < r.count → r.untilTime = none
  exDates : r.exDates = []

def printedUntil (r : Rule) : Option Time :=
  r.untilTime.bind fun t => if wholeSecond t = zeroTime then none else some (wholeSecond t)

theorem cut_append {sep : Char} {k v : List Char} (hk : sep ∉ k) : cut sep (k ++ sep :: v) = some (k, v) := by
  have hne : ∀ c ∈ k, (c != sep) = true := fun c hc => by
    rw [bne_iff_ne]
    rintro rfl
    exact hk hc
  have hmem : sep ∈ k ++ sep :: v := List.mem_append_right _ List.mem_cons_self
  rw [cut, if_pos hmem, List.takeWhile_append_of_pos hne, List.dropWhile_append_of_pos hne,
    List.takeWhile_cons_of_neg (by simp), List.dropWhile_cons_of_neg (by simp), List.append_nil, List.tail_cons]

theorem segment_append {d : Draft} {key v : List Char} (hkey : '=' ∉ key ∧ toUpper (trimSpace key) = key)
    (hv : ∀ c ∈ v, Bare c) : d.segment (key ++ '=' :: v) = d.set key v := by
  rw [Draft.segment, cut_append hkey.1, Option.bind_eq_bind, Option.bind_some]
  dsimp only
  rw [hkey.2, trimSpace_eq fun c hc => (hv c hc).1]

theorem mem_decimal {n : ℤ} (h0 : 0 ≤ n) {c : Char} (hc : c ∈ decimal n) : Bare c := by
  obtain ⟨k, rfl⟩ := Int.eq_ofNat_of_zero_le h0
  rw [decimal_natCast] at hc
  exact bare_of_isDigit (Nat.isDigit_of_mem_toDigits (by decide) (by decide) hc)

theorem mem_days {ds : List Weekday} {c : Char} (hc : c ∈ [','].intercalate (ds.map Weekday.text)) : Bare c := by
  rcases Coding.mem_intercalate hc with hc | ⟨p, hp, hc⟩
  · rw [List.mem_singleton.1 hc]
    decide
  · obtain ⟨d, -, rfl⟩ := List.mem_map.1 hp
    exact bare_of_all (by cases d <;> decide) c hc

theorem days_eq (ds : List Weekday) (hds : ds ≠ []) :
    (([','].intercalate (ds.map Weekday.text)).splitOn ',').mapM
      (fun d => weekdayOf (toUpper (trimSpace d))) = some ds := by
  have hcomma : ∀ l ∈ ds.map Weekday.text, ',' ∉ l := fun l hl => by
    obtain ⟨d, -, rfl⟩ := List.mem_map.1 hl
    cases d <;> decide
  have hday : ∀ d : Weekday, weekdayOf (toUpper (trimSpace d.text)) = some d := fun d => by cases d <;> decide
  have hfun : (fun d => weekdayOf (toUpper (trimSpace d))) ∘ Weekday.text = fun d => pure d := funext hday
  rw [List.splitOn_intercalate _ hcomma (by simpa using hds), List.mapM_map, hfun, List.mapM_pure, List.map_id']
  rfl

theorem foldlM_optional {d : Draft} {c : Prop} [Decidable c] {key v : List Char} {d' : Draft}
    (hkey : '=' ∉ key ∧ toUpper (trimSpace key) = key) (hv : c → ∀ c ∈ v, Bare c) (hset : c → d.set key v = some d')
    (hnone : ¬ c → d' = d) :
    (if c then [key ++ '=' :: v] else []).foldlM Draft.segment d = some d' := by
  split
  · rename_i hc
    rw [List.foldlM_cons, segment_append hkey (hv hc), hset hc]
    rfl
  · rename_i hc
    rw [List.foldlM_nil, hnone hc]
    rfl

section Set

variable (d : Draft) {n : ℤ}

theorem filter_atoi {p : ℤ → Bool} (h0 : 0 < n) (h1 : n < 2 ^ 63) (hp : p n = true) :
    (atoi (decimal n)).filter p = some n := by
  rw [atoi_decimal h0.le h1, Option.filter_some, if_pos hp]

theorem set_interval (h0 : 0 < n) (h1 : n < 2 ^ 63) :
    d.set "INTERVAL".toList (decimal n) = some { d with interval := n } :=
  congrArg (Option.map _) (filter_atoi h0 h1 (decide_eq_true h0))

theorem set_count (h0 : 0 < n) (h1 : n < 2 ^ 63) : d.set "COUNT".toList (decimal n) = some { d with count := n } :=
  congrArg (Option.map _) (filter_atoi h0 h1 (decide_eq_true h0))

theorem set_byMonthDay (h0 : 0 < n) (h1 : n ≤ 31) :
    d.set "BYMONTHDAY".toList (decimal n) = some { d with byMonthDay := n } :=
  congrArg (Option.map _) (filter_atoi h0 (by omega) (decide_eq_true ⟨h0, h1⟩))

theorem parseUntil_format {t : Time} (h : FourDigits t) : parseUntil (format t) = some (wholeSecond t) := by
  rw [parseUntil, List.findSome?_cons, timeParse_format h]

theorem set_until {t : Time} (h : FourDigits t) : d.set "UNTIL".toList (format t) =
    some { d with untilTime := if wholeSecond t = zeroTime then none else some (wholeSecond t) } := by
  rw [Draft.set, String.ofList_toList]
  exact congrArg (Option.map _) (parseUntil_format h)

theorem set_byDay {ds : List Weekday} (hds : ds ≠ []) :
    d.set "BYDAY".toList ([','].intercalate (ds.map Weekday.text)) = some { d with byDay := d.byDay ++ ds } :=
  congrArg (Option.map _) (days_eq ds hds)

end Set

/-- The parts that are printed are read one after another. -/
theorem foldlM_parts {r : Rule} (h : Printable r) : r.parts.foldlM Draft.segment {} =
    some { freq := some r.freq, interval := r.interval, count := r.count, untilTime := printedUntil r, byDay := r.byDay,
           byMonthDay := r.byMonthDay } := by
  have hfreq : ["FREQ=".toList ++ r.freq.text].foldlM Draft.segment {} =
      some ({ freq := some r.freq } : Draft) := by
    cases r.freq <;> decide +kernel
  have hinterval : ∀ d : Draft, d.interval = 1 →
      (if 1 < r.interval then ["INTERVAL".toList ++ '=' :: decimal r.interval] else []).foldlM Draft.segment d =
        some { d with interval := r.interval } := fun d hd => by
    refine foldlM_optional (by decide) (fun _ c hc => mem_decimal h.interval.1.le hc)
      (fun _ => set_interval d h.interval.1 h.interval.2) (fun hle => ?_)
    have hone : r.interval = d.interval := by
      have hpos := h.interval.1
      omega
    rw [hone]
  have hcount : ∀ d : Draft, d.count = 0 →
      (if 0 < r.count then ["COUNT".toList ++ '=' :: decimal r.count] else []).foldlM Draft.segment d =
        some { d with count := r.count } := fun d hd => by
    refine foldlM_optional (by decide) (fun _ c hc => mem_decimal h.count.1 hc)
      (fun hpos => set_count d hpos h.count.2) (fun hle => ?_)
    have hzero : r.count = d.count := by
      have hpos := h.count.1
      omega
    rw [hzero]
  have huntil : ∀ d : Draft, d.untilTime = none →
      (r.untilTime.elim [] fun t => ["UNTIL".toList ++ '=' :: format t]).foldlM Draft.segment d =
        some { d with untilTime := printedUntil r } := fun d hd => by
    unfold printedUntil
    cases hu : r.untilTime with
    | none =>
      have hsame : { d with untilTime := none } = d := by rw [← hd]
      exact congrArg some hsame.symm
    | some t =>
      have hfour := (h.untilTime t hu).1
      rw [Option.elim_some, List.foldlM_cons, segment_append (by decide) fun c hc => mem_format hfour hc,
        set_until d hfour]
      rfl
  have hbyDay : ∀ d : Draft, d.byDay = [] →
      (if r.byDay ≠ [] then ["BYDAY".toList ++ '=' :: [','].intercalate (r.byDay.map Weekday.text)] else []).foldlM
        Draft.segment d = some { d with byDay := r.byDay } := fun d hd => by
    refine foldlM_optional (by decide) (fun _ c hc => mem_days hc) (fun hne => ?_) (fun hnone => ?_)
    · rw [set_byDay d hne, hd, List.nil_append]
    · rw [not_not.1 hnone, ← hd]
  have hbyMonthDay : ∀ d : Draft, d.byMonthDay = 0 →
      (if 0 < r.byMonthDay then ["BYMONTHDAY".toList ++ '=' :: decimal r.byMonthDay] else []).foldlM Draft.segment d =
        some { d with byMonthDay := r.byMonthDay } := fun d hd => by
    refine foldlM_optional (by decide) (fun _ c hc => mem_decimal h.byMonthDay.1 hc)
      (fun hpos => set_byMonthDay d hpos h.byMonthDay.2) (fun hle => ?_)
    have hzero : r.byMonthDay = d.byMonthDay := by
      have hpos := h.byMonthDay.1
      omega
    rw [hzero]
  have hparts : r.parts = ["FREQ=".toList ++ r.freq.text] ++
      (if 1 < r.interval then ["INTERVAL".toList ++ '=' :: decimal r.interval] else []) ++
      (if 0 < r.count then ["COUNT".toList ++ '=' :: decimal r.count] else []) ++
      (r.untilTime.elim [] fun t => ["UNTIL".toList ++ '=' :: format t]) ++
      (if r.byDay ≠ [] then ["BYDAY".toList ++ '=' :: [','].intercalate (r.byDay.map Weekday.text)] else []) ++
      (if 0 < r.byMonthDay then ["BYMONTHDAY".toList ++ '=' :: decimal r.byMonthDay] else []) := by
    unfold Rule.parts
    cases r.untilTime <;> rfl
  rw [hparts, List.foldlM_append, List.foldlM_append, List.foldlM_append, List.foldlM_append, List.foldlM_append, hfreq]
  simp only [Option.bind_eq_bind, Option.bind_some, hinterval, hcount, huntil, hbyDay, hbyMonthDay]

theorem mem_parts {r : Rule} (h : Printable r) {p : List Char} (hp : p ∈ r.parts) : ∀ c ∈ p, Bare c := by
  have hkey : ∀ {key v : List Char}, (∀ c ∈ key, Bare c) → (∀ c ∈ v, Bare c) → ∀ c ∈ key ++ v, Bare c :=
    fun hk hv c hc => (List.mem_append.1 hc).elim (hk c) (hv c)
  have hfreq : ∀ c ∈ r.freq.text, Bare c := bare_of_all (by cases r.freq <;> decide)
  have huntil : ∀ t, r.untilTime = some t → ∀ c ∈ "UNTIL=".toList ++ format t, Bare c := fun t ht =>
    hkey (bare_of_all (by decide)) fun c hc => mem_format (h.untilTime t ht).1 hc
  unfold Rule.parts at hp
  rcases List.mem_append.1 hp with hp | hp
  · rcases List.mem_append.1 hp with hp | hp
    · rcases List.mem_append.1 hp with hp | hp
      · rcases List.mem_append.1 hp with hp | hp
        · rcases List.mem_append.1 hp with hp | hp
          · rw [List.mem_singleton.1 hp]
            exact hkey (bare_of_all (by decide)) hfreq
          · rw [(List.mem_ite_nil_right.1 hp).2 |> List.mem_singleton.1]
            exact hkey (bare_of_all (by decide)) fun c hc => mem_decimal h.interval.1.le hc
        · rw [(List.mem_ite_nil_right.1 hp).2 |> List.mem_singleton.1]
          exact hkey (bare_of_all (by decide)) fun c hc => mem_decimal h.count.1 hc
      · cases hu : r.untilTime with
        | none =>
          rw [hu] at hp
          cases hp
        | some t =>
          rw [hu] at hp
          rw [List.mem_singleton.1 hp]
          exact huntil t hu
    · rw [(List.mem_ite_nil_right.1 hp).2 |> List.mem_singleton.1]
      exact hkey (bare_of_all (by decide)) fun c hc => mem_days hc
  · rw [(List.mem_ite_nil_right.1 hp).2 |> List.mem_singleton.1]
    exact hkey (bare_of_all (by decide)) fun c hc => mem_decimal h.byMonthDay.1 hc

/-- A rule that is printed is read again, but for the fraction of its end. -/
theorem parse_string {r : Rule} (h : Printable r) :
    parse r.string = some { r with untilTime := printedUntil r } := by
  have hne : r.parts ≠ [] := List.cons_ne_nil _ _
  have hspace : ∀ c ∈ r.string, isSpace c = false := fun c hc => by
    rcases Coding.mem_intercalate hc with hc | ⟨p, hp, hc⟩
    · rw [List.mem_singleton.1 hc]
      decide
    · exact (mem_parts h hp c hc).1
  have hsep : ∀ p ∈ r.parts, ';' ∉ p := fun p hp hc => (mem_parts h hp ';' hc).2 rfl
  obtain ⟨rest, hrest⟩ : ∃ rest, r.string = 'F' :: rest := by
    obtain ⟨ps, hps⟩ : ∃ ps, r.parts = ("FREQ=".toList ++ r.freq.text) :: ps := ⟨_, rfl⟩
    rw [Rule.string, hps, Coding.intercalate_cons]
    exact ⟨_, rfl⟩
  have hprefix : trimPrefix "RRULE:".toList (trimSpace r.string) = r.string := by
    rw [trimSpace_eq hspace, hrest]
    rfl
  have hsegments : segments r.string = r.parts := by
    rw [segments, hprefix, Rule.string, List.splitOn_intercalate _ hsep hne]
  have hbounded : ¬ (0 < r.count ∧ (printedUntil r).isSome) := fun hboth => by
    have hnone := h.bounded hboth.1
    have hsome := hboth.2
    rw [printedUntil, hnone] at hsome
    cases hsome
  rw [parse, hprefix, if_neg (by rw [hrest]; exact List.cons_ne_nil _ _), hsegments, foldlM_parts h]
  simp only [Option.bind_eq_bind, Option.bind_some, Draft.rule, hbounded, if_false, ← h.exDates]

/-! ### The text that is read -/

theorem digit_range {c : Char} (h : c.isDigit = true) : 48 ≤ c.toNat ∧ c.toNat ≤ 57 := Char.isDigit_iff_toNat.1 h

theorem ofDigitChars_lt {ds : List Char} (h : ∀ c ∈ ds, c.isDigit = true) :
    Nat.ofDigitChars 10 ds 0 < 10 ^ ds.length := by
  induction ds using List.reverseRecOn with
  | nil => simp
  | append_singleton ds c ih =>
    have hinit := ih fun d hd => h d (List.mem_append_left _ hd)
    have hc := digit_range (h c (List.mem_append_right _ (List.mem_singleton_self c)))
    have hzero : '0'.toNat = 48 := rfl
    rw [Nat.ofDigitChars_append, Nat.ofDigitChars_cons, Nat.ofDigitChars_nil, List.length_append, List.length_singleton,
      pow_succ]
    omega

theorem ofDigitChars_eq_zero_iff {ds : List Char} (h : ∀ c ∈ ds, c.isDigit = true) {k : ℕ} :
    Nat.ofDigitChars 10 ds k = 0 ↔ k = 0 ∧ ∀ c ∈ ds, c = '0' := by
  induction ds generalizing k with
  | nil => simp
  | cons c ds ih =>
    have hc := digit_range (h c List.mem_cons_self)
    have hzero : c = '0' ↔ c.toNat = 48 := ⟨fun he => he ▸ rfl, fun he => Char.toNat_inj.1 he⟩
    have hnat : '0'.toNat = 48 := rfl
    rw [Nat.ofDigitChars_cons, ih fun d hd => h d (List.mem_cons_of_mem _ hd), List.forall_mem_cons, hzero, ← and_assoc]
    exact and_congr_left fun _ => by omega

theorem parseNanoseconds_lt {ds : List Char} (h : ∀ c ∈ ds, c.isDigit = true) : parseNanoseconds ds < 1000000000 := by
  have hlt : Nat.ofDigitChars 10 (ds.take 9) 0 < 10 ^ (ds.take 9).length :=
    ofDigitChars_lt fun c hc => h c (List.mem_of_mem_take hc)
  have hlen : (ds.take 9).length + (9 - (ds.take 9).length) = 9 := by
    have hle := List.length_take_le 9 ds
    omega
  calc parseNanoseconds ds < 10 ^ (ds.take 9).length * 10 ^ (9 - (ds.take 9).length) :=
        Nat.mul_lt_mul_of_pos_right hlt (by positivity)
    _ = 1000000000 := by rw [← pow_add, hlen]; rfl

theorem parseNanoseconds_eq_zero_iff {ds : List Char} (h : ∀ c ∈ ds, c.isDigit = true) :
    parseNanoseconds ds = 0 ↔ ∀ c ∈ ds.take 9, c = '0' := by
  rw [parseNanoseconds, mul_eq_zero, ofDigitChars_eq_zero_iff fun c hc => h c (List.mem_of_mem_take hc)]
  simp

theorem getnum_true {s s' : List Char} {n : ℕ} (h : getnum true s = some (n, s')) : s' = s.drop 2 := by
  unfold getnum at h
  split at h
  · cases h
  · simp at h
  · split at h
    · cases h
    · split at h
      · cases h
        rfl
      · simp at h

theorem getnum_of_not_isDigit {fixed : Bool} {c : Char} {s : List Char} (h : ¬ c.isDigit = true) :
    getnum fixed (c :: s) = none := by
  cases s with
  | nil => simp [getnum, h]
  | cons d s => simp [getnum, h]

theorem getnum_false {s s' s'' : List Char} {m n : ℕ} (h : getnum false s = some (m, s'))
    (h' : getnum true s' = some (n, s'')) : s' = s.drop 2 := by
  unfold getnum at h
  split at h
  · cases h
  · simp only [Bool.not_false, Bool.and_true, Option.ite_none_right_eq_some, Option.some.injEq, Prod.mk.injEq] at h
    rw [← h.2.2] at h'
    cases h'
  · split at h
    · cases h
    · split at h
      · cases h
        rfl
      · rename_i hd
        simp only [Bool.false_eq_true, if_false, Option.some.injEq, Prod.mk.injEq] at h
        rw [← h.2] at h'
        rw [getnum_of_not_isDigit hd] at h'
        cases h'

/-- The digits of a fraction that are read, in the value of an end, are all `0`. -/
def WholeValue (v : List Char) : Prop := ∀ c ∈ ((v.drop 16).takeWhile Char.isDigit).take 9, c = '0'

theorem fraction_lt (s : List Char) : (fraction s).1 < 1000000000 := by
  unfold fraction
  split
  · split
    · exact parseNanoseconds_lt fun c hc => List.mem_takeWhile_imp hc
    · exact Nat.pos_of_ne_zero (by decide)
  · exact Nat.pos_of_ne_zero (by decide)

theorem fraction_eq_zero_iff {s : List Char} (h : (fraction s).2 = [] ∨ (fraction s).2 = ['Z']) :
    (fraction s).1 = 0 ↔ ∀ c ∈ ((s.drop 1).takeWhile Char.isDigit).take 9, c = '0' := by
  unfold fraction at *
  split at h
  · rename_i c d rest
    split at h
    · rename_i hpoint
      rw [if_pos hpoint, parseNanoseconds_eq_zero_iff fun c hc => List.mem_takeWhile_imp hc]
      rfl
    · simp at h
  · rcases h with rfl | rfl
    · simp
    · simp

theorem parseClock_eq_some {s tail : List Char} {c : ℤ} (h : parseClock s = some (c, tail)) :
    (0 ≤ c ∧ c < dayNs) ∧ c % secondNs = (fraction (s.drop 7)).1 ∧ (fraction (s.drop 7)).2 = tail := by
  unfold parseClock at h
  split at h
  · rename_i s
    simp only [Option.bind_eq_bind, Option.bind_eq_some_iff, Prod.exists] at h
    obtain ⟨hour, s₁, hhour, minute, s₂, hminute, second, s₃, hsecond, h⟩ := h
    obtain rfl := getnum_false hhour hminute
    obtain rfl := getnum_true hminute
    obtain rfl := getnum_true hsecond
    split at h
    · rename_i hrange
      have hdrop : (((s.drop 2).drop 2).drop 2) = ('T' :: s).drop 7 := by
        rw [List.drop_drop, List.drop_drop, List.drop_succ_cons]
      have hnsec := fraction_lt (('T' :: s).drop 7)
      rw [hdrop] at h
      obtain ⟨rfl, rfl⟩ := Prod.mk.inj (Option.some.inj h)
      unfold dayNs secondNs
      refine ⟨⟨by omega, by omega⟩, by omega, rfl⟩
    · cases h
  · cases h

theorem timeParse_eq_some {hasClock : Bool} {tail s : List Char} {t : Time} (h : timeParse hasClock tail s = some t) :
    ∃ n d c, (0 ≤ n ∧ n < 120000) ∧ (1 ≤ d ∧ d ≤ monthLength n) ∧ parseTime hasClock (s.drop 8) = some (c, tail) ∧
      t = date n d c := by
  unfold timeParse at h
  simp only [Option.bind_eq_bind, Option.bind_eq_some_iff, Prod.exists] at h
  obtain ⟨month, s₁, hmonth, d, s₂, hd, c, rest, hc, h⟩ := h
  obtain rfl := getnum_true hmonth
  obtain rfl := getnum_true hd
  split at h
  · rename_i hvalid
    obtain ⟨hlen, hyear, hm1, hm12, rfl, hd1, hdn⟩ := hvalid
    have hlt := ofDigitChars_lt (List.all_eq_true.1 hyear)
    rw [hlen] at hlt
    refine ⟨_, d, c, ⟨by omega, by omega⟩, ⟨by omega, hdn⟩, ?_, (Option.some.inj h).symm⟩
    rwa [List.drop_drop, List.drop_drop] at hc
  · cases h

theorem fourDigits_date {n d c : ℤ} (hn : 0 ≤ n ∧ n < 120000) (hd : 1 ≤ d ∧ d ≤ monthLength n)
    (hc : 0 ≤ c ∧ c < dayNs) : FourDigits (date n d c) := by
  rw [FourDigits, day_date n d hc, monthOf_counted hd.1 hd.2]
  exact hn

theorem wholeSecond_date {n d c : ℤ} : wholeSecond (date n d c) = date n d c ↔ c % secondNs = 0 := by
  have h : ∀ x : ℤ, x * dayNs + c - (x * dayNs + c) % secondNs = x * dayNs + c ↔ c % secondNs = 0 := fun x => by
    unfold dayNs secondNs
    omega
  exact h _

/-- An end that is read has a year of four digits, and the fraction of its value. -/
theorem parseUntil_eq_some {v : List Char} {t : Time} (h : parseUntil v = some t) :
    FourDigits t ∧ (wholeSecond t = t ↔ WholeValue v) := by
  obtain ⟨⟨hasClock, tail⟩, hl, h⟩ := List.exists_of_findSome?_eq_some h
  obtain ⟨n, d, c, hn, hd, htime, rfl⟩ := timeParse_eq_some h
  have hclock : ∀ tail, (tail = [] ∨ tail = ['Z']) → parseClock (v.drop 8) = some (c, tail) →
      FourDigits (date n d c) ∧ (wholeSecond (date n d c) = date n d c ↔ WholeValue v) := fun tail htail hc => by
    obtain ⟨hrange, hnsec, hrest⟩ := parseClock_eq_some hc
    have hdrop : ((v.drop 8).drop 7).drop 1 = v.drop 16 := by
      rw [List.drop_drop, List.drop_drop]
    refine ⟨fourDigits_date hn hd hrange, ?_⟩
    rw [wholeSecond_date, hnsec, Nat.cast_eq_zero, fraction_eq_zero_iff (hrest ▸ htail), hdrop, WholeValue]
  simp only [List.mem_cons, Prod.mk.injEq, List.not_mem_nil, or_false] at hl
  rcases hl with ⟨rfl, rfl⟩ | ⟨rfl, rfl⟩ | ⟨rfl, rfl⟩
  · exact hclock _ (.inr rfl) htime
  · exact hclock _ (.inl rfl) htime
  · -- a date alone
    obtain ⟨rfl, hnil⟩ := Prod.mk.inj (Option.some.inj htime)
    have hlong : v.drop 16 = [] := by
      rw [← List.drop_drop (i := 8) (j := 8), hnil, List.drop_nil]
    refine ⟨fourDigits_date hn hd ⟨le_rfl, by decide⟩, iff_of_true (wholeSecond_date.2 rfl) ?_⟩
    rw [WholeValue, hlong]
    exact fun c hc => absurd hc List.not_mem_nil

def untilValue (part : List Char) : Option (List Char) :=
  (cut '=' part).bind fun kv => if toUpper (trimSpace kv.1) = "UNTIL".toList then some (trimSpace kv.2) else none

/-- The last end of a text has no fraction of a second, or one whose digits that are read are all `0`. -/
def WholeEnd (s : List Char) : Prop := ∀ v, ((segments s).filterMap untilValue).getLast? = some v → WholeValue v

/-- What is kept while the parts are read. -/
structure Kept (d : Draft) : Prop where
  interval : 0 < d.interval ∧ d.interval < 2 ^ 63
  count : 0 ≤ d.count ∧ d.count < 2 ^ 63
  untilTime : ∀ t, d.untilTime = some t → FourDigits t ∧ t ≠ zeroTime
  byMonthDay : 0 ≤ d.byMonthDay ∧ d.byMonthDay ≤ 31

theorem atoi_lt {v : List Char} {n : ℤ} (h : atoi v = some n) : n < 2 ^ 63 := by
  unfold atoi at h
  split at h
  all_goals
    dsimp only at h
    split at h
    · rename_i hvalid
      obtain rfl := Option.some.inj h
      exact hvalid.2.2.2
    · cases h

theorem kept_set {d d' : Draft} {key v : List Char} (hd : Kept d) (h : d.set key v = some d') : Kept d' := by
  have hnumber : ∀ {p : ℤ → Bool} {n : ℤ}, (atoi v).filter p = some n → n < 2 ^ 63 ∧ p n = true := fun hn => by
    obtain ⟨hn, hp⟩ := Option.filter_eq_some_iff.1 hn
    exact ⟨atoi_lt hn, hp⟩
  unfold Draft.set at h
  split at h
  · obtain ⟨f, -, rfl⟩ := Option.map_eq_some_iff.1 h
    exact ⟨hd.interval, hd.count, hd.untilTime, hd.byMonthDay⟩
  · obtain ⟨n, hn, rfl⟩ := Option.map_eq_some_iff.1 h
    obtain ⟨hlt, hpos⟩ := hnumber hn
    exact ⟨⟨of_decide_eq_true hpos, hlt⟩, hd.count, hd.untilTime, hd.byMonthDay⟩
  · obtain ⟨n, hn, rfl⟩ := Option.map_eq_some_iff.1 h
    obtain ⟨hlt, hpos⟩ := hnumber hn
    exact ⟨hd.interval, ⟨(of_decide_eq_true hpos).le, hlt⟩, hd.untilTime, hd.byMonthDay⟩
  · obtain ⟨t, ht, rfl⟩ := Option.map_eq_some_iff.1 h
    refine ⟨hd.interval, hd.count, fun u hu => ?_, hd.byMonthDay⟩
    obtain ⟨hne, hu⟩ := Option.ite_none_left_eq_some.1 hu
    obtain rfl := Option.some.inj hu
    exact ⟨(parseUntil_eq_some ht).1, hne⟩
  · obtain ⟨ds, -, rfl⟩ := Option.map_eq_some_iff.1 h
    exact ⟨hd.interval, hd.count, hd.untilTime, hd.byMonthDay⟩
  · obtain ⟨n, hn, rfl⟩ := Option.map_eq_some_iff.1 h
    have hrange : 1 ≤ n ∧ n ≤ 31 := of_decide_eq_true (hnumber hn).2
    exact ⟨hd.interval, hd.count, hd.untilTime, le_trans zero_le_one hrange.1, hrange.2⟩
  · cases h
    exact hd
  · cases h

/-- The end of the rule is set by the parts with its key, and by no others. -/
theorem segment_eq_some {d d' : Draft} {part : List Char} (h : d.segment part = some d') :
    (∃ key v, d.set key v = some d') ∧ match untilValue part with
      | none => d'.untilTime = d.untilTime
      | some v => ∃ t, parseUntil v = some t ∧ d'.untilTime = if t = zeroTime then none else some t := by
  unfold Draft.segment at h
  obtain ⟨⟨key, v⟩, hcut, hset⟩ := Option.bind_eq_some_iff.1 h
  replace h : d.set (toUpper (trimSpace key)) (trimSpace v) = some d' := hset
  refine ⟨⟨_, _, h⟩, ?_⟩
  rw [untilValue, hcut, Option.bind_some]
  by_cases hkey : toUpper (trimSpace key) = "UNTIL".toList
  · rw [if_pos hkey]
    rw [hkey] at h
    obtain ⟨t, ht, rfl⟩ := Option.map_eq_some_iff.1 (show (parseUntil (trimSpace v)).map _ = some d' from h)
    exact ⟨t, ht, rfl⟩
  · rw [if_neg hkey]
    unfold Draft.set at h
    split at h
    · obtain ⟨f, -, rfl⟩ := Option.map_eq_some_iff.1 h
      rfl
    · obtain ⟨n, -, rfl⟩ := Option.map_eq_some_iff.1 h
      rfl
    · obtain ⟨n, -, rfl⟩ := Option.map_eq_some_iff.1 h
      rfl
    · rename_i heq
      exact absurd (by rw [← heq, String.toList_ofList]) hkey
    · obtain ⟨ds, -, rfl⟩ := Option.map_eq_some_iff.1 h
      rfl
    · obtain ⟨n, -, rfl⟩ := Option.map_eq_some_iff.1 h
      rfl
    · cases h
      rfl
    · cases h

/-- What is known when all parts are read. -/
theorem foldlM_eq_some {ps : List (List Char)} {d : Draft} (h : ps.foldlM Draft.segment {} = some d) :
    Kept d ∧ match (ps.filterMap untilValue).getLast? with
      | none => d.untilTime = none
      | some v => ∃ t, parseUntil v = some t ∧ d.untilTime = if t = zeroTime then none else some t := by
  induction ps using List.reverseRecOn generalizing d with
  | nil =>
    obtain rfl := Option.some.inj h
    exact ⟨⟨by decide, by decide, fun t ht => (nomatch ht), by decide⟩, rfl⟩
  | append_singleton ps p ih =>
    rw [List.foldlM_append, Option.bind_eq_bind, Option.bind_eq_some_iff] at h
    obtain ⟨d', hd', h⟩ := h
    obtain ⟨hkept, huntil⟩ := ih hd'
    have hp : d'.segment p = some d := by
      rw [List.foldlM_cons] at h
      obtain ⟨d'', hd'', h⟩ := Option.bind_eq_some_iff.1 h
      obtain rfl := Option.some.inj h
      exact hd''
    obtain ⟨⟨key, v, hset⟩, hpart⟩ := segment_eq_some hp
    refine ⟨kept_set hkept hset, ?_⟩
    rw [List.filterMap_append]
    cases hv : untilValue p with
    | none =>
      rw [hv] at hpart
      rw [List.filterMap_cons_none hv, List.filterMap_nil, List.append_nil, hpart]
      exact huntil
    | some w =>
      rw [hv] at hpart
      rw [List.filterMap_cons_some hv, List.filterMap_nil, List.getLast?_concat]
      exact hpart

/-- What is known of a text that is read. -/
theorem parse_eq_some {s : List Char} {r : Rule} (h : parse s = some r) :
    Printable r ∧ ((∀ t, r.untilTime = some t → wholeSecond t = t) ↔ WholeEnd s) := by
  unfold parse at h
  split at h
  · cases h
  · obtain ⟨d, hd, h⟩ := Option.bind_eq_some_iff.1 h
    obtain ⟨hkept, huntil⟩ := foldlM_eq_some hd
    obtain ⟨f, -, h⟩ := Option.bind_eq_some_iff.1 h
    obtain ⟨hbounded, h⟩ := Option.ite_none_left_eq_some.1 h
    obtain rfl := Option.some.inj h
    refine ⟨⟨hkept.interval, hkept.count, hkept.untilTime, hkept.byMonthDay, fun hcount => ?_, rfl⟩, ?_⟩
    · exact Option.not_isSome_iff_eq_none.1 fun hsome => hbounded ⟨hcount, hsome⟩
    · unfold WholeEnd
      dsimp only
      cases hlast : ((segments s).filterMap untilValue).getLast? with
      | none =>
        rw [hlast] at huntil
        rw [huntil]
        exact iff_of_true (fun t ht => nomatch ht) fun v hv => nomatch hv
      | some v =>
        rw [hlast] at huntil
        obtain ⟨t, ht, huntil⟩ := huntil
        have hvalue := (parseUntil_eq_some ht).2
        rw [huntil]
        by_cases hzero : t = zeroTime
        · have hwhole : WholeValue v := hvalue.1 (by rw [hzero]; decide)
          rw [if_pos hzero]
          exact iff_of_true (fun t ht => nomatch ht) fun v' hv' => Option.some.inj hv' ▸ hwhole
        · rw [if_neg hzero]
          exact ⟨fun h v' hv' => Option.some.inj hv' ▸ hvalue.1 (h t rfl),
            fun h t' ht' => Option.some.inj ht' ▸ hvalue.2 (h v rfl)⟩

/-- The text of the rule is read as the same rule, and is printed as it was. -/
def RoundTrips (r : Rule) : Prop := ∃ r', parse r.string = some r' ∧ r' = r ∧ r'.string = r.string

theorem printedUntil_eq_iff {r : Rule} (h : Printable r) :
    printedUntil r = r.untilTime ↔ ∀ t, r.untilTime = some t → wholeSecond t = t := by
  unfold printedUntil
  cases hu : r.untilTime with
  | none => simp
  | some t =>
    have hne := (h.untilTime t hu).2
    rw [Option.bind_some]
    constructor
    · intro heq t' ht'
      obtain rfl := Option.some.inj ht'
      split at heq
      · cases heq
      · exact Option.some.inj heq
    · intro hwhole
      rw [hwhole t rfl, if_neg hne]

/-- **A rule that is read is printed and read as the same rule iff its last end has no fraction of a second.** -/
theorem readsBack_iff {s : List Char} {r : Rule} (h : parse s = some r) : RoundTrips r ↔ WholeEnd s := by
  obtain ⟨hr, hwhole⟩ := parse_eq_some h
  rw [← hwhole, ← printedUntil_eq_iff hr, RoundTrips, parse_string hr]
  constructor
  · rintro ⟨r', hr', rfl, -⟩
    exact congrArg Rule.untilTime (Option.some.inj hr')
  · intro hu
    exact ⟨r, by rw [hu], rfl, rfl⟩

/-! ### Runs -/

def loose : List Char :=
  " RRULE:freq=weekly; Interval = +2;byday= mo,Tu;until=20260101;UNTIL=20260301T090000.000Z".toList

theorem roundTrips_loose : ∃ r, parse loose = some r ∧ RoundTrips r := by
  obtain ⟨r, hr⟩ := Option.isSome_iff_exists.1 (show (parse loose).isSome = true by decide +kernel)
  refine ⟨r, hr, (readsBack_iff hr).2 fun v hv => ?_⟩
  have hlast : ((segments loose).filterMap untilValue).getLast? = some "20260301T090000.000Z".toList := by
    decide +kernel
  obtain rfl := Option.some.inj (hlast.symm.trans hv)
  have hfraction : (("20260301T090000.000Z".toList.drop 16).takeWhile Char.isDigit).take 9 = List.replicate 3 '0' := by
    decide +kernel
  intro c hc
  rw [hfraction] at hc
  exact List.eq_of_mem_replicate hc

def halfSecond : Rule := { freq := .daily, untilTime := some (1767225600500000000 : ℤ) }

/-- Half a second after midnight is printed as midnight. -/
theorem half_second_is_lost :
    parse "FREQ=DAILY;UNTIL=20260101T000000.5Z".toList = some halfSecond ∧ ¬ RoundTrips halfSecond := by
  have hmidnight : (parse halfSecond.string).bind (·.untilTime) = some (1767225600000000000 : ℤ) := by decide +kernel
  refine ⟨by decide +kernel, ?_⟩
  rintro ⟨r, hr, rfl, -⟩
  rw [hr] at hmidnight
  exact absurd hmidnight (by decide)

end BookingSystem.Contracts.RRuleText
