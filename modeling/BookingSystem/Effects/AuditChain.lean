import Mathlib.Logic.Equiv.List
import BookingSystem.Model.AuditChain

/-!
# What the audit chain is made of

The fixed fields of the hashed bytes never hold the separator, and the texts of a `uuid` and of a time tell the value.
A state is spelt by `json.Marshal` and by `jsonb` alike only if there is nothing in it (`stateBytes_eq_marshal_iff`).
The walk of the verifier ends well exactly if every row passes after the one before it (`walk_ok_iff`).
-/

namespace BookingSystem.Effects.AuditChain

open Base Model.AuditChain

variable {table : List AuditRow} {tenantId : PgUuid} {r : AuditRow}

/-! ### `uuid` -/

theorem hexChar_ne (d : Fin 16) : hexChar d ≠ us ∧ hexChar d ≠ '-' := by
  revert d
  decide

theorem hexChar_injective : Function.Injective hexChar := by decide

theorem digits_of_text (u : PgUuid) : u.text.filter (fun c => decide (c ≠ '-')) = u.digits.map hexChar := by
  have hhex : ∀ cs : List (Fin 16), (cs.map hexChar).filter (fun c => decide (c ≠ '-')) = cs.map hexChar := by
    intro cs
    refine List.filter_eq_self.2 fun c hc => ?_
    obtain ⟨d, -, rfl⟩ := List.mem_map.1 hc
    exact decide_eq_true (hexChar_ne d).2
  simp only [PgUuid.text, ← List.map_take, ← List.map_drop, List.filter_append, List.filter_cons, hhex, ne_eq,
    not_true_eq_false, decide_false, Bool.false_eq_true, if_false, ← List.map_append]
  rw [show u.digits.drop 20 = (u.digits.drop 16).drop 4 by simp, List.take_append_drop,
    show u.digits.drop 16 = (u.digits.drop 12).drop 4 by simp, List.take_append_drop,
    show u.digits.drop 12 = (u.digits.drop 8).drop 4 by simp, List.take_append_drop, List.take_append_drop]

theorem text_injective : Function.Injective PgUuid.text := by
  intro u v h
  have hdigits : u.digits.map hexChar = v.digits.map hexChar := by rw [← digits_of_text, ← digits_of_text, h]
  obtain ⟨du, hu⟩ := u
  obtain ⟨dv, hv⟩ := v
  cases hexChar_injective.list_map hdigits
  rfl

theorem us_notMem_uuid (u : PgUuid) : us ∉ u.text := by
  intro h
  have hmem : us ∈ u.text.filter (fun c => decide (c ≠ '-')) := List.mem_filter.2 ⟨h, by decide⟩
  rw [digits_of_text] at hmem
  obtain ⟨d, -, hd⟩ := List.mem_map.1 hmem
  exact (hexChar_ne d).1 hd

theorem text_ne_nil (u : PgUuid) : u.text ≠ [] := by
  intro h
  have hnil : u.digits.map hexChar = [] := by rw [← digits_of_text, h]; rfl
  have hlength := u.length_digits
  rw [List.map_eq_nil_iff.1 hnil] at hlength
  cases hlength

theorem mem_tail {c d : Char} {cs : List Char} (hmem : c ∈ cs) (hhead : cs.head? = some d) (hne : c ≠ d) :
    c ∈ cs.tail := by
  cases cs with
  | nil => cases hmem
  | cons a cs =>
    cases hhead
    exact (List.mem_cons.1 hmem).resolve_left hne

/-- What is read as bytes does not hold the separator. -/
theorem us_mem_of_readBytes {n : ℕ} {cs rest : List Char} {digits : List (Fin 16)}
    (h : PgUuid.readBytes n cs = some (digits, rest)) (hmem : us ∈ cs) : us ∈ rest := by
  induction n generalizing cs digits with
  | zero =>
    simp only [PgUuid.readBytes, Option.some.injEq, Prod.mk.injEq] at h
    exact h.2 ▸ hmem
  | succ n ih =>
    match cs, h with
    | a :: b :: cs, h =>
      simp only [PgUuid.readBytes, Option.bind_eq_bind, Option.bind_eq_some_iff] at h
      obtain ⟨high, ha, low, hb, ⟨digits', rest'⟩, hrest, heq⟩ := h
      simp only [Option.pure_def, Option.some.injEq, Prod.mk.injEq] at heq
      rw [heq.2] at hrest
      refine ih hrest ?_
      have hne : ∀ c, hexDigit? c ≠ none → us ≠ c := by
        rintro c hc rfl
        exact hc (by decide)
      have hmem : us ∈ cs := by
        rcases List.mem_cons.1 hmem with hc | hmem
        · exact absurd hc (hne a (by rw [ha]; nofun))
        rcases List.mem_cons.1 hmem with hc | hmem
        · exact absurd hc (hne b (by rw [hb]; nofun))
        exact hmem
      split
      · rename_i hhyphen
        exact mem_tail hmem hhyphen.2.2 (by decide)
      · exact hmem

/-- A text that is read as a `uuid` does not hold the separator. -/
theorem us_notMem_of_uuidIn {cs : List Char} {u : PgUuid} (h : PgUuid.uuidIn cs = some u) : us ∉ cs := by
  intro hmem
  simp only [PgUuid.uuidIn, Option.bind_eq_bind, Option.bind_eq_some_iff, Option.pure_def,
    Option.dite_none_right_eq_some] at h
  obtain ⟨⟨digits, rest⟩, hread, ⟨-, hend⟩, -⟩ := h
  have hrest : us ∈ rest := by
    refine us_mem_of_readBytes hread ?_
    split
    · rename_i hbrace
      exact mem_tail hmem hbrace (by decide)
    · exact hmem
  rw [show rest = _ from hend] at hrest
  split at hrest
  · exact absurd (List.mem_singleton.1 hrest) (by decide)
  · cases hrest

/-! ### Times -/

theorem notMem_decimals {c : Char} (hc : c ∉ "0123456789".toList) (w n : ℕ) : c ∉ decimals w n :=
  fun h => hc (mem_decimals h)

theorem us_notMem_civil (c : Civil) (year : ℕ) : us ∉ c.text year := by
  have hdecimals := notMem_decimals (c := us) (by decide)
  have hseparators : us ≠ '-' ∧ us ≠ 'T' ∧ us ≠ ':' ∧ us ≠ '.' := by decide
  simp [Civil.text, decimalsFrom, hdecimals, hseparators]

theorem us_notMem_format (t : GoTime) : us ∉ t.format := by
  have hlast : us ≠ 'Z' := by decide
  simp [GoTime.format, us_notMem_civil, notMem_decimals (c := us) (by decide), hlast]

theorem us_notMem_toChar {t : Timestamp} {text : List Char} (h : t.toChar = some text) : us ∉ text := by
  have hlast : us ≠ '0' ∧ us ≠ 'Z' := by decide
  cases t with
  | negInfinity => cases h
  | infinity => cases h
  | instant c us' =>
    cases h
    simp [us_notMem_civil, notMem_decimals (c := us) (by decide), hlast]

theorem daysIn_le (year : ℤ) (month : ℕ) : daysIn year month ≤ 31 := by
  unfold daysIn
  split_ifs <;> decide

/-- A text that starts with a second of the calendar tells it. -/
theorem civil_append_inj {c c' : Civil} {year year' : ℕ} {rest rest' : List Char}
    (h : c.text year ++ rest = c'.text year' ++ rest') :
    year = year' ∧ (c.month, c.day, c.hour, c.minute, c.second) = (c'.month, c'.day, c'.hour, c'.minute, c'.second) ∧
      rest = rest' := by
  have hdash := notMem_decimals (c := '-') (by decide)
  have hT := notMem_decimals (c := 'T') (by decide)
  have hcolon := notMem_decimals (c := ':') (by decide)
  have hdot := notMem_decimals (c := '.') (by decide)
  have hday := Nat.le_trans c.day_valid.2 (daysIn_le _ _)
  have hday' := Nat.le_trans c'.day_valid.2 (daysIn_le _ _)
  have htime := c.time_valid
  have htime' := c'.time_valid
  have hmonth := c.month_valid
  have hmonth' := c'.month_valid
  simp only [Civil.text, List.append_assoc, List.cons_append, List.nil_append] at h
  obtain ⟨hy, h⟩ := eq_of_append_sep (hdash _ _) (hdash _ _) h
  obtain ⟨hmo, h⟩ := eq_of_append_sep (hdash _ _) (hdash _ _) h
  obtain ⟨hd, h⟩ := eq_of_append_sep (hT _ _) (hT _ _) h
  obtain ⟨hh, h⟩ := eq_of_append_sep (hcolon _ _) (hcolon _ _) h
  obtain ⟨hmi, h⟩ := eq_of_append_sep (hcolon _ _) (hcolon _ _) h
  obtain ⟨hs, h⟩ := eq_of_append_sep (hdot _ _) (hdot _ _) h
  refine ⟨decimalsFrom_inj hy, ?_, h⟩
  rw [decimals_inj (by omega) (by omega) hmo, decimals_inj (by omega) (by omega) hd,
    decimals_inj (by omega) (by omega) hh, decimals_inj (by omega) (by omega) hmi,
    decimals_inj (by omega) (by omega) hs]

theorem decimals_nine (n : ℕ) : decimals 9 n =
    decimals 6 (n / 1000) ++ [Nat.digitChar (n / 100 % 10), Nat.digitChar (n / 10 % 10), Nat.digitChar (n % 10)] := by
  have h : decimals 9 n = ((decimals 6 (n / 10 / 10 / 10) ++ [Nat.digitChar (n / 10 / 10 % 10)]) ++
    [Nat.digitChar (n / 10 % 10)]) ++ [Nat.digitChar (n % 10)] := rfl
  simp only [h, Nat.div_div_eq_div_mul, List.append_assoc, List.cons_append, List.nil_append]

/-- **The stored time is printed as the hashed one iff it has no nanoseconds beside its microseconds.** -/
theorem toChar_ofGo_iff (t : GoTime) :
    (Timestamp.ofGo t).toChar = some t.format ↔ (t.nanosecond : ℕ) % 1000 = 0 := by
  have hyear : Timestamp.yearOfEra t.civil.year = t.civil.year.toNat := by
    unfold Timestamp.yearOfEra
    rw [if_neg (not_le.2 t.year_pos)]
  have hzero : ∀ n, n % 10 < 10 := fun n => Nat.mod_lt _ (by decide)
  simp only [Timestamp.ofGo, Timestamp.toChar, hyear, GoTime.format, Option.some.injEq, List.append_cancel_left_eq,
    decimals_nine, List.append_assoc, List.cons_append, List.nil_append, List.cons.injEq, and_true]
  constructor
  · rintro ⟨h100, h10, h1⟩
    have h100 := digitChar_injective (by decide : 0 < 10) (hzero _) h100
    have h10 := digitChar_injective (by decide : 0 < 10) (hzero _) h10
    have h1 := digitChar_injective (by decide : 0 < 10) (hzero _) h1
    omega
  · intro h
    rw [show (t.nanosecond : ℕ) / 100 % 10 = 0 by omega, show (t.nanosecond : ℕ) / 10 % 10 = 0 by omega,
      show (t.nanosecond : ℕ) % 10 = 0 by omega]
    exact ⟨rfl, rfl, rfl⟩

/-! ### States -/

/-- A character that `jsonb` spells in a way that a byte string can be read from. -/
def readable (c : Char) : Bool := decide (c ≠ '"' ∧ 32 ≤ c.toNat)

theorem unicodeEscape_eq (c : Char) : ∃ t, unicodeEscape c = '\\' :: 'u' :: t ∧ ∀ d ∈ t, d ≠ us := by
  refine ⟨_, rfl, fun d hd => ?_⟩
  obtain ⟨n, -, rfl⟩ := List.mem_map.1 hd
  exact (hexChar_ne _).1

theorem toNat_ne {c d : Char} (h : c.toNat ≠ d.toNat) : c ≠ d := fun hcd => h (congrArg Char.toNat hcd)

/-- The text of a `jsonb` is read as a byte string unless a character in it has another escape than a backslash. -/
theorem legible_jsonbStyle : jsonbStyle.Legible readable where
  esc c := by
    have herror : ∀ {d : Char} {t : List Char}, d ≠ '\\' → readable c = false →
        Reads ('\\' :: d :: t) (readable c) [c] := fun hd hc => hc ▸ .error hd _
    have hlow : c.toNat < 32 → readable c = false := fun h => by simp [readable, Nat.not_le.2 h]
    simp only [jsonbStyle, jsonbEscape]
    split_ifs with h1 h2 h3 h4 h5 h6 h7 h8
    · exact herror (by decide) (by simp [readable, h1])
    · subst h2
      exact .backslash
    · exact herror (by decide) (hlow (by omega))
    · exact herror (by decide) (hlow (by omega))
    · exact herror (by decide) (hlow (by subst h5; decide))
    · exact herror (by decide) (hlow (by subst h6; decide))
    · exact herror (by decide) (hlow (by subst h7; decide))
    · obtain ⟨t, ht, -⟩ := unicodeEscape_eq c
      rw [ht]
      exact herror (by decide) (hlow h8)
    · have hgood : readable c = true := by simp [readable, h1, Nat.not_lt.1 h8]
      rw [hgood]
      exact .plain (by simpa using Ne.symm h2)
  comma := by decide
  colon := by decide

theorem us_notMem_goEscape (c : Char) : ∀ d ∈ goEscape c, d ≠ us := by
  intro d hd
  unfold goEscape at hd
  split_ifs at hd with h1 h2 h3 h4 h5 h6 h7 h8
  all_goals try (simp only [List.mem_cons, List.not_mem_nil, or_false] at hd; rcases hd with rfl | rfl <;> decide)
  · obtain ⟨t, ht, hus⟩ := unicodeEscape_eq c
    rw [ht, List.mem_cons, List.mem_cons] at hd
    rcases hd with rfl | rfl | hd
    · decide
    · decide
    · exact hus d hd
  · rw [List.mem_singleton.1 hd]
    refine toNat_ne fun h => h8 (.inl ?_)
    rw [h]
    decide

theorem us_notMem_print {style : JsonStyle} {p : Char → Bool} {v : Json} (hall : v.all p = true)
    (hcomma : us ∉ style.comma) (hcolon : us ∉ style.colon) (hesc : ∀ c, p c = true → ∀ d ∈ style.esc c, d ≠ us) :
    us ∉ v.print style := fun hmem => by
  have hfixed : us ∉ "nulltruefalse[]{}\"0123456789+-.eE".toList := by decide
  exact Json.forall_mem_print (P := fun d => d ≠ us) (fun d hd hus => hfixed (hus ▸ hd))
    (fun d hd hus => hcomma (hus ▸ hd)) (fun d hd hus => hcolon (hus ▸ hd)) hesc v hall us hmem rfl

theorem us_notMem_marshal (s : StateMap) : us ∉ s.marshal := by
  cases hs : s.json? with
  | none => simp [StateMap.marshal, hs]
  | some v =>
    simp only [StateMap.marshal, hs, Option.map_some, Option.getD_some]
    exact us_notMem_print (Json.all_of_forall (fun _ => rfl) _) (by decide) (by decide)
      fun c (_ : true = true) => us_notMem_goEscape c

theorem us_notMem_byteaIn (j : Jsonb) {bytes : List Char} (h : byteaIn j.text = some bytes) : us ∉ bytes := by
  obtain ⟨v, hv⟩ := j.spelt
  rw [← hv, (Json.reads_print legible_jsonbStyle v).eq] at h
  split at h
  · rename_i hall
    cases h
    refine us_notMem_print hall (by decide) (by decide) fun c hc d hd hus => ?_
    rw [JsonStyle.raw, List.mem_singleton.1 hd] at *
    subst hus
    exact absurd hc (by decide)
  · cases h

theorem us_notMem_stateBytes {state : Option Jsonb} {bytes : List Char} (h : stateBytes state = some bytes) :
    us ∉ bytes := by
  cases state with
  | none =>
    cases h
    exact List.not_mem_nil
  | some j => exact us_notMem_byteaIn j h

theorem quote_notMem_of_readable {k : List Char} (h : k.all readable = true) : '"' ∉ k := fun hmem =>
  absurd (List.all_eq_true.1 h _ hmem) (by decide)

theorem quote_notMem_goEscape {c : Char} (hc : c ≠ '"') : '"' ∉ goEscape c := by
  unfold goEscape
  split_ifs with hquote
  · exact absurd hquote hc
  all_goals try decide
  · unfold unicodeEscape
    intro hmem
    simp only [List.mem_cons, List.mem_map] at hmem
    rcases hmem with h | h | ⟨n, -, hn⟩
    · exact absurd h (by decide)
    · exact absurd h (by decide)
    · exact absurd hn ((by decide : ∀ d, hexChar d ≠ '"') _)
  · simpa using Ne.symm hc

/-- The text of an object in the column is never that of `json.Marshal`: it has a blank after each colon. -/
theorem byteaIn_entries_ne (numeric : JsonNumber → JsonNumber) {members : List (List Char × Json)}
    (hne : members ≠ []) :
    byteaIn (((Json.obj members).arrange jsonbKeyLe numeric).print jsonbStyle) ≠
      some (((Json.obj members).arrange (fun a b => decide (a ≤ b)) id).print goStyle) := by
  obtain ⟨stored, hstored, hkeys⟩ := Json.arrange_obj jsonbKeyLe numeric members
  obtain ⟨written, hwritten, hkeys'⟩ := Json.arrange_obj (fun a b => decide (a ≤ b)) id members
  rw [hstored, hwritten, (Json.reads_print legible_jsonbStyle _).eq]
  split
  · rename_i hall
    have hnil : ∀ ms : List (List Char × Json), (ms.map Prod.fst).Perm (members.map Prod.fst) → ms ≠ [] := by
      rintro ms hperm rfl
      exact hne (List.map_eq_nil_iff.1 hperm.symm.eq_nil)
    obtain ⟨⟨k, x⟩, rest, rfl⟩ := List.exists_cons_of_ne_nil (hnil written hkeys')
    obtain ⟨⟨k', x'⟩, rest', rfl⟩ := List.exists_cons_of_ne_nil (hnil stored hkeys)
    -- all keys are in the stored object, so none of them holds a quote
    have hquote : ∀ key ∈ members.map Prod.fst, '"' ∉ key := fun key hkey =>
      quote_notMem_of_readable (Json.all_of_mem_keys hall (hkeys.mem_iff.2 hkey))
    have hk : '"' ∉ k := hquote k (hkeys'.mem_iff.1 List.mem_cons_self)
    have hk' : '"' ∉ k' := hquote k' (hkeys.mem_iff.1 List.mem_cons_self)
    intro heq
    refine Json.print_obj_ne rfl rfl ?_ ?_ (Option.some.inj heq).symm
    · intro hmem
      obtain ⟨c, hc, hquoted⟩ := List.mem_flatMap.1 hmem
      exact quote_notMem_goEscape (fun h => hk (h ▸ hc)) hquoted
    · simpa [JsonStyle.raw] using hk'
  · nofun

/-- **A state is spelt alike by both sides iff there is nothing in it.** -/
theorem stateBytes_eq_marshal_iff (numeric : JsonNumber → JsonNumber) (s : StateMap) :
    stateBytes (s.column numeric) = some s.marshal ↔ ∀ members, s = .entries members → members = [] := by
  cases s with
  | nilMap => exact iff_of_true rfl nofun
  | unsupported => exact iff_of_true rfl nofun
  | entries members =>
    cases members with
    | nil => exact iff_of_true rfl fun _ h => by cases h; rfl
    | cons member members =>
      refine iff_of_false (byteaIn_entries_ne numeric (List.cons_ne_nil _ _)) fun h => ?_
      cases h _ rfl

/-! ### The bytes of a row -/

@[simp] theorem delimited_cons (part : List Char) (parts : List (List Char)) :
    delimited (part :: parts) = part ++ us :: delimited parts := by simp [delimited]

def rowBytes (r : AuditRow) (timestamp targetId previous next : List Char) : List Char :=
  delimited [r.prevHash.getD [], r.id.text, r.tenantId.text, timestamp, (r.actorUserId.map PgUuid.text).getD [],
    r.actionType, r.targetEntity, targetId, r.ipAddress.getD [], r.userAgent.getD [], r.outcome.getD [],
    r.severity.getD [], r.sessionId.getD [], r.requestId.getD []] ++ (previous ++ us :: next)

theorem composed_eq_bytes {bytes : List Char} : composed r = some (some bytes) ↔
    ∃ previous next timestamp targetId, stateBytes r.previousState = some previous ∧ stateBytes r.newState = some next ∧
      r.timestamp.toChar = some timestamp ∧ r.targetId = some targetId ∧
      bytes = rowBytes r timestamp targetId previous next := by
  simp only [composed, Option.bind_eq_bind, Option.bind_eq_some_iff, Option.pure_def, Option.some.injEq]
  constructor
  · rintro ⟨previous, hprevious, next, hnext, timestamp, htimestamp, targetId, htarget, rfl⟩
    exact ⟨previous, next, timestamp, targetId, hprevious, hnext, htimestamp, htarget, rfl⟩
  · rintro ⟨previous, next, timestamp, targetId, hprevious, hnext, htimestamp, htarget, rfl⟩
    exact ⟨previous, hprevious, next, hnext, timestamp, htimestamp, targetId, htarget, rfl⟩

/-! ### The row of an entry -/

def accepts (taken : List PgUuid) (call : SaveCall) : Bool :=
  (actorColumn call.entry.actorUserId).isSome && (varchar 100 call.entry.actionType).isSome &&
    (varchar 100 call.entry.targetEntity).isSome && !call.refused && decide (call.entry.id ∉ taken)

theorem getD_nullIf (t : List Char) : (nullIf t).getD [] = t := by
  unfold nullIf
  split
  · rename_i h
    exact h.symm
  · rfl

section

variable (sha256 : List Char → List Char) (numeric : JsonNumber → JsonNumber)

/-- The row of an entry that is inserted. -/
def rowOf (e : AuditEntry) (prevHash : List Char) : AuditRow where
  id := e.id
  tenantId := e.tenantId
  timestamp := .ofGo e.timestamp
  actorUserId := (actorColumn e.actorUserId).getD none
  actionType := (varchar 100 e.actionType).getD []
  targetEntity := (varchar 100 e.targetEntity).getD []
  targetId := some e.targetId
  previousState := e.previousState.column numeric
  newState := e.newState.column numeric
  ipAddress := some e.ipAddress
  userAgent := some e.userAgent
  outcome := nullIf e.outcome
  severity := nullIf e.severity
  sessionId := nullIf e.sessionId
  requestId := nullIf e.requestId
  prevHash := nullIf prevHash
  entryHash := some (computeAuditHash sha256 e prevHash)

variable {sha256 numeric}

theorem insertedRow_eq (table : List AuditRow) (prevHash : List Char) (call : SaveCall) :
    insertedRow sha256 numeric table prevHash call =
      if accepts (table.map AuditRow.id) call then some (rowOf sha256 numeric call.entry prevHash) else none := by
  unfold insertedRow accepts rowOf
  cases hactor : actorColumn call.entry.actorUserId with
  | none => simp [hactor]
  | some actor =>
    cases haction : varchar 100 call.entry.actionType with
    | none => simp [hactor, haction]
    | some action =>
      cases hentity : varchar 100 call.entry.targetEntity with
      | none => simp [hactor, haction, hentity]
      | some entity =>
        cases hrefused : call.refused with
        | true => simp [hactor, haction, hentity]
        | false =>
          by_cases hid : call.entry.id ∈ table.map AuditRow.id
          · simp [hactor, haction, hentity, hid]
          · simp [hactor, haction, hentity, hid]

/-- A digest that tells bytes apart, has no separator in it and is never empty. -/
structure Telling (sha256 : List Char → List Char) : Prop where
  injective : Function.Injective sha256
  us_notMem : ∀ bytes, us ∉ sha256 bytes
  ne_nil : ∀ bytes, sha256 bytes ≠ []

def unary (bytes : List Char) : List Char := List.replicate (Encodable.encode (bytes.map Char.toNat) + 1) 'h'

theorem telling_unary : Telling unary where
  injective := by
    intro a b h
    have hlength := congrArg List.length h
    simp only [unary, List.length_replicate, Nat.add_right_cancel_iff] at hlength
    exact Function.Injective.list_map (fun _ _ h => Char.toNat_inj.1 h) (Encodable.encode_injective hlength)
  us_notMem bytes hmem := absurd (List.eq_of_mem_replicate hmem) (by decide)
  ne_nil bytes h := by simp [unary] at h

theorem id_eq_of_entryHash (htelling : Telling sha256) {e e' : AuditEntry} {prevHash prevHash' : List Char}
    (hprev : us ∉ prevHash) (hprev' : us ∉ prevHash')
    (h : (rowOf sha256 numeric e prevHash).entryHash = (rowOf sha256 numeric e' prevHash').entryHash) :
    e.id = e'.id := by
  have hbytes := htelling.injective (Option.some.inj h)
  simp only [hashedBytes, delimited_cons, List.append_assoc, List.cons_append] at hbytes
  obtain ⟨-, hbytes⟩ := eq_of_append_sep hprev hprev' hbytes
  exact text_injective (eq_of_append_sep (us_notMem_uuid _) (us_notMem_uuid _) hbytes).1

end

/-! ### The rows of a tenant -/

theorem mem_chainOf : r ∈ chainOf table tenantId ↔ r ∈ table ∧ r.tenantId = tenantId ∧ r.entryHash.isSome = true := by
  simp [chainOf]

instance : Std.Total (fun a b : AuditRow => a.key ≤ b.key) := ⟨fun a b => le_total a.key b.key⟩

instance : IsTrans AuditRow (fun a b => a.key ≤ b.key) := ⟨fun _ _ _ hab hbc => le_trans hab hbc⟩

theorem sorted_chainOf (table : List AuditRow) (tenantId : PgUuid) :
    (chainOf table tenantId).Pairwise fun a b => a.key ≤ b.key := List.pairwise_insertionSort _ _

theorem mem_tenantsOf : tenantId ∈ tenantsOf table ↔ chainOf table tenantId ≠ [] := by
  simp only [tenantsOf, List.mem_dedup, List.mem_map, List.mem_filter]
  constructor
  · rintro ⟨r, ⟨hr, hhashed⟩, htenant⟩
    exact List.ne_nil_of_mem (mem_chainOf.2 ⟨hr, htenant, hhashed⟩)
  · intro hne
    obtain ⟨r, hr⟩ := List.exists_mem_of_ne_nil _ hne
    obtain ⟨hmem, htenant, hhashed⟩ := mem_chainOf.1 hr
    exact ⟨r, ⟨hmem, hhashed⟩, htenant⟩

theorem key_injective : Function.Injective PgUuid.key := by
  intro u v h
  obtain ⟨du, hu⟩ := u
  obtain ⟨dv, hv⟩ := v
  have hinjective : Function.Injective fun d : Fin 16 => (d.val : ℤ) := fun a b hab => Fin.ext (Int.ofNat.inj hab)
  cases hinjective.list_map h
  rfl

theorem id_eq_of_key {s : AuditRow} (h : r.key = s.key) : r.id = s.id := by
  have hlength : r.id.key.length = s.id.key.length := by
    rw [PgUuid.key, PgUuid.key, List.length_map, List.length_map, r.id.length_digits, s.id.length_digits]
  exact key_injective (List.append_inj' h hlength).2

/-- The sort leaves an element at the end that is at least as great as all others. -/
theorem insertionSort_append_singleton {rows : List AuditRow} (h : ∀ s ∈ rows, s.key ≤ r.key) :
    (rows ++ [r]).insertionSort (fun a b => a.key ≤ b.key) = rows.insertionSort (fun a b => a.key ≤ b.key) ++ [r] := by
  have hinsert : ∀ (a : AuditRow) (l : List AuditRow), a.key ≤ r.key →
      (l ++ [r]).orderedInsert (fun a b => a.key ≤ b.key) a = l.orderedInsert (fun a b => a.key ≤ b.key) a ++ [r] := by
    intro a l ha
    induction l with
    | nil => simp [List.orderedInsert, ha]
    | cons b l ih =>
      simp only [List.cons_append, List.orderedInsert, ih]
      split <;> rfl
  induction rows with
  | nil => rfl
  | cons a rows ih =>
    rw [List.cons_append, List.insertionSort_cons, ih fun s hs => h s (List.mem_cons_of_mem _ hs),
      hinsert a _ (h a List.mem_cons_self), List.insertionSort_cons]

theorem chainOf_append_of_ne (h : r.tenantId ≠ tenantId) :
    chainOf (table ++ [r]) tenantId = chainOf table tenantId := by
  simp [chainOf, List.filter_append, h]

theorem chainOf_append (htenant : r.tenantId = tenantId) (hhashed : r.entryHash.isSome = true)
    (h : ∀ s ∈ chainOf table tenantId, s.key ≤ r.key) :
    chainOf (table ++ [r]) tenantId = chainOf table tenantId ++ [r] := by
  have hlast : [r].filter (fun s => decide (s.tenantId = tenantId) && s.entryHash.isSome) = [r] := by
    simp [htenant, hhashed]
  rw [chainOf, List.filter_append, hlast, insertionSort_append_singleton fun s hs => h s (by simpa [chainOf] using hs)]
  rfl

theorem key_le_getLast {s g : AuditRow} (hs : s ∈ chainOf table tenantId)
    (hg : (chainOf table tenantId).getLast? = some g) : s.key ≤ g.key := by
  obtain ⟨init, hinit⟩ := List.getLast?_eq_some_iff.1 hg
  have hsorted := sorted_chainOf table tenantId
  rw [hinit] at hs hsorted
  rcases List.mem_append.1 hs with hs | hs
  · exact (List.pairwise_append.1 hsorted).2.2 s hs g List.mem_cons_self
  · rw [List.mem_singleton.1 hs]

/-! ### The walk -/

section

variable (sha256 : List Char → List Char)

/-- The check of one row: it is not raised, and the hash, if there is one to compare, is the stored one. -/
def Passes (r : AuditRow) : Prop := ∃ composition, composed r = some composition ∧
  ∀ bytes, composition = some bytes → sha256 bytes = r.entryHash.getD []

def Chained : List Char → List AuditRow → Prop
  | _, [] => True
  | expected, r :: rest => r.prevHash.getD [] = expected ∧ Passes sha256 r ∧ Chained (r.entryHash.getD []) rest

def lastHash : List Char → List AuditRow → List Char
  | expected, [] => expected
  | _, r :: rest => lastHash (r.entryHash.getD []) rest

variable {sha256}

theorem chained_append {expected : List Char} {rows rows' : List AuditRow} :
    Chained sha256 expected (rows ++ rows') ↔
      Chained sha256 expected rows ∧ Chained sha256 (lastHash expected rows) rows' := by
  induction rows generalizing expected with
  | nil => simp [Chained, lastHash]
  | cons r rows ih => simp only [List.cons_append, Chained, lastHash, ih, and_assoc]

theorem Chained.passes {expected : List Char} {rows : List AuditRow} (h : Chained sha256 expected rows)
    (hr : r ∈ rows) : Passes sha256 r := by
  induction rows generalizing expected with
  | nil => cases hr
  | cons s rows ih =>
    rcases List.mem_cons.1 hr with rfl | hr
    · exact h.2.1
    · exact ih h.2.2 hr

theorem lastHash_append (expected : List Char) (rows rows' : List AuditRow) :
    lastHash expected (rows ++ rows') = lastHash (lastHash expected rows) rows' := by
  induction rows generalizing expected with
  | nil => rfl
  | cons s rows ih => exact ih _

@[simp] theorem lastHash_append_singleton (expected : List Char) (rows : List AuditRow) (r : AuditRow) :
    lastHash expected (rows ++ [r]) = r.entryHash.getD [] := by
  rw [lastHash_append]
  rfl

theorem lookupPrevHash_eq (table : List AuditRow) (tenantId : PgUuid) :
    lookupPrevHash table tenantId = lastHash [] (chainOf table tenantId) := by
  unfold lookupPrevHash
  cases hrows : (chainOf table tenantId).getLast? with
  | none =>
    rw [List.getLast?_eq_none_iff.1 hrows]
    rfl
  | some g =>
    obtain ⟨init, hinit⟩ := List.getLast?_eq_some_iff.1 hrows
    rw [hinit, lastHash_append_singleton]
    rfl

theorem walk_cons {expected : List Char} {seen : ℕ} {rest : List AuditRow} (hprev : r.prevHash.getD [] = expected)
    (hpass : Passes sha256 r) :
    walk sha256 expected seen (r :: rest) = walk sha256 (r.entryHash.getD []) (seen + 1) rest := by
  obtain ⟨composition, hcomposed, hbytes⟩ := hpass
  rw [walk, if_neg (not_not.2 hprev), hcomposed]
  cases composition with
  | none => rfl
  | some bytes => simp only [hbytes bytes rfl, ne_eq, not_true_eq_false, if_false]

/-- **The walk ends well iff the rows are chained.** -/
theorem walk_ok_iff (seen : ℕ) {expected : List Char} {rows : List AuditRow} :
    (∃ finding, walk sha256 expected seen rows = some finding ∧ finding.reason = .ok) ↔
      Chained sha256 expected rows := by
  induction rows generalizing expected seen with
  | nil => exact iff_of_true ⟨_, rfl, rfl⟩ trivial
  | cons r rest ih =>
    by_cases hprev : r.prevHash.getD [] = expected
    · by_cases hpass : Passes sha256 r
      · rw [walk_cons hprev hpass, ih]
        simp [Chained, hprev, hpass]
      · refine iff_of_false ?_ fun h => hpass h.2.1
        rintro ⟨finding, hwalk, hok⟩
        rw [walk, if_neg (not_not.2 hprev)] at hwalk
        cases hcomposed : composed r with
        | none => simp [hcomposed] at hwalk
        | some composition =>
          cases composition with
          | none => exact hpass ⟨_, hcomposed, nofun⟩
          | some bytes =>
            by_cases hhash : sha256 bytes = r.entryHash.getD []
            · exact hpass ⟨_, hcomposed, fun _ h => by cases h; exact hhash⟩
            · simp only [hcomposed, ne_eq, hhash, not_false_eq_true, if_true, Option.some.injEq] at hwalk
              rw [← hwalk] at hok
              cases hok
    · refine iff_of_false ?_ fun h => hprev h.1
      rintro ⟨finding, hwalk, hok⟩
      rw [walk, if_pos hprev] at hwalk
      cases hwalk
      cases hok

theorem mapM_some_iff {α β : Type} {f : α → Option β} {xs : List α} {P : β → Prop} :
    (∃ ys, xs.mapM f = some ys ∧ ∀ y ∈ ys, P y) ↔ ∀ x ∈ xs, ∃ y, f x = some y ∧ P y := by
  induction xs with
  | nil => simp
  | cons x xs ih =>
    simp only [List.mapM_cons, Option.bind_eq_bind, Option.bind_eq_some_iff, Option.pure_def, Option.some.injEq,
      List.forall_mem_cons, ← ih]
    constructor
    · rintro ⟨_, ⟨y, hy, ys, hys, rfl⟩, hall⟩
      exact ⟨⟨y, hy, hall y List.mem_cons_self⟩, ys, hys, fun z hz => hall z (List.mem_cons_of_mem _ hz)⟩
    · rintro ⟨⟨y, hy, hPy⟩, ys, hys, hall⟩
      exact ⟨_, ⟨y, hy, ys, hys, rfl⟩, List.forall_mem_cons.2 ⟨hPy, hall⟩⟩

/-- **The verifier says `ok` for every tenant iff the columns are texts and every tenant's rows are chained**; on a
table without hashed rows it has nothing to say. -/
theorem verify_ok_iff {columns : Columns} :
    (∃ reports, verifyAuditChain sha256 columns table = some reports ∧ ∀ r ∈ reports, r.finding.reason = .ok) ↔
      ∀ tenantId, chainOf table tenantId ≠ [] →
        columns.readable = true ∧ Chained sha256 [] (chainOf table tenantId) := by
  rw [verifyAuditChain, mapM_some_iff]
  simp only [mem_tenantsOf]
  refine forall₂_congr fun tenantId _ => ?_
  cases hreadable : columns.readable with
  | false => simp
  | true =>
    rw [← walk_ok_iff 0]
    simp

end

end BookingSystem.Effects.AuditChain
