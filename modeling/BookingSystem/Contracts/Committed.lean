import BookingSystem.Model.TenantTx

/-!
# A success response means committed data

The handler of a request sees exceptions and catches some of them; the database sees a transaction that may have failed.
`judge` follows a handler without a database and says what becomes of the transaction: it is `fine`, it is `spoiled` by
a failed statement which the end of the inner transaction can still undo, or it is `doomed`. The main lemma,
`follows_run`, is that the connection does what `judge` says. A response then means committed data unless the handler
catches the failure of a statement in the very transaction it happened in, goes on to its end, and has written something
(`success_means_committed_iff`).
-/

namespace BookingSystem.Contracts.Committed

open Base Model.TenantTx Effects.TenantTx

variable {ω : Type}

/-! ### Following a handler -/

/-- What has become of the transaction: a failed statement spoils it until the rollback of the inner transaction it is
in; it is doomed when the failure has met the start or the commit of an inner transaction. -/
inductive Health
  | fine | spoiled | doomed
  deriving DecidableEq

def Health.spoil : Health → Health
  | .fine | .spoiled => .spoiled
  | .doomed => .doomed

/-- What is said of a part of a handler: it goes on or throws, the transaction, and the rows it has written. -/
structure Verdict (ω : Type) where
  ok : Bool
  health : Health
  kept : List ω

def Verdict.then (v v' : Verdict ω) : Verdict ω := { v' with kept := v.kept ++ v'.kept }

def endOf (f : Faults) (v : Verdict ω) : Verdict ω :=
  match v.ok, v.health with
  | true, .fine => if f.commit then ⟨false, .doomed, []⟩ else v
  | true, .spoiled | _, .doomed => ⟨false, .doomed, []⟩
  | false, .fine | false, .spoiled => if f.rollback then ⟨false, .spoiled, []⟩ else ⟨false, .fine, []⟩

/-- The verdict on a handler that meets the transaction as it is. -/
def judge : Health → Prog ω → Verdict ω
  | h, .skip => ⟨true, h, []⟩
  | h, .sql w broken => if h = .fine ∧ broken = false then ⟨true, .fine, w.toList⟩ else ⟨false, h.spoil, []⟩
  | h, .throw => ⟨false, h, []⟩
  | h, .seq p q =>
    let v := judge h p
    if v.ok then v.then (judge v.health q) else v
  | h, .tryCatch p q =>
    let v := judge h p
    if v.ok then v else v.then (judge v.health q)
  | h, .transaction f p =>
    if h = .fine ∧ f.start = false then endOf f (judge .fine p) else ⟨false, .doomed, []⟩

/-- The handler ends without an exception in a transaction that has failed, and has written something. -/
def Loses (p : Prog ω) : Prop :=
  (judge .fine p).ok = true ∧ (judge .fine p).health ≠ .fine ∧ (judge .fine p).kept ≠ []

theorem judge_doomed (p : Prog ω) : (judge .doomed p).health = .doomed := by
  induction p with
  | skip => rfl
  | sql w broken => rfl
  | throw => rfl
  | seq p q ihp ihq =>
    simp only [judge]
    split
    · rw [ihp]
      exact ihq
    · exact ihp
  | tryCatch p q ihp ihq =>
    simp only [judge]
    split
    · exact ihp
    · rw [ihp]
      exact ihq
  | transaction f p ih => rfl

/-! ### A connection that cannot be mended -/

/-- The counter of the interceptor is behind: no end of an inner transaction that is open names its own savepoint any
more. -/
structure Doomed (n : ℤ) (st : Pinned ω) : Prop where
  depth : st.depth < n
  failed : st.tx.failed = false → 1 ≤ st.depth
  names : ∀ x ∈ st.tx.saved, 1 ≤ x.name

section Doomed

variable {n : ℤ} {st : Pinned ω} {broken : Bool}

theorem query_cases (s : Statement ℤ ω) (st : Pinned ω) (broken : Bool) :
    (∃ tx, st.tx.exec? s = some tx ∧ query broken s st = ({ st with tx := tx }, true)) ∨
      query broken s st = ({ st with tx := { st.tx with failed := true } }, false) := by
  unfold query Tx.exec
  cases hb : broken || malformed s with
  | true => exact .inr rfl
  | false =>
    cases hs : st.tx.exec? s with
    | none => exact .inr rfl
    | some tx => exact .inl ⟨tx, rfl, rfl⟩

theorem Doomed.fail (h : Doomed n st) : Doomed n { st with tx := { st.tx with failed := true } } :=
  ⟨h.depth, nofun, h.names⟩

theorem Doomed.sql (h : Doomed n st) (w : Option ω) : Doomed n (query broken (statement w) st).1 := by
  rcases query_cases (statement w) st broken with ⟨tx, htx, hq⟩ | hq
  · rw [hq]
    cases w with
    | none =>
      simp only [statement, Tx.exec?, Option.ite_none_left_eq_some, Option.some.injEq] at htx
      obtain ⟨-, rfl⟩ := htx
      exact h
    | some w =>
      simp only [statement, Tx.exec?, Option.ite_none_left_eq_some, Option.some.injEq] at htx
      obtain ⟨-, rfl⟩ := htx
      exact ⟨h.depth, h.failed, h.names⟩
  · rw [hq]
    exact h.fail

theorem Doomed.mono (h : Doomed n st) : Doomed (n + 1) st := ⟨Int.lt_trans h.depth (Int.lt_succ n), h.failed, h.names⟩

theorem Doomed.start (h : Doomed n st) (broken : Bool) :
    Doomed (n + 1) (startTransaction broken st).1 ∧
      ((startTransaction broken st).2 = false → Doomed n (startTransaction broken st).1) := by
  unfold startTransaction
  rcases query_cases (.savepoint st.depth) st broken with ⟨tx, htx, hq⟩ | hq
  · simp only [Tx.exec?, Option.ite_none_left_eq_some, Option.some.injEq, Bool.not_eq_true] at htx
    obtain ⟨hok, rfl⟩ := htx
    have hdepth := h.failed hok
    rw [hq, if_pos rfl]
    refine ⟨⟨Int.add_lt_add_right h.depth 1, fun _ => Int.le_add_one hdepth, fun x hx => ?_⟩,
      fun hlost => by cases hlost⟩
    rcases List.mem_cons.1 hx with rfl | hx
    · exact hdepth
    · exact h.names x hx
  · rw [hq]
    exact ⟨h.fail.mono, fun _ => h.fail⟩

theorem Doomed.commit (h : Doomed (n + 1) st) : Doomed n (commitTransaction broken st).1 := by
  have hdepth : st.depth - 1 < n := Int.sub_lt_iff.2 h.depth
  unfold commitTransaction
  rcases query_cases (.release (st.depth - 1)) { st with depth := st.depth - 1 } broken with ⟨tx, htx, hq⟩ | hq
  · simp only [Tx.exec?, Option.ite_none_left_eq_some] at htx
    obtain ⟨-, htx⟩ := htx
    rw [hq]
    split at htx
    · rename_i sp older hsince
      cases htx
      obtain ⟨hname, hmem⟩ := Tx.since_cons hsince
      refine ⟨hdepth, fun _ => ?_, fun x hx => h.names x (hmem x (List.mem_cons_of_mem _ hx))⟩
      exact hname ▸ h.names sp (hmem sp List.mem_cons_self)
    · cases htx
  · rw [hq]
    exact ⟨hdepth, (fun hok => by cases hok), h.names⟩

theorem Doomed.rollback (h : Doomed (n + 1) st) : Doomed n (rollbackTransaction broken st).1 := by
  have hdepth : st.depth - 1 < n := Int.sub_lt_iff.2 h.depth
  unfold rollbackTransaction
  rcases query_cases (.rollbackTo (st.depth - 1)) { st with depth := st.depth - 1 } broken with ⟨tx, htx, hq⟩ | hq
  · simp only [Tx.exec?] at htx
    rw [hq]
    split at htx
    · rename_i sp older hsince
      cases htx
      obtain ⟨hname, hmem⟩ := Tx.since_cons hsince
      refine ⟨hdepth, fun _ => ?_, fun x hx => h.names x (hmem x hx)⟩
      exact hname ▸ h.names sp (hmem sp List.mem_cons_self)
    · cases htx
  · rw [hq]
    exact ⟨hdepth, (fun hok => by cases hok), h.names⟩

theorem Doomed.endTransaction {r : Result ω} (h : Doomed (n + 1) r.st) (f : Faults) :
    Doomed n (endTransaction f r).st := by
  unfold Model.TenantTx.endTransaction
  split
  · dsimp only
    split
    · exact h.commit
    · exact h.commit.mono.rollback
  · exact h.rollback

theorem Doomed.run (p : Prog ω) (h : Doomed n st) : Doomed n (p.run st).st := by
  induction p generalizing n st with
  | skip => exact h
  | sql w broken => exact h.sql w
  | throw => exact h
  | seq p q ihp ihq =>
    simp only [Prog.run]
    split
    · exact ihq (ihp h)
    · exact ihp h
  | tryCatch p q ihp ihq =>
    simp only [Prog.run]
    split
    · exact ihp h
    · exact ihq (ihp h)
  | transaction f p ih =>
    obtain ⟨hin, hout⟩ := h.start f.start
    simp only [Prog.run]
    split
    · exact (ih hin).endTransaction f
    · rename_i hs
      exact (hout (by simpa using hs)).mono.rollback

theorem Doomed.failed_outer (h : Doomed 1 st) : st.tx.failed = true := by
  by_contra hok
  exact absurd (h.failed (by simpa using hok)) (Int.not_le.2 h.depth)

end Doomed

/-! ### The connection does what the verdict says -/

def Follows (n : ℤ) (base : List (Savepoint ℤ ω)) (ws : List ω) : Health → Pinned ω → Prop
  | .fine, st => st.depth = n ∧ st.tx.failed = false ∧ Over n base st.tx.saved ∧ st.tx.writes = ws
  | .spoiled, st => st.depth = n ∧ st.tx.failed = true ∧ Over n base st.tx.saved
  | .doomed, st => Doomed n st

/-- The result of a part of a handler is what the verdict says; of a doomed inner transaction nothing is said but that
it is doomed. -/
structure Agrees (n : ℤ) (base : List (Savepoint ℤ ω)) (ws : List ω) (v : Verdict ω) (r : Result ω) : Prop where
  st : Follows n base (ws ++ v.kept) v.health r.st
  same : v.health ≠ .doomed ∨ n = 1 → r.ok = v.ok ∧ r.kept = v.kept

section Follows

variable {n : ℤ} {base saved : List (Savepoint ℤ ω)} {ws : List ω} {h : Health} {st : Pinned ω}

theorem Follows.failed (hst : Follows n base ws h st) (hne : h ≠ .fine) (hn : h ≠ .doomed ∨ n = 1) :
    st.tx.failed = true := by
  cases h with
  | fine => exact absurd rfl hne
  | spoiled => exact hst.2.1
  | doomed =>
    obtain rfl : n = 1 := hn.resolve_left fun hd => hd rfl
    exact Doomed.failed_outer hst

theorem Over.one_le (hover : Over n base st.tx.saved) (hn : 1 ≤ n) (hbase : ∀ x ∈ base, 1 ≤ x.name) :
    ∀ x ∈ st.tx.saved, 1 ≤ x.name := by
  obtain ⟨extra, hsaved, hextra⟩ := hover
  intro x hx
  rw [hsaved, List.mem_append] at hx
  rcases hx with hx | hx
  · exact Int.le_trans hn (hextra x hx)
  · exact hbase x hx

theorem query_of_failed {s : Statement ℤ ω} (hfailed : st.tx.failed = true) (hs : ∀ k, s ≠ .rollbackTo k)
    (broken : Bool) : query broken s st = (st, false) := by
  unfold query
  rw [Tx.exec_of_failed hfailed hs]

theorem statement_ne (w : Option ω) (k : ℤ) : statement w ≠ .rollbackTo k := by
  cases w <;> nofun

theorem agrees_sql (hst : Follows n base ws h st) (w : Option ω) (broken : Bool) :
    Agrees n base ws (judge h (.sql w broken)) ((Prog.sql w broken).run st) := by
  by_cases hfine : h = .fine ∧ broken = false
  · obtain ⟨rfl, rfl⟩ := hfine
    obtain ⟨hdepth, hok, hover, hwrites⟩ := hst
    have hq : query false (statement w) st =
        ({ st with tx := { st.tx with writes := st.tx.writes ++ w.toList } }, true) := by
      cases w with
      | none =>
        simp only [query, Tx.exec, Tx.exec?, malformed, statement, Option.toList, List.append_nil]
        rw [if_neg (by simp [hok])]
        rfl
      | some w => simp [query, Tx.exec, Tx.exec?, malformed, statement, hok]
    simp only [judge, Prog.run, hq, and_self, if_true]
    exact ⟨⟨hdepth, hok, hover, by rw [hwrites]⟩, fun _ => ⟨rfl, rfl⟩⟩
  · have hjudge : judge h (.sql w broken) = ⟨false, h.spoil, []⟩ := if_neg hfine
    rw [hjudge]
    cases h with
    | fine =>
      obtain ⟨hdepth, hok, hover, hwrites⟩ := hst
      obtain rfl : broken = true := by simpa using hfine
      exact ⟨⟨hdepth, rfl, hover⟩, fun _ => ⟨rfl, rfl⟩⟩
    | spoiled =>
      have hq := query_of_failed hst.2.1 (statement_ne w) broken
      simp only [Prog.run, hq]
      exact ⟨hst, fun _ => ⟨rfl, rfl⟩⟩
    | doomed =>
      refine ⟨Doomed.sql hst w, fun hn => ?_⟩
      have hq := query_of_failed (hst.failed (fun hok => by cases hok) hn) (statement_ne w) broken
      simp [Prog.run, hq]

theorem Agrees.then {v : Verdict ω} {r : Result ω} {q : Prog ω} (hr : Agrees n base ws v r)
    (hq : Agrees n base (ws ++ v.kept) (judge v.health q) (q.run r.st)) :
    Agrees n base ws (v.then (judge v.health q)) (r.then (q.run r.st)) := by
  refine ⟨?_, fun hn => ?_⟩
  · have := hq.st
    rwa [List.append_assoc] at this
  · have hv : v.health ≠ .doomed ∨ n = 1 := by
      refine hn.imp_left fun hne hv => hne ?_
      rw [hv]
      exact judge_doomed q
    obtain ⟨hok, hkept⟩ := hq.same hn
    refine ⟨hok, ?_⟩
    show r.kept ++ (q.run r.st).kept = v.kept ++ (judge v.health q).kept
    rw [(hr.same hv).2, hkept]

theorem Agrees.of_doomed {v : Verdict ω} {r : Result ω} (hv : v.health = .doomed) (hr : Doomed n r.st) (hn : n ≠ 1) :
    Agrees n base ws v r := by
  refine ⟨?_, ?_⟩
  · rw [hv]
    exact hr
  · rintro (hne | h1)
    · exact absurd hv hne
    · exact absurd h1 hn

theorem Agrees.branch {v : Verdict ω} {r : Result ω} {q : Prog ω} (hr : Agrees n base ws v r)
    (hq : Agrees n base (ws ++ v.kept) (judge v.health q) (q.run r.st)) (go : Bool → Bool) :
    Agrees n base ws (if go v.ok then v.then (judge v.health q) else v)
      (if go r.ok then r.then (q.run r.st) else r) := by
  by_cases hmatch : v.health ≠ .doomed ∨ n = 1
  · rw [(hr.same hmatch).1]
    split
    · exact hr.then hq
    · exact hr
  · -- inside a doomed inner transaction the two may take different ways
    obtain ⟨hdoomed, hn⟩ := not_or.1 hmatch
    have hv : v.health = .doomed := not_not.1 hdoomed
    have hst := hr.st
    rw [hv] at hst
    refine .of_doomed ?_ ?_ hn
    · split
      · rw [hv]
        exact judge_doomed q
      · exact hv
    · split
      · exact Doomed.run q hst
      · exact hst

/-- The rollback of an inner transaction, over its own savepoint. -/
theorem follows_rollback {p : Savepoint ℤ ω} (hdepth : st.depth = p.name + 1)
    (hover : Over (p.name + 1) (p :: saved) st.tx.saved) (hn : 1 ≤ p.name) (hbase : Over p.name base saved)
    (broken : Bool) :
    Follows p.name base p.writes (if broken then .spoiled else .fine) (rollbackTransaction broken st).1 := by
  cases broken with
  | false =>
    rw [rollbackTransaction_eq hdepth hover (Int.le_trans Int.one_nonneg hn)]
    exact ⟨rfl, rfl, hbase.cons (Int.le_refl _), rfl⟩
  | true =>
    have hd : st.depth - 1 = p.name := by omega
    refine ⟨hd, rfl, ?_⟩
    obtain ⟨extra, hsaved, hextra⟩ := hover
    obtain ⟨extra', hsaved', hextra'⟩ := hbase
    refine ⟨extra ++ p :: extra', ?_, fun x hx => ?_⟩
    · show st.tx.saved = _
      rw [hsaved, hsaved']
      simp
    · rcases List.mem_append.1 hx with hx | hx
      · have := hextra x hx
        omega
      · rcases List.mem_cons.1 hx with rfl | hx
        · exact Int.le_refl _
        · exact hextra' x hx

theorem doomed_rollback (hdepth : st.depth ≤ n) (hfailed : st.tx.failed = true) (hnames : ∀ x ∈ st.tx.saved, 1 ≤ x.name)
    (broken : Bool) : Doomed n (rollbackTransaction broken st).1 := by
  have hdoomed : Doomed (n + 1) st := ⟨Int.lt_add_one_of_le hdepth, by simp [hfailed], hnames⟩
  exact hdoomed.rollback

theorem commitTransaction_of_false {broken : Bool} (hc : (commitTransaction broken st).2 = false) :
    (commitTransaction broken st).1 = ⟨{ st.tx with failed := true }, st.depth - 1⟩ := by
  unfold commitTransaction at hc ⊢
  rcases query_cases (.release (st.depth - 1)) { st with depth := st.depth - 1 } broken with ⟨tx, -, hq⟩ | hq
  · rw [hq] at hc
    cases hc
  · rw [hq]

theorem agrees_failed_commit {r : Result ω} {f : Faults} (hr : r.ok = true) (hdepth : r.st.depth ≤ n + 1)
    (hnames : ∀ x ∈ r.st.tx.saved, 1 ≤ x.name) (hc : (commitTransaction f.commit r.st).2 = false) :
    Agrees n base ws ⟨false, .doomed, []⟩ (endTransaction f r) := by
  have hst := commitTransaction_of_false hc
  simp only [endTransaction, hr, hc, if_true, Bool.false_eq_true, if_false]
  refine ⟨doomed_rollback ?_ (by rw [hst]) (by rw [hst]; exact hnames) _, fun _ => ⟨rfl, rfl⟩⟩
  rw [hst]
  show r.st.depth - 1 ≤ n
  omega

theorem agrees_rollback {p : Savepoint ℤ ω} {v : Verdict ω} {r : Result ω} {f : Faults} (hr : r.ok = v.ok)
    (hv : v.ok = false) (hhealth : v.health ≠ .doomed) (hdepth : r.st.depth = p.name + 1)
    (hover : Over (p.name + 1) (p :: saved) r.st.tx.saved) (hn : 1 ≤ p.name) (hbase : Over p.name base saved) :
    Agrees p.name base p.writes (endOf f v) (endTransaction f r) := by
  have hend : endOf f v = ⟨false, if f.rollback then .spoiled else .fine, []⟩ := by
    obtain ⟨vok, health, vkept⟩ := v
    obtain rfl : vok = false := hv
    cases health with
    | doomed => exact absurd rfl hhealth
    | _ => cases hf : f.rollback <;> simp [endOf, hf]
  have hroll := follows_rollback hdepth hover hn hbase f.rollback
  rw [hend]
  simp only [endTransaction, hr, hv, Bool.false_eq_true, if_false]
  exact ⟨by simpa using hroll, fun _ => ⟨rfl, rfl⟩⟩

/-- The end of an inner transaction, over its own savepoint `p`. -/
theorem agrees_end {p : Savepoint ℤ ω} {v : Verdict ω} {r : Result ω} {f : Faults} (hn : 1 ≤ p.name)
    (hover : Over p.name base saved) (hsaved : ∀ x ∈ saved, 1 ≤ x.name)
    (hr : Agrees (p.name + 1) (p :: saved) p.writes v r) :
    Agrees p.name base p.writes (endOf f v) (endTransaction f r) := by
  obtain ⟨hin, hsame⟩ := hr
  have hnonneg : 0 ≤ p.name := Int.le_trans Int.one_nonneg hn
  have hbelow : ∀ x ∈ p :: saved, 1 ≤ x.name := by simpa using ⟨hn, hsaved⟩
  have hn' : 1 ≤ p.name + 1 := Int.le_add_one hn
  obtain ⟨vok, health, vkept⟩ := v
  cases health with
  | fine =>
    obtain ⟨hdepth, hfailed, hsaved', hwrites⟩ := hin
    obtain ⟨hok, hkept⟩ := hsame (.inl nofun)
    cases vok with
    | true =>
      have hcommit := commitTransaction_eq hdepth hsaved' hnonneg hfailed
      cases hc : f.commit with
      | false =>
        simp only [endOf, endTransaction, hok, hc, hcommit, if_true, Bool.false_eq_true, if_false]
        exact ⟨⟨rfl, hfailed, hover, hwrites⟩, fun _ => ⟨rfl, hkept⟩⟩
      | true =>
        simp only [endOf, hc, if_true]
        exact agrees_failed_commit hok (Int.le_of_eq hdepth) (Over.one_le hsaved' hn' hbelow) (by rw [hc]; rfl)
    | false => exact agrees_rollback hok rfl nofun hdepth hsaved' hn hover
  | spoiled =>
    obtain ⟨hdepth, hfailed, hsaved'⟩ := hin
    obtain ⟨hok, hkept⟩ := hsame (.inl nofun)
    cases vok with
    | true =>
      refine agrees_failed_commit hok (Int.le_of_eq hdepth) (Over.one_le hsaved' hn' hbelow) ?_
      have hq := query_of_failed (s := .release (r.st.depth - 1)) hfailed (fun _ h => by cases h) f.commit
      exact congrArg Prod.snd hq
    | false => exact agrees_rollback hok rfl nofun hdepth hsaved' hn hover
  | doomed =>
    have hend : endOf f ⟨vok, .doomed, vkept⟩ = ⟨false, .doomed, []⟩ := by cases vok <;> rfl
    rw [hend]
    have hdoomed : Doomed (p.name + 1) r.st := hin
    by_cases hone : p.name = 1
    · -- the outermost one: neither its commit nor its rollback finds a savepoint
      cases hok : r.ok with
      | true =>
        refine agrees_failed_commit hok (Int.le_of_lt hdoomed.depth) hdoomed.names ?_
        have hle : ∀ x ∈ r.st.tx.saved, x.name ≠ r.st.depth - 1 := by
          intro x hx heq
          have := hdoomed.names x hx
          have := hdoomed.depth
          omega
        unfold commitTransaction
        rcases query_cases (.release (r.st.depth - 1)) { r.st with depth := r.st.depth - 1 } f.commit with
          ⟨tx, htx, -⟩ | hq
        · simp only [Tx.exec?, Tx.since_eq_nil hle, Option.ite_none_left_eq_some] at htx
          cases htx.2
        · rw [hq]
      | false =>
        refine ⟨hdoomed.endTransaction f, fun _ => ?_⟩
        simp [endTransaction, hok]
    · exact .of_doomed rfl (hdoomed.endTransaction f) hone

theorem agrees_failed_start {p : Prog ω} {f : Faults} (hdepth : st.depth ≤ n) (hnames : ∀ x ∈ st.tx.saved, 1 ≤ x.name)
    (hs : query f.start (.savepoint st.depth) st = (⟨{ st.tx with failed := true }, st.depth⟩, false)) :
    Agrees n base ws ⟨false, .doomed, []⟩ ((Prog.transaction f p).run st) := by
  have hstart : startTransaction f.start st = (⟨{ st.tx with failed := true }, st.depth⟩, false) := by
    simp only [startTransaction, hs, Bool.false_eq_true, if_false]
  have hdoomed := @doomed_rollback ω n ⟨{ st.tx with failed := true }, st.depth⟩ hdepth rfl hnames f.rollback
  simp only [Prog.run, hstart, Bool.false_eq_true, if_false]
  exact ⟨hdoomed, fun _ => ⟨rfl, rfl⟩⟩

end Follows

/-- **The connection does what the verdict says**, at every level and from every state of the transaction. -/
theorem follows_run (p : Prog ω) {n : ℤ} {base : List (Savepoint ℤ ω)} {ws : List ω} {h : Health} {st : Pinned ω}
    (hn : 1 ≤ n) (hbase : ∀ x ∈ base, 1 ≤ x.name) (hst : Follows n base ws h st) :
    Agrees n base ws (judge h p) (p.run st) := by
  induction p generalizing n base ws h st with
  | skip => exact ⟨by simpa [judge, Prog.run] using hst, fun _ => ⟨rfl, rfl⟩⟩
  | throw => exact ⟨by simpa [judge, Prog.run] using hst, fun _ => ⟨rfl, rfl⟩⟩
  | sql w broken => exact agrees_sql hst w broken
  | seq p q ihp ihq =>
    have hp := ihp hn hbase hst
    exact hp.branch (ihq hn hbase hp.st) id
  | tryCatch p q ihp ihq =>
    have hp := ihp hn hbase hst
    have hbranch := hp.branch (ihq hn hbase hp.st) not
    simp only [Bool.not_eq_true', ← Bool.not_eq_true, ite_not] at hbranch
    exact hbranch
  | transaction f p ih =>
    cases h with
    | fine =>
      obtain ⟨rfl, hok, hover, rfl⟩ := hst
      have hnames := Over.one_le hover hn hbase
      cases hs : f.start with
      | false =>
        have hstart := startTransaction_eq (Int.le_trans Int.one_nonneg hn) hok
        have hinner : Follows (st.depth + 1) (⟨st.depth, st.tx.next, st.tx.writes⟩ :: st.tx.saved) st.tx.writes .fine
            (startTransaction false st).1 := by
          rw [hstart]
          exact ⟨rfl, hok, .refl .., rfl⟩
        have hin := ih (Int.le_add_one hn) (by simpa using ⟨hn, hnames⟩) hinner
        have hend := agrees_end (p := ⟨st.depth, st.tx.next, st.tx.writes⟩) (f := f) hn hover hnames hin
        have hgoes : (startTransaction false st).2 = true := by rw [hstart]
        simp only [judge, Prog.run, hs, hgoes, and_self, if_true]
        exact hend
      | true =>
        simp only [judge, hs, Bool.true_eq_false, and_false, if_false]
        refine agrees_failed_start (Int.le_refl _) hnames ?_
        rw [hs]
        rfl
    | spoiled =>
      obtain ⟨rfl, hfailed, hover⟩ := hst
      have hq := query_of_failed (s := .savepoint st.depth) hfailed (fun _ h => by cases h) f.start
      refine agrees_failed_start (Int.le_refl _) (Over.one_le hover hn hbase) (hq.trans ?_)
      rw [← hfailed]
    | doomed =>
      have hdoomed : Doomed n st := hst
      by_cases hone : n = 1
      · subst hone
        have hfailed := hdoomed.failed_outer
        have hq := query_of_failed (s := .savepoint st.depth) hfailed (fun _ h => by cases h) f.start
        refine agrees_failed_start (Int.le_of_lt hdoomed.depth) hdoomed.names (hq.trans ?_)
        rw [← hfailed]
      · exact .of_doomed rfl (hdoomed.run _) hone

/-! ### What the client is told -/

/-- The value is emitted only when exactly the rows that the handler has written are durable. -/
def MeansCommitted (faults : OuterFaults) (handler : Prog ω) (db : List ω) : Prop :=
  (intercept faults handler db).emitted = true →
    (intercept faults handler db).durable = db ++ (handler.run {}).kept

theorem agrees_request (handler : Prog ω) : Agrees 1 [] [] (judge .fine handler) (handler.run {}) :=
  follows_run handler (Int.le_refl 1) (by simp) ⟨rfl, rfl, .refl .., rfl⟩

theorem emitted_iff {faults : OuterFaults} {handler : Prog ω} {db : List ω} :
    (intercept faults handler db).emitted = true ↔
      (faults.begin = false ∧ faults.setConfig = false ∧ faults.commit = false) ∧ (judge .fine handler).ok = true := by
  rw [← ((agrees_request handler).same (.inr rfl)).1]
  unfold intercept
  generalize handler.run {} = r
  obtain ⟨st, ok, kept⟩ := r
  cases faults.begin <;> cases faults.setConfig <;> cases faults.commit <;> cases ok <;> simp

/-- **A success response means committed data**, for every request, unless the handler loses what it has written. -/
theorem success_means_committed_iff (faults : OuterFaults) (handler : Prog ω) (db : List ω) :
    MeansCommitted faults handler db ↔
      ¬ ((faults.begin = false ∧ faults.setConfig = false ∧ faults.commit = false) ∧ Loses handler) := by
  obtain ⟨hst, hsame⟩ := agrees_request handler
  obtain ⟨-, hkept⟩ := hsame (.inr rfl)
  have hdurable : ∀ hem : (intercept faults handler db).emitted = true,
      (intercept faults handler db).durable = db ++ (handler.run {}).st.tx.committed := by
    intro hem
    obtain ⟨⟨hb, hs, hc⟩, hok⟩ := emitted_iff.1 hem
    rw [← (hsame (.inr rfl)).1] at hok
    simp [intercept, hb, hs, hc, hok, finish]
  constructor
  · rintro hmeans ⟨hfaults, hok, hhealth, hlost⟩
    have hem : (intercept faults handler db).emitted = true := emitted_iff.2 ⟨hfaults, hok⟩
    have hfailed := hst.failed hhealth (.inr rfl)
    have heq := (hdurable hem).symm.trans (hmeans hem)
    rw [Tx.committed, if_pos hfailed, hkept, List.append_right_inj] at heq
    exact hlost heq.symm
  · intro hnot hem
    obtain ⟨hfaults, hok⟩ := emitted_iff.1 hem
    rw [hdurable hem, Tx.committed, hkept, List.append_right_inj]
    by_cases hhealth : (judge .fine handler).health = .fine
    · rw [hhealth] at hst
      obtain ⟨-, hfailed, -, hwrites⟩ := hst
      rw [hfailed, hwrites]
      rfl
    · have hnone : (judge .fine handler).kept = [] := by
        by_contra hne
        exact hnot ⟨hfaults, hok, hhealth, hne⟩
      rw [if_pos (hst.failed hhealth (.inr rfl)), hnone]

/-! ### Booking a room -/

/-- The rows that `BookingsService.create` writes. -/
inductive Row
  | booking | syncOutbox | notification | approvalStep
  deriving DecidableEq

def bestEffort (p : Prog ω) : Prog ω := .tryCatch p .skip

/-- `BookingsService.create` on its connection: the room is read, the booking is written under locks in an inner
transaction, and the rest is best effort: the row of the calendar sync, the one of the mail, and the approval chain.
The arguments are the statements of these three that fail. -/
def createRequest (syncBroken mailBroken chainBroken : Bool) : Prog Row :=
  .seq (.sql none false) <|
  .seq (.transaction {} (.seq (.sql none false) (.seq (.sql none false) (.sql (some .booking) false)))) <|
  .seq (bestEffort (.sql (some .syncOutbox) syncBroken)) <|
  .seq (bestEffort (.seq (.sql none false) (.sql (some .notification) mailBroken)))
    (bestEffort (.seq (.sql none false) (.sql (some .approvalStep) chainBroken)))

/-- The row of the calendar sync cannot be written: the client is told that the room is booked, and nothing is. -/
theorem booking_lost : ¬ MeansCommitted {} (createRequest true false false) [] := by
  intro h
  have hdurable := h (by decide)
  revert hdurable
  decide

end BookingSystem.Contracts.Committed
