import BookingSystem.Base.Run
import BookingSystem.Model.Federation
import Mathlib.Logic.Function.Basic

/-!
# Passkey ceremonies side by side

A ceremony writes a challenge, and the call that finishes it reads the challenge and deletes it, without a look at
whether there was anything to delete. So two calls may take the same challenge. And a login writes the counter that it
has made of the one it read. Every challenge is spent once, and no counter goes back, as long as no call reads a
challenge that another one has read and not deleted yet, and no login saves over a counter it has not read
(`spent_once`).
-/

namespace BookingSystem.Concurrency.Passkeys

open Base Model Model.WebauthnService

/-! ### The library -/

/-- What a browser sends back when a passkey is made. -/
structure RegistrationResponse where
  body : String
  transports : List String := []
  deriving DecidableEq, Repr

structure RegistrationInfo where
  credentialId : String
  publicKey : String
  counter : Option ℤ := none
  deriving DecidableEq, Repr

/-- The package that checks responses, and the challenge that the signed part of a response names. -/
structure Library where
  verifyRegistrationResponse : RegistrationResponse → String → Except HttpError (Option RegistrationInfo)
  verifyAuthenticationResponse : AssertionResponse → String → WebauthnCredential →
    Except HttpError (Option (Option ℤ))
  challengeIn : String → String

/-- A response is verified only over the challenge that is expected, and a counter that has fallen is refused. -/
structure Library.Sound (lib : Library) : Prop where
  registration : ∀ r c info, lib.verifyRegistrationResponse r c = .ok (some info) → lib.challengeIn r.body = c
  assertion : ∀ r c k n, lib.verifyAuthenticationResponse r c k = .ok (some n) → lib.challengeIn r.body = c
  counter : ∀ r c k n, lib.verifyAuthenticationResponse r c k = .ok (some (some n)) → k.counter ≤ n

/-! ### The calls -/

inductive Call
  | registerStart (userId tenantId : Uuid)
  | registerFinish (userId tenantId : Uuid) (response : RegistrationResponse)
  | loginStart (tenantId : Uuid) (username : String)
  | loginFinish (tenantId : Uuid) (username : String) (response : AssertionResponse)

/-- A finish that comes to its challenge; a login has found its credential. -/
inductive Finish
  | register (userId tenantId : Uuid) (response : RegistrationResponse)
  | login (userId tenantId : Uuid) (stored : WebauthnCredential) (response : AssertionResponse)

namespace Finish

def userId : Finish → Uuid
  | .register userId _ _ | .login userId _ _ _ => userId

def tenantId : Finish → Uuid
  | .register _ tenantId _ | .login _ tenantId _ _ => tenantId

def purpose : Finish → String
  | .register .. => "register"
  | .login .. => "login"

def body : Finish → String
  | .register _ _ response => response.body
  | .login _ _ _ response => response.body

end Finish

/-- What is left of a call, each time it turns to a repository. -/
inductive Task
  | registerStart (userId tenantId : Uuid)
  | registerOptions (userId tenantId : Uuid)
  | loginStart (tenantId : Uuid) (username : String)
  | loginOptions (userId tenantId : Uuid)
  | clear (userId tenantId : Uuid) (purpose : String)
  | sweep (userId tenantId : Uuid) (purpose : String)
  | issue (userId tenantId : Uuid) (purpose : String)
  | loginFinish (tenantId : Uuid) (username : String) (response : AssertionResponse)
  | findCredential (userId tenantId : Uuid) (response : AssertionResponse)
  | take (f : Finish)
  | holding (f : Finish) (c : WebauthnChallenge) (takenAt : Instant)
  | saveNew (row : WebauthnCredential)
  | saveUsed (stored row : WebauthnCredential)

def Task.holds : Task → Bool
  | .holding .. => true
  | _ => false

def Call.task : Call → Task
  | .registerStart userId tenantId => .registerStart userId tenantId
  | .registerFinish userId tenantId response => .take (.register userId tenantId response)
  | .loginStart tenantId username => .loginStart tenantId username
  | .loginFinish tenantId username response => .loginFinish tenantId username response

/-- A response that was verified: over which challenge, for what, and when the challenge was taken. -/
structure Acceptance where
  challenge : String
  purpose : String
  takenAt : Instant
  deriving DecidableEq, Repr

/-- The tables, the calls in progress and how calls ended; and the challenges that were issued, the responses that were
accepted, and the counters that logins have saved, each with the row. -/
structure Ceremonies where
  users : Users
  credentials : Table WebauthnCredential := .empty
  challenges : Table WebauthnChallenge := .empty
  clients : ℕ → Option Task := fun _ => none
  answers : List (ℕ × Except HttpError Unit) := []
  issued : List WebauthnChallenge := []
  accepted : List Acceptance := []
  saved : List (Uuid × ℤ) := []

def isOwn (userId tenantId : Uuid) (purpose : String) (c : WebauthnChallenge) : Bool :=
  c.userId == userId && c.tenantId == tenantId && c.purpose == purpose

/-- What the library says of a response over the challenge: the statement that is left. The challenge was looked at when
it was taken. -/
def Finish.verify (lib : Library) (c : WebauthnChallenge) (takenAt now : Instant) (f : Finish) :
    Except HttpError Task :=
  if ceremonyTtlMs < takenAt - c.createdAt then .error (.badRequest "challenge expired")
  else
    match f with
    | .register userId tenantId response =>
      match lib.verifyRegistrationResponse response c.challenge with
      | .error e => .error e
      | .ok none => .error (.unauthorized "registration failed verification")
      | .ok (some info) =>
        .ok (.saveNew
          { id := ""
            tenantId := tenantId
            userId := userId
            credentialId := info.credentialId
            publicKey := info.publicKey
            counter := info.counter.getD 0
            transports := response.transports })
    | .login _ _ stored response =>
      match lib.verifyAuthenticationResponse response c.challenge stored with
      | .error e => .error e
      | .ok none => .error (.unauthorized "assertion failed")
      | .ok (some newCounter) =>
        .ok (.saveUsed stored
          { stored with counter := newCounter.getD (stored.counter + 1), lastUsedAt := some now })

namespace Ceremonies

variable (s : Ceremonies) (p : ℕ)

def goOn (t : Task) : Ceremonies := { s with clients := Function.update s.clients p (some t) }

def leave (answer : Except HttpError Unit) : Ceremonies :=
  { s with clients := Function.update s.clients p none, answers := (p, answer) :: s.answers }

def pending (f : Finish) : Option WebauthnChallenge :=
  newest (s.challenges.rows.filter (isOwn f.userId f.tenantId f.purpose))

/-- The next statement of a call. A row that is inserted has an id that no row has, and the challenges that the library
draws are all different. -/
def act (lib : Library) (now : Instant) (id : Uuid) (challenge : String) (t : Task) : Ceremonies :=
  match t with
  | .registerStart userId tenantId =>
    match (s.users.find? userId).filter fun u => u.tenantId == tenantId with
    | none => s.leave p (.error (.unauthorized "user not found"))
    | some user => s.goOn p (.registerOptions user.id tenantId)
  | .registerOptions userId tenantId => s.goOn p (.clear userId tenantId "register")
  | .loginStart tenantId username =>
    match s.users.lookup (tenantId, username) with
    | none => s.leave p (.error (.unauthorized "invalid credentials"))
    | some user => s.goOn p (.loginOptions user.id tenantId)
  | .loginOptions userId tenantId =>
    if s.credentials.rows.any fun k => k.userId == userId && k.tenantId == tenantId then
      s.goOn p (.clear userId tenantId "login")
    else s.leave p (.error (.unauthorized "no passkey enrolled"))
  | .clear userId tenantId purpose =>
    { s with challenges := s.challenges.deleteWhere (isOwn userId tenantId purpose) }.goOn p
      (.sweep userId tenantId purpose)
  | .sweep userId tenantId purpose =>
    { s with challenges := s.challenges.deleteWhere fun c => decide (c.createdAt < now - ceremonyTtlMs) }.goOn p
      (.issue userId tenantId purpose)
  | .issue userId tenantId purpose =>
    let c : WebauthnChallenge := { id, tenantId, userId, challenge, purpose, createdAt := now }
    if s.issued.any fun c' => c'.challenge == challenge then s
    else
      match s.challenges.insert? c with
      | none => s
      | some challenges => { s with challenges := challenges, issued := c :: s.issued }.leave p (.ok ())
  | .loginFinish tenantId username response =>
    match s.users.lookup (tenantId, username) with
    | none => s.leave p (.error (.unauthorized "invalid credentials"))
    | some user => s.goOn p (.findCredential user.id tenantId response)
  | .findCredential userId tenantId response =>
    match s.credentials.rows.find? fun k => k.tenantId == tenantId && k.credentialId == response.id with
    | none => s.leave p (.error (.unauthorized "unknown credential"))
    | some stored =>
      if stored.userId ≠ userId then s.leave p (.error (.unauthorized "unknown credential"))
      else s.goOn p (.take (.login userId tenantId stored response))
  | .take f =>
    match s.pending f with
    | none => s.leave p (.error (.badRequest "no pending challenge"))
    | some c => s.goOn p (.holding f c now)
  | .holding f c takenAt =>
    let s := { s with challenges := s.challenges.delete c.id }
    match f.verify lib c takenAt now with
    | .error e => s.leave p (.error e)
    | .ok t =>
      { s with accepted := ⟨lib.challengeIn f.body, f.purpose, takenAt⟩ :: s.accepted }.goOn p t
  | .saveNew row =>
    if s.credentials.rows.any fun k => k.tenantId == row.tenantId && k.credentialId == row.credentialId then
      s.leave p (.error (.internal "duplicate key value violates unique constraint"))
    else
      match s.credentials.insert? { row with id := id } with
      | none => s
      | some credentials => { s with credentials := credentials }.leave p (.ok ())
  | .saveUsed _ row =>
    { s with credentials := s.credentials.save row, saved := (row.id, row.counter) :: s.saved }.leave p (.ok ())

end Ceremonies

/-- A call begins, or comes to its next statement; the database and the library may have to draw something new. -/
inductive Event
  | call (p : ℕ) (c : Call)
  | act (p : ℕ) (now : Instant) (id : Uuid) (challenge : String)

def step (lib : Library) (s : Ceremonies) (e : Event) : Ceremonies :=
  match e with
  | .call p c => if (s.clients p).isNone then s.goOn p c.task else s
  | .act p now id challenge =>
    match s.clients p with
    | none => s
    | some t => s.act p lib now id challenge t

/-- No call is in progress; the challenges that are stored have been issued. -/
def start (users : Users) (credentials : Table WebauthnCredential) (challenges : Table WebauthnChallenge) :
    Ceremonies :=
  { users, credentials, challenges, issued := challenges.rows }

/-! ### What is asked of the ceremonies -/

/-- **A challenge is spent once**: accepted in one response, for what it was issued and within ten minutes; and **no
counter goes back** behind one that was saved. -/
structure SpentOnce (s : Ceremonies) : Prop where
  once : (s.accepted.map Acceptance.challenge).Nodup
  issued : ∀ a ∈ s.accepted, ∃ c ∈ s.issued, c.challenge = a.challenge ∧ c.purpose = a.purpose ∧
    a.takenAt - c.createdAt ≤ ceremonyTtlMs
  counter : ∀ x ∈ s.saved, ∃ row, s.credentials.find? x.1 = some row ∧ x.2 ≤ row.counter

/-- A call reads no challenge that another one has read and not deleted yet, and saves no counter over one that it has
not read. -/
def Calm (s : Ceremonies) (e : Event) : Prop :=
  match e with
  | .call .. => True
  | .act p _ _ _ =>
    match s.clients p with
    | some (.take f) => ∀ c ∈ s.pending f, ∀ q f' c' takenAt, s.clients q = some (.holding f' c' takenAt) → c'.id ≠ c.id
    | some (.saveUsed stored _) => ∀ row, s.credentials.find? stored.id = some row → row.counter = stored.counter
    | _ => True

/-! ### Where a challenge is -/

def Finish.Known (s : Ceremonies) : Finish → Prop
  | .register .. => True
  | .login _ _ stored _ => ∃ row, s.credentials.find? stored.id = some row

/-- What a call knows about the tables. -/
def TaskOk (s : Ceremonies) : Task → Prop
  | .take f => f.Known s
  | .holding f c _ => f.Known s ∧ c ∈ s.issued ∧ c.purpose = f.purpose ∧
      c.challenge ∉ s.accepted.map Acceptance.challenge
  | .saveUsed stored row => row.id = stored.id ∧ stored.counter ≤ row.counter ∧
      ∃ r, s.credentials.find? stored.id = some r
  | _ => True

/-- A challenge that is stored, or held by one of the calls, has not been accepted. -/
structure Inv (s : Ceremonies) : Prop extends SpentOnce s where
  rows : ∀ c ∈ s.challenges.rows, c ∈ s.issued ∧ c.challenge ∉ s.accepted.map Acceptance.challenge
  fresh : ∀ c ∈ s.issued, ∀ c' ∈ s.issued, c.challenge = c'.challenge → c = c'
  tasks : ∀ p t, s.clients p = some t → TaskOk s t
  alone : ∀ p q f c takenAt f' takenAt', s.clients p = some (.holding f c takenAt) →
    s.clients q = some (.holding f' c takenAt') → p = q

section

variable {s : Ceremonies} {p : ℕ} {t : Task} {f : Finish} {c : WebauthnChallenge}

theorem clients_put {o : Option Task} {q : ℕ} {t : Task} (hq : Function.update s.clients p o q = some t) :
    (q = p ∧ o = some t) ∨ (q ≠ p ∧ s.clients q = some t) := by
  by_cases hqp : q = p
  · subst hqp
    rw [Function.update_self] at hq
    exact .inl ⟨rfl, hq⟩
  · rw [Function.update_of_ne hqp] at hq
    exact .inr ⟨hqp, hq⟩

theorem Inv.put (h : Inv s) {o : Option Task} {answers : List (ℕ × Except HttpError Unit)} (hok : ∀ t ∈ o, TaskOk s t)
    (halone : ∀ f c takenAt, o = some (.holding f c takenAt) → ∀ q f' takenAt', q ≠ p →
      s.clients q ≠ some (.holding f' c takenAt')) :
    Inv { s with clients := Function.update s.clients p o, answers := answers } where
  once := h.once
  issued := h.issued
  counter := h.counter
  rows := h.rows
  fresh := h.fresh
  tasks q t hq := by
    have hold : TaskOk s t := by
      obtain ⟨-, ho⟩ | ⟨-, hq⟩ := clients_put hq
      · exact hok t ho
      · exact h.tasks q t hq
    cases t <;> exact hold
  alone q q' f c takenAt f' takenAt' hq hq' := by
    obtain ⟨rfl, ho⟩ | ⟨hqp, hold⟩ := clients_put hq
    · obtain ⟨rfl, -⟩ | ⟨hqp', hold'⟩ := clients_put hq'
      · rfl
      · exact absurd hold' (halone f c takenAt ho q' f' takenAt' hqp')
    · obtain ⟨rfl, ho⟩ | ⟨-, hold'⟩ := clients_put hq'
      · exact absurd hold (halone f' c takenAt' ho q f takenAt hqp)
      · exact h.alone q q' f c takenAt f' takenAt' hold hold'

theorem Inv.leave (h : Inv s) (p : ℕ) (answer : Except HttpError Unit) : Inv (s.leave p answer) :=
  h.put (fun _ ht => absurd ht (Option.not_mem_none _)) fun _ _ _ ht => absurd ht (Option.some_ne_none _).symm

theorem Task.ne_holding {takenAt : Instant} (h : t.holds = false) : t ≠ .holding f c takenAt := by
  rintro rfl
  cases h

theorem Inv.goOn (h : Inv s) (p : ℕ) (hok : TaskOk s t) (hplain : t.holds = false) : Inv (s.goOn p t) :=
  h.put (fun _ ht => Option.mem_some.1 ht ▸ hok) fun _ _ _ ht => absurd (Option.some.inj ht) (Task.ne_holding hplain)

/-! ### What the statements do to it -/

theorem Inv.delete (h : Inv s) {challenges : Table WebauthnChallenge}
    (hsub : ∀ c ∈ challenges.rows, c ∈ s.challenges.rows) : Inv { s with challenges := challenges } where
  once := h.once
  issued := h.issued
  counter := h.counter
  rows c hc := h.rows c (hsub c hc)
  fresh := h.fresh
  tasks q t hq := by
    have hold := h.tasks q t hq
    cases t <;> exact hold
  alone := h.alone

theorem Inv.issue (h : Inv s) {challenges : Table WebauthnChallenge}
    (hnew : ∀ c' ∈ s.issued, c'.challenge ≠ c.challenge) (hins : s.challenges.insert? c = some challenges) :
    Inv { s with challenges := challenges, issued := c :: s.issued } where
  once := h.once
  issued a ha := by
    obtain ⟨c', hc', heq⟩ := h.issued a ha
    exact ⟨c', List.mem_cons_of_mem _ hc', heq⟩
  counter := h.counter
  rows c' hc' := by
    rw [(Table.insert?_eq_some_iff.1 hins).2, List.mem_append, List.mem_singleton] at hc'
    obtain hc' | rfl := hc'
    · exact ⟨List.mem_cons_of_mem _ (h.rows c' hc').1, (h.rows c' hc').2⟩
    · refine ⟨List.mem_cons_self, fun hacc => ?_⟩
      obtain ⟨a, ha, heq⟩ := List.mem_map.1 hacc
      obtain ⟨c'', hc'', heq', -⟩ := h.issued a ha
      exact hnew c'' hc'' (heq'.trans heq)
  fresh c' hc' c'' hc'' heq := by
    rw [List.mem_cons] at hc' hc''
    obtain rfl | hc' := hc'
    · obtain rfl | hc'' := hc''
      · rfl
      · exact absurd heq.symm (hnew c'' hc'')
    · obtain rfl | hc'' := hc''
      · exact absurd heq (hnew c' hc')
      · exact h.fresh c' hc' c'' hc'' heq
  tasks q t hq := by
    have hold := h.tasks q t hq
    cases t with
    | holding f c' takenAt => exact ⟨hold.1, List.mem_cons_of_mem _ hold.2.1, hold.2.2⟩
    | _ => exact hold
  alone := h.alone

theorem Inv.accept (h : Inv s) {a : Acceptance} (hc : c ∈ s.issued) (hchal : c.challenge = a.challenge)
    (hpur : c.purpose = a.purpose) (htime : a.takenAt - c.createdAt ≤ ceremonyTtlMs)
    (hnew : c.challenge ∉ s.accepted.map Acceptance.challenge) (hgone : c ∉ s.challenges.rows)
    (hfree : ∀ q f takenAt, s.clients q ≠ some (.holding f c takenAt)) :
    Inv { s with accepted := a :: s.accepted } where
  once := List.nodup_cons.2 ⟨hchal ▸ hnew, h.once⟩
  issued a' ha' := by
    obtain rfl | ha' := List.mem_cons.1 ha'
    · exact ⟨c, hc, hchal, hpur, htime⟩
    · exact h.issued a' ha'
  counter := h.counter
  rows c' hc' := by
    obtain ⟨hissued, hunspent⟩ := h.rows c' hc'
    refine ⟨hissued, fun hmem => ?_⟩
    obtain heq | hmem := List.mem_cons.1 hmem
    · obtain rfl := h.fresh c' hissued c hc (heq.trans hchal.symm)
      exact hgone hc'
    · exact hunspent hmem
  fresh := h.fresh
  tasks q t hq := by
    have hold := h.tasks q t hq
    cases t with
    | holding f c' takenAt =>
      obtain ⟨hknown, hissued, hpurpose, hunspent⟩ := hold
      refine ⟨hknown, hissued, hpurpose, fun hmem => ?_⟩
      obtain heq | hmem := List.mem_cons.1 hmem
      · obtain rfl := h.fresh c' hissued c hc (heq.trans hchal.symm)
        exact hfree q f takenAt hq
      · exact hunspent hmem
    | _ => exact hold
  alone := h.alone

/-- Credentials are added and counters rise. -/
theorem Inv.credentials (h : Inv s) {credentials : Table WebauthnCredential} {saved : List (Uuid × ℤ)}
    (hkeep : ∀ id row, s.credentials.find? id = some row → ∃ row', credentials.find? id = some row' ∧
      row.counter ≤ row'.counter)
    (hsaved : ∀ x ∈ saved, x ∈ s.saved ∨ ∃ row, credentials.find? x.1 = some row ∧ x.2 ≤ row.counter) :
    Inv { s with credentials := credentials, saved := saved } where
  once := h.once
  issued := h.issued
  counter x hx := by
    obtain hx | hx := hsaved x hx
    · obtain ⟨row, hrow, hle⟩ := h.counter x hx
      obtain ⟨row', hrow', hle'⟩ := hkeep _ row hrow
      exact ⟨row', hrow', hle.trans hle'⟩
    · exact hx
  rows := h.rows
  fresh := h.fresh
  tasks q t hq := by
    have hold := h.tasks q t hq
    have hknown : ∀ {f : Finish}, f.Known s → f.Known { s with credentials := credentials, saved := saved } := by
      intro f hf
      cases f with
      | register => trivial
      | login userId tenantId stored response =>
        obtain ⟨row, hrow⟩ := hf
        obtain ⟨row', hrow', -⟩ := hkeep _ row hrow
        exact ⟨row', hrow'⟩
    cases t with
    | take f => exact hknown hold
    | holding f c takenAt => exact ⟨hknown hold.1, hold.2⟩
    | saveUsed stored row =>
      obtain ⟨hid, hle, r, hr⟩ := hold
      obtain ⟨r', hr', -⟩ := hkeep _ r hr
      exact ⟨hid, hle, r', hr'⟩
    | _ => exact hold
  alone := h.alone

/-! ### One statement -/

theorem newest_mem {rows : List WebauthnChallenge} (h : newest rows = some c) : c ∈ rows := by
  refine foldl_invariant (P := fun best => ∀ c, best = some c → c ∈ rows) ?_ (fun c hc => by cases hc) c h
  intro best c' hc' hbest c hc
  split at hc
  · exact Option.some.inj hc ▸ hc'
  · split at hc
    · exact Option.some.inj hc ▸ hc'
    · exact hbest c hc

theorem mem_of_pending (h : s.pending f = some c) : c ∈ s.challenges.rows ∧ c.purpose = f.purpose := by
  obtain ⟨hc, hown⟩ := List.mem_filter.1 (newest_mem h)
  simp only [isOwn, Bool.and_eq_true, beq_iff_eq] at hown
  exact ⟨hc, hown.2⟩

theorem verify_ok {lib : Library} (hlib : lib.Sound) {takenAt now : Instant}
    (h : f.verify lib c takenAt now = .ok t) : lib.challengeIn f.body = c.challenge ∧
      takenAt - c.createdAt ≤ ceremonyTtlMs ∧ t.holds = false ∧ ∀ s, f.Known s → TaskOk s t := by
  unfold Finish.verify at h
  split at h
  · cases h
  · rename_i htime
    cases f with
    | register userId tenantId response =>
      dsimp only at h
      split at h
      · cases h
      · cases h
      · rename_i info hverified
        cases h
        exact ⟨hlib.registration _ _ _ hverified, not_lt.1 htime, rfl, fun _ _ => trivial⟩
    | login userId tenantId stored response =>
      dsimp only at h
      split at h
      · cases h
      · cases h
      · rename_i newCounter hverified
        cases h
        refine ⟨hlib.assertion _ _ _ _ hverified, not_lt.1 htime, rfl, fun s hknown => ⟨rfl, ?_, hknown⟩⟩
        cases newCounter with
        | none => exact Int.le_add_one le_rfl
        | some n => exact hlib.counter _ _ _ _ hverified

theorem inv_take (h : Inv s) (hp : s.clients p = some (.take f)) (now : Instant)
    (hcalm : ∀ c ∈ s.pending f, ∀ q f' c' takenAt, s.clients q = some (.holding f' c' takenAt) → c'.id ≠ c.id)
    (hc : s.pending f = some c) : Inv (s.goOn p (.holding f c now)) := by
  obtain ⟨hmem, hpurpose⟩ := mem_of_pending hc
  refine h.put (fun t ht => ?_) fun f' c' takenAt' ho q f'' takenAt'' _ hq => ?_
  · obtain rfl := Option.mem_some.1 ht
    exact ⟨h.tasks p _ hp, (h.rows c hmem).1, hpurpose, (h.rows c hmem).2⟩
  · cases ho
    exact hcalm c hc q f'' c takenAt'' hq rfl

theorem inv_holding {lib : Library} (hlib : lib.Sound) (h : Inv s) {takenAt : Instant}
    (hp : s.clients p = some (.holding f c takenAt)) (now : Instant) (id : Uuid) (challenge : String) :
    Inv (s.act p lib now id challenge (.holding f c takenAt)) := by
  obtain ⟨hknown, hissued, hpurpose, hunspent⟩ := h.tasks p _ hp
  have hdeleted : Inv { s with challenges := s.challenges.delete c.id } :=
    h.delete fun c' hc' => (List.mem_filter.1 hc').1
  unfold Ceremonies.act
  dsimp only
  split
  · exact hdeleted.leave p _
  · rename_i t hverified
    obtain ⟨hchal, htime, hplain, hok⟩ := verify_ok hlib hverified
    -- the call lets go of the challenge, the response is accepted, and the call goes on
    have hfree : Inv ({ s with challenges := s.challenges.delete c.id }.leave p (.ok ())) := hdeleted.leave p _
    have hspent := hfree.accept (c := c) (a := ⟨lib.challengeIn f.body, f.purpose, takenAt⟩) hissued hchal.symm hpurpose
      htime hunspent (fun hc => of_decide_eq_true (List.mem_filter.1 hc).2 rfl) fun q f' takenAt' hq => by
        obtain ⟨-, hq⟩ | ⟨hqp, hq⟩ := clients_put hq
        · cases hq
        · exact hqp (h.alone q p f' c takenAt' f takenAt hq hp)
    have hmoved : Inv { s with
        challenges := s.challenges.delete c.id
        accepted := ⟨lib.challengeIn f.body, f.purpose, takenAt⟩ :: s.accepted
        clients := Function.update (Function.update s.clients p none) p (some t) } := by
      refine hspent.put (fun t' ht' => ?_) fun _ _ _ ht' =>
        absurd (Option.some.inj ht') (Task.ne_holding hplain)
      obtain rfl := Option.mem_some.1 ht'
      refine hok _ ?_
      cases f <;> exact hknown
    rw [Function.update_idem] at hmoved
    exact hmoved

theorem inv_saveNew {lib : Library} (h : Inv s) (row : WebauthnCredential) (now : Instant) (id : Uuid)
    (challenge : String) : Inv (s.act p lib now id challenge (.saveNew row)) := by
  unfold Ceremonies.act
  dsimp only
  split
  · exact h.leave p _
  · split
    · exact h
    · rename_i credentials hins
      refine Inv.leave (h.credentials (fun k row' hrow' => ⟨row', ?_, le_rfl⟩) fun x hx => .inl hx) p _
      rw [Table.find?_insert? hins, if_neg]
      · exact hrow'
      · rintro rfl
        cases (Table.insert?_eq_some_iff.1 hins).1.symm.trans hrow'

theorem inv_saveUsed (h : Inv s) {stored row : WebauthnCredential} (hp : s.clients p = some (.saveUsed stored row))
    (hcalm : ∀ r, s.credentials.find? stored.id = some r → r.counter = stored.counter) :
    Inv ({ s with credentials := s.credentials.save row, saved := (row.id, row.counter) :: s.saved }.leave p
      (.ok ())) := by
  obtain ⟨hid, hle, r, hr⟩ := h.tasks p _ hp
  have hrow : (s.credentials.save row).find? row.id = some row := by
    rw [Table.find?_save, hid, hr]
    exact if_pos hid
  refine Inv.leave (h.credentials (fun k row' hrow' => ?_) fun x hx => ?_) p _
  · by_cases hk : row.id = k
    · subst hk
      rw [hid, hr] at hrow'
      obtain rfl := Option.some.inj hrow'
      exact ⟨row, hrow, (hcalm r hr).trans_le hle⟩
    · exact ⟨row', (Table.find?_save ..).trans ((if_neg hk).trans hrow'), le_rfl⟩
  · obtain rfl | hx := List.mem_cons.1 hx
    · exact .inr ⟨row, hrow, le_rfl⟩
    · exact .inl hx

/-- A start or a finish that has not come to its challenge. -/
theorem inv_act {lib : Library} (hlib : lib.Sound) (h : Inv s) (hp : s.clients p = some t) (now : Instant) (id : Uuid)
    (challenge : String) (hcalm : Calm s (.act p now id challenge)) : Inv (s.act p lib now id challenge t) := by
  dsimp only [Calm] at hcalm
  rw [hp] at hcalm
  cases t with
  | registerStart userId tenantId =>
    unfold Ceremonies.act
    dsimp only
    split
    · exact h.leave p _
    · exact h.goOn p trivial rfl
  | registerOptions userId tenantId => exact h.goOn p trivial rfl
  | loginStart tenantId username =>
    unfold Ceremonies.act
    dsimp only
    split
    · exact h.leave p _
    · exact h.goOn p trivial rfl
  | loginOptions userId tenantId =>
    unfold Ceremonies.act
    dsimp only
    split
    · exact h.goOn p trivial rfl
    · exact h.leave p _
  | clear userId tenantId purpose =>
    exact (h.delete fun c hc => (List.mem_filter.1 hc).1).goOn p trivial rfl
  | sweep userId tenantId purpose =>
    exact (h.delete fun c hc => (List.mem_filter.1 hc).1).goOn p trivial rfl
  | issue userId tenantId purpose =>
    unfold Ceremonies.act
    dsimp only
    split
    · exact h
    · rename_i hnew
      split
      · exact h
      · rename_i challenges hins
        exact (h.issue (fun c' hc' heq => hnew (List.any_eq_true.2 ⟨c', hc', by simpa using heq⟩)) hins).leave p _
  | loginFinish tenantId username response =>
    unfold Ceremonies.act
    dsimp only
    split
    · exact h.leave p _
    · exact h.goOn p trivial rfl
  | findCredential userId tenantId response =>
    unfold Ceremonies.act
    dsimp only
    split
    · exact h.leave p _
    · rename_i stored hstored
      split
      · exact h.leave p _
      · exact h.goOn p ⟨stored, Table.find?_of_mem (List.mem_of_find?_eq_some hstored)⟩ rfl
  | take f =>
    unfold Ceremonies.act
    dsimp only
    split
    · exact h.leave p _
    · rename_i c hc
      exact inv_take h hp now hcalm hc
  | holding f c takenAt => exact inv_holding hlib h hp now id challenge
  | saveNew row => exact inv_saveNew h row now id challenge
  | saveUsed stored row => exact inv_saveUsed h hp hcalm

theorem inv_step {lib : Library} (hlib : lib.Sound) (e : Event) (h : Inv s) (hcalm : Calm s e) :
    Inv (step lib s e) := by
  unfold step
  split
  · rename_i q call
    split
    · cases call <;> exact h.goOn q trivial rfl
    · exact h
  · rename_i q now id challenge
    split
    · exact h
    · exact inv_act hlib h ‹_› now id challenge hcalm

end

/-! ### The other calls -/

def Event.client : Event → ℕ
  | .call p _ | .act p _ _ _ => p

theorem clients_act_other {lib : Library} {s : Ceremonies} {p q : ℕ} (hq : q ≠ p) (now : Instant) (id : Uuid)
    (challenge : String) (t : Task) : (s.act p lib now id challenge t).clients q = s.clients q := by
  cases t
  all_goals
    unfold Ceremonies.act
    dsimp only
    repeat' split
  all_goals first
    | rfl
    | exact Function.update_of_ne hq _ _

theorem clients_run_other {lib : Library} {s : Ceremonies} {q : ℕ} {es : List Event} (h : ∀ e ∈ es, e.client ≠ q) :
    (run (step lib) s es).clients q = s.clients q := by
  refine foldl_invariant (P := fun s' : Ceremonies => s'.clients q = s.clients q) (fun s' e he hs' => ?_) rfl
  have hq : q ≠ e.client := (h e he).symm
  rw [← hs']
  unfold step
  split
  · split
    · exact Function.update_of_ne hq _ _
    · rfl
  · split
    · rfl
    · exact clients_act_other hq ..

/-- **Ceremonies.** In every run in which no call reads a challenge that another one has read and not deleted yet, and
no login saves over a counter that it has not read, every challenge is spent once and no counter goes back. -/
theorem spent_once (lib : Library) (hlib : lib.Sound) (users : Users) (credentials : Table WebauthnCredential)
    (challenges : Table WebauthnChallenge) (hfresh : (challenges.rows.map WebauthnChallenge.challenge).Nodup)
    (es : List Event) (h : AllSteps (step lib) Calm (start users credentials challenges) es) :
    SpentOnce (run (step lib) (start users credentials challenges) es) := by
  have hstart : Inv (start users credentials challenges) :=
    { once := List.nodup_nil
      issued := nofun
      counter := nofun
      rows := fun c hc => ⟨hc, List.not_mem_nil⟩
      fresh := fun c hc c' hc' heq => List.inj_on_of_nodup_map hfresh hc hc' heq
      tasks := fun _ _ h => by cases h
      alone := fun _ _ _ _ _ _ _ h => by cases h }
  exact (run_invariant (fun _ e hs hcalm => inv_step hlib e hs hcalm) hstart h).toSpentOnce

/-! ### One passkey -/

/-- Responses that are the challenge itself, and a counter that rises by one. -/
def keys : Library where
  verifyRegistrationResponse r c := .ok (if r.body = c then some { credentialId := "k2", publicKey := "pk" } else none)
  verifyAuthenticationResponse r c k := .ok (if r.body = c then some (some (k.counter + 1)) else none)
  challengeIn body := body

theorem sound_keys : keys.Sound where
  registration r c info h := by
    dsimp only [keys] at h ⊢
    split at h
    · assumption
    · cases h
  assertion r c k n h := by
    dsimp only [keys] at h ⊢
    split at h
    · assumption
    · cases h
  counter r c k n h := by
    dsimp only [keys] at h
    split at h
    · cases h
      omega
    · cases h

def staff : Users :=
  ⟨⟨[{ id := "u", tenantId := "t", username := "ann", role := "General User", passwordHash := "" }], by decide⟩,
    by decide⟩

def enrolled : Table WebauthnCredential :=
  ⟨[{ id := "k", tenantId := "t", userId := "u", credentialId := "key", publicKey := "pk" }], by decide⟩

def login : List Event :=
  Event.call 0 (.loginStart "t" "ann") :: List.replicate 5 (Event.act 0 0 "c" "nonce") ++
    Event.call 1 (.loginFinish "t" "ann" ⟨"key", "nonce"⟩) :: List.replicate 5 (Event.act 1 1000 "" "")

theorem spent_once_login : SpentOnce (run (step keys) (start staff enrolled .empty) login) ∧
    (run (step keys) (start staff enrolled .empty) login).saved = [("k", 1)] := by
  refine ⟨spent_once keys sound_keys staff enrolled .empty (by decide) login ⟨trivial, trivial, trivial, trivial,
    trivial, trivial, trivial, trivial, trivial, fun c _ q f' c' takenAt hq => ?_, trivial, fun row hrow => ?_,
    trivial⟩, by decide⟩
  · have hrun : (run (step keys) (start staff enrolled .empty) (login.take 9)).clients q = _ := hq
    by_cases h0 : q = 0
    · subst h0
      cases hq
    · by_cases h1 : q = 1
      · subst h1
        cases hq
      · have hclients : ∀ e ∈ login.take 9, e.client = 0 ∨ e.client = 1 := by decide
        rw [clients_run_other] at hrun
        · cases hrun
        · intro e he heq
          obtain h | h := hclients e he
          · exact h0 (heq.symm.trans h)
          · exact h1 (heq.symm.trans h)
  · cases hrow
    rfl

/-- The response is sent twice, and both calls read the challenge before one of them deletes it. -/
def replayed : List Event :=
  Event.call 0 (.loginStart "t" "ann") :: List.replicate 5 (Event.act 0 0 "c" "nonce") ++
    Event.call 1 (.loginFinish "t" "ann" ⟨"key", "nonce"⟩) :: Event.call 2 (.loginFinish "t" "ann" ⟨"key", "nonce"⟩) ::
    List.replicate 3 (Event.act 1 1000 "" "") ++ List.replicate 3 (Event.act 2 1000 "" "") ++
    List.replicate 2 (Event.act 1 1000 "" "") ++ List.replicate 2 (Event.act 2 1000 "" "")

/-- Both are accepted over the one challenge, and both have logged in. -/
theorem spent_twice :
    (run (step keys) (start staff enrolled .empty) replayed).accepted =
        [⟨"nonce", "login", 1000⟩, ⟨"nonce", "login", 1000⟩] ∧
      (run (step keys) (start staff enrolled .empty) replayed).issued.map WebauthnChallenge.challenge = ["nonce"] ∧
      (run (step keys) (start staff enrolled .empty) replayed).saved = [("k", 1), ("k", 1)] := by
  decide

end BookingSystem.Concurrency.Passkeys
