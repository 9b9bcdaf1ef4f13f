import BookingSystem.Runs.Sessions

/-!
# The erasure of an account

`eraseSelf` asks for the current password and compares it with the hash of the user it has loaded. The column of the
hash is declared `select: false` and the query does not ask for it, so the comparison is with an empty text and the
erasure is refused to everyone (`eraseSelf_refused`): no account can be erased (`erasure_never_works`).
-/

namespace BookingSystem.Contracts.Erasure

open Base Model Model.Accounts Model.DsarService
open Runs.Sessions

/-! ### What an erasure is for -/

def blankUser (userId : Uuid) (a : Account) : Account :=
  if a.id = userId then
    { a with
      username := "", email := none, dn := none, grade := none, ssoProvider := none, ssoSubject := none,
      mfaSecret := none, mfaEnrolledAt := none, passwordHash := "", icsFeedToken := none, regionAccess := [] }
  else a

def blankBooking (userId : Uuid) (b : BookingRow) : BookingRow :=
  if b.userId = userId then
    { b with
      title := "", meetingUrl := "", redirectUrl := "", exceptionNotes := "", attendees := none,
      customFieldValues := none }
  else b

/-- Two stores that differ in the personal values of the user only. -/
structure Alike (userId : Uuid) (st st₂ : AccountStore) : Prop where
  users : st.users.rows.map (blankUser userId) = st₂.users.rows.map (blankUser userId)
  bookings : st.bookings.rows.map (blankBooking userId) = st₂.bookings.rows.map (blankBooking userId)
  others : st.states = st₂.states ∧ st.credentials = st₂.credentials ∧ st.challenges = st₂.challenges

/-- The erasure goes through; afterwards no run of login calls opens a session for the user; and what is left of the row
and of the bookings does not depend on the personal values stored before. -/
def Erases (rt : SsoRuntime) (m : Moment) (st : AccountStore) (tenantId userId : Uuid) (password : String) : Prop :=
  ∃ result st', eraseSelf rt.toAuthRuntime m st tenantId userId password = .ok (result, st') ∧
    (∀ es : List AccountEvent, (∀ e ∈ es, isLogin e.2 = true) → ∀ p e q, es = p ++ e :: q →
      ∀ s, Reply.session? (serve rt e.1 (run (advance rt) st' p) e.2).1 = some s → s.user.id ≠ userId) ∧
    ∀ st₂ password₂ result₂ st₂', Alike userId st st₂ →
      eraseSelf rt.toAuthRuntime m st₂ tenantId userId password₂ = .ok (result₂, st₂') →
        st'.users.find? userId = st₂'.users.find? userId ∧
          st'.bookings.rows.filter (isOwn tenantId userId) = st₂'.bookings.rows.filter (isOwn tenantId userId)

/-! ### What it does -/

theorem eraseSelf_refused (rt : AuthRuntime) (m : Moment) (st : AccountStore) (tenantId userId : Uuid)
    (password : String) :
    eraseSelf rt m st tenantId userId password = .error (.unauthorized "account not found") ∨
      eraseSelf rt m st tenantId userId password =
        .error (.unauthorized "password confirmation required to erase your account") := by
  unfold eraseSelf
  cases UsersService.findOne st.users tenantId userId with
  | none => exact .inl rfl
  | some a => exact .inr rfl

theorem advance_eraseSelf (rt : SsoRuntime) (m : Moment) (st : AccountStore) (tenantId userId : Uuid)
    (password : String) : advance rt st (m, .eraseSelf tenantId userId password) = st := by
  simp only [advance, serve]
  rcases eraseSelf_refused rt.toAuthRuntime m st tenantId userId password with h | h <;> rw [h]

/-- **No account can be erased**, whatever is stored and whichever password is given. -/
theorem erasure_never_works (rt : SsoRuntime) (m : Moment) (st : AccountStore) (tenantId userId : Uuid)
    (password : String) : ¬ Erases rt m st tenantId userId password := by
  rintro ⟨result, st', hok, -⟩
  rcases eraseSelf_refused rt.toAuthRuntime m st tenantId userId password with h | h <;> rw [h] at hok <;> cases hok

/-- A user who gives the right password. -/
theorem erasure_refused_amy :
    isBcrypt amy.passwordHash = true ∧ plain.compare "pw" amy.passwordHash = true ∧
      ¬ Erases plain acme amyOnly "t1" "u1" "pw" := by
  refine ⟨by decide, by decide, ?_⟩
  rintro ⟨result, st', hok, -⟩
  rcases eraseSelf_refused plain.toAuthRuntime acme amyOnly "t1" "u1" "pw" with h | h <;> rw [h] at hok <;> cases hok

end BookingSystem.Contracts.Erasure
