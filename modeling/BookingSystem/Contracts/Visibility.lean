import BookingSystem.Model.Visibility
import Mathlib.Data.List.Forall2

/-!
# Private bookings

Two calendars that differ in nothing but what a viewer may not know: the subject and the people of private bookings, and
the check-in tokens of all bookings. The viewer gets the same list of both exactly if they agree on the fields that
`projectForViewer` passes on: the check-in token of a booking that is not private, the expiry of the token of any, and
the attendees, the services, the answers and the cost center of a private one (`listAllForRange_eq_iff`).
-/

namespace BookingSystem.Contracts.Visibility

open Base Model Model.BookingsService

/-- What a viewer may know of a booking that is not theirs: all of it but the check-in token, and of a private booking
the slot. -/
def outline (b : BookingRecord) : BookingRecord :=
  let b := { b with checkinToken := none, checkinTokenExpiresAt := none }
  if b.isPrivate then
    { b with
      userId := ""
      title := ""
      meetingUrl := ""
      redirectUrl := ""
      exceptionNotes := ""
      attendees := none
      services := none
      customFieldValues := none
      costCenterCode := none }
  else b

/-- The two bookings have one outline, and if they are private the viewer owns neither. -/
structure Agree (viewerId : Uuid) (b b' : BookingRecord) : Prop where
  outline : outline b = outline b'
  stranger : b.isPrivate = true → b.userId ≠ viewerId ∧ b'.userId ≠ viewerId

/-- The two bookings agree on the fields that are passed on. -/
def SameLeaks (b b' : BookingRecord) : Prop :=
  b.checkinTokenExpiresAt = b'.checkinTokenExpiresAt ∧
    if b.isPrivate then
      b.attendees = b'.attendees ∧ b.services = b'.services ∧ b.customFieldValues = b'.customFieldValues ∧
        b.costCenterCode = b'.costCenterCode
    else b.checkinToken = b'.checkinToken

/-! ### One booking -/

section One

variable {resources : Table Resource} {tenantId viewerId : Uuid} {viewerRole : String} {b b' : BookingRecord}

def sent (resources : Table Resource) (tenantId viewerId : Uuid) (viewerRole : String) (b : BookingRecord) :
    SentBooking :=
  redact viewerId viewerRole { b with resourceName := resourceName resources tenantId b.resourceId }

theorem outline_slot (b : BookingRecord) : (outline b).isPrivate = b.isPrivate ∧
    (outline b).tenantId = b.tenantId ∧ (outline b).startTime = b.startTime := by
  unfold outline
  dsimp only
  split
  · exact ⟨rfl, rfl, rfl⟩
  · exact ⟨rfl, rfl, rfl⟩

theorem agree_slot (h : Agree viewerId b b') :
    b'.isPrivate = b.isPrivate ∧ b'.tenantId = b.tenantId ∧ b'.startTime = b.startTime := by
  obtain ⟨hpriv, htenant, hstart⟩ := outline_slot b
  obtain ⟨hpriv', htenant', hstart'⟩ := outline_slot b'
  rw [h.outline] at hpriv htenant hstart
  exact ⟨hpriv'.symm.trans hpriv, htenant'.symm.trans htenant, hstart'.symm.trans hstart⟩

theorem sent_of_public (hpub : b.isPrivate = false) :
    sent resources tenantId viewerId viewerRole b =
      { outline b with
        checkinToken := b.checkinToken
        checkinTokenExpiresAt := b.checkinTokenExpiresAt
        resourceName := resourceName resources tenantId (outline b).resourceId } := by
  have hout : outline b = { b with checkinToken := none, checkinTokenExpiresAt := none } := by
    simp [outline, hpub]
  rw [hout]
  unfold sent redact
  rw [if_pos (by simp [hpub])]

theorem sent_of_private (hpriv : b.isPrivate = true) (huser : b.userId ≠ viewerId)
    (hrole : viewerRole ≠ Roles.systemAdmin) :
    sent resources tenantId viewerId viewerRole b =
      { outline b with
        title := "Reserved"
        attendees := b.attendees
        services := b.services
        customFieldValues := b.customFieldValues
        costCenterCode := b.costCenterCode
        checkinTokenExpiresAt := b.checkinTokenExpiresAt
        resourceName := resourceName resources tenantId (outline b).resourceId
        subjectHidden := some true } := by
  simp [sent, redact, outline, hpriv, huser, hrole]

theorem sent_eq_iff (h : Agree viewerId b b') (hrole : viewerRole ≠ Roles.systemAdmin) :
    sent resources tenantId viewerId viewerRole b = sent resources tenantId viewerId viewerRole b' ↔
      SameLeaks b b' := by
  have hpriv : b'.isPrivate = b.isPrivate := (agree_slot h).1
  unfold SameLeaks
  cases hb : b.isPrivate with
  | false =>
    rw [sent_of_public hb, sent_of_public (hpriv.trans hb), h.outline]
    simp [and_comm]
  | true =>
    obtain ⟨huser, huser'⟩ := h.stranger hb
    rw [sent_of_private hb huser hrole, sent_of_private (hpriv.trans hb) huser' hrole, h.outline]
    simp
    tauto

end One

/-! ### The list -/

section Range

variable {resources : Table Resource} {tenantId viewerId : Uuid} {viewerRole : String} {start finish : Instant}
  {bs bs' : List BookingRecord}

/-- The booking is one of the list. -/
def InRange (tenantId : Uuid) (start finish : Instant) (b : BookingRecord) : Prop :=
  b.tenantId = tenantId ∧ start ≤ b.startTime ∧ b.startTime < finish

instance (b : BookingRecord) : Decidable (InRange tenantId start finish b) := inferInstanceAs (Decidable (_ ∧ _))

theorem listAllForRange_eq :
    listAllForRange resources tenantId start finish viewerId viewerRole bs =
      ((bs.filter fun b => decide (InRange tenantId start finish b)).insertionSort
        fun b b' => b.startTime ≤ b'.startTime).map (sent resources tenantId viewerId viewerRole) := by
  have hfilter : (fun b : BookingRecord => b.tenantId == tenantId && decide (start ≤ b.startTime) &&
      decide (b.startTime < finish)) = fun b => decide (InRange tenantId start finish b) := by
    funext b
    rw [Bool.eq_iff_iff, decide_eq_true_iff]
    simp [InRange, and_assoc]
  simp only [listAllForRange, projectForViewer, withResourceNames, hfilter, List.map_map]
  rfl

/-- **Private bookings.** A viewer who is no System Admin and owns no private booking gets the same list of two
calendars with the same outlines if and only if the bookings in the range agree on the fields that are passed on. -/
theorem listAllForRange_eq_iff (h : List.Forall₂ (Agree viewerId) bs bs') (hrole : viewerRole ≠ Roles.systemAdmin) :
    listAllForRange resources tenantId start finish viewerId viewerRole bs =
        listAllForRange resources tenantId start finish viewerId viewerRole bs' ↔
      List.Forall₂ (fun b b' => InRange tenantId start finish b → SameLeaks b b') bs bs' := by
  obtain ⟨hlen, hagree⟩ := List.forall₂_iff_zip.1 h
  -- the bookings of the two calendars in pairs
  obtain ⟨ps, hps⟩ : ∃ ps, ps = bs.zip bs' := ⟨_, rfl⟩
  have hfst : bs = ps.map Prod.fst := by rw [hps, List.map_fst_zip hlen.le]
  have hsnd : bs' = ps.map Prod.snd := by rw [hps, List.map_snd_zip hlen.ge]
  have hpair : ∀ p ∈ ps, Agree viewerId p.1 p.2 := fun p hp => hagree (hps ▸ hp)
  -- both lists come from the same pairs, in the same order
  obtain ⟨qs, hqs⟩ : ∃ qs, qs = (ps.filter fun p => decide (InRange tenantId start finish p.1)).insertionSort
    fun p q => p.1.startTime ≤ q.1.startTime := ⟨_, rfl⟩
  have hleft : listAllForRange resources tenantId start finish viewerId viewerRole bs =
      qs.map fun p => sent resources tenantId viewerId viewerRole p.1 := by
    rw [listAllForRange_eq, hfst, List.filter_map, hqs,
      ← List.map_insertionSort (fun p q => p.1.startTime ≤ q.1.startTime) _ Prod.fst _ fun p _ q _ => Iff.rfl,
      List.map_map]
    rfl
  have hright : listAllForRange resources tenantId start finish viewerId viewerRole bs' =
      qs.map fun p => sent resources tenantId viewerId viewerRole p.2 := by
    have hfilter : ps.filter ((fun b => decide (InRange tenantId start finish b)) ∘ Prod.snd) =
        ps.filter fun p => decide (InRange tenantId start finish p.1) := by
      refine List.filter_congr fun p hp => ?_
      obtain ⟨-, htenant, hstart⟩ := agree_slot (hpair p hp)
      rw [Function.comp_apply, decide_eq_decide]
      unfold InRange
      rw [htenant, hstart]
    rw [listAllForRange_eq, hsnd, List.filter_map, hfilter, hqs,
      ← List.map_insertionSort (fun p q => p.1.startTime ≤ q.1.startTime) _ Prod.snd _ fun p hp q hq => ?_,
      List.map_map]
    · rfl
    · obtain ⟨-, -, hstart⟩ := agree_slot (hpair p (List.mem_of_mem_filter hp))
      obtain ⟨-, -, hstart'⟩ := agree_slot (hpair q (List.mem_of_mem_filter hq))
      rw [hstart, hstart']
  have hmem : ∀ p, p ∈ qs ↔ p ∈ ps ∧ InRange tenantId start finish p.1 := by
    intro p
    simp [hqs]
  rw [hleft, hright, List.map_inj_left, List.forall₂_iff_zip, and_iff_right hlen, ← hps]
  constructor
  · intro hall b b' hp hin
    exact (sent_eq_iff (hpair (b, b') hp) hrole).1 (hall (b, b') ((hmem _).2 ⟨hp, hin⟩))
  · intro hall p hp
    obtain ⟨hp, hin⟩ := (hmem p).1 hp
    exact (sent_eq_iff (hpair p hp) hrole).2 (hall hp hin)

end Range

/-! ### The contract of the first stack -/

/-- The fields of a booking that the first stack shows to everyone. -/
def shown (b : Model.Visibility.Booking) : Model.Visibility.Booking :=
  { b with
    resourceName := ""
    userId := ""
    exceptionNotes := ""
    meetingUrl := ""
    redirectUrl := ""
    checkedInAt := none
    title := "" }

theorem projectBooking_eq {c : Model.Visibility.Caller} {r : Model.Visibility.ResourceProjection}
    {b b' : Model.Visibility.Booking} (hrole : c.role ≠ Roles.systemAdmin) (hpriv : b.isPrivate = true)
    (huser : b.userId ≠ c.userId) (huser' : b'.userId ≠ c.userId) (h : shown b = shown b') :
    Model.Visibility.projectBooking c b r = Model.Visibility.projectBooking c b' r := by
  have hhidden : ∀ x : Model.Visibility.Booking, x.isPrivate = true → x.userId ≠ c.userId →
      Model.Visibility.projectBooking c x r = { shown x with resourceName := r.name } := by
    intro x hx hxuser
    have hsee : Model.Visibility.canSeeDetails c { x with resourceName := r.name } r = false := by
      simp [Model.Visibility.canSeeDetails, Model.Visibility.isSystemAdmin, hrole, hx, hxuser]
    simp only [Model.Visibility.projectBooking, hsee]
    rfl
  have hpriv' : b'.isPrivate = true := (congrArg Model.Visibility.Booking.isPrivate h).symm.trans hpriv
  rw [hhidden b hpriv huser, hhidden b' hpriv' huser', h]

/-! ### Guests -/

def withGuests (guests : List String) : BookingRecord :=
  { id := "b", tenantId := "t", resourceId := "r", userId := "u", startTime := 0, endTime := 3600000,
    status := .confirmed, title := "Merger", attendees := some guests, isPrivate := true, createdAt := 0,
    updatedAt := 0 }

/-- The subject is hidden: two subjects, one list. -/
theorem listAllForRange_eq_subject :
    listAllForRange .empty "t" 0 1 "v" "General User" [withGuests []] =
      listAllForRange .empty "t" 0 1 "v" "General User" [{ withGuests [] with title := "Layoffs" }] :=
  (listAllForRange_eq_iff (.cons ⟨rfl, fun _ => ⟨by decide, by decide⟩⟩ .nil) (by decide)).2
    (.cons (fun _ => ⟨rfl, rfl, rfl, rfl, rfl⟩) .nil)

/-- The guests are not: a stranger tells the two calendars apart. -/
theorem guests_revealed :
    List.Forall₂ (Agree "v") [withGuests ["ceo@example.com"]] [withGuests ["cfo@example.com"]] ∧
      listAllForRange .empty "t" 0 1 "v" "General User" [withGuests ["ceo@example.com"]] ≠
        listAllForRange .empty "t" 0 1 "v" "General User" [withGuests ["cfo@example.com"]] := by
  constructor
  · exact .cons ⟨rfl, fun _ => ⟨by decide, by decide⟩⟩ .nil
  · decide

end BookingSystem.Contracts.Visibility
