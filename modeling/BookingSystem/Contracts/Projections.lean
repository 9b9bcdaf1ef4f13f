import BookingSystem.Contracts.Visibility

/-!
# The projections of the Go service

Two lists of bookings look the same to a caller exactly if they agree on the fields that are shown to everyone, and the
caller may see the details of none of the bookings in which they differ (`projectMany_eq_iff`). A resource that the map
does not know grants nothing, so a missing entry tells no two lists apart that looked the same.
-/

namespace BookingSystem.Contracts.Projections

open Contracts.Visibility (shown)
open Model.Visibility

section

variable {c : Caller} {r r' : ResourceProjection} {b b' : Booking} {m : String → Option ResourceProjection}

/-- The two bookings agree on what is shown to everyone; where they differ, the caller may see the details of neither.
The name of the resource is overwritten and does not count. -/
structure Alike (c : Caller) (r : ResourceProjection) (b b' : Booking) : Prop where
  shown : shown b = shown b'
  hidden : { b with resourceName := b'.resourceName } ≠ b' → canSeeDetails c b r = false ∧ canSeeDetails c b' r = false

def without (m : String → Option ResourceProjection) (id : String) : String → Option ResourceProjection :=
  Function.update m id none

theorem kept_of_shown (h : shown b = shown b') :
    b.resourceId = b'.resourceId ∧ b.status = b'.status ∧ b.isPrivate = b'.isPrivate :=
  ⟨(congrArg Booking.resourceId h :), (congrArg Booking.status h :), (congrArg Booking.isPrivate h :)⟩

/-! ### Who sees the details -/

/-- A role that the resource or the default admits. -/
def Admitted (c : Caller) (r : ResourceProjection) : Prop :=
  c.role ∈ r.detailsVisibleToRole ∨ c.role ∈ [Model.Roles.securityAdmin, Model.Roles.roomAdmin, Model.Roles.secretary]

/-- **The five rules**: the System Admin, the owner, and for a booking that is not private the roles of the resource and
the default ones. -/
theorem canSeeDetails_iff : canSeeDetails c b r = true ↔
    c.role = Model.Roles.systemAdmin ∨ (c.userId ≠ "" ∧ b.userId = c.userId) ∨
      (b.status ≠ "" ∧ b.isPrivate = false ∧ Admitted c r) := by
  unfold canSeeDetails isSystemAdmin Admitted
  split
  · simp_all
  · split
    · simp_all
    · split
      · simp_all
      · split
        · simp_all
        · simp_all

theorem canSeeDetails_unknown (h : canSeeDetails c b {} = true) : canSeeDetails c b r = true := by
  rw [canSeeDetails_iff] at h ⊢
  obtain hadmin | howner | ⟨hstatus, hpriv, hrole | hrole⟩ := h
  · exact .inl hadmin
  · exact .inr (.inl howner)
  · exact absurd hrole (by simp)
  · exact .inr (.inr ⟨hstatus, hpriv, .inr hrole⟩)

theorem canSeeDetails_without {id : String} (h : canSeeDetails c b (resourceOf (without m id) b) = true) :
    canSeeDetails c b (resourceOf m b) = true := by
  by_cases hid : b.resourceId = id
  · have hnone : resourceOf (without m id) b = {} := by
      rw [resourceOf, without, hid, Function.update_self, Option.getD_none]
    exact canSeeDetails_unknown (hnone ▸ h)
  · have hsame : resourceOf (without m id) b = resourceOf m b := by
      rw [resourceOf, without, Function.update_of_ne hid]
      rfl
    exact hsame ▸ h

/-! ### One booking -/

theorem projectBooking_of_seen (h : canSeeDetails c b r = true) :
    projectBooking c b r = { b with resourceName := r.name } := by
  have hseen : canSeeDetails c { b with resourceName := r.name } r = true := h
  simp only [projectBooking, hseen, if_true]

theorem projectBooking_of_hidden (h : canSeeDetails c b r = false) :
    projectBooking c b r = { shown b with resourceName := r.name } := by
  have hhidden : canSeeDetails c { b with resourceName := r.name } r = false := h
  simp only [projectBooking, hhidden, Bool.false_eq_true, if_false]
  rfl

theorem shown_projectBooking : shown (projectBooking c b r) = shown b := by
  cases h : canSeeDetails c b r
  · rw [projectBooking_of_hidden h]
    rfl
  · rw [projectBooking_of_seen h]
    rfl

theorem canSeeDetails_of_projectBooking (h : projectBooking c b r = projectBooking c b' r)
    (hseen : canSeeDetails c b r = true) : canSeeDetails c b' r = true := by
  have hshown : shown b = shown b' := by
    rw [← shown_projectBooking (c := c) (r := r), h, shown_projectBooking]
  rw [← Bool.not_eq_false]
  intro hhidden
  obtain hadmin | ⟨hne, howner⟩ | ⟨hstatus, hpriv, hrole⟩ := canSeeDetails_iff.1 hseen
  · exact Bool.false_ne_true (hhidden.symm.trans (canSeeDetails_iff.2 (.inl hadmin)))
  · -- the projection of the other booking has no owner
    rw [projectBooking_of_seen hseen, projectBooking_of_hidden hhidden] at h
    have huser : b.userId = "" := congrArg Booking.userId h
    exact hne (howner.symm.trans huser)
  · obtain ⟨-, hstatus', hpriv'⟩ := kept_of_shown hshown
    exact Bool.false_ne_true (hhidden.symm.trans
      (canSeeDetails_iff.2 (.inr (.inr ⟨hstatus' ▸ hstatus, hpriv' ▸ hpriv, hrole⟩))))

theorem projectBooking_eq_iff : projectBooking c b r = projectBooking c b' r ↔ Alike c r b b' := by
  constructor
  · intro h
    refine ⟨by rw [← shown_projectBooking (c := c) (r := r), h, shown_projectBooking], fun hne => ?_⟩
    cases hseen : canSeeDetails c b r with
    | false =>
      refine ⟨rfl, ?_⟩
      rw [← Bool.not_eq_true]
      exact fun hseen' => Bool.false_ne_true (hseen.symm.trans (canSeeDetails_of_projectBooking h.symm hseen'))
    | true =>
      have hseen' := canSeeDetails_of_projectBooking h hseen
      rw [projectBooking_of_seen hseen, projectBooking_of_seen hseen'] at h
      have hsame := congrArg (fun x : Booking => { x with resourceName := b'.resourceName }) h
      exact absurd hsame hne
  · rintro ⟨hshown, hhidden⟩
    by_cases hne : { b with resourceName := b'.resourceName } = b'
    · have hsee : canSeeDetails c b' r = canSeeDetails c b r := by
        rw [← hne]
        rfl
      cases hseen : canSeeDetails c b r with
      | false => rw [projectBooking_of_hidden hseen, projectBooking_of_hidden (hsee.trans hseen), hshown]
      | true =>
        rw [projectBooking_of_seen hseen, projectBooking_of_seen (hsee.trans hseen), ← hne]
    · obtain ⟨h, h'⟩ := hhidden hne
      rw [projectBooking_of_hidden h, projectBooking_of_hidden h', hshown]

/-! ### Lists -/

theorem projected_eq_iff :
    projectBooking c b (resourceOf m b) = projectBooking c b' (resourceOf m b') ↔ Alike c (resourceOf m b) b b' := by
  have hresource : shown b = shown b' → resourceOf m b' = resourceOf m b := by
    intro h
    rw [resourceOf, resourceOf, (kept_of_shown h).1]
  constructor
  · intro h
    have hshown : shown b = shown b' := by
      rw [← shown_projectBooking (c := c) (r := resourceOf m b), h, shown_projectBooking]
    rw [hresource hshown] at h
    exact projectBooking_eq_iff.1 h
  · intro h
    rw [hresource h.shown]
    exact projectBooking_eq_iff.2 h

/-- **What a caller cannot tell apart**: the lists are alike, booking by booking. -/
theorem projectMany_eq_iff {bs bs' : List Booking} :
    projectMany c bs m = projectMany c bs' m ↔ List.Forall₂ (fun b b' => Alike c (resourceOf m b) b b') bs bs' := by
  rw [projectMany, projectMany, ← List.forall₂_eq_eq_eq, List.forall₂_map_left_iff, List.forall₂_map_right_iff]
  exact ⟨List.Forall₂.imp fun _ _ => projected_eq_iff.1, List.Forall₂.imp fun _ _ => projected_eq_iff.2⟩

theorem alike_without {id : String} (h : Alike c (resourceOf m b) b b') :
    Alike c (resourceOf (without m id) b) b b' := by
  refine ⟨h.shown, fun hne => ?_⟩
  obtain ⟨hb, hb'⟩ := h.hidden hne
  obtain ⟨hid, -⟩ := kept_of_shown h.shown
  have hclosed : ∀ {x : Booking}, x.resourceId = b.resourceId → canSeeDetails c x (resourceOf m b) = false →
      canSeeDetails c x (resourceOf (without m id) b) = false := by
    intro x hx hhidden
    rw [← Bool.not_eq_true] at hhidden ⊢
    rw [resourceOf, ← hx] at hhidden ⊢
    exact fun hseen => hhidden (canSeeDetails_without hseen)
  exact ⟨hclosed rfl hb, hclosed hid.symm hb'⟩

/-- **Projections hide details.** A caller gets equal lists of bookings that agree on what is shown to everyone and of
which the caller may see no details where they differ. Without the entry of a resource the caller still cannot tell
apart what it could not tell apart before, and sees the details of no more bookings. -/
theorem projectMany_hides (c : Caller) (m : String → Option ResourceProjection) :
    (∀ bs bs' : List Booking, List.Forall₂ (fun b b' => Alike c (resourceOf m b) b b') bs bs' →
      projectMany c bs m = projectMany c bs' m) ∧
    ∀ id : String,
      (∀ bs bs' : List Booking, projectMany c bs m = projectMany c bs' m →
        projectMany c bs (without m id) = projectMany c bs' (without m id)) ∧
      ∀ b : Booking, canSeeDetails c b (resourceOf (without m id) b) = true →
        canSeeDetails c b (resourceOf m b) = true := by
  refine ⟨fun bs bs' => projectMany_eq_iff.2, fun id => ⟨fun bs bs' h => ?_, fun b => canSeeDetails_without⟩⟩
  exact projectMany_eq_iff.2 ((projectMany_eq_iff.1 h).imp fun _ _ => alike_without)

end

/-! ### Two subjects -/

def meeting (title : String) : Booking :=
  { id := "b", tenantId := "t", resourceId := "r", userId := "u", status := "Confirmed", title }

def guestRooms : String → Option ResourceProjection := fun id =>
  if id = "r" then some { name := "Room", detailsVisibleToRole := ["Guest"] } else none

/-- A General User does not see the subject, with the room and without it. -/
theorem projectMany_hides_subject :
    projectMany ⟨"v", "General User"⟩ [meeting "Merger"] guestRooms =
        projectMany ⟨"v", "General User"⟩ [meeting "Layoffs"] guestRooms ∧
      projectMany ⟨"v", "General User"⟩ [meeting "Merger"] (without guestRooms "r") =
        projectMany ⟨"v", "General User"⟩ [meeting "Layoffs"] (without guestRooms "r") := by
  obtain ⟨halike, hmissing⟩ := projectMany_hides ⟨"v", "General User"⟩ guestRooms
  have h := halike [meeting "Merger"] [meeting "Layoffs"] (.cons ⟨rfl, fun _ => ⟨by decide, by decide⟩⟩ .nil)
  exact ⟨h, (hmissing "r").1 _ _ h⟩

end BookingSystem.Contracts.Projections
