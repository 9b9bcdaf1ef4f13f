import BookingSystem.Base.Run
import BookingSystem.Service.Broadcasts

/-!
# Broadcasts and their windows

The announcements of a broadcast since it was saved last, over whole runs of the service. When a delay is longer than a
day, the first timer arms the next one, whose handle is not kept; a later update or removal does not clear it, so the
edge of a window that was replaced is announced all the same. As long as no broadcast is saved again or removed while
such a timer runs, what was announced since the latest save, together with what is still to come, are the edges of the
window (`announced_in_time`).
-/

namespace BookingSystem.Runs.BroadcastWindows

open Function (update_idem update_of_ne update_self)
open Base Service.Broadcasts
open Model (Uuid Instant)

/-! ### What is announced -/

/-- What was done to a broadcast last. -/
inductive Latest
  | never
  | saved (savedAt : Instant) (b : Broadcast)
  | removed (tenantId : Uuid) (removedAt : Instant)

/-- The service, with the latest save or removal of each broadcast, and what was announced for it since. -/
structure Watched where
  service : Announcer
  latest : Uuid → Latest := fun _ => .never
  heard : Uuid → List Announcement := fun _ => []

def news (s s' : Announcer) (id : Uuid) : List Announcement :=
  (s'.emitted.drop s.emitted.length).filter fun a => decide (a.broadcastId = id)

section

variable (lower : String → String)

/-- The broadcast that an event saves or removes. -/
def touched (s : Announcer) : Event → Option (Uuid × Latest)
  | .create id tenantId input =>
    if s.rows id = none then some (id, .saved s.clock.now (normalise lower id tenantId input s.clock.now)) else none
  | .update id tenantId input =>
    (findOne id tenantId s).map fun _ => (id, .saved s.clock.now (normalise lower id tenantId input s.clock.now))
  | .remove id tenantId => (findOne id tenantId s).map fun _ => (id, .removed tenantId s.clock.now)
  | _ => none

def watch (w : Watched) (e : Event) : Watched :=
  let service := step lower w.service e
  match touched lower w.service e with
  | some (id, latest) =>
    { service := service
      latest := Function.update w.latest id latest
      heard := fun j => if j = id then news w.service service j else w.heard j ++ news w.service service j }
  | none => { w with service := service, heard := fun j => w.heard j ++ news w.service service j }

def edges (savedAt : Instant) (b : Broadcast) : List Instant :=
  (if b.startsAt ≤ savedAt ∧ savedAt < b.endsAt then [savedAt] else []) ++
    ((if savedAt < b.startsAt then [b.startsAt] else []) ++ if savedAt < b.endsAt then [b.endsAt] else [])

/-- **The announcements follow the window**: since the latest save they were announcements of the broadcast as it was
saved, and together with others that are to come, none of them before now, they are at the edges, each once. Since a
removal there was the notice of it and nothing else. -/
def Announced (w : Watched) (id : Uuid) : Prop :=
  match w.latest id with
  | .never => w.heard id = []
  | .saved savedAt b => (∀ a ∈ w.heard id, a = notice b a.emittedAt) ∧
    ∃ toCome : List Instant, (∀ t ∈ toCome, w.service.clock.now ≤ t) ∧
      ((w.heard id).map Announcement.emittedAt ++ toCome).Perm (edges savedAt b)
  | .removed tenantId removedAt => w.heard id = [⟨tenantId, id, .removed, removedAt⟩]

/-- No timer of the broadcast was armed by another timer: the service has the handles of all. -/
def Current (s : Announcer) (id : Uuid) : Prop :=
  ∀ t ∈ s.clock.armed, t.callback.broadcast.id = id → t.handle ∈ s.timers id

/-- The window does not end before it starts, unless both lie in the past or both are to come. -/
def Forward (now : Instant) (b : Broadcast) : Prop := ¬ (b.endsAt ≤ now ∧ now < b.startsAt)

/-- Windows run forward, and a broadcast is saved again or removed while its timers are those that the service keeps. -/
def Proper (w : Watched) : Event → Prop
  | .create id tenantId input =>
    Forward w.service.clock.now (normalise lower id tenantId input w.service.clock.now)
  | .update id tenantId input => (findOne id tenantId w.service).isSome → Current w.service id ∧
    Forward w.service.clock.now (normalise lower id tenantId input w.service.clock.now)
  | .remove id tenantId => (findOne id tenantId w.service).isSome → Current w.service id
  | _ => True

end

/-! ### The timers of the service -/

/-- The clock is sound, and the handles of a broadcast are those of its own timers. -/
structure Keeps (c : Clock Callback) (timers : Uuid → List ℕ) : Prop where
  sound : c.Sound
  rest : ∀ t ∈ c.armed, 0 ≤ t.callback.rest
  known : ∀ id, ∀ h ∈ timers id, h < c.next
  owned : ∀ id, ∀ h ∈ timers id, ∀ t ∈ c.armed, t.handle = h → t.callback.broadcast.id = id

section

variable {c : Clock Callback} {timers : Uuid → List ℕ} {id j : Uuid} {b : Broadcast} {delay : ℤ}

theorem Keeps.arm (h : Keeps c timers) (delay : ℤ) (b : Broadcast) : Keeps (armAt delay b c) timers := by
  have hsound := sound_armAt h.sound delay b
  obtain ⟨k, hk, hrest, d, -, heq⟩ := armAt_eq delay b c
  rw [heq] at hsound ⊢
  refine ⟨hsound, fun t ht => ?_, fun i n hn => (h.known i n hn).trans (Nat.lt_succ_self _), fun i n hn t ht hth => ?_⟩
  · obtain ht | ht := List.mem_append.1 ht
    · exact h.rest t ht
    · obtain rfl := List.mem_singleton.1 ht
      exact hrest
  · obtain ht | ht := List.mem_append.1 ht
    · exact h.owned i n hn t ht hth
    · obtain rfl := List.mem_singleton.1 ht
      exact absurd hth.symm (h.known i n hn).ne

theorem Keeps.store (h : Keeps c timers) (delay : ℤ) (b : Broadcast) :
    Keeps (armAt delay b c) (Function.update timers b.id (timers b.id ++ [c.next])) := by
  have harmed := h.arm delay b
  obtain ⟨k, hk, -, d, -, heq⟩ := armAt_eq delay b c
  rw [heq] at harmed ⊢
  refine ⟨harmed.sound, harmed.rest, fun i n hn => ?_, fun i n hn t ht hth => ?_⟩
  · by_cases hi : i = b.id
    · subst hi
      rw [update_self] at hn
      obtain hn | hn := List.mem_append.1 hn
      · exact harmed.known _ n hn
      · rw [List.mem_singleton.1 hn]
        exact Nat.lt_succ_self _
    · rw [update_of_ne hi] at hn
      exact harmed.known i n hn
  · by_cases hi : i = b.id
    · subst hi
      rw [update_self] at hn
      obtain hn | hn := List.mem_append.1 hn
      · exact harmed.owned _ n hn t ht hth
      · -- the timer is the one that was just armed
        obtain rfl := List.mem_singleton.1 hn
        obtain ht | ht := List.mem_append.1 ht
        · exact absurd hth (h.sound.below t ht).ne
        · obtain rfl := List.mem_singleton.1 ht
          exact congrArg Broadcast.id hk
    · rw [update_of_ne hi] at hn
      exact harmed.owned i n hn t ht hth

theorem Keeps.cancel (h : Keeps c timers) (id : Uuid) :
    Keeps (c.clearTimeouts (timers id)) (Function.update timers id []) := by
  have hmem : ∀ t ∈ (c.clearTimeouts (timers id)).armed, t ∈ c.armed := fun t ht => (List.mem_filter.1 ht).1
  refine ⟨h.sound.clearTimeouts _, fun t ht => h.rest t (hmem t ht), fun i n hn => ?_, fun i n hn t ht hth => ?_⟩
  · by_cases hi : i = id
    · subst hi
      rw [update_self] at hn
      cases hn
    · rw [update_of_ne hi] at hn
      exact h.known i n hn
  · by_cases hi : i = id
    · subst hi
      rw [update_self] at hn
      cases hn
    · rw [update_of_ne hi] at hn
      exact h.owned i n hn t (hmem t ht) hth

theorem pending_cancel_of_ne (h : Keeps c timers) (hne : j ≠ id) :
    pending j (c.clearTimeouts (timers id)) = pending j c := by
  refine Clock.targets_clearTimeouts fun t ht hfor hmem => hne ?_
  exact (of_decide_eq_true hfor).symm.trans (h.owned id t.handle hmem t ht rfl)

theorem pending_cancel_self (hcurrent : ∀ t ∈ c.armed, t.callback.broadcast.id = id → t.handle ∈ timers id) :
    pending id (c.clearTimeouts (timers id)) = [] :=
  Clock.targets_clearTimeouts_eq_nil fun t ht hfor => hcurrent t ht (of_decide_eq_true hfor)

theorem mem_armAt {t : Timer Callback} (h : t ∈ (armAt delay b c).armed) : t ∈ c.armed ∨ t.callback.broadcast = b := by
  obtain ⟨k, hk, -, d, -, heq⟩ := armAt_eq delay b c
  rw [heq] at h
  obtain h | h := List.mem_append.1 h
  · exact .inl h
  · obtain rfl := List.mem_singleton.1 h
    exact .inr hk

end

/-! ### What a save does -/

/-- **A save**: the timers of the broadcast are those for its edges, it is announced at once if its window is open, and
nothing else changes. -/
structure Scheduled (s r : Announcer) (b : Broadcast) : Prop where
  now : r.clock.now = s.clock.now
  rows : r.rows = Function.update s.rows b.id (some b)
  keeps : Keeps r.clock r.timers
  mine : r.emitted = s.emitted ++ (if b.startsAt ≤ s.clock.now ∧ s.clock.now < b.endsAt then
    [notice b s.clock.now] else [])
  toCome : (if b.startsAt ≤ s.clock.now ∧ s.clock.now < b.endsAt then [s.clock.now] else []) ++ pending b.id r.clock =
    edges s.clock.now b
  others : ∀ j, j ≠ b.id → pending j r.clock = pending j s.clock
  armed : ∀ t ∈ r.clock.armed, (t ∈ s.clock.armed ∧ t.callback.broadcast.id ≠ b.id) ∨ t.callback.broadcast = b

theorem scheduled {s : Announcer} {b : Broadcast} (h : Keeps s.clock s.timers) (hcurrent : Current s b.id)
    (hforward : Forward s.clock.now b) : Scheduled s (saved b s) b := by
  have hcancel := h.cancel b.id
  have hself := pending_cancel_self hcurrent
  have hothers : ∀ j, j ≠ b.id → pending j (s.clock.clearTimeouts (s.timers b.id)) = pending j s.clock :=
    fun j hj => pending_cancel_of_ne h hj
  have hkept : ∀ t ∈ (s.clock.clearTimeouts (s.timers b.id)).armed,
      t ∈ s.clock.armed ∧ t.callback.broadcast.id ≠ b.id := by
    intro t ht
    obtain ⟨hmem, hnot⟩ := List.mem_filter.1 ht
    exact ⟨hmem, fun hid => of_decide_eq_true hnot (hcurrent t hmem hid)⟩
  have hcleared : (s.clock.clearTimeouts (s.timers b.id)).now = s.clock.now := rfl
  unfold saved scheduleAnnouncement
  simp only [cancelTimers, hcleared]
  generalize s.clock.clearTimeouts (s.timers b.id) = c at *
  split
  · rename_i hover
    have hstart : ¬ s.clock.now < b.startsAt := fun hstart => hforward ⟨hover, hstart⟩
    have hend : ¬ s.clock.now < b.endsAt := not_lt.2 hover
    refine ⟨hcleared, rfl, hcancel, ?_, ?_, hothers, fun t ht => .inl (hkept t ht)⟩
    · rw [if_neg fun hlive => hend hlive.2]
      exact (List.append_nil _).symm
    · rw [edges, if_neg fun hlive => hend hlive.2, if_neg hstart, if_neg hend]
      exact hself
  · rename_i hover
    have hend : s.clock.now < b.endsAt := not_le.1 hover
    split
    · rename_i hlive
      have hdelay : 0 ≤ b.endsAt - s.clock.now := Int.sub_nonneg_of_le hend.le
      have hsum : c.now + (b.endsAt - s.clock.now) = b.endsAt := by rw [hcleared, add_sub_cancel]
      have hstore := hcancel.store (b.endsAt - s.clock.now) b
      rw [update_self, List.nil_append] at hstore
      refine ⟨(armAt_now _ b c).1.trans hcleared, rfl, hstore, ?_, ?_, fun j hj => ?_, fun t ht => ?_⟩
      · rw [if_pos ⟨hlive, hend⟩]
        exact congrArg (fun now => s.emitted ++ [notice b now]) hcleared
      · rw [edges, if_pos ⟨hlive, hend⟩, if_neg (not_lt.2 hlive), if_pos hend]
        dsimp only [announce]
        rw [pending_armAt hdelay, hself, if_pos rfl, hsum]
      · dsimp only [announce]
        rw [pending_armAt hdelay, if_neg (Ne.symm hj), List.append_nil, hothers j hj]
      · exact (mem_armAt ht).imp_left (hkept t)
    · rename_i hstart
      have hahead : s.clock.now < b.startsAt := not_le.1 hstart
      have hdelay : 0 ≤ b.endsAt - s.clock.now := Int.sub_nonneg_of_le hend.le
      have hdelay' : 0 ≤ b.startsAt - s.clock.now := Int.sub_nonneg_of_le hahead.le
      have hsum : c.now + (b.endsAt - s.clock.now) = b.endsAt := by rw [hcleared, add_sub_cancel]
      have hsum' : c.now + (b.startsAt - s.clock.now) = b.startsAt := by rw [hcleared, add_sub_cancel]
      have hnow := armAt_now (b.startsAt - s.clock.now) b c
      have hstore := (hcancel.store (b.startsAt - s.clock.now) b).store (b.endsAt - s.clock.now) b
      rw [update_self, update_self, update_idem, List.nil_append] at hstore
      have hlive : ¬ (b.startsAt ≤ s.clock.now ∧ s.clock.now < b.endsAt) := fun hlive => hstart hlive.1
      refine ⟨(armAt_now _ b _).1.trans (hnow.1.trans hcleared), rfl, hstore, ?_, ?_, fun j hj => ?_, fun t ht => ?_⟩
      · rw [if_neg hlive]
        exact (List.append_nil _).symm
      · rw [edges, if_neg hlive, if_pos hahead, if_pos hend]
        dsimp only
        rw [pending_armAt hdelay, pending_armAt hdelay', hself, if_pos rfl, if_pos rfl, hnow.1, hsum, hsum']
        rfl
      · dsimp only
        rw [pending_armAt hdelay, pending_armAt hdelay', if_neg (Ne.symm hj), if_neg (Ne.symm hj), List.append_nil,
          List.append_nil, hothers j hj]
      · obtain ht | ht := mem_armAt ht
        · exact (mem_armAt ht).imp_left (hkept t)
        · exact .inr ht

/-! ### What holds of every broadcast -/

/-- A broadcast with what was announced for it since, and the timers that run for it. -/
inductive Stands (id : Uuid) (row : Option Broadcast) (c : Clock Callback) (heard : List Announcement) : Latest → Prop
  | never : heard = [] → pending id c = [] → Stands id row c heard .never
  | saved {savedAt : Instant} {b : Broadcast} : row ≠ none → b.id = id →
    (∀ t ∈ c.armed, t.callback.broadcast.id = id → t.callback.broadcast = b) →
    (∀ a ∈ heard, a = notice b a.emittedAt) →
    (heard.map Announcement.emittedAt ++ pending id c).Perm (edges savedAt b) → Stands id row c heard (.saved savedAt b)
  | removed {tenantId : Uuid} {removedAt : Instant} : heard = [⟨tenantId, id, .removed, removedAt⟩] →
    pending id c = [] → Stands id row c heard (.removed tenantId removedAt)

structure Inv (w : Watched) : Prop where
  keeps : Keeps w.service.clock w.service.timers
  stands : ∀ id, Stands id (w.service.rows id) w.service.clock (w.heard id) (w.latest id)

theorem Inv.announced {w : Watched} (h : Inv w) (id : Uuid) : Announced w id := by
  have hstands := h.stands id
  unfold Announced
  cases hlatest : w.latest id with
  | never =>
    rw [hlatest] at hstands
    cases hstands with
    | never hheard => exact hheard
  | saved savedAt b =>
    rw [hlatest] at hstands
    cases hstands with
    | saved _ _ _ hheard hperm =>
      exact ⟨hheard, _, fun t ht => h.keeps.sound.le_targets h.keeps.rest t ht, hperm⟩
  | removed tenantId removedAt =>
    rw [hlatest] at hstands
    cases hstands with
    | removed hheard => exact hheard

section

variable {id : Uuid} {row : Option Broadcast} {c c' : Clock Callback} {heard : List Announcement} {latest : Latest}

theorem Stands.frame (h : Stands id row c heard latest) (hpending : (pending id c').Perm (pending id c))
    (harmed : ∀ t ∈ c'.armed, t.callback.broadcast.id = id →
      ∃ t' ∈ c.armed, t'.callback.broadcast = t.callback.broadcast) :
    Stands id row c' heard latest := by
  cases h with
  | never hheard hnil =>
    rw [hnil] at hpending
    exact .never hheard hpending.eq_nil
  | saved hrow hid hmine hheard hperm =>
    refine .saved hrow hid (fun t ht hfor => ?_) hheard ((hpending.append_left _).trans hperm)
    obtain ⟨t', ht', hsame⟩ := harmed t ht hfor
    rw [← hsame]
    exact hmine t' ht' (by rw [hsame, hfor])
  | removed hheard hnil =>
    rw [hnil] at hpending
    exact .removed hheard hpending.eq_nil

theorem Stands.announce {b : Broadcast} (h : Stands b.id row c heard latest) {now : Instant}
    (hpending : (pending b.id c).Perm (now :: pending b.id c')) {t : Timer Callback} (ht : t ∈ c.armed)
    (hk : t.callback = .announce b) (harmed : ∀ t ∈ c'.armed, t ∈ c.armed) :
    Stands b.id row c' (heard ++ [notice b now]) latest := by
  cases h with
  | never _ hnil =>
    rw [hnil] at hpending
    cases hpending.nil_eq
  | @saved savedAt b₁ hrow hid hmine hheard hperm =>
    have hsame : b = b₁ := by
      have hb := hmine t ht (by rw [hk]; rfl)
      rwa [hk] at hb
    subst hsame
    refine .saved hrow rfl (fun t' ht' => hmine t' (harmed t' ht')) (fun a ha => ?_) ?_
    · obtain ha | ha := List.mem_append.1 ha
      · exact hheard a ha
      · obtain rfl := List.mem_singleton.1 ha
        rfl
    · rw [List.map_append, List.append_assoc]
      exact (hpending.symm.append_left _).trans hperm
  | removed _ hnil =>
    rw [hnil] at hpending
    cases hpending.nil_eq

theorem Stands.current (h : Stands id none c heard latest) : ∀ t ∈ c.armed, t.callback.broadcast.id ≠ id := by
  have hnil : pending id c = [] := by
    cases h with
    | never _ hnil => exact hnil
    | saved hrow => exact absurd rfl hrow
    | removed _ hnil => exact hnil
  intro t ht
  exact of_decide_eq_false (Clock.targets_eq_nil.1 hnil t ht)

end

theorem news_append {s s' : Announcer} {l : List Announcement} (h : s'.emitted = s.emitted ++ l) (id : Uuid) :
    news s s' id = l.filter fun a => decide (a.broadcastId = id) := by
  rw [news, h, List.drop_left]

section

attribute [local grind =] watch touched step create update remove

variable {lower : String → String} {w : Watched}

/-- **A save keeps the invariant.** -/
theorem inv_saved (h : Inv w) {b : Broadcast} (hcurrent : Current w.service b.id)
    (hforward : Forward w.service.clock.now b) : Inv
      { service := saved b w.service
        latest := Function.update w.latest b.id (.saved w.service.clock.now b)
        heard := fun j => if j = b.id then news w.service (saved b w.service) j
          else w.heard j ++ news w.service (saved b w.service) j } := by
  have hsched := scheduled h.keeps hcurrent hforward
  have hnews := news_append hsched.mine
  refine ⟨hsched.keeps, fun j => ?_⟩
  dsimp only
  rw [hnews]
  by_cases hj : j = b.id
  · subst hj
    rw [if_pos rfl, update_self, hsched.rows, update_self]
    refine .saved (by simp) rfl (fun t ht hfor => ?_) (fun a ha => ?_) ?_
    · obtain ⟨-, hother⟩ | hmine := hsched.armed t ht
      · exact absurd hfor hother
      · exact hmine
    · have hmem := (List.mem_filter.1 ha).1
      split at hmem
      · obtain rfl := List.mem_singleton.1 hmem
        rfl
      · cases hmem
    · rw [← hsched.toCome]
      split
      · simp [notice]
      · simp
  · have hnone : (if b.startsAt ≤ w.service.clock.now ∧ w.service.clock.now < b.endsAt then
        [notice b w.service.clock.now] else []).filter (fun a => decide (a.broadcastId = j)) = [] := by
      split
      · rw [List.filter_cons_of_neg, List.filter_nil]
        rw [decide_eq_true_eq]
        exact Ne.symm hj
      · rfl
    rw [if_neg hj, update_of_ne hj, hsched.rows, update_of_ne hj, hnone, List.append_nil]
    refine (h.stands j).frame (by rw [hsched.others j hj]) fun t ht hfor => ?_
    obtain ⟨hmem, -⟩ | hmine := hsched.armed t ht
    · exact ⟨t, hmem, rfl⟩
    · exact absurd (hfor.symm.trans (congrArg Broadcast.id hmine)) hj

theorem inv_quiet (h : Inv w) {service : Announcer} (hkeeps : Keeps service.clock service.timers)
    (hrows : service.rows = w.service.rows) (hemitted : service.emitted = w.service.emitted)
    (hpending : ∀ id, (pending id service.clock).Perm (pending id w.service.clock))
    (harmed : ∀ t ∈ service.clock.armed, ∃ t' ∈ w.service.clock.armed, t'.callback.broadcast = t.callback.broadcast) :
    Inv { w with service := service, heard := fun j => w.heard j ++ news w.service service j } := by
  refine ⟨hkeeps, fun j => ?_⟩
  have hnews : news w.service service j = [] := by rw [news, hemitted, List.drop_length, List.filter_nil]
  dsimp only
  rw [hnews, List.append_nil, hrows]
  exact (h.stands j).frame (hpending j) fun t ht _ => harmed t ht

theorem inv_same (h : Inv w) :
    Inv { w with service := w.service, heard := fun j => w.heard j ++ news w.service w.service j } :=
  inv_quiet h h.keeps rfl rfl (fun _ => List.Perm.refl _) fun t ht => ⟨t, ht, rfl⟩

theorem inv_create (h : Inv w) {id tenantId : Uuid} {input : BroadcastInput}
    (hproper : Proper lower w (.create id tenantId input)) : Inv (watch lower w (.create id tenantId input)) := by
  by_cases hrow : w.service.rows id = none
  · have hcurrent : Current w.service id := by
      intro t ht hfor
      have hstands := h.stands id
      rw [hrow] at hstands
      exact absurd hfor (hstands.current t ht)
    have hsaved := inv_saved h (b := normalise lower id tenantId input w.service.clock.now) hcurrent hproper
    simp only [watch, touched, step, create, if_pos hrow]
    exact hsaved
  · simp only [watch, touched, step, create, if_neg hrow]
    exact inv_same h

theorem inv_update (h : Inv w) {id tenantId : Uuid} {input : BroadcastInput}
    (hproper : Proper lower w (.update id tenantId input)) : Inv (watch lower w (.update id tenantId input)) := by
  cases hfound : findOne id tenantId w.service with
  | none =>
    simp only [watch, touched, step, update, hfound, Option.map_none]
    exact inv_same h
  | some b₀ =>
    obtain ⟨hcurrent, hforward⟩ := hproper (by rw [hfound]; rfl)
    have hsaved := inv_saved h (b := normalise lower id tenantId input w.service.clock.now) hcurrent hforward
    simp only [watch, touched, step, update, hfound, Option.map_some]
    exact hsaved

theorem inv_remove (h : Inv w) {id tenantId : Uuid} (hproper : Proper lower w (.remove id tenantId)) :
    Inv (watch lower w (.remove id tenantId)) := by
  cases hfound : findOne id tenantId w.service with
  | none =>
    simp only [watch, touched, step, remove, hfound, Option.map_none]
    exact inv_same h
  | some b₀ =>
    have hcurrent := hproper (by rw [hfound]; rfl)
    simp only [watch, touched, step, remove, hfound, Option.map_some, cancelTimers]
    refine ⟨h.keeps.cancel id, fun j => ?_⟩
    dsimp only
    rw [news_append rfl]
    by_cases hj : j = id
    · subst hj
      rw [if_pos rfl, update_self, update_self]
      refine .removed ?_ (pending_cancel_self hcurrent)
      rw [List.filter_cons_of_pos (by rw [decide_eq_true_eq]), List.filter_nil]
      rfl
    · rw [if_neg hj, update_of_ne hj, update_of_ne hj, List.filter_cons_of_neg, List.filter_nil,
        List.append_nil]
      · refine (h.stands j).frame (by rw [pending_cancel_of_ne h.keeps hj]) fun t ht _ => ?_
        exact ⟨t, (List.mem_filter.1 ht).1, rfl⟩
      · rw [decide_eq_true_eq]
        exact Ne.symm hj

/-- A timer fires: it is the one of the broadcast that is announced, or the next one of the chain is armed. -/
theorem inv_fire (h : Inv w) (handle : ℕ) : Inv (watch lower w (.fire handle)) := by
  simp only [watch, touched, step, fire]
  cases hfire : w.service.clock.fire? handle with
  | none => exact inv_same h
  | some x =>
    obtain ⟨k, c'⟩ := x
    obtain ⟨hsound, t, ht, hdue, hk, hc'⟩ := h.keeps.sound.fire? hfire
    have hmem : ∀ t' ∈ c'.armed, t' ∈ w.service.clock.armed := by
      rw [hc']
      exact fun t' ht' => (List.mem_filter.1 ht').1
    have hkeeps : Keeps c' w.service.timers := by
      refine ⟨hsound, fun t' ht' => h.keeps.rest t' (hmem t' ht'), ?_, fun i n hn t' ht' =>
        h.keeps.owned i n hn t' (hmem t' ht')⟩
      rw [hc']
      exact h.keeps.known
    have hperm : ∀ j, (pending j w.service.clock).Perm
        ((if k.broadcast.id = j then [w.service.clock.now + k.rest] else []) ++ pending j c') := by
      intro j
      have hsplit : (pending j w.service.clock).Perm _ := h.keeps.sound.targets_fire ht
      rw [hk, hdue, ← hc'] at hsplit
      simpa only [Callback.isFor, decide_eq_true_eq, pending] using hsplit
    have hnow : c'.now = w.service.clock.now := by rw [hc']
    cases k with
    | announce b =>
      refine ⟨hkeeps, fun j => ?_⟩
      dsimp only [announce]
      rw [news_append rfl, hnow]
      have hpending : (pending j w.service.clock).Perm
          ((if b.id = j then [w.service.clock.now + 0] else []) ++ pending j c') := hperm j
      by_cases hj : b.id = j
      · subst hj
        rw [if_pos rfl] at hpending
        rw [List.filter_cons_of_pos (by rw [decide_eq_true_eq]; rfl), List.filter_nil]
        refine (h.stands b.id).announce ?_ ht hk hmem
        simpa using hpending
      · rw [if_neg hj, List.nil_append] at hpending
        rw [List.filter_cons_of_neg (by rw [decide_eq_true_eq]; exact hj), List.filter_nil, List.append_nil]
        exact (h.stands j).frame hpending.symm fun t ht _ => ⟨t, hmem t ht, rfl⟩
    | rearm delay b =>
      have hdelay : 0 ≤ delay := by
        have hrest := h.keeps.rest t ht
        rwa [hk] at hrest
      refine inv_quiet h (hkeeps.arm delay b) rfl rfl (fun j => ?_) fun t' ht' => ?_
      · refine List.Perm.trans ?_ (hperm j).symm
        dsimp only
        rw [pending_armAt hdelay, hnow]
        exact List.perm_append_comm
      · obtain ht' | ht' := mem_armAt ht'
        · exact ⟨t', hmem t' ht', rfl⟩
        · exact ⟨t, ht, by rw [ht', hk]; rfl⟩

theorem inv_wait (h : Inv w) (d : ℕ) : Inv (watch lower w (.wait d)) := by
  obtain ⟨harmed, hnext⟩ := Clock.wait_armed w.service.clock d
  have hkeeps : Keeps (w.service.clock.wait d) w.service.timers := by
    refine ⟨h.keeps.sound.wait d, ?_, ?_, ?_⟩
    · rw [harmed]
      exact h.keeps.rest
    · rw [hnext]
      exact h.keeps.known
    · rw [harmed]
      exact h.keeps.owned
  have hpending : ∀ j, pending j (w.service.clock.wait d) = pending j w.service.clock := by
    intro j
    rw [pending, Clock.targets, harmed]
    rfl
  refine inv_quiet h hkeeps rfl rfl (fun j => List.Perm.of_eq (hpending j)) fun t ht => ?_
  have hmem : t ∈ (w.service.clock.wait d).armed := ht
  rw [harmed] at hmem
  exact ⟨t, hmem, rfl⟩

end

/-- **Announcements in time.** In every run in which windows run forward and no broadcast is saved again or removed
while a timer runs for it that another timer has armed, the announcements of every broadcast follow its window. -/
theorem announced_in_time (lower : String → String) (now : Instant) (es : List Event)
    (h : AllSteps (watch lower) (Proper lower) { service := { clock := { now := now } } } es) (id : Uuid) :
    Announced (run (watch lower) { service := { clock := { now := now } } } es) id := by
  have hstart : Inv { service := { clock := { now := now } } } :=
    ⟨⟨Clock.sound_empty now, nofun, nofun, nofun⟩, fun _ => .never rfl rfl⟩
  refine (run_invariant (I := Inv) (fun w e hw hproper => ?_) hstart h).announced id
  cases e with
  | create id tenantId input => exact inv_create hw hproper
  | update id tenantId input => exact inv_update hw hproper
  | remove id tenantId => exact inv_remove hw hproper
  | fire handle => exact inv_fire hw handle
  | wait d => exact inv_wait hw d

/-! ### A window more than a day ahead -/

def day : ℕ := 24 * 3600 * 1000

def created : Event := .create "b" "t" { startsAt := some (day + 10), endsAt := some (day + 20) }

def postponed : Event := .update "b" "t" { startsAt := some (3 * day), endsAt := some (4 * day) }

def patient : List Event :=
  [created, .wait day, .fire 0, .fire 1, .wait 10, .fire 2, .wait 10, .fire 3, postponed]

theorem announced_in_time_patient :
    Announced (run (watch id) { service := { clock := { now := 0 } } } patient) "b" ∧
    (run (watch id) { service := { clock := { now := 0 } } } (patient.take 8)).heard "b" =
      [notice ⟨"b", "t", "info", "", day + 10, day + 20⟩ (day + 10),
        notice ⟨"b", "t", "info", "", day + 10, day + 20⟩ (day + 20)] := by
  refine ⟨announced_in_time id 0 patient ⟨?_, trivial, trivial, trivial, trivial, trivial, trivial, trivial, ?_,
    trivial⟩ "b", by decide +kernel⟩
  · unfold Proper created Forward
    decide +kernel
  · unfold Proper postponed Current Forward
    decide +kernel

def hasty : List Event := [created, .wait day, .fire 0, .fire 1, postponed, .wait 10, .fire 2]

/-- The broadcast is announced when the window opens that was replaced. -/
theorem old_edge_announced : ¬ Announced (run (watch id) { service := { clock := { now := 0 } } } hasty) "b" := by
  have hlatest : (run (watch id) { service := { clock := { now := 0 } } } hasty).latest "b" =
      .saved day ⟨"b", "t", "info", "", 3 * day, 4 * day⟩ := by
    rfl
  intro h
  unfold Announced at h
  rw [hlatest] at h
  obtain ⟨-, toCome, -, hperm⟩ := h
  have hheard : ((run (watch id) { service := { clock := { now := 0 } } } hasty).heard "b").map
      Announcement.emittedAt = [(day : ℤ) + 10] := by decide +kernel
  have hedge := hperm.mem_iff.1 (List.mem_append_left _ (by rw [hheard]; exact List.mem_singleton_self _))
  revert hedge
  decide +kernel

end BookingSystem.Runs.BroadcastWindows
