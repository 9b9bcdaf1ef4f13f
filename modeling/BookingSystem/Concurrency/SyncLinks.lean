import BookingSystem.Concurrency.SyncSteps
import Mathlib.Data.Set.Insert

/-!
# Records and events of the calendar sync

What the calendars are taken to do, and what one delivery keeps of them as long as no other one interferes: the events
of a booking in a calendar are at most the one that its record names. After a delivery that withdraws the booking there
is none (`OutlookAt.step`, `GoogleAt.step`).
-/

namespace BookingSystem.Concurrency.CalendarSync

open Base Model Model.SyncOutboxService Effects

/-! ### The calendars -/

/-- The mailboxes behind Graph, as far as one booking is concerned: every call succeeds, except that an event that is
not there cannot be patched. `live` is the set of its events, each with its mailbox and its id. -/
structure GraphProvider (σ : Type) where
  call : Remote σ GraphCall
  live : σ → Set (String × String)
  token : ∀ a i k w, (∃ r, (call (.token a i k) w).2 = .ok r) ∧ live (call (.token a i k) w).1 = live w
  post : ∀ m e w, ∃ r, (call (.post m e) w).2 = .ok r ∧ r.id ≠ "" ∧
    live (call (.post m e) w).1 = insert (m, r.id) (live w)
  patch_live : ∀ m i e w, (m, i) ∈ live w →
    (∃ r, (call (.patch m i e) w).2 = .ok r) ∧ live (call (.patch m i e) w).1 = live w
  patch_gone : ∀ m i e w, (m, i) ∉ live w →
    (∃ err, (call (.patch m i e) w).2 = .error err ∧ GraphService.gone err = true) ∧
      live (call (.patch m i e) w).1 = live w
  delete : ∀ m i w, live (call (.delete m i) w).1 = live w \ {(m, i)}

/-- The calendars of Google. An event that is struck through is not live. -/
structure GoogleProvider (τ : Type) where
  call : Remote τ GoogleCall
  live : τ → Set (String × String)
  insert : ∀ c body v, ∃ r, (call (.insert c body) v).2 = .ok r ∧ r.id ≠ "" ∧
    live (call (.insert c body) v).1 = if body.cancelled then live v else Insert.insert (c, r.id) (live v)
  patch : ∀ c i body v, live (call (.patch c i body) v).1 ⊆ Insert.insert (c, i) (live v)
  cancel : ∀ c i v, live (call (.cancel c i) v).1 = live v \ {(c, i)}

/-! ### What a delivery keeps -/

section Links

variable {σ τ : Type} (G : GraphProvider σ) (C : GoogleProvider τ) (s : SyncSettings) (T B : Uuid)

/-- The Outlook integration is on. -/
def OutlookOn : Prop := ∃ c, getDecrypted s.reveal (s.microsoft T) = .ok (some c)

/-- The Google integration is on. -/
def GoogleOn : Prop := ∃ c, getDecrypted s.reveal (s.google T) = .ok (some c) ∧ c.clientSecret ≠ ""

/-- The events of the booking in Outlook: at most the one of its record. -/
structure OutlookLink (d : Calendars σ τ) : Prop where
  recorded : ∀ rec, d.db.outlook.find? B = some rec →
    rec.graphId ≠ "" ∧ G.live d.graph ⊆ {(rec.mailboxUPN, rec.graphId)}
  unrecorded : d.db.outlook.find? B = none → G.live d.graph = ∅
  off : ¬ OutlookOn s T → G.live d.graph = ∅

/-- The events of the booking at Google: at most the one of its record. -/
structure GoogleLink (d : Calendars σ τ) : Prop where
  recorded : ∀ rec, d.db.google.find? B = some rec →
    rec.calendarId = s.targetCalendarId ∧ C.live d.google ⊆ {(rec.calendarId, rec.eventId)}
  unrecorded : d.db.google.find? B = none → C.live d.google = ∅
  off : ¬ GoogleOn s T → C.live d.google = ∅

/-- An upsert that has read the record of its mailbox. -/
structure Upserting (ev : BookingEvent) (b : Booking) (m : String) (existing : Option OutlookSyncRecord)
    (d : Calendars σ τ) : Prop where
  on : OutlookOn s T
  pushes : ev.pushes = true
  id : b.id = B
  read : existing = d.db.outlook.find? B
  mailbox : ∀ rec, existing = some rec → rec.mailboxUPN = m

def Phase.outlookDone : Phase → Option (Except String Unit)
  | .google o | .googleRecord o _ | .googleCall o _ _ | .googleBack o _ | .googleCancel o _ | .settled o _ => some o
  | _ => none

def JobAt (ev : BookingEvent) (d : Calendars σ τ) : GraphJob → Prop
  | .upsert b m existing _ => Upserting s T B ev b m existing d
  | .cancel rec => ev.pushes = false ∧ d.db.outlook.find? B = some rec

/-- What holds in Outlook at each phase of a delivery. -/
def OutlookAt (ev : BookingEvent) (d : Calendars σ τ) : Phase → Prop
  | .outlook => OutlookLink G s T B d
  | .outlookRecord _ b _ _ => OutlookLink G s T B d ∧ OutlookOn s T ∧ ev.pushes = true ∧ b.id = B
  | .outlookToken _ job | .outlookCall job => OutlookLink G s T B d ∧ JobAt s T B ev d job
  | .outlookPost b m existing _ => Upserting s T B ev b m existing d ∧ G.live d.graph = ∅
  | .outlookBack b m existing reply =>
    Upserting s T B ev b m existing d ∧ reply.id ≠ "" ∧ G.live d.graph ⊆ {(m, reply.id)}
  | .outlookDrop rec => ev.pushes = false ∧ d.db.outlook.find? B = some rec ∧ G.live d.graph = ∅
  | .google o | .googleRecord o _ | .googleCall o _ _ | .googleBack o _ | .googleCancel o _ | .settled o _ =>
    OutlookLink G s T B d ∧ (ev.withdraws = true → o = .ok () → G.live d.graph = ∅)

/-- What holds at Google at each phase of a delivery. -/
def GoogleAt (ev : BookingEvent) (d : Calendars σ τ) : Phase → Prop
  | .googleRecord _ _ => GoogleLink C s T B d ∧ GoogleOn s T ∧ ev.pushes = true
  | .googleCall _ _ existing =>
    GoogleLink C s T B d ∧ GoogleOn s T ∧ ev.pushes = true ∧ existing = d.db.google.find? B
  | .googleBack _ reply =>
    d.db.google.find? B = none ∧ GoogleOn s T ∧ ev.pushes = true ∧ reply.id ≠ "" ∧
      C.live d.google ⊆ {(s.targetCalendarId, reply.id)}
  | .googleCancel _ rec => GoogleLink C s T B d ∧ d.db.google.find? B = some rec
  | .settled _ g => GoogleLink C s T B d ∧ (ev.withdraws = true → g = .ok () → C.live d.google = ∅)
  | _ => GoogleLink C s T B d

end Links

/-! ### One statement -/

section Statement

variable {σ τ : Type} {G : GraphProvider σ} {C : GoogleProvider τ} {s : SyncSettings} {T B newId : Uuid}
  {existing : Option OutlookSyncRecord} {b : Booking} {m : String} {ev : BookingEvent} {d d' : Calendars σ τ}
  {ph : Phase}

theorem GraphProvider.token_ok (G : GraphProvider σ) (cached : Bool) (c : Credential) (w : σ) :
    ∃ w' r, GraphService.token G.call cached c w = (w', .ok r) ∧ G.live w' = G.live w := by
  unfold GraphService.token
  split
  · exact ⟨w, {}, rfl, rfl⟩
  · obtain ⟨⟨r, hr⟩, hlive⟩ := G.token c.azureTenantID c.clientID c.clientSecret w
    exact ⟨_, r, Prod.ext rfl hr, hlive⟩

theorem id_of_readBooking {event : GraphEvent} (h : OutlookSyncService.readBooking s d.db B = some (b, m, event)) :
    b.id = B := by
  simp only [OutlookSyncService.readBooking, Option.bind_eq_bind, Option.bind_eq_some_iff] at h
  obtain ⟨b', hb', mailbox, -, h⟩ := h
  split at h
  · cases h
    exact Table.key_of_find? hb'
  · cases h

theorem find?_drop {rec : OutlookSyncRecord} {t : Table OutlookSyncRecord} {k : Uuid} (h : t.find? k = some rec) :
    (OutlookSyncService.drop rec.id t).find? k = none := by
  rw [Table.find?_eq_none_iff]
  intro r hr hk
  obtain ⟨hmem, hne⟩ := List.mem_filter.1 hr
  have hrec : r = rec := Option.some.inj ((Table.find?_eq_some_iff.2 ⟨hmem, hk⟩).symm.trans h)
  rw [hrec, bne_self_eq_false] at hne
  cases hne

theorem OutlookLink.congr (h : OutlookLink G s T B d) (hdb : d'.db.outlook = d.db.outlook)
    (hgraph : G.live d'.graph = G.live d.graph) : OutlookLink G s T B d' := by
  constructor
  · rw [hdb, hgraph]
    exact h.recorded
  · rw [hdb, hgraph]
    exact h.unrecorded
  · rw [hgraph]
    exact h.off

theorem GoogleLink.congr (h : GoogleLink C s T B d) (hdb : d'.db.google = d.db.google)
    (hgoogle : C.live d'.google = C.live d.google) : GoogleLink C s T B d' := by
  constructor
  · rw [hdb, hgoogle]
    exact h.recorded
  · rw [hdb, hgoogle]
    exact h.unrecorded
  · rw [hgoogle]
    exact h.off

theorem Upserting.congr (h : Upserting s T B ev b m existing d) (hdb : d'.db.outlook = d.db.outlook) :
    Upserting s T B ev b m existing d' := by
  refine ⟨h.on, h.pushes, h.id, ?_, h.mailbox⟩
  rw [hdb]
  exact h.read

theorem OutlookAt.congr (h : OutlookAt G s T B ev d ph) (hdb : d'.db.outlook = d.db.outlook)
    (hgraph : d'.graph = d.graph) : OutlookAt G s T B ev d' ph := by
  have hlive : G.live d'.graph = G.live d.graph := congrArg G.live hgraph
  have hjob : ∀ {job}, JobAt s T B ev d job → JobAt s T B ev d' job := by
    intro job hjob
    cases job with
    | upsert b m existing event => exact Upserting.congr hjob hdb
    | cancel rec => exact ⟨hjob.1, hdb ▸ hjob.2⟩
  cases ph with
  | outlook => exact OutlookLink.congr h hdb hlive
  | outlookRecord c b m event => exact ⟨h.1.congr hdb hlive, h.2⟩
  | outlookToken c job => exact ⟨h.1.congr hdb hlive, hjob h.2⟩
  | outlookCall job => exact ⟨h.1.congr hdb hlive, hjob h.2⟩
  | outlookPost b m existing event => exact ⟨h.1.congr hdb, hlive.trans h.2⟩
  | outlookBack b m existing reply => exact ⟨h.1.congr hdb, h.2.1, hlive.subset.trans h.2.2⟩
  | outlookDrop rec => exact ⟨h.1, hdb ▸ h.2.1, hlive.trans h.2.2⟩
  | _ => exact ⟨h.1.congr hdb hlive, fun hw ho => hlive.trans (h.2 hw ho)⟩

theorem GoogleAt.congr (h : GoogleAt C s T B ev d ph) (hdb : d'.db.google = d.db.google)
    (hgoogle : d'.google = d.google) : GoogleAt C s T B ev d' ph := by
  have hlive : C.live d'.google = C.live d.google := congrArg C.live hgoogle
  cases ph with
  | googleRecord o b => exact ⟨h.1.congr hdb hlive, h.2⟩
  | googleCall o b existing => exact ⟨h.1.congr hdb hlive, h.2.1, h.2.2.1, hdb ▸ h.2.2.2⟩
  | googleBack o reply => exact ⟨hdb ▸ h.1, h.2.1, h.2.2.1, h.2.2.2.1, hlive.subset.trans h.2.2.2.2⟩
  | googleCancel o rec => exact ⟨h.1.congr hdb hlive, hdb ▸ h.2⟩
  | settled o g => exact ⟨h.1.congr hdb hlive, fun hw hg => hlive.trans (h.2 hw hg)⟩
  | _ => exact GoogleLink.congr h hdb hlive

theorem Upserting.link {reply : Reply} (h : Upserting s T B ev b m existing d) (hid : reply.id ≠ "")
    (hlive : G.live d.graph ⊆ {(m, reply.id)}) : OutlookLink G s T B { d with db := { d.db with
      outlook := OutlookSyncService.writeBack newId b m existing reply d.db.outlook } } := by
  have hstored : ∃ rec, (OutlookSyncService.writeBack newId b m existing reply d.db.outlook).find? B = some rec ∧
      rec.mailboxUPN = m ∧ rec.graphId = reply.id := by
    unfold OutlookSyncService.writeBack
    cases hex : existing with
    | some rec =>
      have hfind : d.db.outlook.find? B = some rec := h.read.symm.trans hex
      refine ⟨{ rec with graphId := reply.id }, ?_, h.mailbox rec hex, rfl⟩
      dsimp only
      rw [Table.find?_update, hfind]
      simp
    | none =>
      have hfind : d.db.outlook.find? b.id = none := by
        rw [h.id]
        exact h.read.symm.trans hex
      obtain ⟨t, ht⟩ := Table.insert?_of_find?
        (show d.db.outlook.find? (key (OutlookSyncRecord.mk newId b.id b.tenantId m reply.id (reply.iCalUId.getD ""))) =
          none from hfind)
      refine ⟨⟨newId, b.id, b.tenantId, m, reply.id, reply.iCalUId.getD ""⟩, ?_, rfl, rfl⟩
      dsimp only
      rw [ht, Option.getD_some, Table.find?_insert? ht, if_pos]
      exact h.id
  obtain ⟨rec, hrec, hm, hgraph⟩ := hstored
  constructor
  · intro rec' hrec'
    obtain rfl := Option.some.inj (hrec.symm.trans hrec')
    rw [hm, hgraph]
    exact ⟨hid, hlive⟩
  · intro hnone
    rw [hrec] at hnone
    cases hnone
  · intro hoff
    exact absurd h.on hoff

theorem next_of_outlookDone {o : Except String Unit} (h : ph.outlookDone = some o) :
    (next G.call C.call s newId ⟨T, B, ev⟩ ph d).1.outlookDone = some o ∧
      (next G.call C.call s newId ⟨T, B, ev⟩ ph d).2.db.outlook = d.db.outlook ∧
      (next G.call C.call s newId ⟨T, B, ev⟩ ph d).2.graph = d.graph := by
  cases ph with
  | google o' =>
    simp only [next]
    rcases getDecrypted s.reveal (s.google T) with e | _ | c
    · exact ⟨h, rfl, rfl⟩
    · exact ⟨h, rfl, rfl⟩
    · dsimp only
      repeat' split
      all_goals exact ⟨h, rfl, rfl⟩
  | googleRecord o' b => exact ⟨h, rfl, rfl⟩
  | googleCall o' b existing =>
    cases existing with
    | some rec => exact ⟨h, rfl, rfl⟩
    | none =>
      simp only [next]
      split <;> exact ⟨h, rfl, rfl⟩
  | googleBack o' reply => exact ⟨h, rfl, rfl⟩
  | googleCancel o' rec => exact ⟨h, rfl, rfl⟩
  | settled o' g => exact ⟨h, rfl, rfl⟩
  | _ => cases h

/-- The Outlook half leaves Google alone. -/
theorem next_of_outlook (h : ph.outlookDone = none) :
    ((next G.call C.call s newId ⟨T, B, ev⟩ ph d).1.outlookDone = none ∨
        ∃ o, (next G.call C.call s newId ⟨T, B, ev⟩ ph d).1 = .google o) ∧
      (next G.call C.call s newId ⟨T, B, ev⟩ ph d).2.db.google = d.db.google ∧
      (next G.call C.call s newId ⟨T, B, ev⟩ ph d).2.google = d.google := by
  cases ph with
  | outlook =>
    simp only [next]
    rcases getDecrypted s.reveal (s.microsoft T) with e | _ | c
    · exact ⟨.inr ⟨_, rfl⟩, rfl, rfl⟩
    · exact ⟨.inr ⟨_, rfl⟩, rfl, rfl⟩
    · dsimp only
      repeat' split
      all_goals first
        | exact ⟨.inl rfl, rfl, rfl⟩
        | exact ⟨.inr ⟨_, rfl⟩, rfl, rfl⟩
  | outlookRecord c b m event => exact ⟨.inl rfl, rfl, rfl⟩
  | outlookToken c job =>
    simp only [next]
    rcases GraphService.token G.call s.tokenCached c d.graph with ⟨w, e | r⟩
    · cases job with
      | upsert b m existing event => exact ⟨.inr ⟨_, rfl⟩, rfl, rfl⟩
      | cancel rec => exact ⟨.inl rfl, rfl, rfl⟩
    · exact ⟨.inl rfl, rfl, rfl⟩
  | outlookCall job =>
    cases job with
    | upsert b m existing event =>
      simp only [next]
      repeat' split
      all_goals first
        | exact ⟨.inl rfl, rfl, rfl⟩
        | exact ⟨.inr ⟨_, rfl⟩, rfl, rfl⟩
    | cancel rec => exact ⟨.inl rfl, rfl, rfl⟩
  | outlookPost b m existing event =>
    simp only [next]
    split
    · exact ⟨.inl rfl, rfl, rfl⟩
    · exact ⟨.inr ⟨_, rfl⟩, rfl, rfl⟩
  | outlookBack b m existing reply => exact ⟨.inr ⟨_, rfl⟩, rfl, rfl⟩
  | outlookDrop rec => exact ⟨.inr ⟨_, rfl⟩, rfl, rfl⟩
  | _ => cases h

theorem outlookAt_done {o : Except String Unit} (h : ph.outlookDone = some o) :
    OutlookAt G s T B ev d ph ↔
      OutlookLink G s T B d ∧ (ev.withdraws = true → o = .ok () → G.live d.graph = ∅) := by
  cases ph <;> cases h <;> rfl

theorem googleAt_outlook (h : ph.outlookDone = none ∨ ∃ o, ph = .google o) :
    GoogleAt C s T B ev d ph ↔ GoogleLink C s T B d := by
  rcases h with h | ⟨o, rfl⟩
  · cases ph <;> first | rfl | cases h
  · rfl

theorem outlookAt_first (h : OutlookLink G s T B d) :
    OutlookAt G s T B ev (next G.call C.call s newId ⟨T, B, ev⟩ .outlook d).2
      (next G.call C.call s newId ⟨T, B, ev⟩ .outlook d).1 := by
  simp only [next]
  rcases hc : getDecrypted s.reveal (s.microsoft T) with e | _ | c
  · exact ⟨h, fun _ hok => by cases hok⟩
  · refine ⟨h, fun _ _ => h.off ?_⟩
    rintro ⟨c, hc'⟩
    rw [hc] at hc'
    cases hc'
  · dsimp only
    split
    · rename_i hp
      cases hread : OutlookSyncService.readBooking s d.db B with
      | none => exact ⟨h, fun hw => absurd hw (by simp [not_withdraws_of_pushes hp])⟩
      | some x => exact ⟨h, ⟨c, hc⟩, hp, id_of_readBooking hread⟩
    · rename_i hp
      split
      · cases hrec : d.db.outlook.find? B with
        | none => exact ⟨h, fun _ _ => h.unrecorded hrec⟩
        | some rec => exact ⟨h, Bool.eq_false_of_not_eq_true hp, hrec⟩
      · rename_i hw
        exact ⟨h, fun hw' => absurd hw' hw⟩

theorem outlookAt_call {event : GraphEvent} (hlink : OutlookLink G s T B d) (hup : Upserting s T B ev b m existing d) :
    OutlookAt G s T B ev (next G.call C.call s newId ⟨T, B, ev⟩ (.outlookCall (.upsert b m existing event)) d).2
      (next G.call C.call s newId ⟨T, B, ev⟩ (.outlookCall (.upsert b m existing event)) d).1 := by
  cases hex : existing with
  | none =>
    subst hex
    exact ⟨hup, hlink.unrecorded hup.read.symm⟩
  | some rec =>
    subst hex
    obtain ⟨hid, hsub⟩ := hlink.recorded rec hup.read.symm
    have hexisting : OutlookSyncService.existingId (some rec) = some rec.graphId := by
      simp [OutlookSyncService.existingId, hid]
    have hm : rec.mailboxUPN = m := hup.mailbox rec rfl
    rw [hm] at hsub
    simp only [next, hexisting]
    by_cases hlive : (m, rec.graphId) ∈ G.live d.graph
    · obtain ⟨⟨r, hr⟩, hsame⟩ := G.patch_live m rec.graphId event d.graph hlive
      rcases hcall : G.call (.patch m rec.graphId event) d.graph with ⟨w, result⟩
      rw [hcall] at hr hsame
      obtain rfl : result = .ok r := hr
      dsimp only
      refine ⟨hup.congr rfl, hid, ?_⟩
      rw [hsame]
      exact hsub
    · obtain ⟨⟨e, he, hgone⟩, hsame⟩ := G.patch_gone m rec.graphId event d.graph hlive
      rcases hcall : G.call (.patch m rec.graphId event) d.graph with ⟨w, result⟩
      rw [hcall] at he hsame
      obtain rfl : result = .error e := he
      simp only [hgone, if_true]
      refine ⟨hup.congr rfl, ?_⟩
      rw [hsame, Set.eq_empty_iff_forall_notMem]
      intro x hx
      rw [hsub hx] at hx
      exact hlive hx

/-- **Outlook.** A statement keeps what holds in Outlook. -/
theorem OutlookAt.step (h : OutlookAt G s T B ev d ph)
    (hmail : ∀ c b m event rec, ph = .outlookRecord c b m event → d.db.outlook.find? B = some rec →
      rec.mailboxUPN = m) :
    OutlookAt G s T B ev (next G.call C.call s newId ⟨T, B, ev⟩ ph d).2
      (next G.call C.call s newId ⟨T, B, ev⟩ ph d).1 := by
  cases hdone : ph.outlookDone with
  | some o =>
    obtain ⟨hdone', hdb, hgraph⟩ :=
      @next_of_outlookDone σ τ G C s T B newId ev d ph o hdone
    rw [outlookAt_done hdone] at h
    rw [outlookAt_done hdone', hgraph]
    exact ⟨h.1.congr hdb (congrArg G.live hgraph), h.2⟩
  | none =>
    cases ph with
    | outlook => exact outlookAt_first h
    | outlookRecord c b m event =>
      obtain ⟨hlink, hon, hp, hid⟩ := h
      exact ⟨hlink, hon, hp, hid, rfl, fun rec hrec => hmail c b m event rec rfl hrec⟩
    | outlookToken c job =>
      obtain ⟨hlink, hjob⟩ := h
      obtain ⟨w, r, htoken, hlive⟩ := G.token_ok s.tokenCached c d.graph
      simp only [next, htoken]
      refine ⟨hlink.congr rfl hlive, ?_⟩
      cases job with
      | upsert b m existing event => exact hjob.congr rfl
      | cancel rec => exact hjob
    | outlookCall job =>
      obtain ⟨hlink, hjob⟩ := h
      cases job with
      | upsert b m existing event => exact outlookAt_call hlink hjob
      | cancel rec =>
        obtain ⟨hp, hrec⟩ := hjob
        refine ⟨hp, hrec, ?_⟩
        show G.live (G.call (.delete rec.mailboxUPN rec.graphId) d.graph).1 = ∅
        rw [G.delete, Set.sdiff_eq_empty]
        exact (hlink.recorded rec hrec).2
    | outlookPost b m existing event =>
      obtain ⟨hup, hlive⟩ := h
      obtain ⟨r, hr, hid, hpost⟩ := G.post m event d.graph
      rcases hcall : G.call (.post m event) d.graph with ⟨w, result⟩
      rw [hcall] at hr hpost
      obtain rfl : result = .ok r := hr
      simp only [next, hcall]
      refine ⟨hup.congr rfl, hid, ?_⟩
      rw [hpost, hlive, insert_empty_eq]
    | outlookBack b m existing reply =>
      obtain ⟨hup, hid, hlive⟩ := h
      exact ⟨hup.link hid hlive, fun hw => absurd hw (by simp [not_withdraws_of_pushes hup.pushes])⟩
    | outlookDrop rec =>
      obtain ⟨hp, hrec, hlive⟩ := h
      refine ⟨⟨fun rec' hrec' => ?_, fun _ => hlive, fun _ => hlive⟩, fun _ _ => hlive⟩
      have hnone : (OutlookSyncService.drop rec.id d.db.outlook).find? B = some rec' := hrec'
      rw [find?_drop hrec] at hnone
      cases hnone
    | _ => cases hdone

theorem OutlookAt.live_next (h : OutlookAt G s T B ev d ph) (hp : ev.pushes = false) :
    G.live (next G.call C.call s newId ⟨T, B, ev⟩ ph d).2.graph ⊆ G.live d.graph := by
  have hnot : ¬ ev.pushes = true := by simp [hp]
  cases hdone : ph.outlookDone with
  | some o =>
    rw [(next_of_outlookDone hdone).2.2]
  | none =>
    cases ph with
    | outlook =>
      simp only [next, hp]
      rcases getDecrypted s.reveal (s.microsoft T) with e | _ | c
      · exact subset_rfl
      · exact subset_rfl
      · dsimp only
        repeat' split
        all_goals exact subset_rfl
    | outlookRecord c b m event => exact subset_rfl
    | outlookToken c job =>
      obtain ⟨w, r, htoken, hlive⟩ := G.token_ok s.tokenCached c d.graph
      simp only [next, htoken]
      exact hlive.subset
    | outlookCall job =>
      cases job with
      | upsert b m existing event => exact absurd h.2.pushes hnot
      | cancel rec =>
        show G.live (G.call (.delete rec.mailboxUPN rec.graphId) d.graph).1 ⊆ _
        rw [G.delete]
        exact Set.sdiff_subset
    | outlookPost b m existing event => exact absurd h.1.pushes hnot
    | outlookBack b m existing reply => exact subset_rfl
    | outlookDrop rec => exact subset_rfl
    | _ => cases hdone

theorem googleAt_first {o : Except String Unit} (h : GoogleLink C s T B d) :
    GoogleAt C s T B ev (next G.call C.call s newId ⟨T, B, ev⟩ (.google o) d).2
      (next G.call C.call s newId ⟨T, B, ev⟩ (.google o) d).1 := by
  simp only [next]
  rcases hc : getDecrypted s.reveal (s.google T) with e | _ | c
  · exact ⟨h, fun _ hok => by cases hok⟩
  · refine ⟨h, fun _ _ => h.off ?_⟩
    rintro ⟨c, hc', -⟩
    rw [hc] at hc'
    cases hc'
  · dsimp only
    split
    · rename_i hsecret
      refine ⟨h, fun _ _ => h.off ?_⟩
      rintro ⟨c', hc', hne⟩
      rw [hc] at hc'
      cases hc'
      exact hne hsecret
    · rename_i hsecret
      split
      · rename_i hp
        have hidle : ∀ g : Except String Unit, GoogleLink C s T B d ∧
            (ev.withdraws = true → g = .ok () → C.live d.google = ∅) := by
          intro g
          exact ⟨h, fun hw => absurd hw (by simp [not_withdraws_of_pushes hp])⟩
        split
        · exact hidle _
        · split
          · exact hidle _
          · exact ⟨h, ⟨c, hc, hsecret⟩, hp⟩
      · split
        · cases hrec : d.db.google.find? B with
          | none => exact ⟨h, fun _ _ => h.unrecorded hrec⟩
          | some rec =>
            dsimp only
            split
            · exact ⟨h, fun _ hok => by cases hok⟩
            · exact ⟨h, hrec⟩
        · rename_i hw
          exact ⟨h, fun hw' => absurd hw' hw⟩

theorem googleAt_call {o : Except String Unit} {existing : Option GoogleSyncRecord} (hlink : GoogleLink C s T B d)
    (hon : GoogleOn s T) (hp : ev.pushes = true) (hread : existing = d.db.google.find? B) :
    GoogleAt C s T B ev (next G.call C.call s newId ⟨T, B, ev⟩ (.googleCall o b existing) d).2
      (next G.call C.call s newId ⟨T, B, ev⟩ (.googleCall o b existing) d).1 := by
  cases existing with
  | some rec =>
    obtain ⟨hcal, hsub⟩ := hlink.recorded rec hread.symm
    rw [hcal] at hsub
    have hlive := (C.patch s.targetCalendarId rec.eventId (GoogleSyncService.eventFor b) d.google).trans
      (Set.insert_subset (Set.mem_singleton _) hsub)
    refine ⟨⟨fun rec' hrec' => ?_, fun hnone => ?_, fun hoff => absurd hon hoff⟩,
      fun hw => absurd hw (by simp [not_withdraws_of_pushes hp])⟩
    · obtain rfl := Option.some.inj (hread.trans hrec')
      rw [hcal]
      exact ⟨rfl, hlive⟩
    · cases hread.trans hnone
  | none =>
    obtain ⟨r, hr, hid, hlive⟩ := C.insert s.targetCalendarId (GoogleSyncService.eventFor b) d.google
    rcases hcall : C.call (.insert s.targetCalendarId (GoogleSyncService.eventFor b)) d.google with ⟨v, result⟩
    rw [hcall] at hr hlive
    obtain rfl : result = .ok r := hr
    simp only [next, hcall]
    refine ⟨hread.symm, hon, hp, hid, ?_⟩
    rw [hlive, hlink.unrecorded hread.symm]
    split
    · exact Set.empty_subset _
    · rw [insert_empty_eq]

theorem link_of_insert {reply : Reply} (hnone : d.db.google.find? B = none) (hon : GoogleOn s T) (hid : reply.id ≠ "")
    (hlive : C.live d.google ⊆ {(s.targetCalendarId, reply.id)}) :
    GoogleLink C s T B { d with db := { d.db with
      google := GoogleSyncService.writeBack T B s.targetCalendarId reply d.db.google } } := by
  obtain ⟨t, ht⟩ := Table.insert?_of_find?
    (show d.db.google.find? (key (GoogleSyncRecord.mk B T s.targetCalendarId reply.id)) = none from hnone)
  have hstored : (GoogleSyncService.writeBack T B s.targetCalendarId reply d.db.google).find? B =
      some ⟨B, T, s.targetCalendarId, reply.id⟩ := by
    unfold GoogleSyncService.writeBack
    rw [if_neg hid, ht, Option.getD_some, Table.find?_insert? ht]
    exact if_pos rfl
  refine ⟨fun rec hrec => ?_, fun hrec => ?_, fun hoff => absurd hon hoff⟩
  · obtain rfl := Option.some.inj (hstored.symm.trans hrec)
    exact ⟨rfl, hlive⟩
  · cases hstored.symm.trans hrec

/-- **Google.** A statement keeps what holds at Google. -/
theorem GoogleAt.step (h : GoogleAt C s T B ev d ph) :
    GoogleAt C s T B ev (next G.call C.call s newId ⟨T, B, ev⟩ ph d).2
      (next G.call C.call s newId ⟨T, B, ev⟩ ph d).1 := by
  cases hdone : ph.outlookDone with
  | none =>
    obtain ⟨hphase, hdb, hgoogle⟩ := @next_of_outlook σ τ G C s T B newId ev d ph hdone
    rw [googleAt_outlook (.inl hdone)] at h
    rw [googleAt_outlook hphase]
    exact h.congr hdb (congrArg C.live hgoogle)
  | some o =>
    cases ph with
    | google o' => exact googleAt_first h
    | googleRecord o' b =>
      obtain ⟨hlink, hon, hp⟩ := h
      exact ⟨hlink, hon, hp, rfl⟩
    | googleCall o' b existing =>
      obtain ⟨hlink, hon, hp, hread⟩ := h
      exact googleAt_call hlink hon hp hread
    | googleBack o' reply =>
      obtain ⟨hnone, hon, hp, hid, hlive⟩ := h
      exact ⟨link_of_insert hnone hon hid hlive, fun hw => absurd hw (by simp [not_withdraws_of_pushes hp])⟩
    | googleCancel o' rec =>
      obtain ⟨hlink, hrec⟩ := h
      have hgone : C.live (C.call (.cancel rec.calendarId rec.eventId) d.google).1 = ∅ := by
        rw [C.cancel, Set.sdiff_eq_empty]
        exact (hlink.recorded rec hrec).2
      refine ⟨⟨fun rec' hrec' => ⟨(hlink.recorded rec' hrec').1, ?_⟩, fun _ => hgone, fun _ => hgone⟩,
        fun _ _ => hgone⟩
      exact hgone.subset.trans (Set.empty_subset _)
    | settled o' g => exact h
    | _ => cases hdone

theorem GoogleAt.live_next (h : GoogleAt C s T B ev d ph) (hp : ev.pushes = false) :
    C.live (next G.call C.call s newId ⟨T, B, ev⟩ ph d).2.google ⊆ C.live d.google := by
  have hnot : ¬ ev.pushes = true := by simp [hp]
  cases hdone : ph.outlookDone with
  | none => rw [(next_of_outlook hdone).2.2]
  | some o =>
    cases ph with
    | google o' =>
      simp only [next]
      rcases getDecrypted s.reveal (s.google T) with e | _ | c
      · exact subset_rfl
      · exact subset_rfl
      · dsimp only
        repeat' split
        all_goals exact subset_rfl
    | googleRecord o' b => exact subset_rfl
    | googleCall o' b existing => exact absurd h.2.2.1 hnot
    | googleBack o' reply => exact subset_rfl
    | googleCancel o' rec =>
      show C.live (C.call (.cancel rec.calendarId rec.eventId) d.google).1 ⊆ _
      rw [C.cancel]
      exact Set.sdiff_subset
    | settled o' g => exact subset_rfl
    | _ => cases hdone

end Statement

end BookingSystem.Concurrency.CalendarSync
