import BookingSystem.Model.Ics

/-!
# Calendars that cannot be written into

A reader takes the output of the encoder apart again: it joins folded lines, splits the text at its line breaks, cuts
each line at the first colon outside quotes and takes the escapes out (`Base.ContentLines`). The encoder means to write
certain properties, one a line (`properties`). The texts that it escapes come back as they were, whatever they hold. The
texts that it writes as they are, the ids and the mail addresses, have to be bare, and the quotes in a name have to be
closed before a colon comes (`read_back_iff`).
-/

namespace BookingSystem.Contracts.Ics

open Base Base.Text Model Model.Ics

/-- The text has no carriage return and no escape in it. -/
def Bare (t : Text) : Prop := cr ∉ t ∧ unescape t = t

/-! ### What the encoder means to write -/

/-- What a user can have encoded. -/
inductive Request
  | feed (now : ℕ → Instant) (name : Text) (events : List IcsEvent)
  | invite (now : Instant) (opts : InviteOptions)

def encode : Request → Text
  | .feed now name events => encodeFeed now name events
  | .invite now opts => encodeInvite now opts

def given (t : Text) (property : Text × Text) : List (Text × Text) := if t.isEmpty then [] else [property]

/-- The properties of an event: the name of each with its parameters, and its value. -/
def eventProperties (now : Instant) (ev : IcsEvent) : List (Text × Text) :=
  [(ofString "BEGIN", ofString "VEVENT"), (ofString "UID", ev.uid),
    (ofString "SEQUENCE", ofString (toString ev.sequence)), (ofString "DTSTAMP", utc now),
    (ofString "DTSTART", utc ev.start), (ofString "DTEND", utc ev.finish), (ofString "SUMMARY", ev.summary)] ++
  given ev.location (ofString "LOCATION", ev.location) ++ given ev.url (ofString "URL", ev.url) ++
  (ev.attendees.flatMap fun email =>
    given email (ofString "ATTENDEE;ROLE=REQ-PARTICIPANT;CUTYPE=INDIVIDUAL", ofString "mailto:" ++ email)) ++
  [(ofString "STATUS", ofString "CONFIRMED"), (ofString "TRANSP", ofString "OPAQUE"),
    (ofString "END", ofString "VEVENT")]

def attendeeParameters (attendeeName : Text) : Text :=
  ofString "ATTENDEE;ROLE=REQ-PARTICIPANT;PARTSTAT=NEEDS-ACTION;RSVP=TRUE" ++
    if attendeeName.isEmpty then [] else ofString ";CN=" ++ attendeeName

def properties : Request → List (Text × Text)
  | .feed now name events =>
    [(ofString "BEGIN", ofString "VCALENDAR"), (ofString "VERSION", ofString "2.0"), (ofString "PRODID", productId),
      (ofString "CALSCALE", ofString "GREGORIAN"), (ofString "METHOD", ofString "PUBLISH")] ++
    given name (ofString "X-WR-CALNAME", name) ++
    given name (ofString "X-WR-CALDESC", ofString "FSD MRBS bookings") ++
    (events.zipIdx.flatMap fun p => eventProperties (now p.2) p.1) ++
    [(ofString "END", ofString "VCALENDAR")]
  | .invite now opts =>
    [(ofString "BEGIN", ofString "VCALENDAR"), (ofString "VERSION", ofString "2.0"), (ofString "PRODID", productId),
      (ofString "CALSCALE", ofString "GREGORIAN"), (ofString "METHOD", ofString opts.method.label),
      (ofString "BEGIN", ofString "VEVENT"), (ofString "UID", opts.uid),
      (ofString "SEQUENCE", ofString (toString opts.sequence)), (ofString "DTSTAMP", utc now),
      (ofString "DTSTART", utc opts.start), (ofString "DTEND", utc opts.finish),
      (ofString "SUMMARY", opts.summary)] ++
    given opts.description (ofString "DESCRIPTION", opts.description) ++
    given opts.location (ofString "LOCATION", opts.location) ++
    given opts.url (ofString "URL", opts.url) ++
    given opts.organizerEmail (ofString "ORGANIZER", ofString "mailto:" ++ opts.organizerEmail) ++
    given opts.attendeeEmail (attendeeParameters opts.attendeeName, ofString "mailto:" ++ opts.attendeeEmail) ++
    [(ofString "STATUS", ofString opts.method.status), (ofString "TRANSP", ofString "OPAQUE"),
      (ofString "END", ofString "VEVENT"), (ofString "END", ofString "VCALENDAR")]

/-- What is written as it is, is bare, and the name of an attendee closes its quotes and has no colon outside of
them. -/
def Clean : Request → Prop
  | .feed _ _ events => ∀ ev ∈ events, Bare ev.uid ∧ ∀ email ∈ ev.attendees, Bare email
  | .invite _ opts => Bare opts.uid ∧ Bare opts.organizerEmail ∧ Bare opts.attendeeEmail ∧
      (opts.attendeeEmail ≠ [] → closes false opts.attendeeName = true)

/-! ### Escaping and folding -/

/-- What the encoder writes for one unit. -/
def escapeUnit (a : UInt16) : Text :=
  if a = backslash then [backslash, backslash]
  else if a = semicolon then [backslash, semicolon]
  else if a = comma then [backslash, comma]
  else if a = lf then [backslash, letterN]
  else if a = cr then []
  else [a]

/-- The replacements do not get in each other's way. -/
theorem escapeText_cons (a : UInt16) (t : Text) : escapeText (a :: t) = escapeUnit a ++ escapeText t := by
  have happend : ∀ s t, escapeText (s ++ t) = escapeText s ++ escapeText t := by
    intro s t
    simp [escapeText, replaceAll, List.flatMap_append]
  have hunit : escapeText [a] = escapeUnit a := by
    unfold escapeUnit
    split_ifs with h₁ h₂ h₃ h₄ h₅
    · subst h₁
      rfl
    · subst h₂
      rfl
    · subst h₃
      rfl
    · subst h₄
      rfl
    · subst h₅
      rfl
    · simp [escapeText, replaceAll, h₁, h₂, h₃, h₄, h₅]
  rw [← hunit, ← happend]
  rfl

/-- An escaped text can be read back, without its carriage returns. -/
theorem part_escapeText (t : Text) : Part (escapeText t) t := by
  induction t with
  | nil => exact .nil
  | cons a t ih =>
    rw [escapeText_cons]
    have hunit : Part (escapeUnit a) [a] := by
      unfold escapeUnit
      split_ifs with h₁ h₂ h₃ h₄ h₅
      · subst h₁
        exact ⟨by decide, fun t => by simp [unescape, stripCr, show backslash ≠ cr by decide]⟩
      · subst h₂
        exact ⟨by decide, fun t => by simp [unescape, stripCr, show semicolon ≠ cr by decide]⟩
      · subst h₃
        exact ⟨by decide, fun t => by simp [unescape, stripCr, show comma ≠ cr by decide]⟩
      · subst h₄
        exact ⟨by decide, fun t => by
          simp [unescape, stripCr, show lf ≠ cr by decide, show letterN ≠ backslash by decide,
            show letterN ≠ semicolon by decide, show letterN ≠ comma by decide]⟩
      · subst h₅
        exact ⟨by decide, fun t => by simp [stripCr]⟩
      · exact .plain (by simpa using Ne.symm h₅) (by simpa using Ne.symm h₁)
    exact hunit.append ih

theorem closes_escapeText (q : Bool) (t : Text) : closes q (escapeText t) = closes q t := by
  induction t generalizing q with
  | nil => rfl
  | cons a t ih =>
    rw [escapeText_cons]
    unfold escapeUnit
    split_ifs with h₁ h₂ h₃ h₄ h₅
    · subst h₁
      simp [closes, ih, show backslash ≠ colon by decide, show backslash ≠ quote by decide]
    · subst h₂
      simp [closes, ih, show backslash ≠ colon by decide, show backslash ≠ quote by decide,
        show semicolon ≠ colon by decide, show semicolon ≠ quote by decide]
    · subst h₃
      simp [closes, ih, show backslash ≠ colon by decide, show backslash ≠ quote by decide,
        show comma ≠ colon by decide, show comma ≠ quote by decide]
    · subst h₄
      simp [closes, ih, show backslash ≠ colon by decide, show backslash ≠ quote by decide,
        show letterN ≠ colon by decide, show letterN ≠ quote by decide, show lf ≠ colon by decide,
        show lf ≠ quote by decide]
    · subst h₅
      simp [closes, ih, show cr ≠ colon by decide, show cr ≠ quote by decide]
    · simp only [List.cons_append, List.nil_append, closes, ih]

theorem folded_slices {limit n : ℕ} (hlimit : 0 < limit) {t : Text} (hn : t.length ≤ n) :
    Folded t ([cr, lf, space].intercalate (slices limit n t)) := by
  induction n generalizing t with
  | zero =>
    obtain rfl := List.length_eq_zero_iff.1 (Nat.le_zero.1 hn)
    exact .nil
  | succ n ih =>
    cases t with
    | nil => exact .nil
    | cons a t =>
      have hrest := @ih ((a :: t).drop limit) (by
        simp only [List.length_drop, List.length_cons] at hn ⊢
        omega)
      have hslices : slices limit (n + 1) (a :: t) = (a :: t).take limit :: slices limit n ((a :: t).drop limit) := rfl
      rw [hslices]
      conv_lhs => rw [← List.take_append_drop limit (a :: t)]
      cases hs : slices limit n ((a :: t).drop limit) with
      | nil =>
        rw [hs, List.intercalate_nil] at hrest
        rw [List.intercalate_singleton]
        generalize (a :: t).drop limit = d at hrest
        cases hrest
        rw [List.append_nil]
        exact .refl _
      | cons x xs =>
        rw [hs] at hrest
        rw [List.intercalate_cons_cons, List.append_assoc]
        exact (Folded.refl _).append (.fold hrest)

theorem folded_fold (r : Text) : Folded r (fold r) := by
  unfold fold
  split
  · exact .refl r
  · exact folded_slices (by decide) le_rfl

theorem joinLines_eq {ls : List Line} (h : ls ≠ []) : joinLines (ls.map Line.text) = write fold ls := by
  unfold joinLines write
  induction ls with
  | nil => exact absurd rfl h
  | cons l ls ih =>
    cases ls with
    | nil => simp
    | cons l' ls =>
      have ih := ih (by simp)
      rw [List.flatMap_cons, ← ih]
      simp [List.intercalate_cons_cons]

/-! ### The lines -/

/-- A name of a property, maybe with parameters, that can be written as it is. -/
def isKey (key : Text) : Bool :=
  match key with
  | [] => false
  | a :: _ => !isBlank a && key.all fun b => b != cr && b != backslash && b != colon && b != quote

theorem isKey_starts {key : Text} (h : isKey key = true) : ∃ a t, key = a :: t ∧ isBlank a = false := by
  cases key with
  | nil => cases h
  | cons a t =>
    simp only [isKey, Bool.and_eq_true, Bool.not_eq_true'] at h
    exact ⟨a, t, rfl, h.1⟩

theorem isKey_units {key : Text} (h : isKey key = true) :
    ∀ a ∈ key, a ≠ cr ∧ a ≠ backslash ∧ a ≠ colon ∧ a ≠ quote := by
  cases key with
  | nil => cases h
  | cons a t =>
    simp only [isKey, Bool.and_eq_true, List.all_eq_true, bne_iff_ne, and_assoc] at h
    exact h.2

theorem part_of_isKey {key : Text} (h : isKey key = true) : Part key key :=
  .plain (fun hc => (isKey_units h cr hc).1 rfl) fun hc => (isKey_units h backslash hc).2.1 rfl

theorem closes_append_of_isKey {key : Text} (h : isKey key = true) (q : Bool) (t : Text) :
    closes q (key ++ t) = closes q t := by
  have hunits := isKey_units h
  clear h
  induction key with
  | nil => rfl
  | cons a key ih =>
    obtain ⟨-, -, hcolon, hquote⟩ := hunits a List.mem_cons_self
    rw [List.cons_append, closes, if_neg fun hc => hcolon hc.1, if_neg hquote]
    exact ih fun b hb => hunits b (.tail _ hb)

theorem closes_of_isKey {key : Text} (h : isKey key = true) : closes false key = true := by
  have hcl := closes_append_of_isKey h false []
  rw [List.append_nil] at hcl
  rw [hcl]
  rfl

/-- The line of a property with a plain name. -/
def keyLine (key : String) (hkey : isKey (ofString key) = true) {fixed value : Text} (h : Part fixed value)
    (raw : Text) : Line where
  params := ofString key
  fixed := fixed
  raw := raw
  name := ofString key
  value := value
  starts := isKey_starts hkey
  params_part := part_of_isKey hkey
  fixed_part := h

theorem good_keyLine {key : String} {hkey : isKey (ofString key) = true} {fixed value raw : Text}
    {h : Part fixed value} : (keyLine key hkey h raw).Good ↔ Bare raw :=
  ⟨fun hg => ⟨hg.no_cr, hg.plain⟩, fun hb => ⟨closes_of_isKey hkey, hb.1, hb.2⟩⟩

/-! ### Numbers and dates -/

def isSimple (c : Char) : Bool := 45 ≤ c.toNat && c.toNat ≤ 90

theorem part_of_isSimple {s : String} (h : s.toList.all isSimple = true) : Part (ofString s) (ofString s) := by
  have hunit : ∀ a ∈ ofString s, 45 ≤ a.toNat ∧ a.toNat ≤ 90 := by
    intro a ha
    obtain ⟨c, hc, rfl⟩ := List.mem_map.1 ha
    have hsimple := List.all_eq_true.1 h c hc
    rw [isSimple, Bool.and_eq_true, decide_eq_true_iff, decide_eq_true_iff] at hsimple
    rw [UInt16.toNat_ofNat', Nat.mod_eq_of_lt (by omega)]
    exact hsimple
  refine .plain (fun hc => ?_) fun hc => ?_
  · exact absurd (hunit cr hc).1 (by decide)
  · exact absurd (hunit backslash hc).2 (by decide)

theorem isSimple_nat (n : ℕ) : n.repr.toList.all isSimple = true := by
  rw [List.all_eq_true]
  intro c hc
  rw [Nat.repr_eq_ofList_toDigits, String.toList_ofList] at hc
  have hdigit := Char.isDigit_iff_toNat.1 (Nat.isDigit_of_mem_toDigits (by decide) (by decide) hc)
  have h0 : '0'.toNat = 48 := rfl
  have h9 : '9'.toNat = 57 := rfl
  rw [isSimple, Bool.and_eq_true, decide_eq_true_iff, decide_eq_true_iff]
  omega

theorem isSimple_int (n : ℤ) : (toString n).toList.all isSimple = true := by
  rw [Int.toString_eq_repr, Int.repr_eq_if]
  split
  · exact isSimple_nat _
  · rw [String.toList_append, List.all_append, isSimple_nat]
    decide

theorem isSimple_pad (n : ℤ) : (pad n).toList.all isSimple = true := by
  unfold pad
  split
  · rw [String.toList_append, List.all_append, isSimple_int]
    decide
  · exact isSimple_int n

theorem part_utc (t : Instant) : Part (utc t) (utc t) := by
  refine part_of_isSimple ?_
  simp only [String.toList_append, List.all_append, isSimple_int, isSimple_pad]
  decide

/-! ### The lines of a request -/

def optionalLine (t : Text) (l : Line) : List Line := if t.isEmpty then [] else [l]

theorem map_optionalLine {α : Type} (f : Line → α) (t : Text) (l : Line) :
    (optionalLine t l).map f = if t.isEmpty then [] else [f l] := by
  unfold optionalLine
  split <;> rfl

theorem good_optionalLine {t : Text} {l : Line} : (∀ x ∈ optionalLine t l, x.Good) ↔ (t ≠ [] → l.Good) := by
  unfold optionalLine
  cases t with
  | nil => simp
  | cons a t => simp

/-- A fixed text. -/
theorem part_ofString (s : String) (h : (ofString s).all (fun a => a != cr && a != backslash) = true) :
    Part (ofString s) (ofString s) := by
  simp only [List.all_eq_true, Bool.and_eq_true, bne_iff_ne] at h
  exact .plain (fun hc => (h cr hc).1 rfl) fun hc => (h backslash hc).2 rfl

theorem part_mailto : Part (ofString "mailto:") (ofString "mailto:") := part_ofString _ (by decide)

def fixedLine (key : String) (hkey : isKey (ofString key) = true) {fixed value : Text} (h : Part fixed value) : Line :=
  keyLine key hkey h []

theorem good_fixedLine {key : String} {hkey : isKey (ofString key) = true} {fixed value : Text}
    {h : Part fixed value} : (fixedLine key hkey h).Good := good_keyLine.2 ⟨by simp, rfl⟩

theorem text_fixedLine {key : String} {hkey : isKey (ofString key) = true} {fixed value : Text}
    {h : Part fixed value} : (fixedLine key hkey h).text = ofString key ++ colon :: fixed := by
  simp [fixedLine, keyLine, Line.text]

theorem text_keyLine {key : String} {hkey : isKey (ofString key) = true} {fixed value raw : Text}
    {h : Part fixed value} : (keyLine key hkey h raw).text = ofString key ++ colon :: (fixed ++ raw) := rfl

theorem meant_fixedLine {key : String} {hkey : isKey (ofString key) = true} {fixed value : Text}
    {h : Part fixed value} : (fixedLine key hkey h).meant = (stripCr (ofString key), stripCr value) := by
  simp [fixedLine, keyLine, Line.meant]

theorem meant_keyLine {key : String} {hkey : isKey (ofString key) = true} {fixed value raw : Text}
    {h : Part fixed value} :
    (keyLine key hkey h raw).meant = (stripCr (ofString key), stripCr (value ++ raw)) := rfl

def eventAsLines (now : Instant) (ev : IcsEvent) : List Line :=
  [fixedLine "BEGIN" (by decide) (part_ofString "VEVENT" (by decide)), keyLine "UID" (by decide) .nil ev.uid,
    fixedLine "SEQUENCE" (by decide) (part_of_isSimple (isSimple_int ev.sequence)),
    fixedLine "DTSTAMP" (by decide) (part_utc now), fixedLine "DTSTART" (by decide) (part_utc ev.start),
    fixedLine "DTEND" (by decide) (part_utc ev.finish),
    fixedLine "SUMMARY" (by decide) (part_escapeText ev.summary)] ++
  optionalLine ev.location (fixedLine "LOCATION" (by decide) (part_escapeText ev.location)) ++
  optionalLine ev.url (fixedLine "URL" (by decide) (part_escapeText ev.url)) ++
  (ev.attendees.flatMap fun email =>
    optionalLine email
      (keyLine "ATTENDEE;ROLE=REQ-PARTICIPANT;CUTYPE=INDIVIDUAL" (by decide) part_mailto email)) ++
  [fixedLine "STATUS" (by decide) (part_ofString "CONFIRMED" (by decide)),
    fixedLine "TRANSP" (by decide) (part_ofString "OPAQUE" (by decide)),
    fixedLine "END" (by decide) (part_ofString "VEVENT" (by decide))]

theorem ofString_append (s t : String) : ofString s ++ ofString t = ofString (s ++ t) := by
  simp [ofString]

theorem ofString_key (key : String) (t : Text) : ofString key ++ colon :: t = ofString (key ++ ":") ++ t := by
  rw [← ofString_append, List.append_assoc]
  rfl

theorem text_eventAsLines (now : Instant) (ev : IcsEvent) :
    (eventAsLines now ev).map Line.text = eventLines now ev := by
  simp only [eventAsLines, eventLines, List.map_append, List.map_flatMap, map_optionalLine, ifGiven, List.map_cons,
    List.map_nil, text_fixedLine, text_keyLine, kv, ofString_key, ofString_append, ← List.append_assoc,
    String.reduceAppend, List.nil_append]

def readBack (p : Text × Text) : Option (Text × Text) := some (stripCr p.1, stripCr p.2)

theorem map_given (t : Text) (property : Text × Text) :
    (given t property).map readBack = if t.isEmpty then [] else [readBack property] := by
  unfold given
  split <;> rfl

theorem meant_eventAsLines (now : Instant) (ev : IcsEvent) :
    (eventAsLines now ev).map (fun l => some l.meant) = (eventProperties now ev).map readBack := by
  simp only [eventAsLines, eventProperties, List.map_append, List.map_flatMap, map_optionalLine, map_given,
    List.map_cons, List.map_nil, meant_fixedLine, meant_keyLine, readBack, List.nil_append]

theorem bare_imp {t : Text} : (t ≠ [] → Bare t) ↔ Bare t := by
  refine ⟨fun h => ?_, fun h _ => h⟩
  cases t with
  | nil => exact ⟨by simp, rfl⟩
  | cons a t => exact h (by simp)

theorem good_eventAsLines {now : Instant} {ev : IcsEvent} :
    (∀ l ∈ eventAsLines now ev, l.Good) ↔ Bare ev.uid ∧ ∀ email ∈ ev.attendees, Bare email := by
  simp only [eventAsLines, List.forall_mem_append, List.forall_mem_cons, good_fixedLine, good_keyLine,
    good_optionalLine, List.forall_mem_flatMap, bare_imp]
  simp

/-- The line of the one that is invited; the parameters end with a name that is escaped. -/
def attendeeLine (attendeeName attendeeEmail : Text) : Line where
  params := ofString "ATTENDEE;ROLE=REQ-PARTICIPANT;PARTSTAT=NEEDS-ACTION;RSVP=TRUE" ++ cn attendeeName
  fixed := ofString "mailto:"
  raw := attendeeEmail
  name := attendeeParameters attendeeName
  value := ofString "mailto:"
  starts := ⟨65, _, rfl, by decide⟩
  params_part := by
    refine (part_ofString _ (by decide)).append ?_
    unfold cn
    split
    · exact .nil
    · exact (part_ofString _ (by decide)).append (part_escapeText attendeeName)
  fixed_part := part_mailto

theorem good_attendeeLine {attendeeName attendeeEmail : Text} :
    (attendeeLine attendeeName attendeeEmail).Good ↔ Bare attendeeEmail ∧ closes false attendeeName = true := by
  have hcloses : closes false (attendeeLine attendeeName attendeeEmail).params = closes false attendeeName := by
    rw [attendeeLine, closes_append_of_isKey (by decide), cn]
    cases attendeeName with
    | nil => rfl
    | cons a t => rw [if_neg (by simp), closes_append_of_isKey (by decide), closes_escapeText]
  refine ⟨fun h => ⟨⟨h.no_cr, h.plain⟩, hcloses ▸ h.closes⟩, fun h => ⟨?_, h.1.1, h.1.2⟩⟩
  rw [hcloses]
  exact h.2

/-- The lines that a calendar starts with. -/
def calendarStart (method : String) (h : (ofString method).all (fun a => a != cr && a != backslash) = true) :
    List Line :=
  [fixedLine "BEGIN" (by decide) (part_ofString "VCALENDAR" (by decide)),
    fixedLine "VERSION" (by decide) (part_ofString "2.0" (by decide)),
    fixedLine "PRODID" (by decide) (part_ofString "-//FSD MRBS Platform//Booking Engine 2.0//EN" (by decide)),
    fixedLine "CALSCALE" (by decide) (part_ofString "GREGORIAN" (by decide)),
    fixedLine "METHOD" (by decide) (part_ofString method h)]

def requestLines : Request → List Line
  | .feed now name events =>
    calendarStart "PUBLISH" (by decide) ++
    optionalLine name (fixedLine "X-WR-CALNAME" (by decide) (part_escapeText name)) ++
    optionalLine name (fixedLine "X-WR-CALDESC" (by decide) (part_escapeText (ofString "FSD MRBS bookings"))) ++
    (events.zipIdx.flatMap fun p => eventAsLines (now p.2) p.1) ++
    [fixedLine "END" (by decide) (part_ofString "VCALENDAR" (by decide))]
  | .invite now opts =>
    calendarStart opts.method.label (by cases opts.method <;> decide) ++
    [fixedLine "BEGIN" (by decide) (part_ofString "VEVENT" (by decide)), keyLine "UID" (by decide) .nil opts.uid,
      fixedLine "SEQUENCE" (by decide) (part_of_isSimple (isSimple_int opts.sequence)),
      fixedLine "DTSTAMP" (by decide) (part_utc now), fixedLine "DTSTART" (by decide) (part_utc opts.start),
      fixedLine "DTEND" (by decide) (part_utc opts.finish),
      fixedLine "SUMMARY" (by decide) (part_escapeText opts.summary)] ++
    optionalLine opts.description (fixedLine "DESCRIPTION" (by decide) (part_escapeText opts.description)) ++
    optionalLine opts.location (fixedLine "LOCATION" (by decide) (part_escapeText opts.location)) ++
    optionalLine opts.url (fixedLine "URL" (by decide) (part_escapeText opts.url)) ++
    optionalLine opts.organizerEmail (keyLine "ORGANIZER" (by decide) part_mailto opts.organizerEmail) ++
    optionalLine opts.attendeeEmail (attendeeLine opts.attendeeName opts.attendeeEmail) ++
    [fixedLine "STATUS" (by decide) (part_ofString opts.method.status (by cases opts.method <;> decide)),
      fixedLine "TRANSP" (by decide) (part_ofString "OPAQUE" (by decide)),
      fixedLine "END" (by decide) (part_ofString "VEVENT" (by decide)),
      fixedLine "END" (by decide) (part_ofString "VCALENDAR" (by decide))]

theorem text_attendeeLine (attendeeName attendeeEmail : Text) :
    (attendeeLine attendeeName attendeeEmail).text =
      ofString "ATTENDEE;ROLE=REQ-PARTICIPANT;PARTSTAT=NEEDS-ACTION;RSVP=TRUE" ++ cn attendeeName ++
        ofString ":mailto:" ++ attendeeEmail := by
  rw [List.append_assoc _ (ofString ":mailto:")]
  rfl

theorem encode_eq (req : Request) : encode req = write fold (requestLines req) := by
  cases req with
  | feed now name events =>
    rw [← joinLines_eq (by simp [requestLines])]
    simp only [encode, encodeFeed, requestLines, calendarStart, List.map_append, List.map_flatMap, map_optionalLine,
      text_eventAsLines, ifGiven, List.map_cons, List.map_nil, text_fixedLine, kv, productId, ofString_key,
      ofString_append, String.reduceAppend]
  | invite now opts =>
    rw [← joinLines_eq (by simp [requestLines])]
    simp only [encode, encodeInvite, requestLines, calendarStart, List.map_append, map_optionalLine, ifGiven,
      List.map_cons, List.map_nil, text_fixedLine, text_keyLine, text_attendeeLine, kv, productId, ofString_key,
      ofString_append, ← List.append_assoc, String.reduceAppend, List.nil_append, List.cons_append]

theorem meant_requestLines (req : Request) :
    (requestLines req).map (fun l => some l.meant) = (properties req).map readBack := by
  cases req with
  | feed now name events =>
    simp only [requestLines, properties, calendarStart, List.map_append, List.map_flatMap, map_optionalLine,
      map_given, meant_eventAsLines, List.map_cons, List.map_nil, meant_fixedLine, readBack, productId]
  | invite now opts =>
    have hattendee : (attendeeLine opts.attendeeName opts.attendeeEmail).meant =
        (stripCr (attendeeParameters opts.attendeeName), stripCr (ofString "mailto:" ++ opts.attendeeEmail)) := rfl
    simp only [requestLines, properties, calendarStart, List.map_append, map_optionalLine, map_given, hattendee,
      List.map_cons, List.map_nil, meant_fixedLine, meant_keyLine, readBack, productId, List.nil_append,
      List.cons_append]

theorem good_requestLines (req : Request) : (∀ l ∈ requestLines req, l.Good) ↔ Clean req := by
  cases req with
  | feed now name events =>
    have hevents : (∀ p ∈ events.zipIdx, Bare p.1.uid ∧ ∀ email ∈ p.1.attendees, Bare email) ↔
        ∀ ev ∈ events, Bare ev.uid ∧ ∀ email ∈ ev.attendees, Bare email := by
      conv_rhs => rw [← List.zipIdx_map_fst 0 events, List.forall_mem_map]
    simp only [requestLines, calendarStart, List.forall_mem_append, List.forall_mem_cons, good_fixedLine,
      good_optionalLine, List.forall_mem_flatMap, good_eventAsLines, Clean, hevents]
    simp
  | invite now opts =>
    simp only [requestLines, calendarStart, List.forall_mem_append, List.forall_mem_cons, good_fixedLine,
      good_keyLine, good_optionalLine, good_attendeeLine, imp_and, bare_imp, Clean]
    simp [and_assoc]

/-- **What a reader gets.** A reader gets the properties that were meant, each with its values but for carriage
returns, if and only if what is written as it is, is clean. -/
theorem read_back_iff (req : Request) :
    (contentLines (encode req)).map readLine = (properties req).map readBack ↔ Clean req := by
  rw [encode_eq, ← meant_requestLines, contentLines_write_iff folded_fold, good_requestLines]

/-- A feed with one event, whose only guest has a line break in the address. -/
def injected : Request :=
  .feed (fun _ => 0) []
    [{ uid := ofString "1", sequence := 0, summary := ofString "Standup", location := [], start := 0,
       finish := 3600000, url := [], attendees := [ofString "a@b.c\r\nURL:x"] }]

/-- The reader gets a property that was never meant. -/
theorem url_injected :
    some (ofString "URL", ofString "x") ∈ (contentLines (encode injected)).map readLine ∧
      some (ofString "URL", ofString "x") ∉ (properties injected).map readBack ∧
      (contentLines (encode injected)).map readLine ≠ (properties injected).map readBack := by
  decide +kernel

end BookingSystem.Contracts.Ics
