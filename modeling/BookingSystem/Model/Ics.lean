import BookingSystem.Base.ContentLines
import BookingSystem.Base.LocalTime
import BookingSystem.Model.Entities

/-!
# The iCalendar encoder

The feed of a user's bookings and the invitation that goes out with a mail. Texts are lists of UTF-16 units, since the
encoder folds its lines after so many of them.
-/

namespace BookingSystem.Model.Ics

open Base Base.Text

def productId : Text := ofString "-//FSD MRBS Platform//Booking Engine 2.0//EN"

/-- `String.prototype.replace` of every `u`. -/
def replaceAll (u : UInt16) (new t : Text) : Text := t.flatMap fun a => if a = u then new else [a]

def escapeText (s : Text) : Text :=
  replaceAll cr [] (replaceAll lf (ofString "\\n") (replaceAll comma (ofString "\\,")
    (replaceAll semicolon (ofString "\\;") (replaceAll backslash (ofString "\\\\") s))))

def kv (key : String) (val : Text) : Text := ofString key ++ colon :: escapeText val

/-- `String(n).padStart(2, '0')`. -/
def pad (n : ℤ) : String := if (toString n).length < 2 then "0" ++ toString n else toString n

/-- An instant in UTC, to the second. -/
def utc (t : Instant) : Text :=
  let day := dayOf t
  let ms := timeInDay t
  ofString (toString (yearMonth day).1 ++ pad ((yearMonth day).2 + 1) ++ pad (dayOfMonth day) ++ "T" ++
    pad (ms / 3600000) ++ pad (ms / 60000 % 60) ++ pad (ms / 1000 % 60) ++ "Z")

/-- The loop of `fold`: pieces of `limit` units; `n` is at least the number of units. -/
def slices (limit : ℕ) : ℕ → Text → List Text
  | 0, _ => []
  | _ + 1, [] => []
  | n + 1, t => t.take limit :: slices limit n (t.drop limit)

def fold (line : Text) : Text :=
  if line.length ≤ 75 then line else [cr, lf, space].intercalate (slices 75 line.length line)

/-- `lines.map(fold).join('\r\n') + '\r\n'`. -/
def joinLines (lines : List Text) : Text := [cr, lf].intercalate (lines.map fold) ++ [cr, lf]

/-! ### The feed -/

structure IcsEvent where
  uid : Text
  sequence : ℤ
  summary : Text
  location : Text
  start : Instant
  finish : Instant
  url : Text
  attendees : List Text

def ifGiven (t : Text) (line : Text) : List Text := if t.isEmpty then [] else [line]

/-- The lines of one event, written at the instant `now`. -/
def eventLines (now : Instant) (ev : IcsEvent) : List Text :=
  [ofString "BEGIN:VEVENT", ofString "UID:" ++ ev.uid, ofString "SEQUENCE:" ++ ofString (toString ev.sequence),
    ofString "DTSTAMP:" ++ utc now, ofString "DTSTART:" ++ utc ev.start, ofString "DTEND:" ++ utc ev.finish,
    kv "SUMMARY" ev.summary] ++
  ifGiven ev.location (kv "LOCATION" ev.location) ++ ifGiven ev.url (kv "URL" ev.url) ++
  (ev.attendees.flatMap fun email =>
    ifGiven email (ofString "ATTENDEE;ROLE=REQ-PARTICIPANT;CUTYPE=INDIVIDUAL:mailto:" ++ email)) ++
  [ofString "STATUS:CONFIRMED", ofString "TRANSP:OPAQUE", ofString "END:VEVENT"]

/-- The feed; the event `i` of the list is written at the instant `now i`. -/
def encodeFeed (now : ℕ → Instant) (name : Text) (events : List IcsEvent) : Text :=
  joinLines
    ([ofString "BEGIN:VCALENDAR", ofString "VERSION:2.0", ofString "PRODID:" ++ productId,
        ofString "CALSCALE:GREGORIAN", ofString "METHOD:PUBLISH"] ++
      ifGiven name (kv "X-WR-CALNAME" name) ++
      ifGiven name (kv "X-WR-CALDESC" (ofString "FSD MRBS bookings")) ++
      (events.zipIdx.flatMap fun p => eventLines (now p.2) p.1) ++
      [ofString "END:VCALENDAR"])

/-! ### The invitation -/

inductive Method
  | request | cancel
  deriving DecidableEq, Repr

def Method.label : Method → String
  | request => "REQUEST"
  | cancel => "CANCEL"

def Method.status : Method → String
  | request => "CONFIRMED"
  | cancel => "CANCELLED"

/-- The options of an invitation; an option that is not given is an empty text, which the encoder does not tell from
it. -/
structure InviteOptions where
  uid : Text
  sequence : ℤ
  method : Method
  summary : Text
  description : Text := []
  location : Text := []
  start : Instant
  finish : Instant
  url : Text := []
  organizerEmail : Text := []
  attendeeEmail : Text := []
  attendeeName : Text := []

/-- `;CN=` and the name, when there is one. -/
def cn (attendeeName : Text) : Text :=
  if attendeeName.isEmpty then [] else ofString ";CN=" ++ escapeText attendeeName

def encodeInvite (now : Instant) (opts : InviteOptions) : Text :=
  joinLines
    ([ofString "BEGIN:VCALENDAR", ofString "VERSION:2.0", ofString "PRODID:" ++ productId,
        ofString "CALSCALE:GREGORIAN", ofString "METHOD:" ++ ofString opts.method.label, ofString "BEGIN:VEVENT",
        ofString "UID:" ++ opts.uid, ofString "SEQUENCE:" ++ ofString (toString opts.sequence),
        ofString "DTSTAMP:" ++ utc now, ofString "DTSTART:" ++ utc opts.start, ofString "DTEND:" ++ utc opts.finish,
        kv "SUMMARY" opts.summary] ++
      ifGiven opts.description (kv "DESCRIPTION" opts.description) ++
      ifGiven opts.location (kv "LOCATION" opts.location) ++
      ifGiven opts.url (kv "URL" opts.url) ++
      ifGiven opts.organizerEmail (ofString "ORGANIZER:mailto:" ++ opts.organizerEmail) ++
      ifGiven opts.attendeeEmail
        (ofString "ATTENDEE;ROLE=REQ-PARTICIPANT;PARTSTAT=NEEDS-ACTION;RSVP=TRUE" ++ cn opts.attendeeName ++
          ofString ":mailto:" ++ opts.attendeeEmail) ++
      [ofString "STATUS:" ++ ofString opts.method.status, ofString "TRANSP:OPAQUE", ofString "END:VEVENT",
        ofString "END:VCALENDAR"])

end BookingSystem.Model.Ics
