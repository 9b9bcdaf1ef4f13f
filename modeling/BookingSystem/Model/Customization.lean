import BookingSystem.Base.Json
import BookingSystem.Base.Outcome
import BookingSystem.Model.Entities

/-!
# `CustomizationService`

The settings of a tenant: one row with a document, which is an object of JSON, and the version that a save has to name.
A document is read over the defaults; before it is written, the options of its select fields and its cost centers are
cleaned.
-/

namespace BookingSystem.Model.CustomizationService

open Base

abbrev Members := List (List Char × Json)

/-- How the runtime reads and writes numbers. -/
structure Runtime where
  isZero : JsonNumber → Bool
  toString : JsonNumber → List Char

/-- A row of `tenant_customizations`. -/
structure SettingsRow where
  tenantId : Uuid
  data : Members
  version : ℕ

instance : Keyed SettingsRow Uuid := ⟨(·.tenantId)⟩

@[simp] theorem key_settingsRow (row : SettingsRow) : (key row : Uuid) = row.tenantId := rfl

/-! ### Documents -/

def member (name : String) (members : Members) : Option Json :=
  (members.find? fun m => m.1 == name.toList).map (·.2)

def setMember (name : String) (value : Json) (members : Members) : Members :=
  members.map fun m => if m.1 = name.toList then (m.1, value) else m

def text (s : String) : Json := .str s.toList

theorem digits_of_all {cs : List Char} (h : (cs.all fun c => "0123456789+-.eE".toList.contains c) = true) :
    ∀ c ∈ cs, c ∈ "0123456789+-.eE".toList := by
  simpa only [List.all_eq_true, List.contains_eq_mem, decide_eq_true_eq] using h

/-- The number that is spelt like this. -/
def number (literal : List Char) (hne : literal ≠ [])
    (h : (literal.all fun c => "0123456789+-.eE".toList.contains c) = true) : Json :=
  .num ⟨literal, hne, digits_of_all h⟩

def defaultCustomization : Members :=
  [("brand_name", text "FSD MRBS"),
    ("brand_primary", text "#002147"),
    ("brand_secondary", text "#475569"),
    ("brand_accent", text "#f59e0b"),
    ("brand_logo_url", text ""),
    ("default_locale", text "en"),
    ("available_locales", .arr [text "en", text "zh-Hant", text "zh-Hans"]),
    ("timezone", text "Asia/Hong_Kong"),
    ("weekend_days", .arr [number ['6'] nofun rfl, number ['7'] nofun rfl]),
    ("calendar_start_hour", number ['8'] nofun rfl),
    ("calendar_end_hour", number ['2', '0'] nofun rfl),
    ("sidebar_modules",
      .arr [text "dashboard", text "calendar", text "search", text "my-bookings", text "reports", text "admin"]),
    ("dashboard_widgets", .arr []),
    ("custom_fields", .arr []),
    ("recurrence_patterns", .arr [text "daily", text "weekly", text "monthly"]),
    ("hko_weather_enabled", .bool true),
    ("govhk_holidays_enabled", .bool false),
    ("govhk_holiday_regions", .arr []),
    ("cost_centers", .arr []),
    ("auto_release", .obj [("grace_minutes".toList, number ['1', '5'] nofun rfl)])].map fun m => (m.1.toList, m.2)

/-- `{ ...defaultCustomization, ...data }`. -/
def merged (data : Members) : Members :=
  (defaultCustomization.map fun m => (m.1, ((data.find? fun d => d.1 == m.1).map (·.2)).getD m.2)) ++
    data.filter fun d => !defaultCustomization.any fun m => m.1 == d.1

/-! ### Cleaning -/

def trimmed (s : List Char) : List Char := (trim (String.ofList s)).toList

/-- `(s || '').trim()` of an option. -/
def optionText (rt : Runtime) : Json → Except HttpError (List Char)
  | .str s => .ok (trimmed s)
  | .null | .bool false => .ok []
  | .num n => if rt.isZero n then .ok [] else .error (.internal "TypeError: (s || \"\").trim is not a function")
  | .bool true | .arr _ | .obj _ => .error (.internal "TypeError: (s || \"\").trim is not a function")

/-- A custom field; only the options of a select field are touched. -/
def sanitiseField (rt : Runtime) : Json → Except HttpError Json
  | .null => .error (.internal "TypeError: Cannot read properties of null (reading 'type')")
  | .obj members =>
    match member "type" members, member "options" members with
    | some (.str type), some (.arr options) =>
      if type = "select".toList then do
        let options ← options.mapM (optionText rt)
        pure (.obj (setMember "options" (.arr ((options.filter (· != [])).map .str)) members))
      else pure (.obj members)
    | _, _ => pure (.obj members)
  | f => pure f

mutual

/-- `String(s ?? '')`; an object whose `toString` is a member of its own has no text. -/
def stringOf (rt : Runtime) : Json → Except HttpError (List Char)
  | .null => .ok []
  | .bool b => .ok (if b then "true".toList else "false".toList)
  | .num n => .ok (rt.toString n)
  | .str s => .ok s
  | .arr xs => do
    let items ← stringsOf rt xs
    pure ([','].intercalate items)
  | .obj members =>
    if (member "toString" members).isSome then
      .error (.internal "TypeError: Cannot convert object to primitive value")
    else .ok "[object Object]".toList

def stringsOf (rt : Runtime) : List Json → Except HttpError (List (List Char))
  | [] => .ok []
  | x :: xs => do
    let s ← stringOf rt x
    let rest ← stringsOf rt xs
    pure (s :: rest)

end

/-- The cost centers: cut at commas and line ends, without spaces around them, empty ones and repetitions. -/
def costCenters (rt : Runtime) (codes : List Json) : Except HttpError (List (List Char)) := do
  let texts ← stringsOf rt codes
  pure (((texts.flatMap fun s => (s.splitOnP fun c => c == '\n' || c == ',').map trimmed).filter (· != [])).eraseDups)

/-- The document that a save writes. -/
def sanitise (rt : Runtime) (incoming : Members) : Except HttpError Members := do
  let incoming ← match member "custom_fields" incoming with
    | some (.arr fields) => do
      let fields ← fields.mapM (sanitiseField rt)
      pure (setMember "custom_fields" (.arr fields) incoming)
    | _ => pure incoming
  let incoming ← match member "cost_centers" incoming with
    | some (.arr codes) => do
      let codes ← costCenters rt codes
      pure (setMember "cost_centers" (.arr (codes.map .str)) incoming)
    | _ => pure incoming
  pure (merged incoming)

/-! ### Reading and writing -/

/-- What `get` and `save` hand out: the document, and the version as `_version`. -/
structure Settings where
  data : Members
  version : ℕ

def settings (row : Option SettingsRow) : Settings :=
  ⟨merged ((row.map (·.data)).getD []), (row.map (·.version)).getD 0⟩

def get (tenantId : Uuid) (rows : Table SettingsRow) : Settings := settings (rows.find? tenantId)

def conflict : HttpError :=
  .conflict "Settings were changed by another administrator. Please reload and try again."

/-- The version that the caller has seen is not that of the row. -/
def isStale (expectedVersion : Option ℕ) (row : Option SettingsRow) : Bool :=
  match row, expectedVersion with
  | some row, some expected => row.version != expected
  | _, _ => false

def nextRow (tenantId : Uuid) (data : Members) (row : Option SettingsRow) : SettingsRow :=
  ⟨tenantId, data, (row.map (·.version)).getD 0 + 1⟩

def save (rt : Runtime) (tenantId : Uuid) (expectedVersion : Option ℕ) (incoming : Members)
    (rows : Table SettingsRow) : Except HttpError (Settings × Table SettingsRow) := do
  let data ← sanitise rt incoming
  let row := rows.find? tenantId
  require (!isStale expectedVersion row) conflict
  let next := nextRow tenantId data row
  match row with
  | some _ => pure (⟨data, next.version⟩, rows.save next)
  | none => do
    let rows ← found (rows.insert? next) (.internal "duplicate key value violates unique constraint")
    pure (⟨data, next.version⟩, rows)

end BookingSystem.Model.CustomizationService
