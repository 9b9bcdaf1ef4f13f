import BookingSystem.Base.Json
import BookingSystem.Model.Federation

/-!
# Provisioning of users

The class `ScimService`, as far as it creates, replaces and patches users. Bodies are JSON values that nothing has
checked, and what is taken from them goes into the row as it is (`Model.ScimService` has the operations on typed rows).
Nothing stands for an exception that is thrown, and so for a write that the unique index on tenant and username refuses.
-/

namespace BookingSystem.Service.Scim

open Base (Json JsonNumber Keyed Table)
open Model (Instant Uuid)

/-! ### Values of JavaScript -/

/-- How a number is written as a text, and which numbers are zero. -/
structure Numbers where
  text : JsonNumber → List Char
  isZero : JsonNumber → Bool

/-- `v.name`: a missing property is undefined, and null has none. -/
def property (name : String) : Json → Option (Option Json)
  | .null => none
  | .obj members => some ((members.reverse.find? fun m => decide (m.1 = name.toList)).map Prod.snd)
  | _ => some none

/-- `Boolean(v)`. -/
def truthy (js : Numbers) : Option Json → Bool
  | none => false
  | some .null => false
  | some (.bool b) => b
  | some (.num n) => !js.isZero n
  | some (.str s) => s != []
  | some (.arr _) => true
  | some (.obj _) => true

def isNull : Json → Bool
  | .null => true
  | _ => false

mutual

/-- `String(v)`. -/
def text (js : Numbers) : Json → List Char
  | .null => "null".toList
  | .bool b => if b then "true".toList else "false".toList
  | .num n => js.text n
  | .str s => s
  | .arr xs => [','].intercalate (items js xs)
  | .obj _ => "[object Object]".toList

def items (js : Numbers) : List Json → List (List Char)
  | [] => []
  | x :: xs => (if isNull x then [] else text js x) :: items js xs

end

@[simp] theorem text_str (js : Numbers) (s : List Char) : text js (.str s) = s := rfl

def textOf (js : Numbers) : Option Json → List Char
  | none => "undefined".toList
  | some v => text js v

/-- `toLowerCase`, for texts that are compared with words of ASCII letters without a k. -/
def lower (s : List Char) : List Char := s.map Char.toLower

def word (js : Numbers) (v : Option Json) : List Char := lower (if truthy js v then textOf js v else [])

def resolveScimRole (title : Option Json) : String :=
  Model.ScimService.resolveScimRole (match title with
    | some (.str s) => some (.text (String.ofList s))
    | _ => none)

/-! ### Users -/

/-- What the service reads and writes of a user. -/
structure User where
  id : Uuid
  tenantId : Uuid
  username : Json
  role : String
  isActive : Json
  dn : Json

instance : Keyed User Uuid := ⟨User.id⟩

def findOne (users : Table User) (tenantId id : Uuid) : Option User :=
  (users.find? id).filter fun u => decide (u.tenantId = tenantId)

/-- The row gets its id from the database. -/
def createUser (js : Numbers) (users : Table User) (tenantId : Uuid) (body : Json) (id : Uuid) :
    Option (Table User) := do
  let userName ← property "userName" body
  let displayName ← property "displayName" body
  let name ← property "name" body
  let active ← property "active" body
  let title ← property "title" body
  if !truthy js userName then none
  else
    let userName := userName.getD .null
    let formatted := ((name.bind (property "formatted")).getD none)
    let dn := if truthy js displayName then displayName.getD .null
      else if truthy js formatted then formatted.getD .null
      else userName
    let isActive := match active with
      | none => .bool true
      | some .null => .bool true
      | some v => v
    users.insert? ⟨id, tenantId, userName, resolveScimRole title, isActive, dn⟩

def replaceUser (js : Numbers) (users : Table User) (tenantId id : Uuid) (body : Json) : Option (Table User) := do
  let u ← findOne users tenantId id
  let userName ← property "userName" body
  let active ← property "active" body
  let title ← property "title" body
  let displayName ← property "displayName" body
  let username := match userName with
    | none => u.username
    | some .null => u.username
    | some v => v
  some (users.save { u with
    username := username
    isActive := active.getD u.isActive
    role := if truthy js title then resolveScimRole title else u.role
    dn := if truthy js displayName then displayName.getD .null else u.dn })

/-- What `replaceUser` makes of the row it found. -/
def replaced (js : Numbers) (u : User) (body : Json) : Option User := do
  let userName ← property "userName" body
  let active ← property "active" body
  let title ← property "title" body
  let displayName ← property "displayName" body
  let username := match userName with
    | none => u.username
    | some .null => u.username
    | some v => v
  some { u with
    username := username
    isActive := active.getD u.isActive
    role := if truthy js title then resolveScimRole title else u.role
    dn := if truthy js displayName then displayName.getD .null else u.dn }

/-- What an operation does with the user, by its name and its path. -/
def patched (js : Numbers) (u : User) (opName path : List Char) (val : Option Json) : User :=
  if opName = "replace".toList ∨ opName = "add".toList then
    if path = "active".toList then { u with isActive := .bool (truthy js val) }
    else if path = "displayname".toList then { u with dn := .str (textOf js val) }
    else if path = "title".toList then { u with role := resolveScimRole val }
    else if path = "username".toList then { u with username := .str (textOf js val) }
    else u
  else if opName = "remove".toList ∧ path = "active".toList then { u with isActive := .bool false }
  else u

/-- One turn of the loop of `patchUser`. -/
def patchOperation (js : Numbers) (u : User) (op : Json) : Option User := do
  let path ← property "path" op
  let val ← property "value" op
  let name ← property "op" op
  some (patched js u (word js name) (word js path) val)

/-- `body.Operations || []` as what the loop goes through: a text has its characters as items. -/
def operations (js : Numbers) (body : Json) : Option (List Json) := do
  let ops ← property "Operations" body
  if !truthy js ops then some []
  else
    match ops with
    | some (.arr xs) => some xs
    | some (.str s) => some (s.map fun c => .str [c])
    | _ => none

def patchUser (js : Numbers) (users : Table User) (tenantId id : Uuid) (body : Json) : Option (Table User) := do
  let u ← findOne users tenantId id
  let ops ← operations js body
  let u ← ops.foldlM (patchOperation js) u
  some (users.save u)

/-! ### Whole rows -/

/-- A row with all its columns; `others` is whatever has the columns that the service passes over. -/
structure UserRow (C : Type) extends User where
  createdAt : Instant
  updatedAt : Instant
  others : C

section Rows

variable {C : Type} (js : Numbers) (date : Instant → Json)

instance : Keyed (UserRow C) Uuid := ⟨fun r => r.id⟩

def findRow (rows : Table (UserRow C)) (tenantId id : Uuid) : Option (UserRow C) :=
  (rows.find? id).filter fun r => decide (r.tenantId = tenantId)

def shownName (u : User) : Json := if truthy js (some u.dn) then u.dn else u.username

/-- `date` is how a time is written. -/
def toScimUser (r : UserRow C) : Json :=
  .obj [("schemas".toList, .arr [.str "urn:ietf:params:scim:schemas:core:2.0:User".toList]),
    ("id".toList, .str r.id.toList),
    ("userName".toList, r.username),
    ("displayName".toList, shownName js r.toUser),
    ("active".toList, r.isActive),
    ("title".toList, .str r.role.toList),
    ("name".toList, .obj [("formatted".toList, shownName js r.toUser)]),
    ("meta".toList, .obj [("resourceType".toList, .str "User".toList),
      ("location".toList, .str ("/scim/v2/Users/".toList ++ r.id.toList)),
      ("created".toList, date r.createdAt),
      ("lastModified".toList, date r.updatedAt)])]

def getUser (rows : Table (UserRow C)) (tenantId id : Uuid) : Option Json :=
  (findRow rows tenantId id).map (toScimUser js date)

/-- `replaceUser` on whole rows; saving a row may give it another `updatedAt`. -/
def replaceRow (updatedAt : Instant) (rows : Table (UserRow C)) (tenantId id : Uuid) (body : Json) :
    Option (Table (UserRow C)) := do
  let r ← findRow rows tenantId id
  let u ← replaced js r.toUser body
  some (rows.save { r with toUser := u, updatedAt := updatedAt })

end Rows

end BookingSystem.Service.Scim
