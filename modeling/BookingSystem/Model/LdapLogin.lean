import BookingSystem.Model.Federation

/-!
# The filter of a login

What `ldapLogin` of `SsoService` asks the directory: the filter of the provider with the name in it. `replace` of
JavaScript reads signs in the text it puts in.
-/

namespace BookingSystem.Model.LdapLogin

def escapeChar (c : Char) : List Char :=
  if c = '\\' then "\\5c".toList
  else if c = '*' then "\\2a".toList
  else if c = '(' then "\\28".toList
  else if c = ')' then "\\29".toList
  else [c]

def escapeLdapFilter (input : List Char) : List Char := input.flatMap escapeChar

/-! ### `String.prototype.replace` -/

def backquote : Char := Char.ofNat 0x60

def apostrophe : Char := Char.ofNat 0x27

/-- What stands before and after the first place of a pattern. -/
def cut (pattern : List Char) : List Char → Option (List Char × List Char)
  | [] => if pattern = [] then some ([], []) else none
  | c :: s =>
    if pattern.isPrefixOf (c :: s) then some ([], (c :: s).drop pattern.length)
    else (cut pattern s).map fun p => (c :: p.1, p.2)

/-- The text put in for a pattern that is a text itself: there are no groups that a number or a name could stand for. -/
def getSubstitution (matched before after : List Char) : List Char → List Char
  | [] => []
  | [c] => [c]
  | c :: d :: s =>
    if c = '$' ∧ d = '$' then '$' :: getSubstitution matched before after s
    else if c = '$' ∧ d = '&' then matched ++ getSubstitution matched before after s
    else if c = '$' ∧ d = backquote then before ++ getSubstitution matched before after s
    else if c = '$' ∧ d = apostrophe then after ++ getSubstitution matched before after s
    else c :: getSubstitution matched before after (d :: s)

def replace (s pattern replacement : List Char) : List Char :=
  match cut pattern s with
  | none => s
  | some (before, after) => before ++ getSubstitution pattern before after replacement ++ after

/-! ### `ldapLogin` -/

def placeholder : List Char := "\x7busername\x7d".toList

def defaultFilter : List Char := "(uid=\x7busername\x7d)".toList

/-- `cfg.searchFilter` may be missing or empty. -/
def ldapFilter (searchFilter : Option (List Char)) (username : List Char) : List Char :=
  let template := match searchFilter with
    | none => defaultFilter
    | some [] => defaultFilter
    | some s => s
  replace template placeholder (escapeLdapFilter username)

end BookingSystem.Model.LdapLogin
