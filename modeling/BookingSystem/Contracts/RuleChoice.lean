import Mathlib.Data.String.Basic
import BookingSystem.Base.FirstOf
import BookingSystem.Service.Chains

/-!
# Which approval rule is chosen

Both stacks say that a rule for the resource goes before one for its asset type, that before one for the department, and
that before one for the tenant. Both take the first rule that matches in the order of the priorities, whatever its
scope, and the orders that their queries ask for leave rules of one priority in any order (TypeScript) or in that of
their names (Go). They choose as they say, and both the same rule, exactly if one of the rules that match has a lower
priority number than all others and none of them is more specific (`chooses_iff`).
-/

namespace BookingSystem.Contracts.RuleChoice

open Base Model Model.ApprovalsService

/-! ### The two loops -/

/-- How the database compares names. -/
structure Collation where
  le : String → String → Bool
  trans : ∀ a b c, le a b = true → le b c = true → le a c = true
  total : ∀ a b, (le a b || le b a) = true

def byPriority (r r' : ApprovalRule) : Bool := r.priority ≤ r'.priority

/-- `ORDER BY priority, name`. -/
def byPriorityAndName (names : Collation) (r r' : ApprovalRule) : Bool :=
  r.priority < r'.priority || (r.priority == r'.priority && names.le r.name r'.name)

def tenantRules (rules : Table ApprovalRule) (tenantId : Uuid) : List ApprovalRule :=
  rules.rows.filter fun r => r.tenantId == tenantId

def activeRules (rules : Table ApprovalRule) (tenantId : Uuid) : List ApprovalRule :=
  rules.rows.filter fun r => r.tenantId == tenantId && r.isActive

/-- The loop of `matchRule` in TypeScript, over the rules as they were returned. -/
def firstMatch (res : Resource) (all : List ApprovalRule) : Option ApprovalRule :=
  all.find? fun r => scopeMatches r.scopeType r.scopeValue res

def goScope : ApprovalScopeType → Service.ScopeType
  | .resource => .resource
  | .assetType => .assetType
  | .department => .department
  | .tenant => .tenant

def goLevel (lvl : ApprovalLevel) : Service.Level where
  name := lvl.name
  approverUserIds := lvl.approverUserIds
  approverRole := lvl.approverRole
  minGrade := lvl.minGrade
  autoAfterHours := lvl.autoAfterHours
  dependencies := lvl.dependencies

/-- `scanRule`: the row as the Go service reads it. -/
def scanRule (r : ApprovalRule) : Service.Rule where
  id := r.id
  tenantId := r.tenantId
  scopeType := goScope r.scopeType
  scopeValue := r.scopeValue
  levels := r.levels.map goLevel
  isActive := r.isActive

/-- The resource as the Go service reads it. -/
def scanResource (res : Resource) : Service.Resource where
  id := res.id
  tenantId := res.tenantId
  assetType := res.assetType
  location := res.location.getD ""
  departmentId := res.departmentId.getD ""
  capacity := res.capacity
  requiresApproval := res.requiresApproval
  isActive := res.isActive
  parentResourceId := res.parentResourceId
  bookingMode := res.bookingMode
  sharedCapacity := res.sharedCapacity

/-- `matchRule` in Go, over the rules as `List` returned them. -/
def goMatch (res : Resource) (all : List ApprovalRule) : Option Service.Rule :=
  Service.matchRule (all.map scanRule) (scanResource res)

/-! ### What is asked of the choice -/

def specificity : ApprovalScopeType → ℕ
  | .resource => 3
  | .assetType => 2
  | .department => 1
  | .tenant => 0

/-- The rule applies to the resource. -/
def Matches (res : Resource) (r : ApprovalRule) : Prop := scopeMatches r.scopeType r.scopeValue res = true

instance (res : Resource) (r : ApprovalRule) : Decidable (Matches res r) := inferInstanceAs (Decidable (_ = true))

/-- A rule of the most specific scope that matches, with the lowest priority number in it; none if none matches. -/
def MostSpecific (active : List ApprovalRule) (res : Resource) : Option ApprovalRule → Prop
  | none => ∀ r ∈ active, ¬ Matches res r
  | some r => r ∈ active ∧ Matches res r ∧ ∀ r' ∈ active, Matches res r' →
      specificity r'.scopeType ≤ specificity r.scopeType ∧
        (specificity r'.scopeType = specificity r.scopeType → r.priority ≤ r'.priority)

/-- Both stacks choose as they say, and the same rule, whatever their queries return. -/
structure Chooses (names : Collation) (rules : Table ApprovalRule) (tenantId : Uuid) (res : Resource) : Prop where
  typescript : ∀ l, Answer byPriority (activeRules rules tenantId) l →
    MostSpecific (activeRules rules tenantId) res (firstMatch res l)
  go : ∀ l, Answer (byPriorityAndName names) (tenantRules rules tenantId) l →
    ∃ o, goMatch res l = o.map scanRule ∧ MostSpecific (activeRules rules tenantId) res o
  same : ∀ l l', Answer byPriority (activeRules rules tenantId) l →
    Answer (byPriorityAndName names) (tenantRules rules tenantId) l' →
    goMatch res l' = (firstMatch res l).map scanRule

/-- No rule matches, or one that matches comes before all others that do, and none of these is more specific. -/
def Clear (rules : Table ApprovalRule) (tenantId : Uuid) (res : Resource) : Prop :=
  (∀ r ∈ activeRules rules tenantId, ¬ Matches res r) ∨
    ∃ r ∈ activeRules rules tenantId, Matches res r ∧ ∀ r' ∈ activeRules rules tenantId, Matches res r' → r' ≠ r →
      r.priority < r'.priority ∧ specificity r'.scopeType ≤ specificity r.scopeType

section Choice

variable {names : Collation} {rules : Table ApprovalRule} {tenantId : Uuid} {res : Resource} {r r' : ApprovalRule}
  {l : List ApprovalRule}

theorem mem_activeRules : r ∈ activeRules rules tenantId ↔ r ∈ tenantRules rules tenantId ∧ r.isActive = true := by
  simp [activeRules, tenantRules, and_assoc]

/-! ### The orders -/

theorem byPriority_trans (a b c : ApprovalRule) (h : byPriority a b = true) (h' : byPriority b c = true) :
    byPriority a c = true := by
  simp only [byPriority, decide_eq_true_eq] at *
  omega

theorem byPriority_total (a b : ApprovalRule) : (byPriority a b || byPriority b a) = true := by
  simp only [byPriority, Bool.or_eq_true, decide_eq_true_eq]
  omega

theorem byPriorityAndName_iff : byPriorityAndName names r r' = true ↔
    r.priority < r'.priority ∨ r.priority = r'.priority ∧ names.le r.name r'.name = true := by
  simp [byPriorityAndName]

theorem byPriorityAndName_trans (a b c : ApprovalRule) (h : byPriorityAndName names a b = true)
    (h' : byPriorityAndName names b c = true) : byPriorityAndName names a c = true := by
  rw [byPriorityAndName_iff] at *
  rcases h with h | ⟨h, hn⟩
  · left
    omega
  · rcases h' with h' | ⟨h', hn'⟩
    · left
      omega
    · exact .inr ⟨h.trans h', names.trans _ _ _ hn hn'⟩

theorem byPriorityAndName_total (a b : ApprovalRule) :
    (byPriorityAndName names a b || byPriorityAndName names b a) = true := by
  rw [Bool.or_eq_true, byPriorityAndName_iff, byPriorityAndName_iff]
  have hnames := names.total a.name b.name
  rw [Bool.or_eq_true] at hnames
  rcases lt_trichotomy a.priority b.priority with h | h | h
  · exact .inl (.inl h)
  · exact hnames.imp (fun hn => .inr ⟨h, hn⟩) fun hn => .inr ⟨h.symm, hn⟩
  · exact .inr (.inl h)

/-! ### What each loop finds -/

theorem goMatch_eq (l : List ApprovalRule) :
    goMatch res l = (l.find? fun r => r.isActive && scopeMatches r.scopeType r.scopeValue res).map scanRule := by
  have hscan : ∀ r, ((scanRule r).isActive && (scanRule r).applies (scanResource res)) =
      (r.isActive && scopeMatches r.scopeType r.scopeValue res) := by
    intro r
    cases hscope : r.scopeType <;> simp [scanRule, scanResource, Service.Rule.applies, goScope, scopeMatches, hscope]
  rw [goMatch, Service.matchRule, List.find?_map]
  congr 2
  funext r
  exact hscan r

theorem firstMatch_some (hl : Answer byPriority (activeRules rules tenantId) l) (h : firstMatch res l = some r) :
    r ∈ activeRules rules tenantId ∧ Matches res r ∧
      ∀ r' ∈ activeRules rules tenantId, Matches res r' → r.priority ≤ r'.priority := by
  obtain ⟨hmem, hmatch, hleast⟩ := hl.find?_least byPriority_total h
  exact ⟨hmem, hmatch, fun r' hr' hm => of_decide_eq_true (hleast r' hr' hm)⟩

/-- Go finds a rule of the lowest priority number, too. -/
theorem goMatch_some (hl : Answer (byPriorityAndName names) (tenantRules rules tenantId) l)
    (h : (l.find? fun r => r.isActive && scopeMatches r.scopeType r.scopeValue res) = some r) :
    r ∈ activeRules rules tenantId ∧ Matches res r ∧
      ∀ r' ∈ activeRules rules tenantId, Matches res r' → r.priority ≤ r'.priority := by
  obtain ⟨hmem, htest, hleast⟩ := hl.find?_least byPriorityAndName_total h
  rw [Bool.and_eq_true] at htest
  refine ⟨mem_activeRules.2 ⟨hmem, htest.1⟩, htest.2, fun r' hr' hm => ?_⟩
  obtain ⟨hr', hactive⟩ := mem_activeRules.1 hr'
  have hle := hleast r' hr' (by rw [hactive, Bool.true_and]; exact hm)
  rw [byPriorityAndName_iff] at hle
  omega

theorem exists_firstMatch (hr : r ∈ activeRules rules tenantId) (hm : Matches res r)
    (hleast : ∀ r' ∈ activeRules rules tenantId, Matches res r' → r.priority ≤ r'.priority) :
    ∃ l, Answer byPriority (activeRules rules tenantId) l ∧ firstMatch res l = some r :=
  exists_answer byPriority_trans byPriority_total hr hm fun r' hr' hm' => decide_eq_true (hleast r' hr' hm')

/-- The rule of a clear choice is the only one of the lowest priority number. -/
theorem eq_of_least (hr : r ∈ activeRules rules tenantId) (hm : Matches res r)
    (hfirst : ∀ r' ∈ activeRules rules tenantId, Matches res r' → r' ≠ r → r.priority < r'.priority ∧
      specificity r'.scopeType ≤ specificity r.scopeType)
    (hr' : r' ∈ activeRules rules tenantId ∧ Matches res r' ∧
      ∀ x ∈ activeRules rules tenantId, Matches res x → r'.priority ≤ x.priority) : r' = r := by
  by_contra hne
  have hlt := (hfirst r' hr'.1 hr'.2.1 hne).1
  have hle := hr'.2.2 r hr hm
  omega

theorem mostSpecific_of_clear (hr : r ∈ activeRules rules tenantId) (hm : Matches res r)
    (hfirst : ∀ r' ∈ activeRules rules tenantId, Matches res r' → r' ≠ r → r.priority < r'.priority ∧
      specificity r'.scopeType ≤ specificity r.scopeType) :
    MostSpecific (activeRules rules tenantId) res (some r) := by
  refine ⟨hr, hm, fun r' hr' hm' => ?_⟩
  by_cases he : r' = r
  · rw [he]
    exact ⟨le_rfl, fun _ => le_rfl⟩
  · have hother := hfirst r' hr' hm' he
    exact ⟨hother.2, fun _ => hother.1.le⟩

theorem chooses_of_clear (h : Clear rules tenantId res) : Chooses names rules tenantId res := by
  -- in any order, either stack finds the same rule
  obtain ⟨o, hts, hgo, hright⟩ : ∃ o, (∀ l, Answer byPriority (activeRules rules tenantId) l → firstMatch res l = o) ∧
      (∀ l, Answer (byPriorityAndName names) (tenantRules rules tenantId) l → goMatch res l = o.map scanRule) ∧
      MostSpecific (activeRules rules tenantId) res o := by
    rcases h with hnone | ⟨r, hr, hm, hfirst⟩
    · refine ⟨none, fun l hl => hl.find?_eq_none.2 hnone, fun l hl => ?_, hnone⟩
      rw [goMatch_eq, hl.find?_eq_none.2]
      intro r hr htest
      rw [Bool.and_eq_true] at htest
      exact hnone r (mem_activeRules.2 ⟨hr, htest.1⟩) htest.2
    · refine ⟨some r, fun l hl => ?_, fun l hl => ?_, mostSpecific_of_clear hr hm hfirst⟩
      · cases hfind : firstMatch res l with
        | none => exact absurd hm (hl.find?_eq_none.1 hfind r hr)
        | some r' => rw [eq_of_least hr hm hfirst (firstMatch_some hl hfind)]
      · rw [goMatch_eq]
        cases hfind : l.find? fun r => r.isActive && scopeMatches r.scopeType r.scopeValue res with
        | none =>
          obtain ⟨htenant, hactive⟩ := mem_activeRules.1 hr
          refine absurd ?_ (hl.find?_eq_none.1 hfind r htenant)
          rw [hactive, Bool.true_and]
          exact hm
        | some r' => rw [eq_of_least hr hm hfirst (goMatch_some hl hfind)]
  refine ⟨fun l hl => ?_, fun l hl => ⟨o, hgo l hl, hright⟩, fun l l' hl hl' => ?_⟩
  · rw [hts l hl]
    exact hright
  · rw [hgo l' hl', hts l hl]

theorem clear_of_chooses (h : Chooses names rules tenantId res) : Clear rules tenantId res := by
  have hanswer := answer_mergeSort byPriority_trans byPriority_total (activeRules rules tenantId)
  cases hfind : firstMatch res ((activeRules rules tenantId).mergeSort byPriority) with
  | none => exact .inl (hanswer.find?_eq_none.1 hfind)
  | some r =>
    obtain ⟨hr, hm, hleast⟩ := firstMatch_some hanswer hfind
    have hright := h.typescript _ hanswer
    rw [hfind] at hright
    refine .inr ⟨r, hr, hm, fun r' hr' hm' hne => ⟨?_, (hright.2.2 r' hr' hm').1⟩⟩
    -- of two rules of the lowest priority number, TypeScript may find either, and Go finds one
    by_contra hnot
    have hle := hleast r' hr' hm'
    obtain ⟨l, hl, hl'⟩ := exists_firstMatch hr' hm' fun x hx hmx => by
      have hx := hleast x hx hmx
      omega
    have hgo : Answer (byPriorityAndName names) (tenantRules rules tenantId) _ :=
      answer_mergeSort byPriorityAndName_trans byPriorityAndName_total _
    have hsame := (h.same _ _ hanswer hgo).symm.trans (h.same _ _ hl hgo)
    rw [hfind, hl'] at hsame
    have hid : r.id = r'.id := congrArg Service.Rule.id (Option.some.inj hsame)
    exact hne (Table.eq_of_key (List.mem_filter.1 hr').1 (List.mem_filter.1 hr).1 hid.symm)

/-- **The choice.** -/
theorem chooses_iff : Chooses names rules tenantId res ↔ Clear rules tenantId res :=
  ⟨clear_of_chooses, chooses_of_clear⟩

end Choice

def codePoints : Collation where
  le a b := a ≤ b
  trans a b c h h' := decide_eq_true (le_trans (of_decide_eq_true h) (of_decide_eq_true h'))
  total a b := by
    rw [Bool.or_eq_true, decide_eq_true_eq, decide_eq_true_eq]
    exact le_total a b

theorem answer_insertionSort (rules : List ApprovalRule) :
    Answer byPriority rules (rules.insertionSort fun r r' => r.priority ≤ r'.priority) := by
  have htotal : Std.Total fun r r' : ApprovalRule => r.priority ≤ r'.priority := ⟨fun a b => le_total _ _⟩
  have htrans : IsTrans ApprovalRule fun r r' => r.priority ≤ r'.priority := ⟨fun a b c => le_trans⟩
  refine ⟨List.perm_insertionSort _ _, ?_⟩
  refine (List.pairwise_insertionSort (fun r r' : ApprovalRule => r.priority ≤ r'.priority) _).imp ?_
  exact fun h => decide_eq_true h

theorem mostSpecific_matchRule {env : Env} {tenantId : Uuid} {res : Resource} (h : Clear env.rules tenantId res) :
    MostSpecific (activeRules env.rules tenantId) res (matchRule env tenantId res) := by
  have hchooses : Chooses codePoints env.rules tenantId res := chooses_of_clear h
  exact hchooses.typescript _ (answer_insertionSort _)

/-! ### A rule for the tenant before one for the room -/

def forTenant : ApprovalRule where
  id := "all"
  tenantId := "t"
  scopeType := .tenant
  priority := 10
  levels := []

def forRoom : ApprovalRule where
  id := "one"
  tenantId := "t"
  scopeType := .resource
  scopeValue := "room"
  levels := []

theorem tenant_rule_first : ¬ ∀ names rules tenantId res, Chooses names rules tenantId res := by
  intro h
  have hright := (h codePoints ⟨[forTenant, forRoom], by decide⟩ "t" { id := "room", tenantId := "t" }).typescript
    [forTenant, forRoom] ⟨.refl _, by decide⟩
  have hless := (hright.2.2 forRoom (by decide) (by decide)).1
  revert hless
  decide

end BookingSystem.Contracts.RuleChoice
