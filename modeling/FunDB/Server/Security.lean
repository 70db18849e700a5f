import FunDB.Core.Record
import FunDB.Foundation.Buckets
import FunDB.Foundation.Execution
import FunDB.Foundation.Recency
import FunDB.Foundation.Text
import Mathlib.Data.Finset.Basic
import Mathlib.Data.List.DropRight

/-! # Security

Permissions of roles on collections, queries that are scoped to a tenant, and a
bounded audit log. -/

namespace FunDB.Security

open Text Recency Execution

/-! ## Roles and permissions -/

inductive Role where
  | admin
  | readWrite
  | readOnly
  | custom (name : String)
deriving DecidableEq, Repr

inductive Permission where
  | read
  | write
  | delete
  | grant
  | admin
deriving DecidableEq, Repr

structure TenantContext where
  tenantId : Uuid
  agentId : Uuid
  roles : List Role
deriving DecidableEq, Repr

/-- The permissions of a role on a collection. The collection `*` stands for all. -/
structure RbacEngine where
  grants : Dict String (Dict Role (Finset Permission))

namespace RbacEngine

def grant (engine : RbacEngine) (collection : String) (role : Role) (permission : Permission) :
    RbacEngine :=
  let roleMap := (engine.grants.lookup collection).getD ∅
  let perms := (roleMap.lookup role).getD ∅
  ⟨engine.grants.insert collection (roleMap.insert role (insert permission perms))⟩

def revoke (engine : RbacEngine) (collection : String) (role : Role) (permission : Permission) :
    RbacEngine :=
  match engine.grants.lookup collection with
  | none => engine
  | some roleMap =>
      match roleMap.lookup role with
      | none => engine
      | some perms =>
          ⟨engine.grants.insert collection (roleMap.insert role (perms.erase permission))⟩

def new : RbacEngine :=
  let engine : RbacEngine := ⟨∅⟩
  let engine := [Permission.read, .write, .delete, .grant, .admin].foldl
    (fun engine perm => engine.grant "*" .admin perm) engine
  ((engine.grant "*" .readWrite .read).grant "*" .readWrite .write).grant "*" .readOnly .read

def rolePermissionsOn (engine : RbacEngine) (role : Role) (collection : String) :
    Option (Finset Permission) :=
  (engine.grants.lookup collection).bind fun roleMap => roleMap.lookup role

def roleHasPermissionOn (engine : RbacEngine) (role : Role) (collection : String)
    (permission : Permission) : Bool :=
  ((engine.grants.lookup collection).bind fun roleMap => roleMap.lookup role).elim false
    fun perms => permission ∈ perms

def check (engine : RbacEngine) (ctx : TenantContext) (collection : String)
    (permission : Permission) : Bool :=
  ctx.roles.any fun role =>
    engine.roleHasPermissionOn role collection permission ||
      engine.roleHasPermissionOn role "*" permission

/-- The union over the roles. The vector has no order of its own. -/
def permissionsFor (engine : RbacEngine) (ctx : TenantContext) (collection : String) :
    Finset Permission :=
  ctx.roles.foldl
    (fun result role =>
      result ∪ (engine.rolePermissionsOn role collection).getD ∅ ∪
        (engine.rolePermissionsOn role "*").getD ∅) ∅

end RbacEngine

/-! ## Changes of permissions -/

/-- A call of `grant` or `revoke`. -/
structure Change where
  allows : Bool
  collection : String
  role : Role
  permission : Permission
deriving DecidableEq, Repr

namespace Change

def apply (engine : RbacEngine) (change : Change) : RbacEngine :=
  if change.allows then engine.grant change.collection change.role change.permission
  else engine.revoke change.collection change.role change.permission

def Concerns (change : Change) (role : Role) (collection : String) (permission : Permission) :
    Prop :=
  change.collection = collection ∧ change.role = role ∧ change.permission = permission

instance (change : Change) (role : Role) (collection : String) (permission : Permission) :
    Decidable (change.Concerns role collection permission) :=
  inferInstanceAs (Decidable (_ ∧ _ ∧ _))

end Change

/-- What a role may do on a collection before any change. -/
def builtIn (role : Role) (collection : String) (permission : Permission) : Bool :=
  collection == "*" &&
    match role with
    | .admin => true
    | .readWrite => permission == .read || permission == .write
    | .readOnly => permission == .read
    | .custom _ => false

/-- The last change that concerns the permission decides it. -/
def decided (changes : List Change) (role : Role) (collection : String)
    (permission : Permission) : Bool :=
  ((changes.filter (·.Concerns role collection permission)).getLast?.map Change.allows).getD
    (builtIn role collection permission)

namespace RbacEngine

variable (engine : RbacEngine) (collection other : String) (role who : Role)
variable (permission wanted : Permission)

theorem roleHasPermissionOn_eq :
    engine.roleHasPermissionOn role collection permission =
      decide (permission ∈ (engine.rolePermissionsOn role collection).getD ∅) := by
  rw [roleHasPermissionOn, rolePermissionsOn]
  cases (engine.grants.lookup collection).bind fun roleMap => roleMap.lookup role with
  | none => rfl
  | some perms => rfl

theorem rolePermissionsOn_eq :
    engine.rolePermissionsOn role collection =
      ((engine.grants.lookup collection).getD ∅).lookup role := by
  rw [rolePermissionsOn]
  cases engine.grants.lookup collection with
  | none => rfl
  | some roleMap => rfl

/-- The permissions of a role are replaced, those of all others stay. -/
theorem rolePermissionsOn_set (perms : Finset Permission) :
    (RbacEngine.mk (engine.grants.insert collection
        (((engine.grants.lookup collection).getD ∅).insert role perms))).rolePermissionsOn
          who other =
      if other = collection ∧ who = role then some perms
      else engine.rolePermissionsOn who other := by
  rw [rolePermissionsOn_eq, rolePermissionsOn_eq, Dict.lookup_insert]
  by_cases here : other = collection
  · rw [if_pos here, here, Option.getD_some, Dict.lookup_insert]
    by_cases same : who = role
    · rw [if_pos same, if_pos ⟨rfl, same⟩]
    · rw [if_neg same, if_neg fun both => same both.2]
  · rw [if_neg here, if_neg fun both => here both.1]

theorem roleHasPermissionOn_grant :
    (engine.grant collection role permission).roleHasPermissionOn who other wanted =
      if collection = other ∧ role = who ∧ permission = wanted then true
      else engine.roleHasPermissionOn who other wanted := by
  rw [roleHasPermissionOn_eq, roleHasPermissionOn_eq, grant, rolePermissionsOn_set]
  by_cases place : other = collection ∧ who = role
  · rw [if_pos place, place.1, place.2, Option.getD_some, ← rolePermissionsOn_eq]
    by_cases same : permission = wanted
    · rw [if_pos ⟨rfl, rfl, same⟩, same]
      exact decide_eq_true (Finset.mem_insert_self _ _)
    · rw [if_neg fun all => same all.2.2]
      exact decide_eq_decide.mpr
        (Finset.mem_insert.trans (or_iff_right fun equal => same equal.symm))
  · rw [if_neg place, if_neg fun all => place ⟨all.1.symm, all.2.1.symm⟩]

theorem roleHasPermissionOn_revoke :
    (engine.revoke collection role permission).roleHasPermissionOn who other wanted =
      if collection = other ∧ role = who ∧ permission = wanted then false
      else engine.roleHasPermissionOn who other wanted := by
  have absent (none : engine.rolePermissionsOn role collection = Option.none) :
      engine.roleHasPermissionOn who other wanted =
        if collection = other ∧ role = who ∧ permission = wanted then false
        else engine.roleHasPermissionOn who other wanted := by
    split
    · next all =>
        rw [← all.1, ← all.2.1, roleHasPermissionOn_eq, none]
        rfl
    · rfl
  have known := engine.rolePermissionsOn_eq collection role
  unfold revoke
  cases found : engine.grants.lookup collection with
  | none =>
      rw [found] at known
      exact absent known
  | some roleMap =>
      rw [found, Option.getD_some] at known
      dsimp only
      cases held : roleMap.lookup role with
      | none => exact absent (known.trans held)
      | some perms =>
          have set := engine.rolePermissionsOn_set collection other role who
            (perms.erase permission)
          rw [found, Option.getD_some] at set
          dsimp only
          rw [roleHasPermissionOn_eq, roleHasPermissionOn_eq, set]
          by_cases place : other = collection ∧ who = role
          · rw [if_pos place, place.1, place.2, known.trans held, Option.getD_some,
              Option.getD_some]
            by_cases same : permission = wanted
            · rw [if_pos ⟨rfl, rfl, same⟩, same]
              exact decide_eq_false (Finset.notMem_erase _ _)
            · rw [if_neg fun all => same all.2.2]
              exact decide_eq_decide.mpr (Finset.mem_erase.trans
                (and_iff_right fun equal => same equal.symm))
          · rw [if_neg place, if_neg fun all => place ⟨all.1.symm, all.2.1.symm⟩]

theorem roleHasPermissionOn_apply (change : Change) :
    (change.apply engine).roleHasPermissionOn who other wanted =
      if change.Concerns who other wanted then change.allows
      else engine.roleHasPermissionOn who other wanted := by
  rcases change with ⟨allows, collection, role, permission⟩
  cases allows with
  | true => exact engine.roleHasPermissionOn_grant collection other role who permission wanted
  | false => exact engine.roleHasPermissionOn_revoke collection other role who permission wanted

theorem roleHasPermissionOn_new :
    new.roleHasPermissionOn role collection permission = builtIn role collection permission := by
  have nothing : RbacEngine.roleHasPermissionOn ⟨∅⟩ role collection permission = false := rfl
  simp only [new, List.foldl_cons, List.foldl_nil, roleHasPermissionOn_grant, nothing]
  by_cases all : collection = "*"
  · cases role <;> cases permission <;> simp [builtIn, all]
  · have named : ¬"*" = collection := fun same => all same.symm
    simp [builtIn, all, named]

/-- Permissions after any changes: the last change decides, and the built-in rules
where there is none. -/
theorem roleHasPermissionOn_run (changes : List Change) :
    (run Change.apply new changes).roleHasPermissionOn role collection permission =
      decided changes role collection permission := by
  induction changes using List.reverseRecOn with
  | nil => exact roleHasPermissionOn_new collection role permission
  | append_singleton changes change induction =>
      rw [run_concat, roleHasPermissionOn_apply, induction, decided, decided, List.filter_append]
      by_cases concerns : change.Concerns role collection permission
      · have last : [change].filter (·.Concerns role collection permission) = [change] :=
          List.filter_eq_self.mpr fun other member =>
            decide_eq_true (List.mem_singleton.mp member ▸ concerns)
        rw [if_pos concerns, last, List.getLast?_concat]
        rfl
      · have none : [change].filter (·.Concerns role collection permission) = [] :=
          List.filter_eq_nil_iff.mpr fun other member held =>
            concerns (List.mem_singleton.mp member ▸ of_decide_eq_true held)
        rw [if_neg concerns, none, List.append_nil]

theorem mem_permissionsFor_iff (ctx : TenantContext) :
    permission ∈ engine.permissionsFor ctx collection ↔
      engine.check ctx collection permission = true := by
  have union : ∀ (roles : List Role) (start : Finset Permission),
      permission ∈ roles.foldl (fun result role =>
        result ∪ (engine.rolePermissionsOn role collection).getD ∅ ∪
          (engine.rolePermissionsOn role "*").getD ∅) start ↔
        permission ∈ start ∨ ∃ role ∈ roles,
          engine.roleHasPermissionOn role collection permission = true ∨
            engine.roleHasPermissionOn role "*" permission = true := by
    intro roles
    induction roles with
    | nil => simp
    | cons role roles induction =>
        intro start
        rw [List.foldl_cons, induction]
        simp only [Finset.mem_union, roleHasPermissionOn_eq, decide_eq_true_iff, List.mem_cons,
          exists_eq_or_imp, or_assoc]
  rw [permissionsFor, union, check, List.any_eq_true]
  simp only [Finset.notMem_empty, false_or, Bool.or_eq_true]

/-- A context may do what one of its roles was granted last, on the collection or on
all of them. A revocation on the collection does not take away what is granted on
all. -/
theorem check_iff_decided (changes : List Change) (ctx : TenantContext) :
    ((run Change.apply new changes).check ctx collection permission = true ↔
      ∃ role ∈ ctx.roles, ∃ place ∈ [collection, "*"],
        decided changes role place permission = true) ∧
    (permission ∈ (run Change.apply new changes).permissionsFor ctx collection ↔
      (run Change.apply new changes).check ctx collection permission = true) := by
  refine ⟨?_, mem_permissionsFor_iff _ _ _ _⟩
  rw [check, List.any_eq_true]
  simp only [roleHasPermissionOn_run, Bool.or_eq_true, List.mem_cons, List.not_mem_nil, or_false,
    exists_eq_or_imp, exists_eq_left]

end RbacEngine

/-! ## Queries of a tenant -/

variable (ids : UuidDisplay)

inductive SecurityError where
  | invalidQuery (message : String)
deriving DecidableEq, Repr

/-- The query with the condition that its records are the tenant's, or as it is if it
names the tenant. -/
def scopeQuery (query : String) (ctx : TenantContext) : Except SecurityError String :=
  let tenantStr := ids.toText ctx.tenantId
  if contains query "tenant_id" then
    if contains query tenantStr then .ok query
    else
      .error (.invalidQuery ("query references a tenant_id that does not match " ++
        "the current context (" ++ tenantStr ++ ")"))
  else .ok (trimEnd query ++ " AND _tenant_id = '" ++ tenantStr ++ "'")

/-- White space at the end does not matter to a text that holds none. -/
theorem contains_trimEnd {pattern : String} (some : pattern.toList ≠ [])
    (noSpace : ∀ char ∈ pattern.toList, isWhitespace char = false) (text : String) :
    pattern.toList <:+: (trimEnd text).toList ↔ pattern.toList <:+: text.toList := by
  rw [trimEnd, String.toList_ofList]
  have whole : text.toList.rdropWhile isWhitespace ++ text.toList.rtakeWhile isWhitespace =
      text.toList := List.rdropWhile_append_rtakeWhile
  have spaces : ∀ char ∈ text.toList.rtakeWhile isWhitespace, char ∉ pattern.toList := by
    intro char member inPattern
    have space := List.mem_rtakeWhile_imp member
    rw [noSpace char inPattern] at space
    cases space
  conv_rhs => rw [← whole]
  generalize text.toList.rtakeWhile isWhitespace = behind at spaces
  cases behind with
  | nil => rw [List.append_nil]
  | cons space behind =>
      rw [infix_split (spaces space List.mem_cons_self)]
      apply (or_iff_left fun inSpaces => ?_).symm
      rcases List.exists_mem_of_ne_nil _ some with ⟨char, member⟩
      exact spaces char (List.mem_cons_of_mem _ (inSpaces.subset member)) member

/-- The text of another tenant is in a scoped query exactly if it was in the query. -/
theorem contains_narrowed {own other : Uuid} (different : own ≠ other) (query : String) :
    contains (trimEnd query ++ " AND _tenant_id = '" ++ ids.toText own ++ "'") (ids.toText other) =
      contains query (ids.toText other) := by
  have blank : ' ' ∉ (ids.toText other).toList := ids.notMem_toText (by decide)
  have quote : '\'' ∉ (ids.toText other).toList := ids.notMem_toText (by decide)
  have length := ids.length_toText other
  have short : ∀ text : List Char, text.length < 36 → ¬(ids.toText other).toList <:+: text := by
    intro text bound found
    have fits := found.length_le
    omega
  have notOwn : ¬(ids.toText other).toList <:+: (ids.toText own).toList := by
    intro found
    have same := found.eq_of_length (length.trans (ids.length_toText own).symm)
    exact different (ids.injective (String.toList_inj.mp same)).symm
  have shape : (trimEnd query ++ " AND _tenant_id = '" ++ ids.toText own ++ "'").toList =
      (trimEnd query).toList ++ ' ' :: ("AND".toList ++ ' ' :: ("_tenant_id".toList ++
        ' ' :: ("=".toList ++ ' ' :: ([] ++ '\'' :: ((ids.toText own).toList ++ '\'' :: []))))) := by
    simp [String.toList_append]
  rw [Bool.eq_iff_iff, contains_iff, contains_iff, shape, infix_split blank, infix_split blank,
    infix_split blank, infix_split blank, infix_split quote, infix_split quote,
    or_iff_left fun found => ?_]
  · have noSpace : ∀ char ∈ (ids.toText other).toList, isWhitespace char = false := by
      intro char member
      have digits : ∀ digit < 16, isWhitespace (Nat.digitChar digit) = false := by
        decide
      rcases ids.mem_toText _ char member with rfl | ⟨digit, bound, rfl⟩
      · decide
      · exact digits digit bound
    apply contains_trimEnd _ noSpace
    intro empty
    rw [empty] at length
    cases length
  · rcases found with word | name | equals | start | inOwn | finish
    · exact short _ (by decide) word
    · exact short _ (by decide) name
    · exact short _ (by decide) equals
    · exact short _ (by decide) start
    · exact notOwn inOwn
    · exact short _ (by decide) finish

theorem narrowed_holds (query : String) (own : Uuid) :
    contains (trimEnd query ++ " AND _tenant_id = '" ++ ids.toText own ++ "'") "tenant_id" = true ∧
      contains (trimEnd query ++ " AND _tenant_id = '" ++ ids.toText own ++ "'") (ids.toText own) =
        true := by
  rw [contains_iff, contains_iff]
  constructor
  · exact ⟨(trimEnd query).toList ++ " AND _".toList, " = '".toList ++ (ids.toText own).toList ++
      ['\''], by simp [String.toList_append]⟩
  · exact ⟨(trimEnd query).toList ++ " AND _tenant_id = '".toList, ['\''],
      by simp [String.toList_append]⟩

theorem scopeQuery_of_named {query : String} (named : contains query "tenant_id" = true)
    (ctx : TenantContext) {result : String} :
    scopeQuery ids query ctx = .ok result ↔
      contains query (ids.toText ctx.tenantId) = true ∧ query = result := by
  rw [scopeQuery, if_pos named]
  by_cases held : contains query (ids.toText ctx.tenantId) = true
  · rw [if_pos held, Except.ok.injEq, and_iff_right held]
  · rw [if_neg held]
    exact iff_of_false (fun accepted => by cases accepted) fun both => held both.1

/-- Scoping a query twice is scoping it once. What is scoped for one tenant is refused
for another one, unless the query held the text of the other one before. -/
theorem scopeQuery_isolates {query narrowed : String} {own other : TenantContext}
    (scopes : scopeQuery ids query own = .ok narrowed) (different : own.tenantId ≠ other.tenantId) :
    scopeQuery ids narrowed own = .ok narrowed ∧
      ((∃ result, scopeQuery ids narrowed other = .ok result) ↔
        contains query (ids.toText other.tenantId) = true) := by
  by_cases named : contains query "tenant_id" = true
  · have kept := ((scopeQuery_of_named ids named own).mp scopes).2
    rw [← kept] at scopes ⊢
    refine ⟨scopes, ?_⟩
    simp only [scopeQuery_of_named ids named, exists_and_left, exists_eq', and_true]
  · rw [scopeQuery, if_neg named] at scopes
    cases scopes
    have holds := narrowed_holds ids query own.tenantId
    refine ⟨(scopeQuery_of_named ids holds.1 own).mpr ⟨holds.2, rfl⟩, ?_⟩
    simp only [scopeQuery_of_named ids holds.1, exists_and_left, exists_eq', and_true,
      contains_narrowed ids different]

theorem scopeQuery_isolates_orders :
    let own : TenantContext := ⟨.ofByte 1, .ofByte 9, [.readOnly]⟩
    let other : TenantContext := ⟨.ofByte 2, .ofByte 9, [.admin]⟩
    ∃ narrowed, scopeQuery .hyphenated "SELECT * FROM orders WHERE id = 1" own = .ok narrowed ∧
      scopeQuery .hyphenated narrowed own = .ok narrowed ∧
      ¬∃ result, scopeQuery .hyphenated narrowed other = .ok result := by
  intro own other
  have scopes : scopeQuery .hyphenated "SELECT * FROM orders WHERE id = 1" own =
      .ok (trimEnd "SELECT * FROM orders WHERE id = 1" ++ " AND _tenant_id = '" ++
        UuidDisplay.hyphenated.toText own.tenantId ++ "'") := by
    rw [scopeQuery, if_neg (by decide)]
  have different : own.tenantId ≠ other.tenantId := by
    decide
  have isolates := scopeQuery_isolates .hyphenated scopes different
  have foreign : ¬contains "SELECT * FROM orders WHERE id = 1"
      (UuidDisplay.hyphenated.toText other.tenantId) = true := by
    decide +kernel
  exact ⟨_, scopes, isolates.1, fun accepted => foreign (isolates.2.mp accepted)⟩

/-! ## The audit log -/

inductive AuditAction where
  | query
  | write
  | delete
  | grant
  | revoke
  | connect
  | disconnect
deriving DecidableEq, Repr

inductive AuditOutcome where
  | allowed
  | denied
deriving DecidableEq, Repr

structure AuditEntry where
  id : Uuid
  timestamp : Int
  tenantId : Uuid
  agentId : Uuid
  action : AuditAction
  collection : Option String
  outcome : AuditOutcome
  detail : String
deriving DecidableEq, Repr

/-- The mutex lets one call at a time change the entries. -/
structure AuditLog where
  entries : List AuditEntry
  maxSize : Nat

namespace AuditLog

def new (maxSize : Nat) : AuditLog := ⟨[], maxSize⟩

/-- Append an entry, and drop the oldest one of a full log. -/
def record (log : AuditLog) (entry : AuditEntry) : AuditLog :=
  let entries := if log.maxSize > 0 ∧ log.entries.length ≥ log.maxSize then log.entries.tail
    else log.entries
  { log with entries := entries ++ [entry] }

def entriesForTenant (log : AuditLog) (tenantId : Uuid) : List AuditEntry :=
  log.entries.filter (·.tenantId = tenantId)

/-- The last entries, the oldest of them first. -/
def recent (log : AuditLog) (n : Nat) : List AuditEntry :=
  let start := log.entries.length - n
  log.entries.drop start

/-- What a log of some size keeps. A log of size 0 keeps everything. -/
def kept (maxSize : Nat) (recorded : List AuditEntry) : List AuditEntry :=
  if maxSize = 0 then recorded else newest maxSize recorded

theorem run_record (maxSize : Nat) (recorded : List AuditEntry) :
    run record (new maxSize) recorded = ⟨kept maxSize recorded, maxSize⟩ := by
  induction recorded using List.reverseRecOn with
  | nil =>
      rw [kept]
      split
      · rfl
      · rw [newest, List.drop_nil]
        rfl
  | append_singleton recorded entry induction =>
      rw [run_concat, induction, record]
      dsimp only
      by_cases unlimited : maxSize = 0
      · have closed : ¬(maxSize > 0 ∧ (kept maxSize recorded).length ≥ maxSize) := by
          omega
        rw [if_neg closed, kept, kept, if_pos unlimited, if_pos unlimited]
      · have room : 0 < maxSize := Nat.pos_of_ne_zero unlimited
        rw [kept, kept, if_neg unlimited, if_neg unlimited, newest_concat room]
        exact congrArg (fun entries => AuditLog.mk (entries ++ [entry]) maxSize)
          (if_congr (and_iff_right room) rfl rfl)

/-- After any entries, the log shows the newest ones, to a tenant its own ones among
them, and never more than it may keep. -/
theorem shown_after (maxSize : Nat) (recorded : List AuditEntry) (tenantId : Uuid) (n : Nat) :
    (run record (new maxSize) recorded).entriesForTenant tenantId =
        (kept maxSize recorded).filter (·.tenantId = tenantId) ∧
      (run record (new maxSize) recorded).recent n =
        newest (if maxSize = 0 then n else min n maxSize) recorded := by
  rw [run_record]
  refine ⟨rfl, ?_⟩
  have inLog : (AuditLog.mk (kept maxSize recorded) maxSize).recent n =
      newest n (kept maxSize recorded) := rfl
  rw [inLog, kept]
  split
  · rfl
  · exact newest_newest n maxSize recorded

end AuditLog

end FunDB.Security
