import FunDB.Foundation.Buckets
import FunDB.Foundation.Execution
import FunDB.Foundation.Overlay

/-! # Extended query sessions

A connection keeps the statements it has prepared and the portals it has bound.
A portal knows its statement by name. -/

namespace FunDB.Protocol

open Execution Overlay

structure PreparedStatement where
  name : String
  query : String
  paramTypes : List Int32
deriving DecidableEq

structure Portal where
  name : String
  statementName : String
  params : List (Option (List UInt8))
deriving DecidableEq

inductive DescribeKind where
  | statement
  | portal
deriving DecidableEq

inductive ExtendedFrontendMessage where
  | parse (name query : String) (paramTypes : List Int32)
  | bind (portal statement : String) (params : List (Option (List UInt8)))
  | describe (kind : DescribeKind) (name : String)
  | execute (portal : String) (maxRows : Int32)
  | sync
  | flush
deriving DecidableEq

inductive ExtendedBackendMessage where
  | parseComplete
  | bindComplete
  | noData
  | parameterDescription (typeOids : List Int32)
  | portalSuspended
deriving DecidableEq

structure ExtendedQuerySession where
  statements : Dict String PreparedStatement
  portals : Dict String Portal

namespace ExtendedQuerySession

def new : ExtendedQuerySession := ⟨∅, ∅⟩

def handleParse (session : ExtendedQuerySession) :
    ExtendedFrontendMessage → List ExtendedBackendMessage × ExtendedQuerySession
  | .parse name query paramTypes =>
      ([.parseComplete],
        { session with
          statements := session.statements.insert name ⟨name, query, paramTypes⟩ })
  | _ => ([], session)

def handleBind (session : ExtendedQuerySession) :
    ExtendedFrontendMessage → List ExtendedBackendMessage × ExtendedQuerySession
  | .bind portal statement params =>
      if statement ∈ session.statements then
        ([.bindComplete],
          { session with portals := session.portals.insert portal ⟨portal, statement, params⟩ })
      else ([], session)
  | _ => ([], session)

def handleDescribe (session : ExtendedQuerySession) :
    ExtendedFrontendMessage → List ExtendedBackendMessage
  | .describe .statement name =>
      match session.statements.lookup name with
      | some stmt => [.parameterDescription stmt.paramTypes, .noData]
      | none => [.noData]
  | .describe .portal _ => [.noData]
  | _ => []

def handleExecute (session : ExtendedQuerySession) :
    ExtendedFrontendMessage → Option String × List ExtendedBackendMessage
  | .execute portal _ =>
      match session.portals.lookup portal with
      | some bound =>
          match session.statements.lookup bound.statementName with
          | some stmt => (some stmt.query, [])
          | none => (none, [])
      | none => (none, [])
  | _ => (none, [])

/-- Each message goes to the handler of its kind. Only Parse and Bind change
the session. -/
def receive (session : ExtendedQuerySession) (message : ExtendedFrontendMessage) :
    ExtendedQuerySession :=
  match message with
  | .parse _ _ _ => (session.handleParse message).2
  | .bind _ _ _ => (session.handleBind message).2
  | _ => session

/-! ## What a portal was bound to -/

def queryText (session : ExtendedQuerySession) (statement : String) : Option String :=
  (session.statements.lookup statement).map PreparedStatement.query

/-- The query text that a message binds to a portal. Only a Bind that is
answered with BindComplete binds. -/
def boundBy (session : ExtendedQuerySession) (message : ExtendedFrontendMessage)
    (portal : String) : Option String :=
  match message with
  | .bind name statement _ =>
      if name = portal ∧ (session.handleBind message).1 = [.bindComplete] then
        session.queryText statement
      else none
  | _ => none

/-- The query text at the moment of the most recent successful Bind of a portal. -/
def boundQuery (messages : List ExtendedFrontendMessage) (portal : String) : Option String :=
  newest (fun bound portal => bound portal)
    (observations receive boundBy new messages) portal

/-- The statement of no portal is given another text. -/
def KeepsBoundTexts (session : ExtendedQuerySession) : ExtendedFrontendMessage → Prop
  | .parse name query _ =>
      ∀ portal bound, session.portals.lookup portal = some bound →
        bound.statementName = name → session.queryText name = some query
  | _ => True

def runs (session : ExtendedQuerySession) (portal : String) : Option String :=
  (session.portals.lookup portal).bind fun bound => session.queryText bound.statementName

theorem handleExecute_eq (session : ExtendedQuerySession) (portal : String) (maxRows : Int32) :
    session.handleExecute (.execute portal maxRows) = (session.runs portal, []) := by
  rw [handleExecute, runs]
  cases session.portals.lookup portal with
  | none => rfl
  | some bound =>
      simp only [Option.bind_some, queryText]
      cases session.statements.lookup bound.statementName <;> rfl

theorem boundQuery_concat (done : List ExtendedFrontendMessage)
    (message : ExtendedFrontendMessage) (portal : String) :
    boundQuery (done ++ [message]) portal =
      ((run receive new done).boundBy message portal).or (boundQuery done portal) := by
  rw [boundQuery, observations_concat, newest_append, newest_singleton]
  rfl

theorem queryText_handleParse (session : ExtendedQuerySession) (name query : String)
    (paramTypes : List Int32) (statement : String) :
    (session.handleParse (.parse name query paramTypes)).2.queryText statement =
      if statement = name then some query else session.queryText statement := by
  rw [handleParse, queryText, Dict.lookup_insert]
  split
  · rfl
  · rfl

/-- A Parse changes the texts of the portals of its statement. -/
theorem runs_parse (session : ExtendedQuerySession) (name query : String)
    (paramTypes : List Int32) (portal : String) :
    (session.receive (.parse name query paramTypes)).runs portal =
      (session.portals.lookup portal).bind fun bound =>
        if bound.statementName = name then some query
        else session.queryText bound.statementName := by
  rw [receive, runs]
  apply congrArg
  funext bound
  exact queryText_handleParse session name query paramTypes bound.statementName

/-- A Bind changes the text of its own portal, to what it binds it to. -/
theorem runs_bind (session : ExtendedQuerySession) (name statement : String)
    (params : List (Option (List UInt8))) (portal : String) :
    (session.receive (.bind name statement params)).runs portal =
      (session.boundBy (.bind name statement params) portal).or (session.runs portal) := by
  rw [receive, boundBy, handleBind]
  by_cases known : statement ∈ session.statements
  · have held : ∃ stmt, session.statements.lookup statement = some stmt :=
      Option.isSome_iff_exists.mp (AList.lookup_isSome.mpr known)
    rcases held with ⟨stmt, held⟩
    rw [if_pos known]
    by_cases same : name = portal
    · subst same
      simp [runs, queryText, held]
    · have other : portal ≠ name := fun equal => same equal.symm
      simp [runs, queryText, same, AList.lookup_insert_ne other]
  · rw [if_neg known]
    simp

/-- While every portal runs what it was bound to, a message keeps it so exactly
when it gives the statement of no portal another text. -/
theorem runs_eq_boundQuery_step (done : List ExtendedFrontendMessage)
    (message : ExtendedFrontendMessage)
    (held : ∀ portal, (run receive new done).runs portal = boundQuery done portal) :
    (∀ portal, (run receive new (done ++ [message])).runs portal =
        boundQuery (done ++ [message]) portal) ↔
      (run receive new done).KeepsBoundTexts message := by
  simp only [run_concat, boundQuery_concat, ← held]
  generalize run receive new done = session
  cases message with
  | bind name statement params =>
      exact iff_of_true (fun portal => runs_bind session name statement params portal) trivial
  | describe kind name => exact iff_of_true (fun _ => rfl) trivial
  | execute portal maxRows => exact iff_of_true (fun _ => rfl) trivial
  | sync => exact iff_of_true (fun _ => rfl) trivial
  | flush => exact iff_of_true (fun _ => rfl) trivial
  | parse name query paramTypes =>
      have unbound : ∀ portal,
          session.boundBy (.parse name query paramTypes) portal = none := fun _ => rfl
      simp only [runs_parse, unbound, Option.none_or, KeepsBoundTexts]
      refine forall_congr' fun portal => ?_
      rw [runs]
      cases session.portals.lookup portal with
      | none => simp
      | some bound =>
          by_cases same : bound.statementName = name
          · simp [same, eq_comm]
          · simp [same]

/-- Execute answers with the text of the most recent successful Bind, in every
state of a run, exactly when no Parse gives the statement of a portal another
text. -/
theorem execute_eq_boundQuery_iff (messages : List ExtendedFrontendMessage) :
    (∀ done, done <+: messages → ∀ portal maxRows,
        ((run receive new done).handleExecute (.execute portal maxRows)).1 =
          boundQuery done portal) ↔
      EveryStep receive KeepsBoundTexts new messages := by
  rw [← holds_iff_everyStep_of_step_iff receive
    (fun done => ∀ portal, (run receive new done).runs portal = boundQuery done portal)
    (fun _ => rfl) runs_eq_boundQuery_step]
  simp only [handleExecute_eq, forall_const]

/-- A portal whose statement is prepared again runs a text that it was not
bound to. -/
theorem reprepared_statement_runs :
    let messages : List ExtendedFrontendMessage :=
      [.parse "s" "SELECT 1" [], .bind "p" "s" [], .parse "s" "SELECT 2" []]
    ((run receive new messages).handleExecute (.execute "p" 0)).1 = some "SELECT 2" ∧
      boundQuery messages "p" = some "SELECT 1" := by
  decide

end ExtendedQuerySession

end FunDB.Protocol
