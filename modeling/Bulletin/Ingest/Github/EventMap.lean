import Bulletin.Core.Json
import Bulletin.Ingest.Builder

/-! # GitHub activities

The timeline of a repository and the webhooks are brought into one shape, and an activity
in that shape becomes an event. What it is called within its source, its stable id, is
made of the ids its payload carries.
-/

namespace Bulletin

open Json

structure RepoRef where
  name : String := ""

structure ActorRef where
  login : String := ""

structure GithubEvent where
  /-- The id in the feed, or of the delivery. -/
  id : String := ""
  kind : String := ""
  repo : RepoRef := {}
  actor : ActorRef := {}
  createdAt : DateTime
  payload : Value := .null
  isPublic : Bool := true

namespace GithubEvent

def objId (ev : GithubEvent) (path : String) : Option String :=
  ((ev.payload.get path).bind (·.get "id")).map fun v =>
    (v.asInt64.map toString).getD v.compact

def payloadStr (ev : GithubEvent) (path : List String) : Option String :=
  (ev.payload.dig path).bind Value.asStr

def num (ev : GithubEvent) (path : List String) : Option String :=
  ((ev.payload.dig path).bind Value.asInt64).map toString

def action (ev : GithubEvent) : Option String := ev.payloadStr ["action"]

/-- An activity without an id of its own goes by the id of its envelope. -/
def fallback (ev : GithubEvent) : String := ev.kind ++ ":" ++ ev.id

/-- The name of an activity within its source. -/
def stableId (ev : GithubEvent) : String :=
  let act := ev.action.getD ""
  match ev.kind with
  | "IssuesEvent" =>
      match ev.objId "issue" with
      | some id => "issue:" ++ id ++ ":" ++ act
      | none => ev.fallback
  | "IssueCommentEvent" | "CommitCommentEvent" | "PullRequestReviewCommentEvent" =>
      match ev.objId "comment" with
      | some id => "comment:" ++ id
      | none => ev.fallback
  | "PullRequestEvent" =>
      match ev.objId "pull_request" with
      | some id => "pr:" ++ id ++ ":" ++ act
      | none => ev.fallback
  | "PullRequestReviewEvent" =>
      match ev.objId "review" with
      | some id => "review:" ++ id
      | none => ev.fallback
  | "ReleaseEvent" =>
      match ev.objId "release" with
      | some id => "release:" ++ id ++ ":" ++ act
      | none => ev.fallback
  | "PushEvent" =>
      match (ev.payloadStr ["head"]).or (ev.payloadStr ["after"]) with
      | some sha => "push:" ++ ev.repo.name ++ ":" ++ sha
      | none => ev.fallback
  | _ => ev.fallback

/-- The number of an issue or a pull request, as text. -/
def numberOf (ev : GithubEvent) (object : String) : String :=
  ((ev.payloadStr [object, "number"]).or (ev.num [object, "number"])).getD ""

/-- Activities on one thing share a group. -/
def groupKey (ev : GithubEvent) : String :=
  let repo := "gh:" ++ ev.repo.name
  match ev.kind with
  | "IssuesEvent" | "IssueCommentEvent" => repo ++ "#issue-" ++ ev.numberOf "issue"
  | "PullRequestEvent" | "PullRequestReviewEvent" | "PullRequestReviewCommentEvent" =>
      repo ++ "#pr-" ++ ev.numberOf "pull_request"
  | "ReleaseEvent" => repo ++ "@release-" ++ (ev.payloadStr ["release", "tag_name"]).getD ""
  | "PushEvent" => repo ++ "@" ++ (ev.payloadStr ["ref"]).getD "push"
  | other => repo ++ ":" ++ other

def htmlUrl (ev : GithubEvent) : Option String :=
  ["issue", "pull_request", "release", "comment"].findSome? fun object =>
    ev.payloadStr [object, "html_url"]

def title (ev : GithubEvent) : String :=
  let repo := ev.repo.name
  let act := ev.action.getD ""
  match ev.kind with
  | "IssuesEvent" => repo ++ " issue " ++ act ++ ": " ++ (ev.payloadStr ["issue", "title"]).getD ""
  | "PullRequestEvent" =>
      repo ++ " PR " ++ act ++ ": " ++ (ev.payloadStr ["pull_request", "title"]).getD ""
  | "ReleaseEvent" => repo ++ " release " ++ ((ev.payloadStr ["release", "name"]).or
      (ev.payloadStr ["release", "tag_name"])).getD ""
  | "PushEvent" => repo ++ ": push to " ++ (ev.payloadStr ["ref"]).getD "a branch"
  | "IssueCommentEvent" | "PullRequestReviewCommentEvent" | "CommitCommentEvent" =>
      repo ++ ": new comment"
  | other => repo ++ ": " ++ other

end GithubEvent

/-- How deep an activity is; one that is not mapped is the least deep. -/
def githubContentKind (kind : String) : ContentKind :=
  match kind with
  | "ReleaseEvent" => .announcement
  | "IssuesEvent" | "PullRequestEvent" => .longform
  | _ => .message

def githubImportance (kind : String) : Int :=
  match kind with
  | "ReleaseEvent" => 2
  | "IssuesEvent" | "PullRequestEvent" => 1
  | _ => 0

def GithubEvent.toBuilder (ev : GithubEvent) : EventBuilder where
  source := .github
  stableId := ev.stableId
  eventTime := ev.createdAt
  title := ev.title
  groupKey := ev.groupKey
  contentKind := githubContentKind ev.kind
  links := ev.htmlUrl.toList
  entities := ("repo:" ++ ev.repo.name) ::
    if ev.actor.login.isEmpty then [] else ["user:" ++ ev.actor.login]
  -- routine activity leaves no hint
  severityHint := if 0 < githubImportance ev.kind then some (githubImportance ev.kind) else none
  isPrivate := !ev.isPublic

/-! ## Webhooks -/

def capitalized : List Char → List Char
  | [] => []
  | c :: cs => c.toUpper :: cs

/-- The type of the feed for the type of a webhook: `pull_request` is `PullRequestEvent`. -/
def restType (eventType : String) : String :=
  String.ofList ((eventType.toList.splitOn '_').flatMap capitalized ++ "Event".toList)

def webhookTimePath (restKind : String) : Option (List String) :=
  match restKind with
  | "IssuesEvent" => some ["issue", "updated_at"]
  | "PullRequestEvent" => some ["pull_request", "updated_at"]
  | "PullRequestReviewEvent" => some ["review", "submitted_at"]
  | "IssueCommentEvent" | "CommitCommentEvent" | "PullRequestReviewCommentEvent" =>
      some ["comment", "updated_at"]
  | "ReleaseEvent" => some ["release", "published_at"]
  | "PushEvent" => some ["head_commit", "timestamp"]
  | _ => none

section Webhook

variable (parseRfc3339 : String → Option DateTime)

def webhookTime (restKind : String) (body : Value) : Option DateTime :=
  (((webhookTimePath restKind).bind (body.dig ·)).bind Value.asStr).bind parseRfc3339

/-- A delivery in the shape of the feed: its body is the payload, its id the fallback. -/
def fromWebhook (now : DateTime) (eventType deliveryId : String) (body : Value) : GithubEvent where
  id := deliveryId
  kind := restType eventType
  repo := { name := ((body.dig ["repository", "full_name"]).bind Value.asStr).getD "" }
  actor := { login := ((body.dig ["sender", "login"]).bind Value.asStr).getD "" }
  createdAt := (webhookTime parseRfc3339 (restType eventType) body).getD now
  payload := body
  isPublic := !((body.dig ["repository", "private"]).bind Value.asBool).getD false

end Webhook

/-- What a webhook on the installation does to the connection. -/
inductive LifecycleStatus where
  | active
  | suspended
  | revoked
deriving DecidableEq, Repr

def lifecycleStatus (body : Value) : Option LifecycleStatus :=
  match (body.get "action").bind Value.asStr with
  | some "deleted" => some .revoked
  | some "suspend" => some .suspended
  | some "unsuspend" => some .active
  | _ => none

example : restType "pull_request_review" = "PullRequestReviewEvent" := by decide +kernel

end Bulletin
