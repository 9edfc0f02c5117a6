import Std.Data.ExtTreeMap
import Bulletin.Ingest.Github.EventMap

/-! # The GitHub poll

A poll asks for the repositories, then for the newest events of each, and trims them at the
last one it has seen. One request that fails fails the poll.
-/

namespace Bulletin

open Json

/-- What comes back for a request. -/
inductive Answer (α : Type) where
  | unreachable (error : String)
  | notModified
  | status (code : String)
  | malformed (error : String)
  | ok (etag : Option String) (body : α)

/-- The answer once its body is parsed. -/
def Answer.decode {α : Type} (parse : Json.Value → Option α) (error : String) :
    Answer Json.Value → Answer α
  | unreachable e => unreachable e
  | notModified => notModified
  | status code => status code
  | malformed e => malformed e
  | ok etag body => (parse body).elim (malformed error) (ok etag)

/-! ## Parsing -/

/-- The fields of a record by name, or by place if it is written as a list. A field that is given
twice, and an item too many, are errors. -/
def recordFields (names : List String) : Value → Option (List (Option Value))
  | .obj fields =>
      if names.any fun name => 2 ≤ (fields.filter (·.1 = name)).length then none
      else some (names.map fun name => (fields.find? (·.1 = name)).map (·.2))
  | .arr items =>
      if items.length ≤ names.length then some (names.mapIdx fun i _ => items[i]?) else none
  | _ => none

/-- A field with a default; a value of the wrong kind is an error, and so is `null`. -/
def fieldOr {α : Type} (default : α) (decode : Value → Option α) : Option Value → Option α
  | none => some default
  | some v => decode v

def parseRepoRef (v : Value) : Option RepoRef :=
  match recordFields ["name"] v with
  | some [name] => (fieldOr "" Value.asStr name).map RepoRef.mk
  | _ => none

def parseActorRef (v : Value) : Option ActorRef :=
  match recordFields ["login"] v with
  | some [login] => (fieldOr "" Value.asStr login).map ActorRef.mk
  | _ => none

section Entries

variable (parseTime : String → Option DateTime)

def entryFields : List String := ["id", "type", "repo", "actor", "created_at", "payload", "public"]

/-- An entry of the feed. Only its time has no default. -/
def parseEntry (v : Value) : Option GithubEvent :=
  match recordFields entryFields v with
  | some [id, kind, repo, actor, createdAt, payload, isPublic] => do
      let id ← fieldOr "" Value.asStr id
      let kind ← fieldOr "" Value.asStr kind
      let repo ← fieldOr {} parseRepoRef repo
      let actor ← fieldOr {} parseActorRef actor
      let createdAt ← (createdAt.bind Value.asStr).bind parseTime
      let isPublic ← fieldOr true Value.asBool isPublic
      pure { id, kind, repo, actor, createdAt, payload := payload.getD .null, isPublic }
  | _ => none

def parseEntries : Value → Option (List GithubEvent)
  | .arr items => items.mapM (parseEntry parseTime)
  | _ => none

end Entries

/-- A repository to poll, with its visibility as far as it is known. -/
structure RepoTarget where
  name : String
  isPrivate : Bool
deriving DecidableEq, Repr

def repoEntryFields : List String := ["full_name", "private"]

def parseRepoEntry (v : Value) : Option RepoTarget :=
  match recordFields repoEntryFields v with
  | some [fullName, isPrivate] => do
      let name ← fullName.bind Value.asStr
      let isPrivate ← fieldOr false Value.asBool isPrivate
      pure { name, isPrivate }
  | _ => none

def parseRepoEntries : Value → Option (List RepoTarget)
  | .arr items => items.mapM parseRepoEntry
  | _ => none

def parseInstallationRepos (v : Value) : Option (List RepoTarget) :=
  match recordFields ["repositories"] v with
  | some [repositories] => fieldOr [] parseRepoEntries repositories
  | _ => none

/-! ## One repository -/

structure RepoCursor where
  etag : Option String := none
  lastEventId : Option String := none
deriving DecidableEq, Repr

abbrev GithubCursor := Std.ExtTreeMap String RepoCursor compare

/-- A repository that is known to be private makes its events private, and none public. -/
def foldPrivacy (isPrivate : Bool) (ev : GithubEvent) : GithubEvent :=
  if isPrivate then { ev with isPublic := false } else ev

/-- The events up to the last one that was seen; the first poll takes the page. -/
def freshEntries (cursor : RepoCursor) (all : List GithubEvent) : List GithubEvent :=
  match cursor.lastEventId with
  | some seen => all.takeWhile (·.id ≠ seen)
  | none => all

/-- The new events of a repository, and the cursor to persist for it. -/
def pollRepo (repo : RepoTarget) (cursor : RepoCursor) (answer : Answer (List GithubEvent)) :
    Except SourceError (List GithubEvent × RepoCursor) :=
  match answer with
  | .unreachable error => .error (.request error)
  | .notModified => .ok ([], cursor)
  | .status code => .error (.request ("repo events " ++ repo.name ++ ": HTTP " ++ code))
  | .malformed error => .error (.parse ("repo events " ++ repo.name ++ ": " ++ error))
  | .ok etag all =>
      let fresh := freshEntries cursor all
      .ok (fresh.map (foldPrivacy repo.isPrivate),
        { etag := etag, lastEventId := (fresh.head?.map (·.id)).or cursor.lastEventId })

/-! ## The poll -/

/-- The repositories to ask for: those allowed, or those of the installation. -/
def reposToPoll (allowed : Option (List String)) (answer : Answer (List RepoTarget)) :
    Except SourceError (List RepoTarget) :=
  match allowed, answer with
  | some names, _ => .ok (names.map fun name => ⟨name, false⟩)
  | none, .ok _ repos => .ok repos
  | none, .unreachable error => .error (.request error)
  | none, .status code => .error (.request ("installation repositories: HTTP " ++ code))
  | none, .notModified => .error (.request "installation repositories: HTTP 304 Not Modified")
  | none, .malformed error => .error (.parse ("installation repositories: " ++ error))

/-- One repository after the other. The answer to a request depends on its place and on the
validator that is sent. -/
def pollRepos (cursor : GithubCursor)
    (answers : Nat → String → Option String → Answer (List GithubEvent)) :
    Nat → List RepoTarget → Except SourceError (List GithubEvent × GithubCursor)
  | _, [] => .ok ([], ∅)
  | i, repo :: repos => do
      let repoCursor := cursor.getD repo.name {}
      let (events, next) ← pollRepo repo repoCursor (answers i repo.name repoCursor.etag)
      let (rest, cursors) ← pollRepos cursor answers (i + 1) repos
      -- a repository that is named twice keeps the cursor of its last request
      pure (events ++ rest, if repo.name ∈ cursors then cursors else cursors.insert repo.name next)

/-- A poll of several repositories that succeeds is one of the first and one of the others. -/
theorem pollRepos_cons {cursor next : GithubCursor} {events : List GithubEvent}
    {answers : Nat → String → Option String → Answer (List GithubEvent)} {i : Nat}
    {repo : RepoTarget} {repos : List RepoTarget}
    (h : pollRepos cursor answers i (repo :: repos) = .ok (events, next)) :
    ∃ fresh repoNext rest cursors,
      pollRepo repo (cursor.getD repo.name {})
        (answers i repo.name (cursor.getD repo.name {}).etag) =
        .ok (fresh, repoNext) ∧
      pollRepos cursor answers (i + 1) repos = .ok (rest, cursors) ∧ events = fresh ++ rest ∧
      next = if repo.name ∈ cursors then cursors else cursors.insert repo.name repoNext := by
  unfold pollRepos at h
  cases hone : pollRepo repo (cursor.getD repo.name {})
      (answers i repo.name (cursor.getD repo.name {}).etag) with
  | error e =>
      dsimp only at h
      rw [hone] at h
      cases h
  | ok first =>
      cases hrest : pollRepos cursor answers (i + 1) repos with
      | error e =>
          dsimp only at h
          rw [hone, hrest] at h
          cases h
      | ok others =>
          dsimp only at h
          rw [hone, hrest] at h
          obtain ⟨rfl, rfl⟩ := Prod.mk.inj (Except.ok.inj h)
          exact ⟨first.1, first.2, others.1, others.2, rfl, rfl, rfl, rfl⟩

def githubPoll (allowed : Option (List String)) (repositories : Answer (List RepoTarget))
    (answers : Nat → String → Option String → Answer (List GithubEvent)) (cursor : GithubCursor) :
    Except SourceError (List GithubEvent × GithubCursor) := do
  let repos ← reposToPoll allowed repositories
  pollRepos cursor answers 0 repos

end Bulletin
