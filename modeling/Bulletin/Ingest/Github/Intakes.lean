import Bulletin.Ingest.Append
import Bulletin.Ingest.Github.Poll

/-! # The two intakes of an activity

The poll and the webhook show an activity under different ids. Their events are one event
when the stable id is made of the payload, and two when it is made of the envelope.
-/

namespace Bulletin

open Json

/-! ## What a stable id is made of -/

/-- The content an activity is named after. -/
inductive ContentKey where
  | issue (id act : String)
  | comment (id : String)
  | pullRequest (id act : String)
  | review (id : String)
  | release (id act : String)
  | push (repo sha : String)
deriving DecidableEq, Repr

def ContentKey.text : ContentKey → String
  | issue id act => "issue:" ++ id ++ ":" ++ act
  | comment id => "comment:" ++ id
  | pullRequest id act => "pr:" ++ id ++ ":" ++ act
  | review id => "review:" ++ id
  | release id act => "release:" ++ id ++ ":" ++ act
  | push repo sha => "push:" ++ repo ++ ":" ++ sha

/-- The content ids of the payload: of an issue, a comment, a pull request, a review or a release
the id of the object, and of a push the commit. No other type has one. -/
def GithubEvent.contentKey (ev : GithubEvent) : Option ContentKey :=
  let act := ev.action.getD ""
  match ev.kind with
  | "IssuesEvent" => (ev.objId "issue").map (.issue · act)
  | "IssueCommentEvent" | "CommitCommentEvent" | "PullRequestReviewCommentEvent" =>
      (ev.objId "comment").map .comment
  | "PullRequestEvent" => (ev.objId "pull_request").map (.pullRequest · act)
  | "PullRequestReviewEvent" => (ev.objId "review").map .review
  | "ReleaseEvent" => (ev.objId "release").map (.release · act)
  | "PushEvent" => ((ev.payloadStr ["head"]).or (ev.payloadStr ["after"])).map (.push ev.repo.name)
  | _ => none

theorem stableId_eq (ev : GithubEvent) :
    ev.stableId = (ev.contentKey.map ContentKey.text).getD ev.fallback := by
  unfold GithubEvent.stableId GithubEvent.contentKey
  generalize ev.kind = kind
  dsimp only
  split
  · cases ev.objId "issue" <;> rfl
  · cases ev.objId "comment" <;> rfl
  · cases ev.objId "comment" <;> rfl
  · cases ev.objId "comment" <;> rfl
  · cases ev.objId "pull_request" <;> rfl
  · cases ev.objId "review" <;> rfl
  · cases ev.objId "release" <;> rfl
  · cases (ev.payloadStr ["head"]).or (ev.payloadStr ["after"]) <;> rfl
  · grind

/-! ## One activity, twice -/

def deliveryKeys : List String :=
  ["repository", "sender", "organization", "installation", "enterprise"]

/-- The entry of the feed and the body of the webhook show one activity of a repository. -/
structure SameActivity (entry : GithubEvent) (listedPrivate : Bool) (eventType : String)
    (body : Value) : Prop where
  kind : restType eventType = entry.kind
  payload : ∀ key ∉ deliveryKeys, body.get key = entry.payload.get key
  repo : (body.dig ["repository", "full_name"]).bind Value.asStr = some entry.repo.name
  visibility : (body.dig ["repository", "private"]).bind Value.asBool = some (!entry.isPublic)
  listed : listedPrivate = true → entry.isPublic = false

section Intakes

variable (sha256 : List UInt8 → List UInt8) (parseRfc3339 : String → Option DateTime)
  (owner : Option Uuid) (connection : Uuid)

/-- The event an activity becomes on a connection. -/
def GithubEvent.ingested (ev : GithubEvent) : NewEvent :=
  { ev.toBuilder with connectionId := some connection }.finalize sha256 owner

@[simp] theorem ingested_fingerprint (ev : GithubEvent) :
    (ev.ingested sha256 owner connection).fingerprint = fingerprint sha256 .github ev.stableId :=
  rfl

@[simp] theorem ingested_scope (ev : GithubEvent) :
    (ev.ingested sha256 owner connection).key.scope = scopeFor (!ev.isPublic) owner :=
  rfl

/-- Some arrival of the activity: an entry that was polled, or a delivery under any id. -/
def ArrivalOf (entry : GithubEvent) (listedPrivate : Bool) (eventType : String) (body : Value)
    (ev : NewEvent) : Prop :=
  ev = (foldPrivacy listedPrivate entry).ingested sha256 owner connection ∨
    ∃ now deliveryId, ev =
      (fromWebhook parseRfc3339 now eventType deliveryId body).ingested sha256 owner connection

/-- The two intakes of an activity name it alike, and however often and in whatever order it
arrives, one row results. -/
structure IntakesAgree (entry : GithubEvent) (listedPrivate : Bool) (eventType deliveryId : String)
    (body : Value) : Prop where
  stableId : ∀ now, (fromWebhook parseRfc3339 now eventType deliveryId body).stableId =
    (foldPrivacy listedPrivate entry).stableId
  fingerprint : ∀ now,
    ((fromWebhook parseRfc3339 now eventType deliveryId body).ingested sha256 owner
    connection).fingerprint =
      ((foldPrivacy listedPrivate entry).ingested sha256 owner connection).fingerprint
  key : ∀ now, ((fromWebhook parseRfc3339 now eventType deliveryId body).ingested sha256 owner
    connection).key = ((foldPrivacy listedPrivate entry).ingested sha256 owner connection).key
  oneRow : ∀ log : List Event, (∀ e ∈ log, e.fingerprint ≠
      ((foldPrivacy listedPrivate entry).ingested sha256 owner connection).fingerprint) →
    ∀ arrivals ≠ [], (∀ a ∈ arrivals, ArrivalOf sha256 parseRfc3339 owner connection entry
      listedPrivate eventType body a.2.2) → (insertAll arrivals log).length = log.length + 1

end Intakes

/-! ## What the intakes have in common -/

section Shared

variable {entry : GithubEvent} {listedPrivate : Bool} {eventType deliveryId : String} {body : Value}
  {sha256 : List UInt8 → List UInt8} {parseRfc3339 : String → Option DateTime}
  {owner : Option Uuid} {connection : Uuid} {now : DateTime}

theorem SameActivity.dig (h : SameActivity entry listedPrivate eventType body) {key : String}
    (hkey : key ∉ deliveryKeys) (path : List String) :
    body.dig (key :: path) = entry.payload.dig (key :: path) := by
  unfold Value.dig
  rw [h.payload key hkey]

/-- Two activities of one kind and repository whose payloads agree where they are read. -/
structure SameContent (a b : GithubEvent) : Prop where
  kind : a.kind = b.kind
  repo : a.repo.name = b.repo.name
  dig : ∀ (key : String) (path : List String), key ∉ deliveryKeys →
    a.payload.dig (key :: path) = b.payload.dig (key :: path)

theorem SameActivity.content (h : SameActivity entry listedPrivate eventType body) :
    SameContent (fromWebhook parseRfc3339 now eventType deliveryId body)
      (foldPrivacy listedPrivate entry) := by
  have hfold : (foldPrivacy listedPrivate entry).kind = entry.kind ∧
      (foldPrivacy listedPrivate entry).repo = entry.repo ∧
      (foldPrivacy listedPrivate entry).payload = entry.payload := by
    unfold foldPrivacy
    split <;> exact ⟨rfl, rfl, rfl⟩
  refine ⟨h.kind.trans hfold.1.symm, ?_, ?_⟩
  · show (((body.dig ["repository", "full_name"]).bind Value.asStr).getD "") = _
    rw [h.repo, hfold.2.1]
    rfl
  · intro key path hkey
    rw [hfold.2.2]
    exact h.dig hkey path

variable {a b : GithubEvent}

theorem SameContent.payloadStr (h : SameContent a b) {key : String} (hkey : key ∉ deliveryKeys)
    (path : List String) : a.payloadStr (key :: path) = b.payloadStr (key :: path) := by
  unfold GithubEvent.payloadStr
  rw [h.dig key path hkey]

theorem SameContent.objId (h : SameContent a b) {key : String} (hkey : key ∉ deliveryKeys) :
    a.objId key = b.objId key := by
  unfold GithubEvent.objId
  rw [← Value.dig_pair, ← Value.dig_pair, h.dig key _ hkey]

theorem SameContent.numberOf (h : SameContent a b) {key : String} (hkey : key ∉ deliveryKeys) :
    a.numberOf key = b.numberOf key := by
  unfold GithubEvent.numberOf GithubEvent.num
  rw [h.payloadStr hkey, h.dig key _ hkey]

theorem SameContent.contentKey (h : SameContent a b) : a.contentKey = b.contentKey := by
  unfold GithubEvent.contentKey GithubEvent.action
  rw [h.kind, h.repo, h.objId (by decide), h.objId (by decide), h.objId (by decide),
    h.objId (by decide), h.objId (by decide), h.payloadStr (by decide), h.payloadStr (by decide),
    h.payloadStr (by decide)]

theorem SameContent.groupKey (h : SameContent a b) : a.groupKey = b.groupKey := by
  unfold GithubEvent.groupKey
  rw [h.kind, h.repo, h.numberOf (by decide), h.numberOf (by decide), h.payloadStr (by decide),
    h.payloadStr (by decide)]

theorem SameContent.stableId (h : SameContent a b) (hkey : b.contentKey.isSome) :
    a.stableId = b.stableId := by
  obtain ⟨key, hkey⟩ := Option.isSome_iff_exists.mp hkey
  rw [stableId_eq, stableId_eq, h.contentKey, hkey]
  rfl

theorem SameContent.stableId_ne (h : SameContent a b) (hid : a.id ≠ b.id)
    (hkey : b.contentKey = none) : a.stableId ≠ b.stableId := by
  rw [stableId_eq, stableId_eq, h.contentKey, hkey]
  show a.kind ++ ":" ++ a.id ≠ b.kind ++ ":" ++ b.id
  rw [h.kind]
  intro heq
  exact hid (String.append_right_inj _ |>.mp heq)

theorem SameActivity.isPublic (h : SameActivity entry listedPrivate eventType body) :
    (fromWebhook parseRfc3339 now eventType deliveryId body).isPublic =
      (foldPrivacy listedPrivate entry).isPublic := by
  have hlisted : (foldPrivacy listedPrivate entry).isPublic = entry.isPublic := by
    unfold foldPrivacy
    split
    · exact (h.listed ‹_›).symm
    · rfl
  rw [hlisted]
  show (!((body.dig ["repository", "private"]).bind Value.asBool).getD false) = _
  rw [h.visibility]
  simp

theorem SameActivity.key_eq (h : SameActivity entry listedPrivate eventType body) :
    ((fromWebhook parseRfc3339 now eventType deliveryId body).ingested sha256 owner connection).key =
      ((foldPrivacy listedPrivate entry).ingested sha256 owner connection).key := by
  show GroupKey.mk (scopeFor (!(fromWebhook parseRfc3339 now eventType deliveryId body).isPublic) owner)
    .github (fromWebhook parseRfc3339 now eventType deliveryId body).groupKey = _
  rw [h.isPublic, h.content.groupKey]
  rfl

theorem contentKey_foldPrivacy :
    (foldPrivacy listedPrivate entry).contentKey = entry.contentKey := by
  unfold foldPrivacy
  split <;> rfl

/-! ## Rows -/

/-- Appends of one identity add a row if the log has none, and only then. -/
theorem length_insertAll {fp : List UInt8} {scope : Scope} {log : List Event}
    {arrivals : List (DateTime × Uuid × NewEvent)}
    (hone : ∀ a ∈ arrivals, a.2.2.fingerprint = fp ∧ a.2.2.key.scope = scope) :
    (insertAll arrivals log).length = log.length +
      if arrivals = [] ∨ ∃ e ∈ log, e.fingerprint = fp ∧ e.key.scope = scope then 0 else 1 := by
  induction arrivals generalizing log with
  | nil => simp [insertAll]
  | cons a arrivals ih =>
      obtain ⟨hfp, hscope⟩ := hone a List.mem_cons_self
      have hrest := fun b hb => hone b (List.mem_cons_of_mem a hb)
      show (insertAll arrivals (insertEvent a.1 a.2.1 a.2.2 log)).length = _
      rw [ih hrest]
      unfold insertEvent
      rw [hfp, hscope]
      by_cases hold : ∃ e ∈ log, e.fingerprint = fp ∧ e.key.scope = scope
      · rw [if_pos (by simpa using hold), if_pos (Or.inr hold), if_pos (Or.inr hold)]
      · rw [if_neg (by simpa using hold)]
        simp [hold, hfp, hscope]

/-! ## Where they agree -/

/-- The poll and the webhook of an activity make one event of it exactly when its payload has the
ids its type is named after. -/
theorem intakes_agree_iff (h : SameActivity entry listedPrivate eventType body)
    (hid : deliveryId ≠ entry.id) : IntakesAgree sha256 parseRfc3339 owner connection entry
      listedPrivate eventType deliveryId body ↔ entry.contentKey.isSome = true := by
  have hcontent : ∀ now d, SameContent (fromWebhook parseRfc3339 now eventType d body)
      (foldPrivacy listedPrivate entry) := fun now d => h.content
  constructor
  · intro hagree
    by_contra hnone
    have hkey : (foldPrivacy listedPrivate entry).contentKey = none := by
      rw [contentKey_foldPrivacy]
      simpa using hnone
    have hfold : (foldPrivacy listedPrivate entry).id = entry.id := by
      unfold foldPrivacy
      split <;> rfl
    exact (hcontent 0 deliveryId).stableId_ne (hfold ▸ hid) hkey (hagree.stableId 0)
  · intro hkey
    rw [← contentKey_foldPrivacy] at hkey
    have hstable := fun now d => (hcontent now d).stableId hkey
    have hfp : ∀ now d, ((fromWebhook parseRfc3339 now eventType d body).ingested sha256 owner
        connection).fingerprint =
          ((foldPrivacy listedPrivate entry).ingested sha256 owner connection).fingerprint := by
      intro now d
      rw [ingested_fingerprint, ingested_fingerprint, hstable now d]
    refine ⟨fun now => hstable now deliveryId, fun now => hfp now deliveryId, fun _ => h.key_eq, ?_⟩
    intro log hfresh arrivals hne harrivals
    have hone : ∀ a ∈ arrivals, a.2.2.fingerprint =
        ((foldPrivacy listedPrivate entry).ingested sha256 owner connection).fingerprint ∧
        a.2.2.key.scope =
          ((foldPrivacy listedPrivate entry).ingested sha256 owner connection).key.scope := by
      intro a ha
      rcases harrivals a ha with heq | ⟨now, d, heq⟩
      · rw [heq]
        exact ⟨rfl, rfl⟩
      · rw [heq]
        exact ⟨hfp now d, congrArg GroupKey.scope h.key_eq⟩
    rw [length_insertAll hone, if_neg]
    rintro (hnil | ⟨e, he, hsame, _⟩)
    · exact hne hnil
    · exact hfresh e he hsame

end Shared

/-! ## An issue and a star -/

def issuePayload : List (String × Value) :=
  [("action", .str "opened"), ("issue", .obj [("id", .int 901), ("number", .int 12)])]

def publicDelivery : List (String × Value) :=
  [("repository", .obj [("full_name", .str "octo/repo"), ("private", .bool false)])]

def timelineEntry (id kind : String) (payload : List (String × Value)) : GithubEvent where
  id := id
  kind := kind
  repo := { name := "octo/repo" }
  createdAt := 0
  payload := .obj payload

theorem sameActivity_timelineEntry {id kind eventType : String} {payload : List (String × Value)}
    (hkind : restType eventType = kind) :
    SameActivity (timelineEntry id kind payload) false eventType
      (.obj (payload ++ publicDelivery)) := by
  have hrepository : (Value.obj (payload ++ publicDelivery)).get "repository" =
      some (.obj [("full_name", .str "octo/repo"), ("private", .bool false)]) := by
    simp [Value.get, publicDelivery]
  refine ⟨hkind, ?_, ?_, ?_, nofun⟩
  · intro key hkey
    have hne : key ≠ "repository" := fun heq => hkey (heq ▸ by decide)
    simp [Value.get, publicDelivery, timelineEntry, hne.symm]
  · unfold Value.dig
    rw [hrepository]
    rfl
  · unfold Value.dig
    rw [hrepository]
    rfl

theorem intakes_agree_iff_issue : IntakesAgree id (fun _ => none) none 1
    (timelineEntry "41" "IssuesEvent" issuePayload) false "issues" "72d3"
    (.obj (issuePayload ++ publicDelivery)) :=
  (intakes_agree_iff (sameActivity_timelineEntry (by decide +kernel))
    (by decide +kernel)).mpr (by decide +kernel)

/-- A star goes by its envelopes. -/
theorem star_intakes_differ :
    SameActivity (timelineEntry "41" "WatchEvent" [("action", .str "started")]) false "watch"
      (.obj ([("action", .str "started")] ++ publicDelivery)) ∧
    (timelineEntry "41" "WatchEvent" [("action", .str "started")]).stableId = "WatchEvent:41" ∧
    (fromWebhook (fun _ => none) 0 "watch" "72d3"
      (.obj ([("action", .str "started")] ++ publicDelivery))).stableId = "WatchEvent:72d3" ∧
    ¬ IntakesAgree id (fun _ => none) none 1
      (timelineEntry "41" "WatchEvent" [("action", .str "started")]) false "watch" "72d3"
      (.obj ([("action", .str "started")] ++ publicDelivery)) := by
  refine ⟨sameActivity_timelineEntry (by decide +kernel), by decide +kernel,
    by decide +kernel, ?_⟩
  intro hagree
  have hne : (fromWebhook (fun _ => none) 0 "watch" "72d3"
      (.obj ([("action", .str "started")] ++ publicDelivery))).stableId ≠
        (foldPrivacy false (timelineEntry "41" "WatchEvent" [("action", .str "started")])).stableId := by
    decide +kernel
  exact hne (hagree.stableId 0)

end Bulletin
