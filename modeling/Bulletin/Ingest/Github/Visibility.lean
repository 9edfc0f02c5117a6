import Bulletin.Ingest.Github.Intakes

/-! # What makes an event private

An event is its owner's when the feed, the list of repositories or the delivery says that
the repository is private. Where none of them says anything it is public.
-/

namespace Bulletin

open Json

/-- A field of a record, by its place among the names. -/
def recordField (names : List String) (i : Nat) (v : Value) : Option Value :=
  ((recordFields names v).bind (·[i]?)).join

def entrySaysPrivate (entry : Value) : Bool :=
  (recordField entryFields 6 entry).bind Value.asBool == some false

def listSaysPrivate (repo : Value) : Bool :=
  (recordField repoEntryFields 1 repo).bind Value.asBool == some true

/-- The body has a repository with `private: true`. -/
def bodySaysPrivate (body : Value) : Bool :=
  (body.dig ["repository", "private"]).bind Value.asBool == some true

section Parsed

variable {parseTime : String → Option DateTime} {v : Value}

theorem parseEntry_isPublic {ev : GithubEvent} (h : parseEntry parseTime v = some ev) :
    fieldOr true Value.asBool (recordField entryFields 6 v) = some ev.isPublic := by
  unfold parseEntry at h
  split at h
  · rename_i id kind repo actor createdAt payload isPublic hfields
    unfold recordField
    rw [hfields]
    simp only [Option.bind_eq_bind, Option.bind_eq_some_iff, Option.pure_def,
      Option.some.injEq] at h
    obtain ⟨_, _, _, _, _, _, _, _, _, _, p, hp, rfl⟩ := h
    exact hp
  · cases h

theorem parseRepoEntry_isPrivate {repo : RepoTarget} (h : parseRepoEntry v = some repo) :
    fieldOr false Value.asBool (recordField repoEntryFields 1 v) = some repo.isPrivate := by
  unfold parseRepoEntry at h
  split at h
  · rename_i fullName isPrivate hfields
    unfold recordField
    rw [hfields]
    simp only [Option.bind_eq_bind, Option.bind_eq_some_iff, Option.pure_def,
      Option.some.injEq] at h
    obtain ⟨_, _, p, hp, rfl⟩ := h
    exact hp
  · cases h

theorem fieldOr_asBool {default b : Bool} {x : Option Value}
    (h : fieldOr default Value.asBool x = some b) :
    (x = none ∧ b = default) ∨ x.bind Value.asBool = some b := by
  cases x with
  | none => exact Or.inl ⟨rfl, (Option.some.inj h).symm⟩
  | some v => exact Or.inr h

/-- An entry that was parsed is private exactly when it has `public: false`. -/
theorem isPublic_parseEntry {ev : GithubEvent} (h : parseEntry parseTime v = some ev) :
    (!ev.isPublic) = entrySaysPrivate v := by
  unfold entrySaysPrivate
  rcases fieldOr_asBool (parseEntry_isPublic h) with ⟨hnone, hdefault⟩ | hflag
  · rw [hnone, hdefault]
    rfl
  · rw [hflag]
    cases ev.isPublic <;> rfl

theorem isPrivate_parseRepoEntry {repo : RepoTarget} (h : parseRepoEntry v = some repo) :
    repo.isPrivate = listSaysPrivate v := by
  unfold listSaysPrivate
  rcases fieldOr_asBool (parseRepoEntry_isPrivate h) with ⟨hnone, hdefault⟩ | hflag
  · rw [hnone, hdefault]
    rfl
  · rw [hflag]
    cases repo.isPrivate <;> rfl

theorem parseEntry_eq_none {x : Value} (hfield : recordField entryFields 6 v = some x)
    (hx : x.asBool = none) : parseEntry parseTime v = none := by
  by_contra hsome
  obtain ⟨ev, hev⟩ := Option.ne_none_iff_exists'.mp hsome
  have hpublic := parseEntry_isPublic hev
  rw [hfield] at hpublic
  cases hx.symm.trans hpublic

end Parsed

/-! ## What a poll hands on -/

section Polled

variable {cursor next : GithubCursor} {events : List GithubEvent}
  {answers : Nat → String → Option String → Answer (List GithubEvent)}

theorem foldPrivacy_isPublic (isPrivate : Bool) (ev : GithubEvent) :
    (!(foldPrivacy isPrivate ev).isPublic) = (isPrivate || !ev.isPublic) := by
  unfold foldPrivacy
  cases isPrivate <;> rfl

theorem mem_pollRepo {repo : RepoTarget} {repoCursor repoNext : RepoCursor}
    {answer : Answer (List GithubEvent)}
    (h : pollRepo repo repoCursor answer = .ok (events, repoNext)) {ev : GithubEvent}
    (hev : ev ∈ events) :
    ∃ etag all, answer = .ok etag all ∧ ∃ entry ∈ all, ev = foldPrivacy repo.isPrivate entry := by
  cases answer with
  | unreachable _ | status _ | malformed _ => cases h
  | notModified =>
      obtain ⟨rfl, _⟩ := Prod.mk.inj (Except.ok.inj h)
      cases hev
  | ok etag all =>
      obtain ⟨rfl, _⟩ := Prod.mk.inj (Except.ok.inj h)
      obtain ⟨entry, hentry, rfl⟩ := List.mem_map.mp hev
      refine ⟨etag, all, rfl, entry, ?_, rfl⟩
      unfold freshEntries at hentry
      split at hentry
      · exact (List.takeWhile_sublist _).subset hentry
      · exact hentry

theorem mem_pollRepos {i : Nat} {repos : List RepoTarget}
    (h : pollRepos cursor answers i repos = .ok (events, next)) {ev : GithubEvent}
    (hev : ev ∈ events) : ∃ repo ∈ repos, ∃ j sent etag all,
      answers j repo.name sent = .ok etag all ∧ ∃ entry ∈ all,
        ev = foldPrivacy repo.isPrivate entry := by
  induction repos generalizing i events next with
  | nil =>
      obtain ⟨rfl, _⟩ := Prod.mk.inj (Except.ok.inj h)
      cases hev
  | cons repo repos ih =>
      obtain ⟨fresh, repoNext, rest, cursors, hone, hrest, rfl, _⟩ := pollRepos_cons h
      rcases List.mem_append.mp hev with hin | hin
      · obtain ⟨etag, all, hanswer, hentry⟩ := mem_pollRepo hone hin
        exact ⟨repo, List.mem_cons_self, i, _, etag, all, hanswer, hentry⟩
      · obtain ⟨repo', hrepo', hfound⟩ := ih hrest hin
        exact ⟨repo', List.mem_cons_of_mem repo hrepo', hfound⟩

end Polled

/-- A repository that is allowed by name, or listed, with what the list says of it. -/
def Listed (allowed : Option (List String)) (list : Answer Value) (name : String)
    (isPrivate : Bool) : Prop :=
  match allowed with
  | some names => name ∈ names ∧ isPrivate = false
  | none => ∃ etag body repos, list = .ok etag body ∧
      recordField ["repositories"] 0 body = some (.arr repos) ∧
      ∃ repo ∈ repos, recordField repoEntryFields 0 repo = some (.str name) ∧
        isPrivate = listSaysPrivate repo

/-- An entry of a page that was answered for the repository. -/
def OnPage (answers : Nat → String → Option String → Answer Value) (name : String) (entry : Value) :
    Prop :=
  ∃ i sent etag entries, answers i name sent = .ok etag (.arr entries) ∧ entry ∈ entries

theorem decode_eq_ok {α : Type} {parse : Value → Option α} {error : String} {answer : Answer Value}
    {etag : Option String} {a : α} (h : answer.decode parse error = .ok etag a) :
    ∃ body, answer = .ok etag body ∧ parse body = some a := by
  cases answer with
  | unreachable _ | notModified | status _ | malformed _ => cases h
  | ok etag' body =>
      change (parse body).elim (Answer.malformed error) (Answer.ok etag') = .ok etag a at h
      cases hparse : parse body with
      | none =>
          rw [hparse] at h
          cases h
      | some b =>
          rw [hparse] at h
          obtain ⟨rfl, rfl⟩ := Answer.ok.inj h
          exact ⟨body, rfl, hparse⟩

theorem mem_mapM_option {α β : Type} {f : α → Option β} {l : List α} {r : List β}
    (h : l.mapM f = some r) {b : β} (hb : b ∈ r) : ∃ a ∈ l, f a = some b := by
  induction l generalizing r with
  | nil =>
      simp only [List.mapM_nil, Option.pure_def, Option.some.injEq] at h
      subst h
      cases hb
  | cons a l ih =>
      simp only [List.mapM_cons, Option.bind_eq_bind, Option.bind_eq_some_iff, Option.pure_def,
        Option.some.injEq] at h
      obtain ⟨b', hb', rest, hrest, rfl⟩ := h
      rcases List.mem_cons.mp hb with rfl | hin
      · exact ⟨a, List.mem_cons_self, hb'⟩
      · obtain ⟨a', ha', hfa⟩ := ih hrest hin
        exact ⟨a', List.mem_cons_of_mem a ha', hfa⟩

theorem parseRepoEntry_name {v : Value} {repo : RepoTarget} (h : parseRepoEntry v = some repo) :
    recordField repoEntryFields 0 v = some (.str repo.name) := by
  unfold parseRepoEntry at h
  split at h
  · rename_i fullName isPrivate hfields
    unfold recordField
    rw [hfields]
    simp only [Option.bind_eq_bind, Option.bind_eq_some_iff, Option.pure_def,
      Option.some.injEq] at h
    obtain ⟨name, ⟨field, hfield, hname⟩, _, _, rfl⟩ := h
    cases field with
    | str s =>
        obtain rfl := Option.some.inj hname
        exact hfield
    | _ => cases hname
  · cases h

theorem mem_parseInstallationRepos {v : Value} {repos : List RepoTarget}
    (h : parseInstallationRepos v = some repos) {repo : RepoTarget} (hrepo : repo ∈ repos) :
    ∃ entries, recordField ["repositories"] 0 v = some (.arr entries) ∧
      ∃ entry ∈ entries, parseRepoEntry entry = some repo := by
  unfold parseInstallationRepos at h
  split at h
  · rename_i repositories hfields
    unfold recordField
    rw [hfields]
    cases repositories with
    | none =>
        obtain rfl := Option.some.inj h
        cases hrepo
    | some list =>
        cases list with
        | arr entries => exact ⟨entries, rfl, mem_mapM_option h hrepo⟩
        | _ => cases h
  · cases h

theorem listed_of_mem {allowed : Option (List String)} {list : Answer Value} {error : String}
    {repos : List RepoTarget}
    (h : reposToPoll allowed (list.decode parseInstallationRepos error) = .ok repos)
    {repo : RepoTarget} (hrepo : repo ∈ repos) : Listed allowed list repo.name repo.isPrivate := by
  cases allowed with
  | some names =>
      obtain rfl := Except.ok.inj h
      obtain ⟨name, hname, rfl⟩ := List.mem_map.mp hrepo
      exact ⟨hname, rfl⟩
  | none =>
      cases hdecoded : list.decode parseInstallationRepos error with
      | ok etag targets =>
          rw [hdecoded] at h
          obtain rfl := Except.ok.inj h
          obtain ⟨body, hbody, hparse⟩ := decode_eq_ok hdecoded
          obtain ⟨entries, hentries, entry, hentry, hone⟩ := mem_parseInstallationRepos hparse hrepo
          exact ⟨etag, body, entries, hbody, hentries, entry, hentry, parseRepoEntry_name hone,
            isPrivate_parseRepoEntry hone⟩
      | unreachable _ | notModified | status _ | malformed _ =>
          rw [hdecoded] at h
          cases h

/-! ## Where each event goes -/

section Owned

variable (sha256 : List UInt8 → List UInt8) (parseTime : String → Option DateTime) (owner : Uuid)
  (connection : Uuid)

/-- The scope of an event on a connection with an owner. -/
def GithubEvent.scopeOn (ev : GithubEvent) : Scope :=
  (ev.ingested sha256 (some owner) connection).key.scope

/-- On a connection with an owner, a polled event is made of an entry of its repository's page and is
private exactly when that entry or the list says so, and a delivered one when its body does; an
entry that has `public` but as no boolean makes no event. -/
theorem private_exactly_when_said :
    (∀ allowed list listError answers error cursor events next,
      githubPoll allowed (list.decode parseInstallationRepos listError)
        (fun i name sent => (answers i name sent).decode (parseEntries parseTime) error) cursor =
          .ok (events, next) →
      ∀ ev ∈ events, ∃ name isPrivate entry ev₀, Listed allowed list name isPrivate ∧
        OnPage answers name entry ∧ parseEntry parseTime entry = some ev₀ ∧
        ev = foldPrivacy isPrivate ev₀ ∧ ev.scopeOn sha256 owner connection =
          if isPrivate || entrySaysPrivate entry then .ofPrivate owner else .ofPublic) ∧
    (∀ now eventType deliveryId body,
      (fromWebhook parseTime now eventType deliveryId body).scopeOn sha256 owner connection =
        if bodySaysPrivate body then .ofPrivate owner else .ofPublic) ∧
    ∀ entry x, recordField entryFields 6 entry = some x → x.asBool = none →
      parseEntry parseTime entry = none := by
  have hscope : ∀ b : Bool, scopeFor b (some owner) = if b then .ofPrivate owner
      else .ofPublic := by
    intro b
    cases b <;> rfl
  refine ⟨?_, ?_, fun entry x => parseEntry_eq_none⟩
  · intro allowed list listError answers error cursor events next hpoll ev hev
    unfold githubPoll at hpoll
    cases hrepos : reposToPoll allowed (list.decode parseInstallationRepos listError) with
    | error e =>
        rw [hrepos] at hpoll
        cases hpoll
    | ok repos =>
        rw [hrepos] at hpoll
        obtain ⟨repo, hrepo, i, sent, etag, all, hanswer, entry, hentry, rfl⟩ :=
          mem_pollRepos hpoll hev
        obtain ⟨body, hbody, hparse⟩ := decode_eq_ok hanswer
        cases body with
        | arr entries =>
            obtain ⟨v, hv, hparsed⟩ := mem_mapM_option hparse hentry
            refine ⟨repo.name, repo.isPrivate, v, entry, listed_of_mem hrepos hrepo,
              ⟨i, sent, etag, entries, hbody, hv⟩, hparsed, rfl, ?_⟩
            rw [← isPublic_parseEntry hparsed, ← foldPrivacy_isPublic]
            exact hscope _
        | _ => cases hparse
  · intro now eventType deliveryId body
    have hbody : (!(fromWebhook parseTime now eventType deliveryId body).isPublic) =
        bodySaysPrivate body := by
      show (!!((body.dig ["repository", "private"]).bind Value.asBool).getD false) = _
      unfold bodySaysPrivate
      rcases (body.dig ["repository", "private"]).bind Value.asBool with _ | b
      · rfl
      · cases b <;> rfl
    rw [← hbody]
    exact hscope _

end Owned

/-- An entry that says it is not public, and one that says nothing. -/
def mixedPage : Value :=
  .arr [.obj [("id", .str "42"), ("type", .str "PushEvent"), ("created_at", .str "now"),
      ("public", .bool false)],
    .obj [("id", .str "41"), ("type", .str "WatchEvent"), ("created_at", .str "now")]]

/-- A repository of which nothing is said, and a private one. -/
def mixedList : Value :=
  .obj [("repositories", .arr [.obj [("full_name", .str "octo/open")],
    .obj [("full_name", .str "octo/secret"), ("private", .bool true)]])]

/-- Only the second entry of the first repository is public. -/
theorem private_exactly_when_said_mixed : ∃ events next,
    githubPoll none ((Answer.ok none mixedList).decode parseInstallationRepos "")
      (fun _ _ _ => (Answer.ok none mixedPage).decode (parseEntries fun _ => some 0) "") ∅ =
        .ok (events, next) ∧
    events.map (fun ev => (ev.id, ev.scopeOn id 7 1)) =
      [("42", .ofPrivate 7), ("41", .ofPublic), ("42", .ofPrivate 7), ("41", .ofPrivate 7)] ∧
    ∀ ev ∈ events, ∃ name isPrivate entry ev₀, Listed none (.ok none mixedList) name isPrivate ∧
      OnPage (fun _ _ _ => .ok none mixedPage) name entry ∧
      parseEntry (fun _ => some 0) entry = some ev₀ ∧ ev = foldPrivacy isPrivate ev₀ ∧
      ev.scopeOn id 7 1 = if isPrivate || entrySaysPrivate entry then .ofPrivate 7
        else .ofPublic := by
  have hpoll : ∃ events next, githubPoll none
      ((Answer.ok none mixedList).decode parseInstallationRepos "")
      (fun _ _ _ => (Answer.ok none mixedPage).decode (parseEntries fun _ => some 0) "") ∅ =
        .ok (events, next) ∧ events.map (fun ev => (ev.id, ev.scopeOn id 7 1)) =
          [("42", .ofPrivate 7), ("41", .ofPublic), ("42", .ofPrivate 7), ("41", .ofPrivate 7)] :=
    ⟨_, _, rfl, by decide +kernel⟩
  obtain ⟨events, next, hpoll, hscopes⟩ := hpoll
  exact ⟨events, next, hpoll, hscopes, (private_exactly_when_said id (fun _ => some 0) 7 1).1 _ _ _
    (fun _ _ _ => .ok none mixedPage) _ _ _ _ hpoll⟩

/-- A delivery without a repository, as of an organisation, is public. -/
theorem unsaid_delivery_public :
    (fromWebhook (fun _ => none) 0 "organization" "72d3"
      (.obj [("action", .str "member_added")])).scopeOn id 7 1 = .ofPublic ∧
    ¬ ∀ body : Value, (fromWebhook (fun _ => none) 0 "organization" "72d3" body).scopeOn id 7 1 =
        .ofPublic → (body.dig ["repository", "private"]).bind Value.asBool = some false := by
  have hscope : (fromWebhook (fun _ => none) 0 "organization" "72d3"
      (.obj [("action", .str "member_added")])).scopeOn id 7 1 = .ofPublic := rfl
  refine ⟨hscope, fun hall => ?_⟩
  have hflag := hall _ hscope
  simp [Value.dig, Value.get] at hflag

end Bulletin
