import Bulletin.Core.Run
import Bulletin.Ingest.Github.Intakes

/-! # The poll as a backstop

The feed of a repository grows at its head, and the server shows a page of its newest
events, and a page of the repositories. Without webhooks the log has what polls have fetched.
-/

namespace Bulletin

/-! ## The server -/

/-- What the server shows of a feed: a page, under a validator that tells pages apart. -/
structure GithubServer where
  pageSize : Nat
  repoPageSize : Nat
  etag : List GithubEvent → Option String
  etag_injective : ∀ p q t, etag p = some t → etag q = some t → p = q

namespace GithubServer

variable (server : GithubServer)

def page (feed : List GithubEvent) : List GithubEvent := feed.take server.pageSize

/-- The answer to a request for the events of a repository, with the validator it sent. -/
def answer (feed : List GithubEvent) (sent : Option String) : Answer (List GithubEvent) :=
  if sent.isSome ∧ sent = server.etag (server.page feed) then .notModified
  else .ok (server.etag (server.page feed)) (server.page feed)

def cursorOf (feed : List GithubEvent) : RepoCursor where
  etag := server.etag (server.page feed)
  lastEventId := (server.page feed).head?.map (·.id)

variable {server} {newer older feed : List GithubEvent} {repo : RepoTarget}

/-- The page up to the last event that was seen is what came up since, as far as it is on the
page. -/
theorem freshEntries_page (hids : ((newer ++ older).map (·.id)).Nodup) :
    freshEntries (server.cursorOf older) (server.page (newer ++ older)) =
      newer.take server.pageSize := by
  unfold freshEntries cursorOf page
  cases older with
  | nil => simp
  | cons seen rest =>
      rcases Nat.eq_zero_or_pos server.pageSize with hzero | hpos
      · simp [hzero]
      · have hnew : ∀ ev ∈ newer.take server.pageSize, decide (ev.id ≠ seen.id) = true := by
          intro ev hev
          rw [List.map_append, List.map_cons, List.nodup_append] at hids
          exact decide_eq_true (hids.2.2 ev.id (List.mem_map_of_mem (List.mem_of_mem_take hev))
            seen.id List.mem_cons_self)
        have hstop : ((seen :: rest).take (server.pageSize - newer.length)).takeWhile
            (fun ev => decide (ev.id ≠ seen.id)) = [] := by
          cases server.pageSize - newer.length <;> simp
        have hhead : ((seen :: rest).take server.pageSize).head? = some seen := by
          rw [List.head?_take, if_neg (by omega), List.head?_cons]
        rw [hhead, Option.map_some]
        dsimp only
        rw [List.take_append, List.takeWhile_append_of_pos hnew, hstop, List.append_nil]

theorem pollRepo_first : pollRepo repo {} (server.answer feed none) =
    .ok ((feed.take server.pageSize).map (foldPrivacy repo.isPrivate), server.cursorOf feed) := by
  unfold answer
  rw [if_neg (by simp)]
  unfold pollRepo freshEntries cursorOf page
  simp

/-- A request with the cursor of the last poll gets what came up since, as far as it is on the
page, and moves the cursor to the head of the feed. -/
theorem pollRepo_since (hids : ((newer ++ older).map (·.id)).Nodup) :
    pollRepo repo (server.cursorOf older)
      (server.answer (newer ++ older) (server.cursorOf older).etag) =
    .ok ((newer.take server.pageSize).map (foldPrivacy repo.isPrivate),
      server.cursorOf (newer ++ older)) := by
  have hfresh := server.freshEntries_page hids
  unfold answer
  split
  · rename_i hsame
    -- the validator is the one of the old page, so the pages are one and nothing is new
    obtain ⟨tag, htag⟩ := Option.isSome_iff_exists.mp hsame.1
    have hpage : server.page (newer ++ older) = server.page older :=
      server.etag_injective _ _ tag (hsame.2.symm.trans htag) htag
    have hold : ((([] : List GithubEvent) ++ older).map (·.id)).Nodup := by
      rw [List.map_append] at hids
      exact hids.of_append_right
    have hnone := server.freshEntries_page hold
    rw [List.nil_append, ← hpage, hfresh, List.take_nil] at hnone
    have hcursor : server.cursorOf (newer ++ older) = server.cursorOf older := by
      unfold cursorOf
      rw [hpage]
    rw [hnone, hcursor]
    rfl
  · unfold pollRepo
    dsimp only
    rw [hfresh]
    have hhead : (newer.take server.pageSize).head?.or (older.take server.pageSize).head? =
        ((newer ++ older).take server.pageSize).head? := by
      rw [List.head?_take, List.head?_take, List.head?_take, List.head?_append]
      split <;> rfl
    congr 3
    unfold cursorOf page
    rw [← Option.map_or, hhead]

end GithubServer

/-! ## Runs of one connection -/

/-- The feeds of all repositories together, newest first, and what the connection has of them. -/
structure Backstop where
  feed : List (String × GithubEvent) := []
  repositories : List RepoTarget := []
  cursor : GithubCursor := ∅
  log : List Event := []
  /-- The feeds at the last poll that succeeded. -/
  polled : Option (List (String × GithubEvent)) := none
  /-- The ids of the entries that were handed to the log. -/
  ingested : List String := []
  /-- The ids of the entries that came up between two polls that succeeded, in a repository the
  connection could see at the second. -/
  owed : List String := []

inductive BackstopAction where
  /-- An activity comes up in the feed of a repository. -/
  | appear (repo : String) (entry : GithubEvent)
  | grant (repositories : List RepoTarget)
  /-- A poll succeeds; its events get the ids from `firstId` on. -/
  | poll (now : DateTime) (firstId : Uuid)
  | fail

def feedOf (feed : List (String × GithubEvent)) (repo : String) : List GithubEvent :=
  (feed.filter (·.1 = repo)).map (·.2)

section Steps

variable (sha256 : List UInt8 → List UInt8) (owner : Option Uuid) (connection : Uuid)
  (allowed : Option (List String)) (server : GithubServer)

namespace Backstop

def accessible (s : Backstop) : List String := allowed.getD (s.repositories.map (·.name))

def requested (s : Backstop) : List RepoTarget :=
  match allowed with
  | some names => names.map fun name => ⟨name, false⟩
  | none => s.repositories.take server.repoPageSize

def sinceLast (s : Backstop) : List (String × GithubEvent) :=
  match s.polled with
  | none => []
  | some polled => s.feed.take (s.feed.length - polled.length)

def arrivals (now : DateTime) (firstId : Uuid) (events : List GithubEvent) :
    List (DateTime × Uuid × NewEvent) :=
  events.mapIdx fun i ev => (now, firstId + i, ev.ingested sha256 owner connection)

/-- The step an action makes, if it can. -/
def next (s : Backstop) (act : BackstopAction) : Option Backstop :=
  match act with
  | .appear repo entry =>
      if entry.id ∈ s.feed.map (·.2.id) then none
        else some { s with feed := (repo, entry) :: s.feed }
  | .grant repositories => some { s with repositories := repositories }
  | .poll now firstId =>
      match githubPoll allowed (.ok none (s.repositories.take server.repoPageSize))
          (fun _ name sent => server.answer (feedOf s.feed name) sent) s.cursor with
      | .error _ => none
      | .ok (events, cursor) => some { s with
          cursor := cursor
          log := insertAll (arrivals sha256 owner connection now firstId events) s.log
          polled := some s.feed
          ingested := s.ingested ++ events.map (·.id)
          owed := s.owed ++
            (s.sinceLast.filter (·.1 ∈ s.accessible allowed)).map (·.2.id) }
  | .fail => some s

end Backstop

def BackstopStep (s : Backstop) (act : BackstopAction) (s' : Backstop) : Prop :=
  s.next sha256 owner connection allowed server act = some s'

/-- A run from before the first activity. -/
abbrev BackstopRuns (ts : List (Run.Transition Backstop BackstopAction)) (s : Backstop) : Prop :=
  Run.Runs (BackstopStep sha256 owner connection allowed server) {} ts s

/-- Every activity that came up between two polls is ingested, and so is every one that is not newer
than the cursor. -/
structure Backstop.Complete (s : Backstop) : Prop where
  owed : ∀ id ∈ s.owed, id ∈ s.ingested
  cursor : ∀ (repo : String) (c : RepoCursor) (newer older : List GithubEvent) (ev : GithubEvent),
    s.cursor[repo]? = some c → c.lastEventId = some ev.id →
    feedOf s.feed repo = newer ++ ev :: older → ∀ x ∈ ev :: older, x.id ∈ s.ingested

/-- The poll finds new activity in a repository beyond the page of repositories, or more of it than
a page of events, or a repository with an event beyond the page that was not ingested before. -/
def Overflows (s : Backstop) : BackstopAction → Prop
  | .poll _ _ => (∃ repo ∈ s.accessible allowed, feedOf s.sinceLast repo ≠ [] ∧
      (repo ∉ (s.requested allowed server).map (·.name) ∨
        server.pageSize < (feedOf s.sinceLast repo).length)) ∨
    (0 < server.pageSize ∧ ∃ repo ∈ s.requested allowed server,
      ∃ x ∈ (feedOf s.feed repo.name).drop server.pageSize, x.id ∉ s.ingested)
  | _ => False

instance (s : Backstop) (act : BackstopAction) : Decidable (Overflows allowed server s act) :=
  match act with
  | .poll _ _ => inferInstanceAs (Decidable ((∃ repo ∈ s.accessible allowed,
      feedOf s.sinceLast repo ≠ [] ∧ (repo ∉ (s.requested allowed server).map (·.name) ∨
        server.pageSize < (feedOf s.sinceLast repo).length)) ∨
      (0 < server.pageSize ∧ ∃ repo ∈ s.requested allowed server,
        ∃ x ∈ (feedOf s.feed repo.name).drop server.pageSize, x.id ∉ s.ingested)))
  | .appear _ _ | .grant _ | .fail => .isFalse id

end Steps

/-! ## Feeds -/

section Feeds

variable {feed older newer : List (String × GithubEvent)} {repo repo' : String}
  {ev ev' : GithubEvent}

theorem mem_feedOf : ev ∈ feedOf feed repo ↔ (repo, ev) ∈ feed := by
  unfold feedOf
  rw [List.mem_map]
  constructor
  · rintro ⟨x, hx, rfl⟩
    obtain ⟨hmem, hrepo⟩ := List.mem_filter.mp hx
    rw [← of_decide_eq_true hrepo]
    exact hmem
  · intro h
    exact ⟨(repo, ev), List.mem_filter.mpr ⟨h, decide_eq_true rfl⟩, rfl⟩

theorem feedOf_append : feedOf (newer ++ older) repo = feedOf newer repo ++ feedOf older repo := by
  unfold feedOf
  rw [List.filter_append, List.map_append]

theorem nodup_feedOf (h : (feed.map (·.2.id)).Nodup) : ((feedOf feed repo).map (·.id)).Nodup := by
  unfold feedOf
  rw [List.map_map]
  exact h.sublist (List.filter_sublist.map _)

theorem entry_unique (h : (feed.map (·.2.id)).Nodup) (hev : (repo, ev) ∈ feed)
    (hev' : (repo', ev') ∈ feed) (hid : ev.id = ev'.id) : repo = repo' ∧ ev = ev' :=
  Prod.mk.inj (List.inj_on_of_nodup_map h hev hev' hid)

end Feeds

/-! ## A poll -/

section Polls

variable {sha256 : List UInt8 → List UInt8} {owner : Option Uuid} {connection : Uuid}
  {allowed : Option (List String)} {server : GithubServer} {s s' : Backstop}
  {ts : List (Run.Transition Backstop BackstopAction)}

namespace Backstop

/-- What a connection knows: the cursors are of the feeds at the last poll, what was ingested was in
a feed then, and its rows are in the log. -/
structure Sound (sha256 : List UInt8 → List UInt8) (owner : Option Uuid) (connection : Uuid)
    (server : GithubServer) (s : Backstop) : Prop where
  ids : (s.feed.map (·.2.id)).Nodup
  older : ∀ polled, s.polled = some polled → polled <:+ s.feed
  cursor : ∀ repo c, s.cursor[repo]? = some c →
    ∃ polled, s.polled = some polled ∧ c = server.cursorOf (feedOf polled repo)
  ingested : ∀ id ∈ s.ingested, ∃ polled, s.polled = some polled ∧ id ∈ polled.map (·.2.id)
  recorded : ∀ repo ev, (repo, ev) ∈ s.feed → ev.id ∈ s.ingested →
    ∃ isPrivate, InLog s.log ((foldPrivacy isPrivate ev).ingested sha256 owner connection)

/-- What a poll takes of a repository it asks for. -/
def fresh (server : GithubServer) (s : Backstop) (repo : String) : List GithubEvent :=
  (feedOf (if repo ∈ s.cursor then s.sinceLast else s.feed) repo).take server.pageSize

def fetched (allowed : Option (List String)) (server : GithubServer) (s : Backstop) :
    List GithubEvent :=
  (s.requested allowed server).flatMap fun repo =>
    (s.fresh server repo.name).map (foldPrivacy repo.isPrivate)

theorem Sound.feed_eq (h : s.Sound sha256 owner connection server)
    {polled : List (String × GithubEvent)} (hpolled : s.polled = some polled) :
    s.feed = s.sinceLast ++ polled := by
  obtain ⟨newer, hfeed⟩ := h.older polled hpolled
  unfold sinceLast
  rw [hpolled]
  dsimp only
  rw [← hfeed, List.length_append, Nat.add_sub_cancel, List.take_left]

theorem Sound.pollRepo (h : s.Sound sha256 owner connection server) (repo : RepoTarget) :
    Bulletin.pollRepo repo (s.cursor.getD repo.name {})
      (server.answer (feedOf s.feed repo.name) (s.cursor.getD repo.name {}).etag) =
    .ok ((s.fresh server repo.name).map (foldPrivacy repo.isPrivate),
      server.cursorOf (feedOf s.feed repo.name)) := by
  unfold fresh
  rw [Std.ExtTreeMap.getD_eq_getD_getElem?]
  cases hcursor : s.cursor[repo.name]? with
  | none =>
      rw [if_neg (by simpa using hcursor)]
      exact GithubServer.pollRepo_first
  | some c =>
      obtain ⟨polled, hpolled, rfl⟩ := h.cursor repo.name c hcursor
      have hmem : repo.name ∈ s.cursor := by
        rw [← Std.ExtTreeMap.isSome_getElem?_iff_mem, hcursor]
        rfl
      have hids : ((feedOf s.feed repo.name).map (·.id)).Nodup := nodup_feedOf h.ids
      rw [h.feed_eq hpolled, feedOf_append] at hids
      rw [if_pos hmem, h.feed_eq hpolled, feedOf_append]
      exact GithubServer.pollRepo_since hids

theorem Sound.pollRepos (h : s.Sound sha256 owner connection server) (repos : List RepoTarget)
    (i : Nat) : ∃ cursor : GithubCursor,
      Bulletin.pollRepos s.cursor (fun _ name sent =>
        server.answer (feedOf s.feed name) sent) i repos =
        .ok (repos.flatMap fun repo => (s.fresh server repo.name).map (foldPrivacy repo.isPrivate),
          cursor) ∧
      ∀ name c, cursor[name]? = some c ↔
        name ∈ repos.map (·.name) ∧ c = server.cursorOf (feedOf s.feed name) := by
  induction repos generalizing i with
  | nil => exact ⟨∅, rfl, by simp⟩
  | cons repo repos ih =>
      obtain ⟨cursors, hrest, hcursors⟩ := ih (i + 1)
      unfold Bulletin.pollRepos
      dsimp only
      rw [h.pollRepo repo, hrest]
      refine ⟨_, rfl, ?_⟩
      intro name c
      split
      · rename_i hmem
        obtain ⟨hin, _⟩ := (hcursors repo.name cursors[repo.name]).mp (by simp)
        rw [hcursors, List.map_cons, List.mem_cons]
        constructor
        · intro hc
          exact ⟨Or.inr hc.1, hc.2⟩
        · rintro ⟨rfl | hname, hc⟩
          · exact ⟨hin, hc⟩
          · exact ⟨hname, hc⟩
      · rename_i hmem
        rw [Std.ExtTreeMap.getElem?_insert, List.map_cons, List.mem_cons]
        split
        · rename_i hsame
          obtain rfl : repo.name = name := by simpa using hsame
          simp [eq_comm]
        · rename_i hother
          have hne : name ≠ repo.name := by
            rintro rfl
            simp at hother
          rw [hcursors]
          simp [hne]

theorem mem_fetched {ev : GithubEvent} (hev : ev ∈ s.fetched allowed server) :
    ∃ repo ∈ s.requested allowed server, ∃ entry ∈ s.fresh server repo.name,
      ev = foldPrivacy repo.isPrivate entry := by
  obtain ⟨repo, hrepo, hin⟩ := List.mem_flatMap.mp hev
  obtain ⟨entry, hentry, rfl⟩ := List.mem_map.mp hin
  exact ⟨repo, hrepo, entry, hentry, rfl⟩

@[simp] theorem foldPrivacy_id (isPrivate : Bool) (ev : GithubEvent) :
    (foldPrivacy isPrivate ev).id = ev.id := by
  unfold foldPrivacy
  split <;> rfl

theorem mem_feed_of_fresh {repo : String} {ev : GithubEvent} (h : ev ∈ s.fresh server repo) :
    (repo, ev) ∈ s.feed := by
  have hin := mem_feedOf.mp (List.mem_of_mem_take h)
  split at hin
  · unfold sinceLast at hin
    split at hin
    · cases hin
    · exact List.mem_of_mem_take hin
  · exact hin

/-- An entry is fetched exactly when it is fresh in a repository that is asked for. -/
theorem Sound.mem_fetched_ids (h : s.Sound sha256 owner connection server) {repo : String}
    {ev : GithubEvent} (hev : (repo, ev) ∈ s.feed) :
    ev.id ∈ (s.fetched allowed server).map (·.id) ↔
      repo ∈ (s.requested allowed server).map (·.name) ∧ ev ∈ s.fresh server repo := by
  rw [List.mem_map]
  constructor
  · rintro ⟨x, hx, hid⟩
    obtain ⟨target, htarget, entry, hentry, rfl⟩ := mem_fetched hx
    rw [foldPrivacy_id] at hid
    obtain ⟨rfl, rfl⟩ := entry_unique h.ids (mem_feed_of_fresh hentry) hev hid
    exact ⟨List.mem_map_of_mem htarget, hentry⟩
  · rintro ⟨hrepo, hfresh⟩
    obtain ⟨target, htarget, rfl⟩ := List.mem_map.mp hrepo
    exact ⟨foldPrivacy target.isPrivate ev, List.mem_flatMap.mpr
      ⟨target, htarget, List.mem_map_of_mem hfresh⟩, foldPrivacy_id _ _⟩

theorem Sound.poll_cases (h : s.Sound sha256 owner connection server) {now : DateTime}
    {firstId : Uuid}
    (hstep : BackstopStep sha256 owner connection allowed server s (.poll now firstId) s') :
    ∃ cursor : GithubCursor,
      (∀ name c, cursor[name]? = some c ↔ name ∈ (s.requested allowed server).map (·.name) ∧
        c = server.cursorOf (feedOf s.feed name)) ∧
      s' = { s with
        cursor := cursor
        log := insertAll (arrivals sha256 owner connection now firstId (s.fetched allowed server)) s.log
        polled := some s.feed
        ingested := s.ingested ++ (s.fetched allowed server).map (·.id)
        owed := s.owed ++ (s.sinceLast.filter (·.1 ∈ s.accessible allowed)).map (·.2.id) } := by
  obtain ⟨cursor, hpoll, hcursor⟩ := h.pollRepos (s.requested allowed server) 0
  have hrepos : reposToPoll allowed (.ok none (s.repositories.take server.repoPageSize)) =
      .ok (s.requested allowed server) := by
    cases allowed <;> rfl
  refine ⟨cursor, hcursor, ?_⟩
  unfold BackstopStep next githubPoll at hstep
  rw [hrepos] at hstep
  change (match Bulletin.pollRepos s.cursor _ 0 (s.requested allowed server) with
    | .error _ => none
    | .ok (events, cursor) => some _) = some s' at hstep
  rw [hpoll] at hstep
  exact (Option.some.inj hstep).symm

theorem step_appear {repo : String} {entry : GithubEvent}
    (hstep : BackstopStep sha256 owner connection allowed server s (.appear repo entry) s') :
    entry.id ∉ s.feed.map (·.2.id) ∧ s' = { s with feed := (repo, entry) :: s.feed } := by
  unfold BackstopStep next at hstep
  dsimp only at hstep
  split at hstep
  · cases hstep
  · rename_i hnew
    exact ⟨hnew, (Option.some.inj hstep).symm⟩

theorem Sound.step (h : s.Sound sha256 owner connection server) {act : BackstopAction}
    (hstep : BackstopStep sha256 owner connection allowed server s act s') :
    s'.Sound sha256 owner connection server := by
  have hknown : ∀ id ∈ s.ingested, id ∈ s.feed.map (·.2.id) := by
    intro id hid
    obtain ⟨polled, hpolled, hin⟩ := h.ingested id hid
    exact ((h.older polled hpolled).map _).subset hin
  cases act with
  | appear repo entry =>
      obtain ⟨hnew, rfl⟩ := step_appear hstep
      refine ⟨?_, ?_, h.cursor, h.ingested, ?_⟩
      · rw [List.map_cons, List.nodup_cons]
        exact ⟨hnew, h.ids⟩
      · intro polled hpolled
        exact (h.older polled hpolled).trans (List.suffix_cons _ _)
      · intro repo' ev hev hid
        rcases List.mem_cons.mp hev with heq | hin
        · obtain ⟨rfl, rfl⟩ := Prod.mk.inj heq
          exact absurd (hknown ev.id hid) hnew
        · exact h.recorded repo' ev hin hid
  | grant repositories =>
      obtain rfl := Option.some.inj hstep
      exact ⟨h.ids, h.older, h.cursor, h.ingested, h.recorded⟩
  | poll now firstId =>
      obtain ⟨cursor, hcursor, rfl⟩ := h.poll_cases hstep
      refine ⟨h.ids, ?_, ?_, ?_, ?_⟩
      · rintro polled ⟨⟩
        exact List.suffix_refl _
      · intro repo c hc
        exact ⟨s.feed, rfl, ((hcursor repo c).mp hc).2⟩
      · intro id hid
        refine ⟨s.feed, rfl, ?_⟩
        rcases List.mem_append.mp hid with hold | hnew
        · exact hknown id hold
        · obtain ⟨ev, hev, rfl⟩ := List.mem_map.mp hnew
          obtain ⟨repo, _, entry, hentry, rfl⟩ := mem_fetched hev
          rw [foldPrivacy_id]
          exact List.mem_map_of_mem (mem_feed_of_fresh hentry)
      · intro repo ev hev hid
        rcases List.mem_append.mp hid with hold | hnew
        · obtain ⟨isPrivate, hrecorded⟩ := h.recorded repo ev hev hold
          exact ⟨isPrivate, hrecorded.mono subset_insertAll⟩
        · obtain ⟨hrepo, hfresh⟩ := (h.mem_fetched_ids hev).mp hnew
          obtain ⟨target, htarget, rfl⟩ := List.mem_map.mp hrepo
          have hfetched : foldPrivacy target.isPrivate ev ∈ s.fetched allowed server :=
            List.mem_flatMap.mpr ⟨target, htarget, List.mem_map_of_mem hfresh⟩
          obtain ⟨i, hi, hget⟩ := List.getElem_of_mem hfetched
          have harrives : (now, firstId + i, (foldPrivacy target.isPrivate ev).ingested sha256 owner
              connection) ∈ arrivals sha256 owner connection now firstId
                  (s.fetched allowed server) := by
            unfold arrivals
            rw [List.mem_mapIdx]
            exact ⟨i, hi, by rw [hget]⟩
          exact ⟨target.isPrivate, inLog_insertAll harrives⟩
  | fail =>
      obtain rfl := Option.some.inj hstep
      exact h

theorem Sound.run (h : BackstopRuns sha256 owner connection allowed server ts s) :
    s.Sound sha256 owner connection server := by
  refine h.state_invariant _ ?_ fun t _ hstep hsound => hsound.step hstep
  exact ⟨List.nodup_nil, by simp, by simp, by simp, by simp⟩

/-! ## What a poll misses -/

theorem Sound.fresh_since (h : s.Sound sha256 owner connection server) {repo : String}
    {ev : GithubEvent} (hev : ev ∈ feedOf s.sinceLast repo) :
    ev ∈ s.fresh server repo ↔ ev ∈ (feedOf s.sinceLast repo).take server.pageSize := by
  unfold fresh
  split
  · exact Iff.rfl
  · cases hpolled : s.polled with
    | none =>
        unfold sinceLast at hev
        rw [hpolled] at hev
        cases hev
    | some polled =>
        have hids : ((feedOf s.feed repo).map (·.id)).Nodup := nodup_feedOf h.ids
        rw [h.feed_eq hpolled, feedOf_append] at hids ⊢
        rw [List.take_append, List.mem_append]
        refine or_iff_left ?_
        intro hold
        have hnodup := List.Nodup.of_map _ hids
        exact List.disjoint_of_nodup_append hnodup hev (List.mem_of_mem_take hold)

theorem Sound.fresh_on_page (h : s.Sound sha256 owner connection server) {repo : String}
    {ev : GithubEvent} (hev : ev ∈ s.fresh server repo) :
    ev ∈ (feedOf s.feed repo).take server.pageSize := by
  unfold fresh at hev
  split at hev
  · cases hpolled : s.polled with
    | none =>
        unfold sinceLast at hev
        rw [hpolled] at hev
        simp [feedOf] at hev
    | some polled =>
        rw [h.feed_eq hpolled, feedOf_append, List.take_append]
        exact List.mem_append_left _ hev
  · exact hev

theorem Sound.since_not_ingested (h : s.Sound sha256 owner connection server) {repo : String}
    {ev : GithubEvent} (hev : (repo, ev) ∈ s.sinceLast) : ev.id ∉ s.ingested := by
  intro hid
  obtain ⟨polled, hpolled, hin⟩ := h.ingested ev.id hid
  have hids := h.ids
  rw [h.feed_eq hpolled, List.map_append] at hids
  exact List.disjoint_of_nodup_append hids (List.mem_map_of_mem hev) hin

/-- A page holds all of a list exactly when the list is no longer. -/
theorem subset_take_iff {α : Type} {l : List α} {n : Nat} (h : l.Nodup) :
    (∀ x ∈ l, x ∈ l.take n) ↔ l.length ≤ n := by
  constructor
  · intro hall
    have hle := (h.subperm hall).length_le
    rw [List.length_take] at hle
    omega
  · intro hle x hx
    rwa [List.take_of_length_le hle]

/-- After a poll everything owed is ingested exactly when no repository had news that it did not ask
for, or more than a page of it. -/
theorem Sound.owed_iff (h : s.Sound sha256 owner connection server)
    (howed : ∀ id ∈ s.owed, id ∈ s.ingested) :
    (∀ id ∈ s.owed ++ (s.sinceLast.filter (·.1 ∈ s.accessible allowed)).map (·.2.id),
      id ∈ s.ingested ++ (s.fetched allowed server).map (·.id)) ↔
    ∀ repo ∈ s.accessible allowed, feedOf s.sinceLast repo ≠ [] →
      repo ∈ (s.requested allowed server).map (·.name) ∧
        (feedOf s.sinceLast repo).length ≤ server.pageSize := by
  have hsub : s.sinceLast ⊆ s.feed := by
    unfold sinceLast
    split
    · exact List.nil_subset _
    · exact List.take_subset _ _
  have hnodup : ∀ repo, (feedOf s.sinceLast repo).Nodup := by
    intro repo
    have hids : (s.sinceLast.map (·.2.id)).Nodup := by
      unfold sinceLast
      split
      · exact List.nodup_nil
      · exact h.ids.sublist ((List.take_sublist _ _).map _)
    exact List.Nodup.of_map _ (nodup_feedOf hids)
  have hone : ∀ repo ev, (repo, ev) ∈ s.sinceLast →
      (ev.id ∈ s.ingested ++ (s.fetched allowed server).map (·.id) ↔
        repo ∈ (s.requested allowed server).map (·.name) ∧
          ev ∈ (feedOf s.sinceLast repo).take server.pageSize) := by
    intro repo ev hev
    rw [List.mem_append, or_iff_right (h.since_not_ingested hev), h.mem_fetched_ids (hsub hev),
      h.fresh_since (mem_feedOf.mpr hev)]
  constructor
  · intro hall repo hrepo hnews
    have hin : ∀ ev ∈ feedOf s.sinceLast repo, repo ∈ (s.requested allowed server).map (·.name) ∧
        ev ∈ (feedOf s.sinceLast repo).take server.pageSize := by
      intro ev hev
      have hmem := mem_feedOf.mp hev
      refine (hone repo ev hmem).mp (hall ev.id (List.mem_append_right _ ?_))
      exact List.mem_map_of_mem (List.mem_filter.mpr ⟨hmem, decide_eq_true hrepo⟩)
    obtain ⟨ev, hev⟩ := List.exists_mem_of_ne_nil _ hnews
    exact ⟨(hin ev hev).1, (subset_take_iff (hnodup repo)).mp fun x hx => (hin x hx).2⟩
  · intro hall id hid
    rcases List.mem_append.mp hid with hold | hnew
    · exact List.mem_append_left _ (howed id hold)
    · obtain ⟨⟨repo, ev⟩, hev, rfl⟩ := List.mem_map.mp hnew
      obtain ⟨hmem, hrepo⟩ := List.mem_filter.mp hev
      have hin := mem_feedOf.mpr hmem
      obtain ⟨hasked, hlength⟩ := hall repo (of_decide_eq_true hrepo) (List.ne_nil_of_mem hin)
      exact (hone repo ev hmem).mpr ⟨hasked, (subset_take_iff (hnodup repo)).mpr hlength ev hin⟩

/-- What is on the page of a repository that is asked for is ingested once the poll is done. -/
theorem Sound.on_page_ingested (h : s.Sound sha256 owner connection server) (hcomplete : s.Complete)
    {repo : String} (hrepo : repo ∈ (s.requested allowed server).map (·.name)) {x : GithubEvent}
    (hx : x ∈ (feedOf s.feed repo).take server.pageSize) :
    x.id ∈ s.ingested ++ (s.fetched allowed server).map (·.id) := by
  have hfeed := mem_feedOf.mp (List.mem_of_mem_take hx)
  by_cases hfresh : x ∈ s.fresh server repo
  · exact List.mem_append_right _ ((h.mem_fetched_ids hfeed).mpr ⟨hrepo, hfresh⟩)
  · -- it was on the feed at the last poll, which left a cursor that is no older
    refine List.mem_append_left _ ?_
    unfold fresh at hfresh
    split at hfresh
    · rename_i hmem
      have hc : s.cursor[repo]? = some s.cursor[repo] :=
        Std.ExtTreeMap.getElem?_eq_some_getElem hmem
      obtain ⟨polled, hpolled, hcursor⟩ := h.cursor repo _ hc
      rw [h.feed_eq hpolled, feedOf_append, List.take_append, List.mem_append] at hx
      have hold := hx.resolve_left hfresh
      cases hfirst : feedOf polled repo with
      | nil => simp [hfirst] at hold
      | cons first rest =>
          have hlast : (server.cursorOf (feedOf polled repo)).lastEventId = some first.id := by
            have hpos : server.pageSize - (feedOf s.sinceLast repo).length ≠ 0 := by
              intro hzero
              simp [hzero] at hold
            unfold GithubServer.cursorOf GithubServer.page
            dsimp only
            rw [hfirst, List.head?_take, if_neg (by omega)]
            rfl
          refine hcomplete.cursor repo _ (feedOf s.sinceLast repo) rest first hc
            (hcursor ▸ hlast) ?_ x ?_
          · rw [h.feed_eq hpolled, feedOf_append, hfirst]
          · rw [← hfirst]
            exact List.mem_of_mem_take hold
    · exact absurd hx hfresh

/-- After a poll nothing that is not newer than a cursor was missed exactly when no event beyond a
page was. -/
theorem Sound.cursor_iff (h : s.Sound sha256 owner connection server) (hcomplete : s.Complete)
    {cursor : GithubCursor} (hcursor : ∀ name c, cursor[name]? = some c ↔
      name ∈ (s.requested allowed server).map (·.name) ∧
        c = server.cursorOf (feedOf s.feed name)) :
    (∀ (repo : String) (c : RepoCursor) (newer older : List GithubEvent) (ev : GithubEvent),
      cursor[repo]? = some c → c.lastEventId = some ev.id →
        feedOf s.feed repo = newer ++ ev :: older →
      ∀ x ∈ ev :: older, x.id ∈ s.ingested ++ (s.fetched allowed server).map (·.id)) ↔
    (0 < server.pageSize → ∀ repo ∈ s.requested allowed server,
      ∀ x ∈ (feedOf s.feed repo.name).drop server.pageSize, x.id ∈ s.ingested) := by
  have hnodup : ∀ repo, (feedOf s.feed repo).Nodup :=
    fun repo => List.Nodup.of_map _ (nodup_feedOf h.ids)
  have hbeyond : ∀ repo, ∀ x ∈ (feedOf s.feed repo).drop server.pageSize,
      x.id ∈ s.ingested ++ (s.fetched allowed server).map (·.id) ↔ x.id ∈ s.ingested := by
    intro repo x hx
    rw [List.mem_append, h.mem_fetched_ids (mem_feedOf.mp (List.mem_of_mem_drop hx))]
    refine or_iff_left ?_
    intro hfetched
    exact List.disjoint_take_drop (hnodup repo) (Nat.le_refl _) (h.fresh_on_page hfetched.2) hx
  constructor
  · intro hall hpos repo hrepo x hx
    refine (hbeyond repo.name x hx).mp ?_
    cases hfeed : feedOf s.feed repo.name with
    | nil => simp [hfeed] at hx
    | cons first rest =>
        have hc := (hcursor repo.name _).mpr ⟨List.mem_map_of_mem hrepo, rfl⟩
        refine hall repo.name _ [] rest first hc ?_ hfeed x ?_
        · unfold GithubServer.cursorOf GithubServer.page
          dsimp only
          rw [hfeed, List.head?_take, if_neg (by omega)]
          rfl
        · rw [← hfeed]
          exact List.mem_of_mem_drop hx
  · intro hall repo c newer older ev hc hlast hfeed x hx
    obtain ⟨hrepo, rfl⟩ := (hcursor repo c).mp hc
    have hpos : 0 < server.pageSize := by
      rcases Nat.eq_zero_or_pos server.pageSize with hzero | hpos
      · simp [GithubServer.cursorOf, GithubServer.page, hzero] at hlast
      · exact hpos
    have hin : x ∈ feedOf s.feed repo := by
      rw [hfeed]
      exact List.mem_append_right _ hx
    rw [← List.take_append_drop server.pageSize (feedOf s.feed repo), List.mem_append] at hin
    rcases hin with hpage | hdrop
    · exact h.on_page_ingested hcomplete hrepo hpage
    · obtain ⟨target, htarget, rfl⟩ := List.mem_map.mp hrepo
      exact List.mem_append_left _ (hall hpos target htarget x hdrop)

theorem Sound.cursor_known (h : s.Sound sha256 owner connection server) {repo id : String}
    {c : RepoCursor} (hc : s.cursor[repo]? = some c) (hlast : c.lastEventId = some id) :
    id ∈ s.feed.map (·.2.id) := by
  obtain ⟨polled, hpolled, rfl⟩ := h.cursor repo c hc
  obtain ⟨first, hfirst, rfl⟩ := Option.map_eq_some_iff.mp hlast
  have hin : first ∈ feedOf polled repo := List.mem_of_mem_take (List.mem_of_head? hfirst)
  exact List.mem_map_of_mem ((h.older polled hpolled).subset (mem_feedOf.mp hin))

theorem not_overflows_iff {now : DateTime} {firstId : Uuid} :
    ¬ Overflows allowed server s (.poll now firstId) ↔
      (∀ repo ∈ s.accessible allowed, feedOf s.sinceLast repo ≠ [] →
        repo ∈ (s.requested allowed server).map (·.name) ∧
          (feedOf s.sinceLast repo).length ≤ server.pageSize) ∧
      (0 < server.pageSize → ∀ repo ∈ s.requested allowed server,
        ∀ x ∈ (feedOf s.feed repo.name).drop server.pageSize, x.id ∈ s.ingested) := by
  unfold Overflows
  push Not
  exact Iff.rfl

/-- A step keeps the log complete exactly when it is not a poll that misses something. -/
theorem Sound.complete_iff (h : s.Sound sha256 owner connection server) {act : BackstopAction}
    (hstep : BackstopStep sha256 owner connection allowed server s act s')
    (hcomplete : s.Complete) :
    s'.Complete ↔ ¬ Overflows allowed server s act := by
  cases act with
  | appear repo entry =>
      obtain ⟨hnew, rfl⟩ := step_appear hstep
      refine iff_of_true ⟨hcomplete.owed, ?_⟩ id
      intro repo' c newer older ev hc hlast hfeed x hx
      by_cases hrepo : repo = repo'
      · have hcons : feedOf ((repo, entry) :: s.feed) repo' = entry :: feedOf s.feed repo' := by
          simp [feedOf, hrepo]
        cases newer with
        | nil =>
            -- the cursor would be at an entry that only came up now
            obtain ⟨rfl, _⟩ := List.cons.inj (hcons.symm.trans hfeed)
            exact absurd (h.cursor_known hc hlast) hnew
        | cons first newer =>
            obtain ⟨_, hrest⟩ := List.cons.inj (hcons.symm.trans hfeed)
            exact hcomplete.cursor repo' c newer older ev hc hlast hrest x hx
      · have hskip : feedOf ((repo, entry) :: s.feed) repo' = feedOf s.feed repo' := by
          simp [feedOf, hrepo]
        exact hcomplete.cursor repo' c newer older ev hc hlast (hskip.symm.trans hfeed) x hx
  | grant repositories =>
      obtain rfl := Option.some.inj hstep
      exact iff_of_true ⟨hcomplete.owed, hcomplete.cursor⟩ id
  | poll now firstId =>
      obtain ⟨cursor, hcursor, rfl⟩ := h.poll_cases hstep
      rw [not_overflows_iff, ← h.owed_iff hcomplete.owed, ← h.cursor_iff hcomplete hcursor]
      constructor
      · intro hafter
        exact ⟨hafter.owed, hafter.cursor⟩
      · intro hboth
        exact ⟨hboth.1, hboth.2⟩
  | fail =>
      obtain rfl := Option.some.inj hstep
      exact iff_of_true hcomplete id

end Backstop

/-- Whatever was ingested is in the log, and nothing is missed exactly when no poll finds more than
it asks for. -/
theorem backstop_iff (h : BackstopRuns sha256 owner connection allowed server ts s) :
    (∀ t ∈ ts, ∀ repo ev, (repo, ev) ∈ t.after.feed → ev.id ∈ t.after.ingested →
      ∃ isPrivate, InLog t.after.log
        ((foldPrivacy isPrivate ev).ingested sha256 owner connection)) ∧
    ((∀ t ∈ ts, t.after.Complete) ↔ ∀ t ∈ ts, ¬ Overflows allowed server t.before t.action) := by
  have hsound : ∀ t ∈ ts, t.before.Sound sha256 owner connection server := by
    intro t ht
    obtain ⟨pre, _, _, hpre⟩ := h.before_of_mem ht
    exact Backstop.Sound.run hpre
  constructor
  · intro t ht
    exact ((hsound t ht).step (h.step_of_mem ht)).recorded
  · refine h.throughout_iff ⟨by simp, by simp⟩ ?_
    intro t ht hcomplete
    exact (hsound t ht).complete_iff (h.step_of_mem ht) hcomplete

end Polls

/-! ## A burst -/

/-- Pages of two events and of one repository, without validators. -/
def smallServer : GithubServer where
  pageSize := 2
  repoPageSize := 1
  etag := fun _ => none
  etag_injective := nofun

def Backstop.play (s : Backstop) (act : BackstopAction) : Option (BackstopAction × Backstop) :=
  (s.next id (some 7) 1 none smallServer act).map fun s' => (act, s')

theorem Backstop.play_ends {script : List BackstopAction} {p : Backstop → Bool}
    (h : (Run.execute Backstop.play {} script).any p = true) :
    ∃ s, BackstopRuns id (some 7) 1 none smallServer (Run.transitions Backstop.play {} script) s ∧
      p s = true := by
  refine Run.execute_ends ?_ h
  intro s cue act s' hplay
  obtain ⟨rfl, hnext⟩ := Run.eq_some_of_paired hplay
  exact hnext

def starred (id : String) : BackstopAction := .appear "octo/repo" (timelineEntry id "WatchEvent" [])

def calmScript : List BackstopAction :=
  [.grant [⟨"octo/repo", false⟩], starred "1", .poll 10 100, .fail, starred "2", starred "3",
    .poll 20 200]

def burstScript : List BackstopAction :=
  [.grant [⟨"octo/repo", false⟩], starred "1", .poll 10 100, starred "2", starred "3", starred "4",
    .poll 20 200, .poll 30 300]

def calmRun : List (Run.Transition Backstop BackstopAction) :=
  Run.transitions Backstop.play {} calmScript

def burstRun : List (Run.Transition Backstop BackstopAction) :=
  Run.transitions Backstop.play {} burstScript

theorem backstop_iff_calm :
    (∃ s, BackstopRuns id (some 7) 1 none smallServer calmRun s ∧ s.owed = ["3", "2"]) ∧
    ∀ t ∈ calmRun, t.after.Complete := by
  obtain ⟨s, hrun, howed⟩ : ∃ s, BackstopRuns id (some 7) 1 none smallServer calmRun s ∧
      (s.owed == ["3", "2"]) = true := Backstop.play_ends (by decide +kernel)
  exact ⟨⟨s, hrun, eq_of_beq howed⟩, (backstop_iff hrun).2.mpr (by decide +kernel)⟩

/-- The second star is owed and no poll has it: the cursor is past it. -/
theorem burst_lost : ∃ s, BackstopRuns id (some 7) 1 none smallServer burstRun s ∧
    "2" ∈ s.owed ∧ "2" ∉ s.ingested ∧ (s.cursor["octo/repo"]?.bind (·.lastEventId)) = some "4" ∧
    (∀ isPrivate, ¬ InLog s.log ((foldPrivacy isPrivate
      (timelineEntry "2" "WatchEvent" [])).ingested id (some 7) 1)) ∧
    ¬ ∀ t ∈ burstRun, t.after.Complete := by
  obtain ⟨s, hrun, hlost⟩ : ∃ s, BackstopRuns id (some 7) 1 none smallServer burstRun s ∧
      decide ("2" ∈ s.owed ∧ "2" ∉ s.ingested ∧
        (s.cursor["octo/repo"]?.bind (·.lastEventId)) = some "4" ∧
        ∀ isPrivate, ¬ InLog s.log ((foldPrivacy isPrivate
          (timelineEntry "2" "WatchEvent" [])).ingested id (some 7) 1)) = true :=
    Backstop.play_ends (by decide +kernel)
  obtain ⟨howed, hmissed, hcursor, hlog⟩ := of_decide_eq_true hlost
  refine ⟨s, hrun, howed, hmissed, hcursor, hlog, ?_⟩
  intro hall
  exact hmissed ((hrun.reached ⟨by simp, by simp⟩ hall).owed "2" howed)

end Bulletin
