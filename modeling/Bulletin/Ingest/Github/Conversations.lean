import Std.Data.String.ToInt
import Bulletin.Ingest.Github.Distinct

/-! # Threads of a repository

Issues and pull requests share one numbering. What happens on either of them arrives as entries of
several types, and a comment on a pull request arrives as a comment on an issue.
-/

namespace Bulletin

open Json

/-! ## Keys -/

/-- What stands behind the last mark can be told apart, and what stands before it. -/
theorem lastMark_inj {α : Type*} {c : α} {x y u v : List α} (hu : c ∉ u) (hv : c ∉ v)
    (h : x ++ c :: u = y ++ c :: v) : x = y ∧ u = v := by
  rw [List.append_eq_append_iff] at h
  rcases h with ⟨mid, hy, hmid⟩ | ⟨mid, hx, hmid⟩
  · cases mid with
    | nil =>
        rw [List.append_nil] at hy
        exact ⟨hy.symm, (List.cons.inj hmid).2⟩
    | cons d mid =>
        obtain ⟨_, rfl⟩ := List.cons.inj hmid
        exact absurd (by simp) hu
  · cases mid with
    | nil =>
        rw [List.append_nil] at hx
        exact ⟨hx, (List.cons.inj hmid).2.symm⟩
    | cons d mid =>
        obtain ⟨_, rfl⟩ := List.cons.inj hmid
        exact absurd (by simp) hv

/-- A number as the keys write it: nothing where 64 bits do not hold it. -/
def numberText (n : Nat) : String := ((Value.int n).asInt64.map toString).getD ""

theorem numberText_of_lt {n : Nat} (h : n < 2 ^ 63) : numberText n = toString (n : Int) := by
  have hfits : -2 ^ 63 ≤ (n : Int) ∧ (n : Int) < 2 ^ 63 := by omega
  rw [numberText, Value.asInt64, if_pos hfits]
  rfl

theorem numberText_of_le {n : Nat} (h : 2 ^ 63 ≤ n) : numberText n = "" := by
  have hlarge : ¬ (-2 ^ 63 ≤ (n : Int) ∧ (n : Int) < 2 ^ 63) := by omega
  rw [numberText, Value.asInt64, if_neg hlarge]
  rfl

theorem toString_ne_empty (n : Nat) : toString (n : Int) ≠ "" := by
  intro h
  have hrepr : n.repr = "" := h
  exact absurd (congrArg String.toList hrepr) (by simp [Nat.toList_repr, Nat.toDigits_ne_nil])

/-- Two numbers are written alike exactly if they are one, or both too large. -/
theorem numberText_inj {m n : Nat} :
    numberText m = numberText n ↔ m = n ∨ (2 ^ 63 ≤ m ∧ 2 ^ 63 ≤ n) := by
  rcases lt_or_ge m (2 ^ 63) with hm | hm <;> rcases lt_or_ge n (2 ^ 63) with hn | hn
  · rw [numberText_of_lt hm, numberText_of_lt hn]
    constructor
    · intro h
      exact Or.inl (Int.ofNat_inj.mp (Int.repr_inj.mp h))
    · rintro (rfl | ⟨hm', _⟩)
      · rfl
      · omega
  · rw [numberText_of_lt hm, numberText_of_le hn]
    refine iff_of_false (toString_ne_empty m) ?_
    omega
  · rw [numberText_of_le hm, numberText_of_lt hn]
    refine iff_of_false (toString_ne_empty n).symm ?_
    omega
  · rw [numberText_of_le hm, numberText_of_le hn]
    exact iff_of_true rfl (Or.inr ⟨hm, hn⟩)

theorem mark_not_mem_numberText (n : Nat) : '#' ∉ (numberText n).toList := by
  rcases lt_or_ge n (2 ^ 63) with h | h
  · rw [numberText_of_lt h]
    have hdigits : toString (n : Int) = n.repr := rfl
    rw [hdigits, Nat.toList_repr]
    intro hmem
    exact absurd (Nat.isDigit_of_mem_toDigits (by omega) (by omega) hmem) (by decide)
  · rw [numberText_of_le h]
    decide

/-! ## Issues and pull requests -/

/-- What has a number in a repository. -/
structure Conversation where
  repo : String
  number : Nat
  isPull : Bool
deriving DecidableEq, Repr

namespace GithubEvent

/-- An activity of one of the types that are filed as those of an issue. -/
def FiledAsIssue (ev : GithubEvent) : Prop := ev.kind ∈ ["IssuesEvent", "IssueCommentEvent"]

instance (ev : GithubEvent) : Decidable ev.FiledAsIssue := inferInstanceAs (Decidable (_ ∈ _))

/-- The ways an entry belongs to an issue or a pull request. -/
inductive IsOn (ev : GithubEvent) (c : Conversation) : Prop where
  /-- Opened, synchronized or closed, reviewed, or a comment in a review. -/
  | pull (hrepo : ev.repo.name = c.repo) (hpull : c.isPull = true)
      (hkind : ev.kind ∈ ["PullRequestEvent", "PullRequestReviewEvent",
        "PullRequestReviewCommentEvent"])
      (hnumber : ev.payload.dig ["pull_request", "number"] = some (.int c.number))
  /-- A comment on the pull request as a whole: its issue object links the pull request. -/
  | comment (hrepo : ev.repo.name = c.repo) (hpull : c.isPull = true)
      (hkind : ev.kind = "IssueCommentEvent")
      (hlink : (ev.payload.dig ["issue", "pull_request"]).isSome = true)
      (hnumber : ev.payload.dig ["issue", "number"] = some (.int c.number))
  | issue (hrepo : ev.repo.name = c.repo) (hissue : c.isPull = false)
      (hkind : ev.kind ∈ ["IssuesEvent", "IssueCommentEvent"])
      (hlink : ev.payload.dig ["issue", "pull_request"] = none)
      (hnumber : ev.payload.dig ["issue", "number"] = some (.int c.number))

variable {ev other : GithubEvent} {c d : Conversation}

theorem numberOf_int {object : String} {n : Nat}
    (h : ev.payload.dig [object, "number"] = some (.int n)) :
    ev.numberOf object = numberText n := by
  have hstr : ev.payloadStr [object, "number"] = none := by
    rw [payloadStr, h]
    rfl
  have hnum : ev.num [object, "number"] = (Value.int n).asInt64.map toString := by
    rw [num, h, Option.bind_some]
  rw [numberOf, hstr, hnum, Option.none_or, numberText]

def keyTail (ev : GithubEvent) (n : Nat) : String :=
  (if ev.FiledAsIssue then "issue-" else "pr-") ++ numberText n

theorem groupKey_issue (hrepo : ev.repo.name = c.repo)
    (hkind : ev.kind ∈ ["IssuesEvent", "IssueCommentEvent"])
    (hnumber : ev.payload.dig ["issue", "number"] = some (.int c.number)) :
    ev.groupKey = "gh:" ++ c.repo ++ "#" ++ ev.keyTail c.number := by
  have hfiled : ev.FiledAsIssue := hkind
  have hkey : ev.groupKey = "gh:" ++ ev.repo.name ++ "#issue-" ++ ev.numberOf "issue" := by
    simp only [List.mem_cons, List.not_mem_nil, or_false] at hkind
    rcases hkind with h | h <;> simp [GithubEvent.groupKey, h]
  rw [hkey, hrepo, numberOf_int hnumber, keyTail, if_pos hfiled, ← String.toList_inj]
  simp

theorem groupKey_pull (hrepo : ev.repo.name = c.repo)
    (hkind : ev.kind ∈ ["PullRequestEvent", "PullRequestReviewEvent",
      "PullRequestReviewCommentEvent"])
    (hnumber : ev.payload.dig ["pull_request", "number"] = some (.int c.number)) :
    ev.groupKey = "gh:" ++ c.repo ++ "#" ++ ev.keyTail c.number := by
  have hkey : ev.groupKey = "gh:" ++ ev.repo.name ++ "#pr-" ++ ev.numberOf "pull_request" ∧
      ¬ ev.FiledAsIssue := by
    simp only [List.mem_cons, List.not_mem_nil, or_false] at hkind
    rcases hkind with h | h | h <;> simp [GithubEvent.groupKey, FiledAsIssue, h]
  rw [hkey.1, hrepo, numberOf_int hnumber, keyTail, if_neg hkey.2, ← String.toList_inj]
  simp

theorem IsOn.groupKey (h : ev.IsOn c) :
    ev.groupKey = "gh:" ++ c.repo ++ "#" ++ ev.keyTail c.number := by
  cases h with
  | pull hrepo _ hkind hnumber => exact groupKey_pull hrepo hkind hnumber
  | comment hrepo _ hkind _ hnumber => exact groupKey_issue hrepo (by simp [hkind]) hnumber
  | issue hrepo _ hkind _ hnumber => exact groupKey_issue hrepo hkind hnumber

theorem keyTail_inj {m n : Nat} : ev.keyTail m = other.keyTail n ↔
    (ev.FiledAsIssue ↔ other.FiledAsIssue) ∧ numberText m = numberText n := by
  unfold keyTail
  by_cases hev : ev.FiledAsIssue <;> by_cases hother : other.FiledAsIssue <;>
    simp [hev, hother, ← String.toList_inj]

theorem mark_not_mem_keyTail (n : Nat) : '#' ∉ (ev.keyTail n).toList := by
  have hnumber := mark_not_mem_numberText n
  unfold keyTail
  split <;> simp [hnumber]

/-- Two activities share a key exactly if they are in one repository, filed under one sort and
their numbers are written alike. -/
theorem IsOn.groupKey_eq_iff (h : ev.IsOn c) (h' : other.IsOn d) :
    ev.groupKey = other.groupKey ↔ c.repo = d.repo ∧
      (ev.FiledAsIssue ↔ other.FiledAsIssue) ∧ numberText c.number = numberText d.number := by
  rw [h.groupKey, h'.groupKey, ← keyTail_inj]
  constructor
  · intro heq
    have hchars : ("gh:" ++ c.repo).toList ++ '#' :: (ev.keyTail c.number).toList =
        ("gh:" ++ d.repo).toList ++ '#' :: (other.keyTail d.number).toList := by
      simpa using congrArg String.toList heq
    obtain ⟨hrepo, htail⟩ :=
      lastMark_inj (mark_not_mem_keyTail _) (mark_not_mem_keyTail _) hchars
    exact ⟨String.toList_inj.mp (by simpa using hrepo), String.toList_inj.mp htail⟩
  · rintro ⟨hrepo, htail⟩
    rw [hrepo, htail]

theorem IsOn.filed (h : ev.IsOn c) :
    ev.FiledAsIssue ↔ (c.isPull = true → ev.kind = "IssueCommentEvent") := by
  cases h with
  | pull _ hpull hkind _ =>
      simp only [List.mem_cons, List.not_mem_nil, or_false] at hkind
      rcases hkind with h | h | h <;> simp [FiledAsIssue, h, hpull]
  | comment _ hpull hkind _ _ => simp [FiledAsIssue, hkind]
  | issue _ hissue hkind _ _ =>
      have hfiled : ev.FiledAsIssue := hkind
      simp [hfiled, hissue]

end GithubEvent

/-! ## One cluster for each -/

/-- The keys of two activities keep one conversation together, and two of them apart. -/
structure OneCluster (a b : GithubEvent) (c d : Conversation) : Prop where
  same : c = d → a.groupKey = b.groupKey
  other : c.repo ≠ d.repo ∨ c.number ≠ d.number → a.groupKey ≠ b.groupKey

/-- Activities fall into one cluster for each conversation exactly unless one of two on a pull
request is a comment on it as a whole and the other is not. Numbers have to fit into 64 bits. -/
theorem one_cluster_iff {a b : GithubEvent} {c d : Conversation} (ha : a.IsOn c) (hb : b.IsOn d) :
    OneCluster a b c d ↔
      ¬ (c = d ∧ c.isPull = true ∧
        ¬ (a.kind = "IssueCommentEvent" ↔ b.kind = "IssueCommentEvent")) ∧
      ¬ (c.repo = d.repo ∧ c.number ≠ d.number ∧ 2 ^ 63 ≤ c.number ∧ 2 ^ 63 ≤ d.number ∧
        (a.FiledAsIssue ↔ b.FiledAsIssue)) := by
  have hkeys := ha.groupKey_eq_iff hb
  rw [numberText_inj] at hkeys
  have hfiled := ha.filed
  have hfiled' := hb.filed
  constructor
  · intro h
    refine ⟨?_, ?_⟩
    · rintro ⟨rfl, hpull, hcomment⟩
      have hsort := (hkeys.mp (h.same rfl)).2.1
      simp only [hpull, true_implies] at hfiled hfiled'
      exact hcomment (by rw [← hfiled, ← hfiled', hsort])
    · rintro ⟨hrepo, hnumber, hc, hd, hsort⟩
      exact h.other (Or.inr hnumber) (hkeys.mpr ⟨hrepo, hsort, Or.inr ⟨hc, hd⟩⟩)
  · rintro ⟨hcomment, hlarge⟩
    refine ⟨?_, ?_⟩
    · rintro rfl
      refine hkeys.mpr ⟨rfl, ?_, Or.inl rfl⟩
      rw [hfiled, hfiled']
      by_cases hpull : c.isPull = true
      · have hboth : a.kind = "IssueCommentEvent" ↔ b.kind = "IssueCommentEvent" :=
          not_not.mp fun hne => hcomment ⟨rfl, hpull, hne⟩
        rw [hboth]
      · simp [hpull]
    · intro hne heq
      obtain ⟨hrepo, hsort, hnumber | ⟨hc, hd⟩⟩ := hkeys.mp heq
      · rcases hne with hne | hne
        · exact hne hrepo
        · exact hne hnumber
      · by_cases hnumber : c.number = d.number
        · rcases hne with hne | hne
          · exact hne hrepo
          · exact hne hnumber
        · exact hlarge ⟨hrepo, hnumber, hc, hd, hsort⟩

/-! ## A pull request that is talked about -/

def pullSeven : Conversation := ⟨"octo/repo", 7, true⟩

def pullOpened : GithubEvent :=
  timelineEntry "1" "PullRequestEvent"
    [("action", .str "opened"), ("pull_request", .obj [("number", .int 7)])]

def pullReviewed : GithubEvent :=
  timelineEntry "3" "PullRequestReviewEvent"
    [("action", .str "created"), ("pull_request", .obj [("number", .int 7)])]

def pullComment : GithubEvent :=
  timelineEntry "2" "IssueCommentEvent"
    [("action", .str "created"), ("issue", .obj [("number", .int 7), ("pull_request", .obj [])])]

theorem pullOpened_isOn : pullOpened.IsOn pullSeven := .pull rfl rfl (by decide) rfl

theorem pullComment_isOn : pullComment.IsOn pullSeven := .comment rfl rfl rfl rfl rfl

theorem one_cluster_iff_reviewed : OneCluster pullOpened pullReviewed pullSeven pullSeven :=
  (one_cluster_iff pullOpened_isOn (.pull rfl rfl (by decide) rfl)).mpr (by decide)

theorem pull_comment_apart : ∃ (a b : GithubEvent) (c : Conversation),
    a.IsOn c ∧ b.IsOn c ∧ a.groupKey = "gh:octo/repo#pr-7" ∧ b.groupKey = "gh:octo/repo#issue-7" ∧
      ¬ OneCluster a b c c := by
  have hopened : pullOpened.groupKey = "gh:octo/repo#pr-7" := by decide +kernel
  have hcomment : pullComment.groupKey = "gh:octo/repo#issue-7" := by decide +kernel
  refine ⟨pullOpened, pullComment, pullSeven, pullOpened_isOn, pullComment_isOn, hopened, hcomment, ?_⟩
  intro h
  have hsame := h.same rfl
  rw [hopened, hcomment] at hsame
  exact absurd hsame (by decide)

end Bulletin
