import Bulletin.Ingest.Github.Intakes

/-! # Distinct activities of one repository

The content ids name what an activity is about, with the action on it. An activity that
repeats on the same thing has the same name.
-/

namespace Bulletin

open Json

/-! ## Texts before a colon -/

theorem colon_inj {a b x y : String} (ha : ':' ∉ a.toList) (hb : ':' ∉ b.toList)
    (h : a ++ ":" ++ x = b ++ ":" ++ y) : a = b ∧ x = y := by
  have hchars : a.toList ++ ':' :: x.toList = b.toList ++ ':' :: y.toList := by
    simpa using congrArg String.toList h
  rw [List.append_eq_append_iff] at hchars
  rcases hchars with ⟨mid, hb', hmid⟩ | ⟨mid, ha', hmid⟩
  · cases mid with
    | nil =>
        rw [List.append_nil] at hb'
        exact ⟨(String.toList_inj.mp hb').symm, String.toList_inj.mp (List.cons.inj hmid).2⟩
    | cons c mid =>
        obtain ⟨rfl, _⟩ := List.cons.inj hmid
        exact absurd (hb' ▸ by simp) hb
  · cases mid with
    | nil =>
        rw [List.append_nil] at ha'
        exact ⟨String.toList_inj.mp ha', (String.toList_inj.mp (List.cons.inj hmid).2).symm⟩
    | cons c mid =>
        obtain ⟨rfl, _⟩ := List.cons.inj hmid
        exact absurd (ha' ▸ by simp) ha

theorem colon_not_mem_toString (n : Int) : ':' ∉ (toString n).toList := by
  have hdigits : ∀ m : Nat, ':' ∉ m.repr.toList := by
    intro m hmem
    rw [Nat.toList_repr] at hmem
    exact absurd (Nat.isDigit_of_mem_toDigits (by omega) (by omega) hmem) (by decide)
  rw [Int.toString_eq_repr, Int.repr_eq_if]
  split
  · exact hdigits _
  · simpa using hdigits _

/-! ## Names -/

def idObjects : List String := ["issue", "comment", "pull_request", "review", "release"]

/-- What the feed promises of an entry: its type is a name, none of the words that names of content
begin with, and the objects of its payload have integers for ids. -/
structure GithubEvent.WellFormed (ev : GithubEvent) : Prop where
  kind : ':' ∉ ev.kind.toList
  noTag : ev.kind ∉ ["issue", "comment", "pr", "review", "release", "push"]
  ids : ∀ object ∈ idObjects, ∀ v : Value, ev.payload.dig [object, "id"] = some v → ∃ n, v = .int n

namespace ContentKey

def tag : ContentKey → String
  | issue _ _ => "issue"
  | comment _ => "comment"
  | pullRequest _ _ => "pr"
  | review _ => "review"
  | release _ _ => "release"
  | push _ _ => "push"

def rest : ContentKey → String
  | issue id act | pullRequest id act | release id act => id ++ ":" ++ act
  | comment id | review id => id
  | push repo sha => repo ++ ":" ++ sha

theorem text_eq (key : ContentKey) : key.text = key.tag ++ ":" ++ key.rest := by
  cases key <;> simp [text, tag, rest, String.append_assoc]

theorem colon_not_mem_tag (key : ContentKey) : ':' ∉ key.tag.toList := by
  cases key <;> simp [tag]

/-- The object's id, where there is one, is an integer, and a push is to this repository. -/
def Plain (repo : String) : ContentKey → Prop
  | issue id _ | comment id | pullRequest id _ | review id | release id _ => ':' ∉ id.toList
  | push r _ => r = repo

theorem text_inj {repo : String} {k l : ContentKey} (hk : k.Plain repo) (hl : l.Plain repo)
    (h : k.text = l.text) : k = l := by
  rw [text_eq, text_eq] at h
  obtain ⟨htag, hrest⟩ := colon_inj (colon_not_mem_tag k) (colon_not_mem_tag l) h
  cases k with
  | issue id act =>
      cases l with
      | issue id' act' =>
          obtain ⟨rfl, rfl⟩ := colon_inj hk hl hrest
          rfl
      | _ => exact absurd htag (by simp [tag])
  | comment id =>
      cases l with
      | comment id' => exact congrArg comment hrest
      | _ => exact absurd htag (by simp [tag])
  | pullRequest id act =>
      cases l with
      | pullRequest id' act' =>
          obtain ⟨rfl, rfl⟩ := colon_inj hk hl hrest
          rfl
      | _ => exact absurd htag (by simp [tag])
  | review id =>
      cases l with
      | review id' => exact congrArg review hrest
      | _ => exact absurd htag (by simp [tag])
  | release id act =>
      cases l with
      | release id' act' =>
          obtain ⟨rfl, rfl⟩ := colon_inj hk hl hrest
          rfl
      | _ => exact absurd htag (by simp [tag])
  | push r sha =>
      cases l with
      | push r' sha' =>
          obtain rfl : r = repo := hk
          obtain rfl : r' = r := hl
          exact congrArg (push r') (String.append_right_inj _ |>.mp hrest)
      | _ => exact absurd htag (by simp [tag])

end ContentKey

theorem GithubEvent.WellFormed.objId {ev : GithubEvent} (h : ev.WellFormed) {object id : String}
    (hobject : object ∈ idObjects) (hid : ev.objId object = some id) : ':' ∉ id.toList := by
  unfold GithubEvent.objId at hid
  rw [← Value.dig_pair] at hid
  obtain ⟨v, hv, rfl⟩ := Option.map_eq_some_iff.mp hid
  obtain ⟨n, rfl⟩ := h.ids object hobject v hv
  have htext : ((Value.int n).asInt64.map toString).getD (Value.int n).compact = toString n := by
    simp only [Value.asInt64, Value.compact]
    split <;> rfl
  rw [htext]
  exact colon_not_mem_toString n

theorem GithubEvent.WellFormed.contentKey {ev : GithubEvent} (h : ev.WellFormed) {key : ContentKey}
    (hkey : ev.contentKey = some key) : key.Plain ev.repo.name := by
  unfold GithubEvent.contentKey at hkey
  dsimp only at hkey
  split at hkey
  case h_8 =>
    obtain ⟨sha, _, rfl⟩ := Option.map_eq_some_iff.mp hkey
    rfl
  case h_9 => cases hkey
  all_goals
    obtain ⟨id, hid, rfl⟩ := Option.map_eq_some_iff.mp hkey
    exact h.objId (by decide) hid

theorem GithubEvent.WellFormed.fallback_ne {ev : GithubEvent} (h : ev.WellFormed)
    (key : ContentKey) : ev.fallback ≠ key.text := by
  intro heq
  rw [ContentKey.text_eq] at heq
  obtain ⟨hkind, _⟩ := colon_inj h.kind key.colon_not_mem_tag heq
  refine h.noTag (hkind ▸ ?_)
  cases key <;> simp [ContentKey.tag]

/-- Two activities have one name exactly when they have the same content ids. -/
theorem stableId_eq_iff {a b : GithubEvent} (ha : a.WellFormed) (hb : b.WellFormed)
    (hrepo : a.repo.name = b.repo.name) (hid : a.id ≠ b.id) :
    a.stableId = b.stableId ↔ ∃ key, a.contentKey = some key ∧ b.contentKey = some key := by
  rw [stableId_eq, stableId_eq]
  cases hka : a.contentKey with
  | none =>
      cases hkb : b.contentKey with
      | none =>
          refine iff_of_false ?_ (by simp)
          intro heq
          exact hid (colon_inj ha.kind hb.kind heq).2
      | some l => exact iff_of_false (ha.fallback_ne l) (by simp)
  | some k =>
      cases hkb : b.contentKey with
      | none => exact iff_of_false (fun heq => hb.fallback_ne k heq.symm) (by simp)
      | some l =>
          simp only [Option.map_some, Option.getD_some, Option.some.injEq, exists_eq_left']
          constructor
          · intro heq
            exact (ContentKey.text_inj (ha.contentKey hka) (hrepo ▸ hb.contentKey hkb) heq).symm
          · rintro rfl
            rfl

/-! ## Rows -/

section Rows

variable (sha256 : List UInt8 → List UInt8) (owner : Option Uuid) (connection : Uuid)

/-- The names differ, and a log without either event gets a row for each. -/
structure KeptApart (a b : GithubEvent) : Prop where
  stableId : a.stableId ≠ b.stableId
  rows : ∀ log : List Event, (∀ e ∈ log, e.fingerprint ≠
      (a.ingested sha256 owner connection).fingerprint ∧
      e.fingerprint ≠ (b.ingested sha256 owner connection).fingerprint) →
    ∀ (now now' : DateTime) (id id' : Uuid),
      (insertAll [(now, id, a.ingested sha256 owner connection),
      (now', id', b.ingested sha256 owner connection)] log).length = log.length + 2

/-- The digest tells the two names apart if they differ. -/
def NoCollision (a b : GithubEvent) : Prop :=
  sha256 (framed SourceKind.github.asStr ++ framed a.stableId) =
    sha256 (framed SourceKind.github.asStr ++ framed b.stableId) →
    framed SourceKind.github.asStr ++ framed a.stableId =
      framed SourceKind.github.asStr ++ framed b.stableId

variable {sha256 owner connection} {a b : GithubEvent}

/-- Distinct activities of one repository are kept apart exactly when their content ids differ:
unless both are on the same issue, pull request or release with the same action, or are the same
comment id, review id or commit. -/
theorem kept_apart_iff (ha : a.WellFormed) (hb : b.WellFormed) (hrepo : a.repo.name = b.repo.name)
    (hid : a.id ≠ b.id) (hcollision : NoCollision sha256 a b) :
    KeptApart sha256 owner connection a b ↔
      ¬ ∃ key, a.contentKey = some key ∧ b.contentKey = some key := by
  rw [← stableId_eq_iff ha hb hrepo hid]
  constructor
  · intro hkept
    exact hkept.stableId
  · intro hne
    have hfp : (a.ingested sha256 owner connection).fingerprint ≠
        (b.ingested sha256 owner connection).fingerprint := by
      rw [ingested_fingerprint, ingested_fingerprint]
      exact fingerprint_ne hcollision hne
    exact ⟨hne, fun _ hlog now now' id id' => length_insertAll_pair hfp hlog now now' id id'⟩

theorem noCollision_id : NoCollision id a b := fun h => h

end Rows

/-! ## An issue that is closed twice -/

def issueAction (id act : String) : GithubEvent :=
  timelineEntry id "IssuesEvent" [("action", .str act), ("issue", .obj [("id", .int 901)])]

theorem issueAction_wellFormed (id act : String) : (issueAction id act).WellFormed where
  kind := by
    show ':' ∉ "IssuesEvent".toList
    decide
  noTag := by
    show "IssuesEvent" ∉ ["issue", "comment", "pr", "review", "release", "push"]
    decide
  ids := by
    intro object _ v hv
    have hissue : object = "issue" ∨ object = "action" := by
      by_contra hother
      obtain ⟨hissue, haction⟩ := not_or.mp hother
      simp [Value.dig, issueAction, timelineEntry, Value.get, Ne.symm hissue, Ne.symm haction] at hv
    rcases hissue with rfl | rfl
    · simp [Value.dig, issueAction, timelineEntry, Value.get] at hv
      exact ⟨901, hv.symm⟩
    · simp [Value.dig, issueAction, timelineEntry, Value.get] at hv

theorem kept_apart_iff_closedThenReopened :
    KeptApart id (some 7) 1 (issueAction "51" "closed") (issueAction "52" "reopened") := by
  have hne : (issueAction "51" "closed").contentKey ≠ (issueAction "52" "reopened").contentKey := by
    decide +kernel
  refine (kept_apart_iff (issueAction_wellFormed "51" "closed")
    (issueAction_wellFormed "52" "reopened") rfl (by decide +kernel) noCollision_id).mpr ?_
  rintro ⟨key, hclosed, hreopened⟩
  exact hne (hclosed.trans hreopened.symm)

/-- Closed, reopened, and closed again: the last event is taken for the first. -/
theorem closed_twice_once :
    (issueAction "51" "closed").stableId = "issue:901:closed" ∧
    (issueAction "53" "closed").stableId = "issue:901:closed" ∧
    (insertAll [(0, 1, (issueAction "51" "closed").ingested id (some 7) 1),
      (1, 2, (issueAction "52" "reopened").ingested id (some 7) 1),
      (2, 3, (issueAction "53" "closed").ingested id (some 7) 1)] []).map (·.id) = [1, 2] ∧
    ¬ KeptApart id (some 7) 1 (issueAction "51" "closed") (issueAction "53" "closed") := by
  have hsame : (issueAction "51" "closed").stableId = (issueAction "53" "closed").stableId := by
    decide +kernel
  exact ⟨by decide +kernel, by decide +kernel, by decide +kernel, fun hkept => hkept.stableId hsame⟩

end Bulletin
