import Bulletin.System.DontCare
import Bulletin.Thread.Assign

/-! # Spines at fire time

A pass keeps threads and weights by representatives; a fire looks a story up by the tokens the
story came with. The two agree just when the tokens that are represented by another carry no
affinity and are on the same oldest thread as what represents them.
-/

namespace Bulletin

open Identity Lookup

/-- The spine with each token replaced by what stands for it. -/
def Resolution.resolvedSpine (resolution : Resolution) (spine : List String) : List String :=
  spineOf (spine.map resolution.representative)

/-- A candidate story gets the thread term and the thread that its resolved spine would get. -/
def RespectsIdentity (s : ThreadStore ℚ) (sub : Uuid) (resolution : Resolution) : Prop :=
  ∀ (r : Recompute ℚ) (stories : StoryTable), r.Reads stories → r.subscriber = sub →
    ∀ story ∈ r.assignment.stories, ∀ shown,
      let raw := Fire.storySpine r story
      let resolved := resolution.resolvedSpine raw
      (applyThreadWeights (s.loadEntityWeights sub)
          [Candidate.fromStory story resolved shown]).map (·.relevance) =
        (applyThreadWeights (s.loadEntityWeights sub)
          [Candidate.fromStory story raw shown]).map (·.relevance) ∧
      assignThread s sub resolved minOverlap = assignThread s sub raw minOverlap

/-- The oldest thread a story can be assigned to that has the token. -/
def ThreadStore.oldestWith (s : ThreadStore ℚ) (sub : Uuid) (t : String) : WithTop Uuid :=
  (((s.assignable sub).filter (t ∈ ·.2.entities)).map (·.1)).minimum

/-- A token that another stands for is on no thread of affinity, nor is the other, and the oldest
thread with the one is the oldest with the other. -/
def AliasesIdle (s : ThreadStore ℚ) (sub : Uuid) (resolution : Resolution) : Prop :=
  ∀ x, resolution.representative x ≠ x →
    (∀ e ∈ s.assignable sub,
      x ∈ e.2.entities ∨ resolution.representative x ∈ e.2.entities → e.2.affinity = 0) ∧
    s.oldestWith sub (resolution.representative x) = s.oldestWith sub x

/-! ## Spines as sets -/

theorem spineOf_eq (entities : List String) :
    spineOf entities = (entities.insertionSort (· ≤ ·)).dedup :=
  (List.pairwise_insertionSort (· ≤ ·) entities).destutter_eq_dedup

theorem spineOf_nodup (entities : List String) : (spineOf entities).Nodup := by
  rw [spineOf_eq]
  exact List.nodup_dedup _

@[simp] theorem toFinset_spineOf (entities : List String) :
    (spineOf entities).toFinset = entities.toFinset := by
  ext t
  simp [spineOf_eq]

theorem storySpine_nodup (r : Recompute ℚ) (story : LinkedStory) :
    (Fire.storySpine r story).Nodup :=
  spineOf_nodup _

theorem resolvedSpine_nodup (resolution : Resolution) (spine : List String) :
    (resolution.resolvedSpine spine).Nodup :=
  spineOf_nodup _

theorem toFinset_resolvedSpine (resolution : Resolution) (spine : List String) :
    (resolution.resolvedSpine spine).toFinset =
      spine.toFinset.image resolution.representative := by
  ext t
  simp [Resolution.resolvedSpine]

/-! ## Stories with any spine -/

def soloRecompute (sub : Uuid) (entities : List String) : Recompute ℚ where
  subscriber := sub
  candidates := [{ id := 0, entities := entities, firstEventTime := 0, lastEventTime := 0,
                   source := .rss, eventCount := 1, contentDepth := .longform, maxSeverity := none,
                   isOwnPrivate := false }]
  prior := []
  tuning := {}
  mint := id

theorem soloRecompute_reads (sub : Uuid) (entities : List String) :
    (soloRecompute sub entities).Reads ∅ where
  ids := by simp [soloRecompute]
  prior := by simp [soloRecompute, loadPriorMembers]
  mint_injective := fun _ _ h => h
  mint_unused := by simp

theorem exists_story_spine (sub : Uuid) (entities : List String) :
    ∃ story ∈ (soloRecompute sub entities).assignment.stories,
      Fire.storySpine (soloRecompute sub entities) story = spineOf entities := by
  have hreads := soloRecompute_reads sub entities
  obtain ⟨s, ⟨story, hstory, hid, hin⟩, _⟩ :=
    Recompute.existsUnique_placed hreads (c := 0) ⟨⟨0, by simp [soloRecompute]⟩, rfl⟩
  have hall : ∀ c ∈ story.members, c = 0 := by
    intro c hc
    obtain ⟨i, rfl⟩ := placed_cluster ⟨story, hstory, rfl, hc⟩
    have hi : i.val = 0 := by
      have hlt := i.isLt
      simp only [soloRecompute, List.length_singleton] at hlt
      omega
    obtain rfl : i = ⟨0, by simp [soloRecompute]⟩ := Fin.ext hi
    rfl
  have hmembers : story.members = [0] := by
    have hrep := List.eq_replicate_of_mem hall
    have hnodup := Recompute.story_members_nodup hreads hstory
    rw [hrep] at hin hnodup
    have hlen := List.nodup_replicate.mp hnodup
    have hpos := List.length_pos_of_mem hin
    rw [List.length_replicate] at hpos
    rw [hrep, show story.members.length = 1 by omega]
    rfl
  refine ⟨story, hstory, ?_⟩
  unfold Fire.storySpine
  rw [hmembers]
  simp [soloRecompute, spineOf]

/-! ## The lookups of a fire -/

section Left

variable {s : ThreadStore ℚ} {sub : Uuid} {resolution : Resolution}
  {weights : Std.ExtTreeMap String ℚ compare}

theorem applyThreadWeights_relevance {story : LinkedStory} {entities : List String}
    {shown : Option Shown} (hnodup : entities.Nodup) :
    (applyThreadWeights weights [Candidate.fromStory story entities shown]).map (·.relevance) =
      [∑ e ∈ entities.toFinset, weights.getD e 0] := by
  rw [List.sum_toFinset _ hnodup]
  unfold applyThreadWeights
  split
  · rename_i hempty
    rw [Std.ExtTreeMap.isEmpty_iff.mp hempty]
    simp [Candidate.fromStory, Score.lit]
  · rw [← sum_filterMap_getD]
    rfl

theorem catalog_oldest (t : String) : (s.catalog sub).oldest {t} = s.oldestWith sub t := by
  unfold Catalog.oldest ThreadStore.oldestWith
  have hhits : (s.catalog sub).hits {t} = (s.assignable sub).filter (t ∈ ·.2.entities) := by
    refine List.filter_congr ?_
    intro e _
    rw [decide_eq_decide]
    simp [Catalog.overlap, ThreadStore.catalog, List.countP_pos_iff]
  rw [hhits]
  rfl

/-- Over every story, the lookups agree just when they do for every set of tokens. -/
theorem respectsIdentity_iff_catalog : RespectsIdentity s sub resolution ↔
    ∀ q : Finset String,
      ∑ e ∈ q.image resolution.representative, (s.loadEntityWeights sub).getD e 0 =
        ∑ e ∈ q, (s.loadEntityWeights sub).getD e 0 ∧
      ∀ i, (s.catalog sub).Finds (q.image resolution.representative) i ↔
        (s.catalog sub).Finds q i := by
  constructor
  · intro h q
    obtain ⟨story, hstory, hspine⟩ := exists_story_spine sub q.toList
    obtain ⟨hterm, hthread⟩ := h _ ∅ (soloRecompute_reads sub q.toList) rfl story hstory none
    rw [hspine] at hterm hthread
    rw [applyThreadWeights_relevance (spineOf_nodup _),
      applyThreadWeights_relevance (resolvedSpine_nodup _ _), toFinset_resolvedSpine,
      toFinset_spineOf, Finset.toList_toFinset] at hterm
    rw [assignThread_eq_iff, toFinset_resolvedSpine, toFinset_spineOf, Finset.toList_toFinset]
      at hthread
    exact ⟨List.singleton_inj.mp hterm, hthread⟩
  · intro h r stories _ _ story _ shown
    obtain ⟨hterm, hthread⟩ := h (Fire.storySpine r story).toFinset
    rw [← toFinset_resolvedSpine] at hterm hthread
    refine ⟨?_, assignThread_eq_iff.mpr hthread⟩
    rw [applyThreadWeights_relevance (storySpine_nodup r story),
      applyThreadWeights_relevance (resolvedSpine_nodup _ _), hterm]

end Left

/-- After a pass, a fire respects its identities just when the aliases are idle. -/
theorem identity_respected_iff (cfg : PassConfig ℚ) (sub : Uuid) (now : DateTime)
    (sources : List StorySource) (mint : Nat → Uuid) (s s' : ThreadStore ℚ)
    (hmint : MintsFor mint s.thread) (hmax : 0 ≤ cfg.affinityMax)
    (h : maintain cfg sub now sources mint s = some s') :
    RespectsIdentity s' sub (s.resolution cfg sub sources) ↔
      AliasesIdle s' sub (s.resolution cfg sub sources) := by
  obtain ⟨upserts, newIds, hsaves⟩ := maintain_saves hmint hmax h
  have hlookup := @Catalog.identified_iff String Uuid _ ℚ _ _ _ _ (s'.catalog sub) _
    (s.resolution cfg sub sources).representative
    (fun e => (s'.loadEntityWeights sub).getD e 0) resolve_representative_idem
    (fun e he => hsaves.affinity_nonneg he) (fun e => hsaves.weight_eq_zero)
  rw [respectsIdentity_iff_catalog, hlookup]
  simp only [catalog_oldest]
  rfl

/-! ## A mentioned alias -/

def linkedUsers : ThreadStore ℚ where
  feedback := []
  entityEdge := upsertMustLink (.ofPrivate 1) (Edge.ofSource "user:dana" "user:dlewis" .feedback) []
  thread := ∅
  watermark := ∅
  affinity := ∅

def linkedStories : List StorySource :=
  [{ entities := ["repo:acme", "user:dana"], sources := [.github], lastEventTime := 3 },
   { entities := ["repo:acme", "user:dlewis"], sources := [.rss], lastEventTime := 4 }]

theorem linkedUsers_mints : MintsFor id linkedUsers.thread where
  injective := fun _ _ h => h
  unused := by simp [linkedUsers]

theorem maintain_linkedUsers :
    (maintain (PassConfig.default ℚ) 1 5 linkedStories id linkedUsers).map (fun s =>
      (assignThread s 1 ["user:dana"] minOverlap, assignThread s 1 ["user:dlewis"] minOverlap)) =
        some (some 0, none) := by
  decide +kernel

theorem linkedUsers_resolvedSpine :
    (linkedUsers.resolution (PassConfig.default ℚ) 1 linkedStories).resolvedSpine ["user:dlewis"] =
      ["user:dana"] := by
  decide +kernel

/-- A story that names the user by the alias gets no thread. -/
theorem alias_finds_no_thread :
    ∃ s, maintain (PassConfig.default ℚ) 1 5 linkedStories id linkedUsers = some s ∧
      ¬ RespectsIdentity s 1 (linkedUsers.resolution (PassConfig.default ℚ) 1 linkedStories) := by
  obtain ⟨s, hs, hfound⟩ := Option.map_eq_some_iff.mp maintain_linkedUsers
  obtain ⟨hdana, hdlewis⟩ := Prod.mk.inj hfound
  refine ⟨s, hs, ?_⟩
  intro h
  obtain ⟨story, hstory, hspine⟩ := exists_story_spine 1 ["user:dlewis"]
  have hthread := (h _ ∅ (soloRecompute_reads 1 ["user:dlewis"]) rfl story hstory none).2
  have hsorted : spineOf ["user:dlewis"] = ["user:dlewis"] := rfl
  rw [hspine, hsorted, linkedUsers_resolvedSpine, hdana, hdlewis] at hthread
  cases hthread

theorem identity_respected_iff_linked :
    ∃ s, maintain (PassConfig.default ℚ) 1 5 linkedStories id linkedUsers = some s ∧
      (RespectsIdentity s 1 (linkedUsers.resolution (PassConfig.default ℚ) 1 linkedStories) ↔
        AliasesIdle s 1 (linkedUsers.resolution (PassConfig.default ℚ) 1 linkedStories)) := by
  obtain ⟨s, hs, _⟩ := Option.map_eq_some_iff.mp maintain_linkedUsers
  exact ⟨s, hs, identity_respected_iff (PassConfig.default ℚ) 1 5 linkedStories id linkedUsers s
    linkedUsers_mints (by decide +kernel) hs⟩

end Bulletin
