import Mathlib.Data.Finset.Basic
import Mathlib.Data.List.Sort
import Mathlib.Data.List.Nodup
import Bulletin.Core.Claim
import Bulletin.Link.Components

/-! # Forwarding story ids

Components come in the order of their smallest cluster id, each keeps its oldest
prior id not yet claimed, and the prior ids no component keeps become merges.
`Claim.Keeps` states which component keeps which id on the inputs alone.
-/

namespace Bulletin

variable {n : Nat}

/-! ## Claiming -/

def Members.minId (clusters : Fin n → LinkCluster) (ms : Members n) : Uuid :=
  (ms.toList.map fun i => (clusters i).id).min (by simpa using ms.nonempty)

def orderedComponents (clusters : Fin n → LinkCluster) (components : Components n) :
    List (Members n) :=
  (components.toList.map Prod.snd).insertionSort fun x y => x.minId clusters ≤ y.minId clusters

def componentPriorIds (clusters : Fin n → LinkCluster) (prior : List PriorMember)
    (ms : Members n) : List Uuid :=
  ((ms.toList.filterMap fun i => (priorStory prior)[(clusters i).id]?).insertionSort (· ≤ ·)).dedup

/-- One survivor id per component, and all the ids claimed. The counter is the
number of ids minted so far. -/
def claimSurvivors (mint : Nat → Uuid) : Nat → Finset Uuid → List (List Uuid) →
    List Uuid × Finset Uuid
  | _, claimed, [] => ([], claimed)
  | minted, claimed, ids :: rest =>
      match ids.find? fun id => id ∉ claimed with
      | some id =>
          let r := claimSurvivors mint minted (insert id claimed) rest
          (id :: r.1, r.2)
      | none =>
          let r := claimSurvivors mint (minted + 1) (insert (mint minted) claimed) rest
          (mint minted :: r.1, r.2)

/-- The prior ids of one component that no component keeps. -/
def absorbed (claimed : Finset Uuid) (entry : List Uuid × Uuid) : List Merge :=
  (entry.1.filter fun id => id ≠ entry.2 ∧ id ∉ claimed).map fun id => ⟨id, entry.2⟩

/-! ## Rollups -/

def distinctSources (clusters : Fin n → LinkCluster) (ms : Members n) : Int :=
  ((ms.toList.map fun i => (clusters i).source).dedup.length : Int)

def linkedStory (clusters : Fin n → LinkCluster) (reasons : Fin n → Option String)
    (entry : Members n × Uuid) : LinkedStory :=
  let ms := entry.1.toList
  have hne : ∀ {β : Type} (f : Fin n → β), ms.map f ≠ [] := by
    intro β f
    simpa using entry.1.nonempty
  { id := entry.2
    clusters := (ms.map fun i => ⟨(clusters i).id, reasons i⟩).insertionSort
      fun x y : ClusterRef => x.clusterId ≤ y.clusterId
    firstEventTime := (ms.map fun i => (clusters i).firstEventTime).min (hne _)
    lastEventTime := (ms.map fun i => (clusters i).lastEventTime).max (hne _)
    eventCount := (ms.map fun i => (clusters i).eventCount).sum
    sourceDiversity := distinctSources clusters entry.1
    contentDepth := (ms.map fun i => (clusters i).contentDepth).max (hne _)
    maxSeverity := (ms.filterMap fun i => (clusters i).maxSeverity).max?
    hasPrivate := ms.any fun i => (clusters i).isOwnPrivate }

def storyOrder (x y : LinkedStory) : Ordering :=
  (compare y.lastEventTime x.lastEventTime).then (compare x.id y.id)

def mergeOrder (x y : Merge) : Ordering :=
  (compare x.loser y.loser).then (compare x.survivor y.survivor)

/-! ## The stage -/

section Stage

variable (clusters : Fin n → LinkCluster) (components : Components n)
  (prior : List PriorMember)

def wants : List (List Uuid) :=
  (orderedComponents clusters components).map (componentPriorIds clusters prior)

def survivors (mint : Nat → Uuid) : List Uuid :=
  (claimSurvivors mint 0 ∅ (wants clusters components prior)).1

def forwardIds (reasons : Fin n → Option String) (mint : Nat → Uuid) : Assignment :=
  let ordered := orderedComponents clusters components
  let claim := claimSurvivors mint 0 ∅ (wants clusters components prior)
  let stories := (ordered.zip claim.1).map (linkedStory clusters reasons)
  let merges := ((wants clusters components prior).zip claim.1).flatMap (absorbed claim.2)
  { stories := stories.insertionSort fun x y => storyOrder x y ≠ .gt
    merges := merges.insertionSort fun x y => mergeOrder x y ≠ .gt }

end Stage

/-- The ids a run would mint are new to its prior assignment. -/
structure FreshMint (mint : Nat → Uuid) (prior : List PriorMember) : Prop where
  injective : Function.Injective mint
  unused : ∀ k, ∀ p ∈ prior, mint k ≠ p.storyId

/-- Ids minted in order from `base` on. -/
def mintFrom (base k : Nat) : Uuid := base + k

theorem mintFrom_injective (base : Nat) : Function.Injective (mintFrom base) := by
  intro j k h
  exact Nat.add_left_cancel h

theorem mintFrom_fresh {base : Nat} {prior : List PriorMember}
    (h : ∀ p ∈ prior, p.storyId < base) : FreshMint (mintFrom base) prior where
  injective := mintFrom_injective base
  unused := by
    intro k p hp heq
    have hlt := h p hp
    rw [← heq] at hlt
    exact absurd hlt (Nat.not_lt.mpr (Nat.le_add_right base k))

/-! ## What the claim loop computes -/

section Claims

variable {clusters : Fin n → LinkCluster} {components : Components n}
  {prior : List PriorMember} {mint : Nat → Uuid}

theorem mem_componentPriorIds {ms : Members n} {P : Uuid} :
    P ∈ componentPriorIds clusters prior ms ↔
      ∃ i ∈ ms.toList, (priorStory prior)[(clusters i).id]? = some P := by
  simp [componentPriorIds]

theorem componentPriorIds_sorted (ms : Members n) :
    (componentPriorIds clusters prior ms).Pairwise (· < ·) := by
  unfold componentPriorIds
  have hle := (List.pairwise_insertionSort (· ≤ ·)
    (ms.toList.filterMap fun i => (priorStory prior)[(clusters i).id]?)).sublist
      (List.dedup_sublist _)
  exact (hle.and (List.nodup_dedup _)).imp fun h => lt_of_le_of_ne h.1 h.2

theorem wants_sorted : ∀ w ∈ wants clusters components prior, w.Pairwise (· < ·) := by
  intro w hw
  obtain ⟨ms, _, rfl⟩ := List.mem_map.mp hw
  exact componentPriorIds_sorted ms

theorem FreshMint.not_wanted (h : FreshMint mint prior) (k : Nat) :
    ∀ w ∈ wants clusters components prior, mint k ∉ w := by
  intro w hw hmem
  obtain ⟨ms, _, rfl⟩ := List.mem_map.mp hw
  obtain ⟨i, _, hi⟩ := mem_componentPriorIds.mp hmem
  obtain ⟨p, hp, _, hs⟩ := priorStory_mem hi
  exact h.unused k p hp hs.symm

theorem claimSurvivors_length (minted : Nat) (claimed : Finset Uuid) (ids : List (List Uuid)) :
    (claimSurvivors mint minted claimed ids).1.length = ids.length := by
  induction ids generalizing minted claimed with
  | nil => rfl
  | cons w rest ih =>
      unfold claimSurvivors
      cases w.find? (fun id => id ∉ claimed) with
      | some id => simp [ih]
      | none => simp [ih]

theorem mem_claimSurvivors_snd (minted : Nat) (claimed : Finset Uuid) (ids : List (List Uuid))
    (a : Uuid) :
    a ∈ (claimSurvivors mint minted claimed ids).2 ↔
      a ∈ claimed ∨ a ∈ (claimSurvivors mint minted claimed ids).1 := by
  induction ids generalizing minted claimed with
  | nil => simp [claimSurvivors]
  | cons w rest ih =>
      unfold claimSurvivors
      cases w.find? (fun id => id ∉ claimed) with
      | some id => simp [ih, or_assoc, or_left_comm]
      | none => simp [ih, or_assoc, or_left_comm]

theorem claimSurvivors_nodup (hinj : Function.Injective mint) {minted : Nat}
    {claimed : Finset Uuid} {ids : List (List Uuid)}
    (hfresh : ∀ k, minted ≤ k → mint k ∉ claimed) (hwants : ∀ k, ∀ w ∈ ids, mint k ∉ w) :
    (claimSurvivors mint minted claimed ids).1.Nodup ∧
      ∀ a ∈ (claimSurvivors mint minted claimed ids).1, a ∉ claimed := by
  induction ids generalizing minted claimed with
  | nil => simp [claimSurvivors]
  | cons w rest ih =>
      have hrest : ∀ k, ∀ v ∈ rest, mint k ∉ v :=
        fun k v hv => hwants k v (List.mem_cons_of_mem w hv)
      unfold claimSurvivors
      cases hfind : w.find? (fun id => id ∉ claimed) with
      | some id =>
          have hid : id ∉ claimed := by simpa using List.find?_some hfind
          have hidw := List.mem_of_find?_eq_some hfind
          obtain ⟨hnodup, hnew⟩ := @ih minted (insert id claimed) (by
            intro k hk hmem
            rcases Finset.mem_insert.mp hmem with heq | hin
            · exact hwants k w List.mem_cons_self (heq ▸ hidw)
            · exact hfresh k hk hin) hrest
          refine ⟨List.nodup_cons.mpr ⟨?_, hnodup⟩, ?_⟩
          · intro hmem
            exact hnew id hmem (Finset.mem_insert_self id claimed)
          · intro a ha
            rcases List.mem_cons.mp ha with rfl | ha
            · exact hid
            · exact fun hc => hnew a ha (Finset.mem_insert_of_mem hc)
      | none =>
          obtain ⟨hnodup, hnew⟩ := @ih (minted + 1)
            (insert (mint minted) claimed) (by
            intro k hk hmem
            rcases Finset.mem_insert.mp hmem with heq | hin
            · have := hinj heq
              omega
            · exact hfresh k (by omega) hin) hrest
          refine ⟨List.nodup_cons.mpr ⟨?_, hnodup⟩, ?_⟩
          · intro hmem
            exact hnew _ hmem (Finset.mem_insert_self _ claimed)
          · intro a ha
            rcases List.mem_cons.mp ha with rfl | ha
            · exact hfresh minted le_rfl
            · exact fun hc => hnew a ha (Finset.mem_insert_of_mem hc)

/-- The loop follows the rule: a survivor is the id its component keeps, or a
fresh one when the component keeps none. -/
theorem claimSurvivors_keeps {ids : List (List Uuid)} (hsorted : ∀ w ∈ ids, w.Pairwise (· < ·))
    (hfresh : ∀ k, ∀ w ∈ ids, mint k ∉ w) (rest before : List (List Uuid))
    (hsplit : ids = before ++ rest) {minted : Nat} {claimed : Finset Uuid}
    (htaken : Claim.TakenBefore ids before.length (· ∈ claimed)) (i : Nat) (a : Uuid)
    (ha : (claimSurvivors mint minted claimed rest).1[i]? = some a) :
    Claim.Keeps ids (before.length + i) a ∨
      (∃ k, a = mint k) ∧ ∀ b, ¬ Claim.Keeps ids (before.length + i) b := by
  induction rest generalizing before minted claimed i with
  | nil => simp [claimSurvivors] at ha
  | cons w rest ih =>
      have hat : ids[before.length]? = some w := by simp [hsplit]
      have hw : w ∈ ids := List.mem_of_getElem? hat
      have hnext : ids = (before ++ [w]) ++ rest := by simp [hsplit]
      have hlen : (before ++ [w]).length = before.length + 1 := by simp
      have hsucc : ∀ s, (∀ b, (∃ v ∈ ids, b ∈ v) → (b = s ↔ Claim.Keeps ids before.length b)) →
          Claim.TakenBefore ids (before ++ [w]).length (· ∈ insert s claimed) := by
        intro s hs
        rw [hlen]
        refine htaken.succ ?_
        intro b hb
        rw [Finset.mem_insert, hs b hb]
      unfold claimSurvivors at ha
      cases hfind : w.find? (fun id => id ∉ claimed) with
      | some id =>
          have hkeep := (Claim.find?_keeps hat (hsorted w hw) htaken id).mp hfind
          rw [hfind] at ha
          cases i with
          | zero =>
              obtain rfl : id = a := by simpa using ha
              exact Or.inl hkeep
          | succ i =>
              have hrec := ih (before ++ [w]) hnext (hsucc id ?_) i (by simpa using ha)
              · rw [hlen] at hrec
                rwa [show before.length + (i + 1) = before.length + 1 + i by omega]
              · intro b _
                constructor
                · intro h
                  rwa [h]
                · intro h
                  exact h.item_unique hkeep
      | none =>
          have hnone := (Claim.find?_none_iff hat (hsorted w hw) htaken).mp hfind
          rw [hfind] at ha
          cases i with
          | zero =>
              obtain rfl : mint minted = a := by simpa using ha
              exact Or.inr ⟨⟨minted, rfl⟩, hnone⟩
          | succ i =>
              have hrec := ih (before ++ [w]) hnext (hsucc (mint minted) ?_) i (by simpa using ha)
              · rw [hlen] at hrec
                rwa [show before.length + (i + 1) = before.length + 1 + i by omega]
              · intro b hb
                obtain ⟨v, hv, hbv⟩ := hb
                constructor
                · intro h
                  exact absurd (h ▸ hbv) (hfresh minted v hv)
                · intro h
                  exact absurd h (hnone b)

theorem survivors_length :
    (survivors clusters components prior mint).length = (wants clusters components prior).length :=
  claimSurvivors_length _ _ _

theorem survivors_nodup (hmint : FreshMint mint prior) :
    (survivors clusters components prior mint).Nodup :=
  (claimSurvivors_nodup hmint.injective (by simp) hmint.not_wanted).1

theorem survivors_spec (hmint : FreshMint mint prior) {k : Nat} {s : Uuid}
    (hs : (survivors clusters components prior mint)[k]? = some s) :
    Claim.Keeps (wants clusters components prior) k s ∨
      (∃ j, s = mint j) ∧ ∀ P, ¬ Claim.Keeps (wants clusters components prior) k P := by
  have hinit := Claim.takenBefore_zero (wants clusters components prior)
  have h := claimSurvivors_keeps wants_sorted hmint.not_wanted (wants clusters components prior) []
    rfl (by simpa using hinit) k s hs
  simpa using h

theorem survivors_of_keeps (hmint : FreshMint mint prior) {k : Nat} {P : Uuid}
    (hk : Claim.Keeps (wants clusters components prior) k P) :
    (survivors clusters components prior mint)[k]? = some P := by
  obtain ⟨w, hw, _⟩ := hk.wanted
  have hlt := (List.getElem?_eq_some_iff.mp hw).1
  rw [← @survivors_length _ _ _ _ mint] at hlt
  have hget := List.getElem?_eq_getElem hlt
  rcases survivors_spec hmint hget with h | ⟨_, hnone⟩
  · rw [hget, h.item_unique hk]
  · exact absurd hk (hnone P)

theorem mem_survivors_iff (hmint : FreshMint mint prior) {P : Uuid}
    (hP : ∃ w ∈ wants clusters components prior, P ∈ w) :
    P ∈ survivors clusters components prior mint ↔
      ∃ k, Claim.Keeps (wants clusters components prior) k P := by
  constructor
  · intro hmem
    obtain ⟨k, hk⟩ := List.mem_iff_getElem?.mp hmem
    rcases survivors_spec hmint hk with h | ⟨⟨j, hj⟩, _⟩
    · exact ⟨k, h⟩
    · obtain ⟨w, hw, hin⟩ := hP
      exact absurd (hj ▸ hin) (hmint.not_wanted j w hw)
  · intro hex
    obtain ⟨k, hk⟩ := hex
    exact List.mem_of_getElem? (survivors_of_keeps hmint hk)

end Claims

/-! ## What the stage returns -/

section Output

variable {clusters : Fin n → LinkCluster} {components : Components n}
  {prior : List PriorMember} {mint : Nat → Uuid} {reasons : Fin n → Option String}

theorem mem_members {ms : Members n} {s c : Uuid} :
    c ∈ (linkedStory clusters reasons (ms, s)).members ↔ ∃ i ∈ ms.toList, (clusters i).id = c := by
  simp [LinkedStory.members, linkedStory]

theorem mem_orderedComponents {ms : Members n} :
    ms ∈ orderedComponents clusters components ↔ ∃ entry ∈ components.toList, entry.2 = ms := by
  simp only [orderedComponents, List.mem_insertionSort, List.mem_map]

theorem exists_position (hpart : components.Partitions) (i : Fin n) :
    ∃ (k : Nat) (ms : Members n),
      (orderedComponents clusters components)[k]? = some ms ∧ i ∈ ms.toList := by
  have hi := hpart.mem_iff.mpr (List.mem_finRange i)
  obtain ⟨entry, hentry, hmem⟩ := List.mem_flatMap.mp hi
  have hordered : entry.2 ∈ orderedComponents clusters components :=
    mem_orderedComponents.mpr ⟨entry, hentry, rfl⟩
  obtain ⟨k, hk⟩ := List.mem_iff_getElem?.mp hordered
  exact ⟨k, entry.2, hk, hmem⟩

theorem position_unique (hpart : components.Partitions) {j k : Nat} {ms ms' : Members n} {i : Fin n}
    (hj : (orderedComponents clusters components)[j]? = some ms)
    (hk : (orderedComponents clusters components)[k]? = some ms')
    (hi : i ∈ ms.toList) (hi' : i ∈ ms'.toList) : j = k := by
  have hperm : ((orderedComponents clusters components).flatMap (·.toList)).Perm
      (List.finRange n) := by
    have hsort := List.perm_insertionSort (fun x y : Members n =>
      x.minId clusters ≤ y.minId clusters)
      (components.toList.map Prod.snd)
    refine (hsort.flatMap_right _).trans ?_
    rw [List.flatMap_map]
    exact hpart
  have hnodup := hperm.nodup_iff.mpr (List.nodup_finRange n)
  obtain ⟨hlj, rfl⟩ := List.getElem?_eq_some_iff.mp hj
  obtain ⟨hlk, rfl⟩ := List.getElem?_eq_some_iff.mp hk
  have hdisj := List.pairwise_iff_getElem.mp (List.nodup_flatMap.mp hnodup).2
  rcases Nat.lt_trichotomy j k with h | h | h
  · exact absurd hi' (hdisj j k hlj hlk h hi)
  · exact h
  · exact absurd hi (hdisj k j hlk hlj h hi')

theorem exists_survivor (prior : List PriorMember) (mint : Nat → Uuid) {k : Nat} {ms : Members n}
    (hk : (orderedComponents clusters components)[k]? = some ms) :
    ∃ s, (survivors clusters components prior mint)[k]? = some s := by
  have hlt := (List.getElem?_eq_some_iff.mp hk).1
  have hlen := @survivors_length _ clusters components prior mint
  simp only [wants, List.length_map] at hlen
  exact ⟨_, List.getElem?_eq_getElem (by omega)⟩

theorem wants_getElem? (k : Nat) :
    (wants clusters components prior)[k]? =
      (orderedComponents clusters components)[k]?.map (componentPriorIds clusters prior) := by
  simp [wants]

private theorem mem_zip_iff {α β : Type} {l : List α} {m : List β} {z : α × β} :
    z ∈ l.zip m ↔ ∃ k : Nat, l[k]? = some z.1 ∧ m[k]? = some z.2 := by
  rw [List.mem_iff_getElem?]
  exact exists_congr fun k => List.getElem?_zip_eq_some

theorem mem_stories {story : LinkedStory} :
    story ∈ (forwardIds clusters components prior reasons mint).stories ↔
      ∃ (k : Nat) (ms : Members n) (s : Uuid),
        (orderedComponents clusters components)[k]? = some ms ∧
        (survivors clusters components prior mint)[k]? = some s ∧
        story = linkedStory clusters reasons (ms, s) := by
  simp only [forwardIds, List.mem_insertionSort, List.mem_map, mem_zip_iff]
  constructor
  · intro h
    obtain ⟨⟨ms, s⟩, ⟨k, hms, hs⟩, heq⟩ := h
    exact ⟨k, ms, s, hms, hs, heq.symm⟩
  · intro h
    obtain ⟨k, ms, s, hms, hs, heq⟩ := h
    exact ⟨(ms, s), ⟨k, hms, hs⟩, heq.symm⟩

theorem stories_ids_perm :
    ((forwardIds clusters components prior reasons mint).stories.map (·.id)).Perm
      (survivors clusters components prior mint) := by
  have hsort := (List.perm_insertionSort (fun x y => storyOrder x y ≠ .gt)
    (((orderedComponents clusters components).zip
      (survivors clusters components prior mint)).map (linkedStory clusters reasons))).map (·.id)
  refine hsort.trans (List.Perm.of_eq ?_)
  rw [List.map_map]
  show List.map Prod.snd _ = _
  refine List.map_snd_zip ?_
  rw [survivors_length]
  simp [wants]

theorem mem_merges (hmint : FreshMint mint prior) {m : Merge} :
    m ∈ (forwardIds clusters components prior reasons mint).merges ↔
      ∃ (k : Nat) (ms : Members n), (orderedComponents clusters components)[k]? = some ms ∧
        (survivors clusters components prior mint)[k]? = some m.survivor ∧
        m.loser ∈ componentPriorIds clusters prior ms ∧
        ∀ j, ¬ Claim.Keeps (wants clusters components prior) j m.loser := by
  have hclaimed : ∀ a, a ∈ (claimSurvivors mint 0 ∅ (wants clusters components prior)).2 ↔
      a ∈ survivors clusters components prior mint := by
    intro a
    rw [mem_claimSurvivors_snd]
    simp [survivors]
  simp only [forwardIds, List.mem_insertionSort, List.mem_flatMap, mem_zip_iff, absorbed,
    List.mem_map, List.mem_filter, hclaimed]
  constructor
  · intro h
    obtain ⟨⟨w, s⟩, ⟨k, hw, hs⟩, id, ⟨hid, hnot⟩, rfl⟩ := h
    rw [wants_getElem?, Option.map_eq_some_iff] at hw
    obtain ⟨ms, hms, rfl⟩ := hw
    refine ⟨k, ms, hms, hs, hid, ?_⟩
    intro j hj
    have hmem := List.mem_of_getElem? (survivors_of_keeps hmint hj)
    simp only [ne_eq, decide_eq_true_eq] at hnot
    exact hnot.2 hmem
  · intro h
    obtain ⟨k, ms, hms, hs, hid, hnone⟩ := h
    have hw : (wants clusters components prior)[k]? =
        some (componentPriorIds clusters prior ms) := by
      rw [wants_getElem?, hms, Option.map_some]
    have hwant : ∃ w ∈ wants clusters components prior, m.loser ∈ w :=
      ⟨_, List.mem_of_getElem? hw, hid⟩
    have hnot : m.loser ∉ survivors clusters components prior mint := by
      rw [mem_survivors_iff hmint hwant]
      intro hex
      obtain ⟨j, hj⟩ := hex
      exact hnone j hj
    refine ⟨(_, m.survivor), ⟨k, hw, hs⟩, m.loser, ⟨hid, ?_⟩, rfl⟩
    simp only [ne_eq, decide_eq_true_eq]
    exact ⟨fun heq => hnot (heq ▸ List.mem_of_getElem? hs), hnot⟩

end Output

end Bulletin
