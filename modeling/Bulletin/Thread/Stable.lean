import Mathlib.Data.List.Pairwise
import Bulletin.Thread.Maintain

/-! # A second pass over one snapshot

After a pass each community is the spine of its own thread. A thread that no community has
claimed is carried on unchanged; if it matches a community it is pinned and younger than the
thread of that community. So a second mapping of the same communities finds each under the
thread it has, starts none and absorbs none.
-/

namespace Bulletin

/-! ## The threads a pass leaves -/

section Settle

variable {F : Type}

/-- The thread an upsert leaves, under a new id if it had none. -/
def ThreadUpsert.settle (u : ThreadUpsert F) (newId : Uuid) : ExistingThread where
  id := u.id.getD newId
  entities := u.entities
  pinned := u.pinned

def settleThreads (upserts : List (ThreadUpsert F)) (newIds : List Uuid) : List ExistingThread :=
  List.zipWith ThreadUpsert.settle upserts newIds

end Settle

/-! ## A thread that owns its community -/

section Owns

variable {F : Type} [Score F] {existing : List ExistingThread} {matchThreshold : F}
  {claimed : List Uuid} {cand : List String}

/-- The thread matches the community, and any other that matches it is pinned and younger. -/
structure Owns (existing : List ExistingThread) (matchThreshold : F) (cand : List String)
    (t : ExistingThread) : Prop where
  mem : t ∈ existing
  overlaps : Score.ge (jaccard cand t.entities : F) matchThreshold = true
  others : ∀ e ∈ existing, Score.ge (jaccard cand e.entities : F) matchThreshold = true →
    e ≠ t → t.id < e.id ∧ e.pinned = true

theorem Owns.matchingThreads_eq {t : ExistingThread}
    (h : Owns existing matchThreshold cand t) (hfree : t.id ∉ claimed) :
    ∃ rest, matchingThreads existing matchThreshold claimed cand = t :: rest ∧
      ∀ e ∈ rest, e.id ≠ t.id → e.pinned = true := by
  have hmem : t ∈ matchingThreads existing matchThreshold claimed cand :=
    mem_matchingThreads.mpr ⟨h.mem, hfree, h.overlaps⟩
  have hsorted : (matchingThreads existing matchThreshold claimed cand).Pairwise
      fun x y => x.id ≤ y.id := List.pairwise_insertionSort _ _
  cases hlist : matchingThreads existing matchThreshold claimed cand with
  | nil =>
      rw [hlist] at hmem
      cases hmem
  | cons first rest =>
      have hall : ∀ e ∈ first :: rest, e ≠ t → t.id < e.id ∧ e.pinned = true := by
        intro e he
        rw [← hlist] at he
        obtain ⟨hin, _, hover⟩ := mem_matchingThreads.mp he
        exact h.others e hin hover
      rw [hlist] at hmem hsorted
      have hfirst : first = t := by
        by_contra hne
        have hlater : t ∈ rest := by
          rcases List.mem_cons.mp hmem with heq | hin
          · exact absurd heq.symm hne
          · exact hin
        have hle : first.id ≤ t.id := (List.pairwise_cons.mp hsorted).1 t hlater
        exact absurd (hall first List.mem_cons_self hne).1 (not_lt.mpr hle)
      subst hfirst
      refine ⟨rest, rfl, ?_⟩
      intro e he hid
      exact (hall e (List.mem_cons_of_mem _ he) fun heq => hid (congrArg _ heq)).2

theorem Owns.mapCommunity {t : ExistingThread} (h : Owns existing matchThreshold cand t)
    (hids : (existing.map (·.id)).Nodup) (hfree : t.id ∉ claimed) :
    (mapCommunity cand (matchingThreads existing matchThreshold claimed cand)).1.winner =
        some t.id ∧
      (mapCommunity cand (matchingThreads existing matchThreshold claimed cand)).1.absorb = [] ∧
      (mapCommunity cand (matchingThreads existing matchThreshold claimed cand)).2 = [t.id] := by
  have hnodup : ((matchingThreads existing matchThreshold claimed cand).map (·.id)).Nodup :=
    matchingThreads_nodup hids
  obtain ⟨rest, hlist, hpinned⟩ := h.matchingThreads_eq hfree
  rw [hlist] at hnodup ⊢
  cases rest with
  | nil => exact ⟨rfl, rfl, rfl⟩
  | cons second rest =>
      have hnone : (second :: rest).filter (fun e => !e.pinned) = [] := by
        rw [List.filter_eq_nil_iff]
        intro e he
        have hid : e.id ≠ t.id := by
          rw [List.map_cons, List.nodup_cons] at hnodup
          intro heq
          exact hnodup.1 (heq ▸ List.mem_map_of_mem he)
        simp [hpinned e he hid]
      unfold Bulletin.mapCommunity
      dsimp only
      rw [hnone]
      exact ⟨rfl, rfl, rfl⟩

theorem mapCommunities_owned {pairs : List (List String × ExistingThread)}
    (hids : (existing.map (·.id)).Nodup)
    (howns : ∀ p ∈ pairs, Owns existing matchThreshold p.1 p.2)
    (hnodup : (pairs.map (·.2.id)).Nodup) (hfree : ∀ p ∈ pairs, p.2.id ∉ claimed) :
    (mapCommunities existing matchThreshold claimed (pairs.map (·.1))).map
        (fun m => (m.winner, m.absorb)) = pairs.map fun p => (some p.2.id, []) := by
  induction pairs generalizing claimed with
  | nil => rfl
  | cons p pairs ih =>
      rw [List.map_cons, List.nodup_cons] at hnodup
      obtain ⟨hwinner, habsorb, hclaims⟩ :=
        (howns p List.mem_cons_self).mapCommunity hids (hfree p List.mem_cons_self)
      have hlater : ∀ q ∈ pairs, q.2.id ∉ claimed ++ [p.2.id] := by
        intro q hq hin
        rcases List.mem_append.mp hin with hin | hin
        · exact hfree q (List.mem_cons_of_mem _ hq) hin
        · exact hnodup.1 (List.mem_map.mpr ⟨q, hq, List.mem_singleton.mp hin⟩)
      have hrest := ih (fun q hq => howns q (List.mem_cons_of_mem _ hq)) hnodup.2 hlater
      rw [List.map_cons, mapCommunities]
      rw [hclaims, List.map_cons, hwinner, habsorb, hrest, List.map_cons]

/-- What a community matches and does not claim is pinned and younger than the winner. -/
theorem unclaimed_pinned_in {ms : List ExistingThread} {e : ExistingThread}
    (hsorted : ms.Pairwise fun x y => x.id ≤ y.id) (he : e ∈ ms)
    (hunclaimed : e.id ∉ (mapCommunity cand ms).2) :
    e.pinned = true ∧ ∃ w, (mapCommunity cand ms).1.winner = some w ∧ w < e.id := by
  match ms with
  | [] => cases he
  | [only] =>
      rw [List.mem_singleton] at he
      subst he
      exact absurd (List.mem_singleton_self _) hunclaimed
  | winner :: second :: rest =>
      unfold mapCommunity at hunclaimed
      dsimp only at hunclaimed
      rw [List.mem_cons, not_or] at hunclaimed
      have hlater : e ∈ second :: rest := by
        rcases List.mem_cons.mp he with heq | hin
        · exact absurd (congrArg _ heq) hunclaimed.1
        · exact hin
      have hpinned : e.pinned = true := by
        by_contra hnot
        have hin : e ∈ (second :: rest).filter fun e => !e.pinned :=
          List.mem_filter.mpr ⟨hlater, by simpa using hnot⟩
        exact hunclaimed.2 (List.mem_map_of_mem hin)
      refine ⟨hpinned, winner.id, rfl, ?_⟩
      exact lt_of_le_of_ne ((List.pairwise_cons.mp hsorted).1 e hlater) (Ne.symm hunclaimed.1)

/-- A thread that no community has claimed matches only communities of older threads, and is
pinned if it matches any. -/
theorem unclaimed_pinned {cands : List (List String)} {m : ThreadMapping} {e : ExistingThread}
    (hm : (cand, m) ∈ cands.zip (mapCommunities existing matchThreshold claimed cands))
    (he : e ∈ existing) (hfree : e.id ∉ claimed)
    (hunclaimed : e.id ∉ (mapCommunities existing matchThreshold claimed cands).flatMap (·.ids))
    (hover : Score.ge (jaccard cand e.entities : F) matchThreshold = true) :
    e.pinned = true ∧ ∃ w, m.winner = some w ∧ w < e.id := by
  induction cands generalizing claimed with
  | nil => cases hm
  | cons first cands ih =>
      rw [mapCommunities] at hm hunclaimed
      rw [List.flatMap_cons, List.mem_append, not_or, mapCommunity_ids] at hunclaimed
      rw [List.zip_cons_cons] at hm
      rcases List.mem_cons.mp hm with heq | hm
      · cases heq
        exact unclaimed_pinned_in (List.pairwise_insertionSort _ _)
          (mem_matchingThreads.mpr ⟨he, hfree, hover⟩) hunclaimed.1
      · refine ih hm ?_ hunclaimed.2
        rw [List.mem_append, not_or]
        exact ⟨hfree, hunclaimed.1⟩

end Owns

/-! ## Overlap -/

theorem jaccard_self {c : List String} (h : c ≠ []) : (jaccard c c : ℚ) = 1 := by
  have hdedup : c.dedup ≠ [] := by
    simpa using h
  have hpos : 0 < c.dedup.length := List.length_pos_iff.mpr hdedup
  unfold jaccard
  dsimp only
  rw [if_neg (by simp [hdedup])]
  have hinter : c.dedup.filter (· ∈ c.dedup) = c.dedup := List.filter_eq_self.mpr (by simp)
  have hrest : c.dedup.filter (· ∉ c.dedup) = [] := List.filter_eq_nil_iff.mpr (by simp)
  rw [hinter, hrest, List.append_nil, if_neg (by omega)]
  have hne : (c.dedup.length : ℚ) ≠ 0 := by exact_mod_cast hpos.ne'
  simpa [Score.lit] using div_self hne

theorem jaccard_disjoint {a b : List String} (hne : a ≠ []) (h : List.Disjoint a b) :
    (jaccard a b : ℚ) = 0 := by
  have hdedup : a.dedup ≠ [] := by
    simpa using hne
  have hinter : a.dedup.filter (· ∈ b.dedup) = [] := by
    rw [List.filter_eq_nil_iff]
    intro x hx
    simpa using h (List.mem_dedup.mp hx)
  unfold jaccard
  dsimp only
  rw [if_neg (by simp [hdedup]), hinter]
  split <;> simp [Score.lit]

/-! ## The second mapping -/

section Second

variable {F : Type}

theorem settleThreads_ids {upserts : List (ThreadUpsert F)} {newIds : List Uuid}
    (hids : (upserts.flatMap (·.ids)).Nodup) (hnodup : newIds.Nodup)
    (hfresh : ∀ id ∈ newIds, id ∉ upserts.flatMap (·.ids)) :
    ((settleThreads upserts newIds).map (·.id)).Nodup ∧
      ∀ id ∈ (settleThreads upserts newIds).map (·.id),
        id ∈ upserts.flatMap (·.ids) ∨ id ∈ newIds := by
  unfold settleThreads
  induction upserts generalizing newIds with
  | nil => simp
  | cons u upserts ih =>
      cases newIds with
      | nil => simp
      | cons newId newIds =>
          rw [List.flatMap_cons, List.nodup_append] at hids
          rw [List.nodup_cons] at hnodup
          have hlater : ∀ id ∈ newIds, id ∉ upserts.flatMap (·.ids) := by
            intro id hid hin
            refine hfresh id (List.mem_cons_of_mem _ hid) ?_
            rw [List.flatMap_cons]
            exact List.mem_append_right _ hin
          obtain ⟨hrest, hmem⟩ := ih hids.2.1 hnodup.2 hlater
          have hfirst : (u.settle newId).id ∈ u.ids ∨ (u.settle newId).id = newId := by
            unfold ThreadUpsert.settle ThreadUpsert.ids
            cases u.id <;> simp
          rw [List.zipWith_cons_cons, List.map_cons, List.nodup_cons]
          refine ⟨⟨?_, hrest⟩, ?_⟩
          · intro hin
            have hold := hfresh newId List.mem_cons_self
            rw [List.flatMap_cons, List.mem_append, not_or] at hold
            rcases hmem _ hin with hlate | hlate <;> rcases hfirst with hown | hown
            · exact hids.2.2 _ hown _ hlate rfl
            · exact hold.2 (hown ▸ hlate)
            · refine hfresh _ (List.mem_cons_of_mem _ hlate) ?_
              rw [List.flatMap_cons]
              exact List.mem_append_left _ hown
            · exact hnodup.1 (hown ▸ hlate)
          · intro id hid
            rw [List.flatMap_cons, List.mem_append, List.mem_cons]
            rcases List.mem_cons.mp hid with rfl | hid
            · rcases hfirst with hown | hown
              · exact Or.inl (Or.inl hown)
              · exact Or.inr (Or.inl hown)
            · rcases hmem id hid with hlate | hlate
              · exact Or.inl (Or.inr hlate)
              · exact Or.inr (Or.inr hlate)

theorem settleThreads_map {ι : Type} {ts : List ι} {upsert : ι → ThreadUpsert F}
    {thread : ι → ExistingThread} {newIds : List Uuid} (hlen : newIds.length = ts.length)
    (h : ∀ t newId, (upsert t).settle newId = thread t) :
    settleThreads (ts.map upsert) newIds = ts.map thread := by
  unfold settleThreads
  induction ts generalizing newIds with
  | nil => simp
  | cons t ts ih =>
      cases newIds with
      | nil => simp at hlen
      | cons newId newIds =>
          rw [List.map_cons, List.zipWith_cons_cons, h, ih (by simpa using hlen), List.map_cons]

end Second

section Stable

variable {candidates : List (List String)} {resolution : Resolution} {sources : List StorySource}
  {prior : List (ThreadRow ℚ)} {care : List (ThreadCare ℚ)} {since now : DateTime}
  {cfg : MaintenanceConfig ℚ} {newIds : List Uuid}

def ThreadMapping.Leaves (newIds : List Uuid) (m : ThreadMapping) (t : ExistingThread) : Prop :=
  t.entities = m.entities ∧ ∃ newId ∈ newIds, t.id = m.winner.getD newId

theorem leaves_entities {ms : List ThreadMapping} {ts : List ExistingThread}
    (h : List.Forall₂ (ThreadMapping.Leaves newIds) ms ts) :
    ts.map (·.entities) = ms.map (·.entities) := by
  induction h with
  | nil => rfl
  | cons hhead _ ih => rw [List.map_cons, List.map_cons, hhead.1, ih]

theorem mapCommunities_length {existing : List ExistingThread} {matchThreshold : ℚ}
    {claimed : List Uuid} :
    (mapCommunities existing matchThreshold claimed candidates).length = candidates.length := by
  have hentities := @mapCommunities_entities ℚ _ candidates existing matchThreshold claimed
  calc _ = ((mapCommunities existing matchThreshold claimed candidates).map (·.entities)).length :=
        (List.length_map _).symm
    _ = candidates.length := congrArg _ hentities

/-- A pass leaves a thread for each mapping, and the threads no community has claimed. -/
theorem settle_maintainUpserts (hlen : newIds.length =
      (maintainUpserts candidates resolution sources prior care since now cfg).length) :
    ∃ mapped, settleThreads
        (maintainUpserts candidates resolution sources prior care since now cfg) newIds =
          mapped ++ (unclaimed candidates prior cfg.matchThreshold).map (·.asExisting) ∧
      List.Forall₂ (ThreadMapping.Leaves newIds)
        (mapCommunitiesToThreads candidates (prior.map (·.asExisting)) cfg.matchThreshold)
        mapped := by
  unfold maintainUpserts at hlen ⊢
  dsimp only at hlen ⊢
  generalize hmappings :
    mapCommunitiesToThreads candidates (prior.map (·.asExisting)) cfg.matchThreshold = mappings
      at hlen ⊢
  rw [List.length_append, List.length_map, List.length_map] at hlen
  have hsplit : newIds = newIds.take mappings.length ++ newIds.drop mappings.length :=
    (List.take_append_drop _ _).symm
  have htake : (newIds.take mappings.length).length = mappings.length := by
    rw [List.length_take]
    omega
  have hdrop : (newIds.drop mappings.length).length =
      (unclaimed candidates prior cfg.matchThreshold).length := by
    rw [List.length_drop]
    omega
  refine ⟨settleThreads (mappings.map fun m => buildUpsert m.winner m.absorb m.entities
    (m.winner.bind fun id => prior.find? fun t => t.id = id) sources resolution
    (careFor care m.winner m.absorb) since now cfg) (newIds.take mappings.length), ?_, ?_⟩
  · conv_lhs => rw [hsplit]
    unfold settleThreads
    rw [List.zipWith_append (by rw [List.length_map, htake])]
    congr 1
    exact settleThreads_map hdrop fun t newId => rfl
  · rw [List.forall₂_iff_get]
    refine ⟨by simp [settleThreads, htake], ?_⟩
    intro i hm ht
    have hin : i < newIds.length := by
      rw [← htake, List.length_take] at hm
      omega
    simp only [settleThreads, List.get_eq_getElem, List.getElem_zipWith, List.getElem_map,
      List.getElem_take]
    exact ⟨rfl, newIds[i], List.getElem_mem hin, rfl⟩

/-- Side by side with related lists, a value of the first is that of the item related. -/
theorem exists_of_mem_zip {ι β γ : Type} {R : ι → β → Prop} {value : ι → γ} {xs : List ι}
    {ys : List β} (h : List.Forall₂ R xs ys) {c : γ} {y : β} (hc : (c, y) ∈ (xs.map value).zip ys) :
    ∃ x, (c, x) ∈ (xs.map value).zip xs ∧ c = value x ∧ R x y := by
  induction h with
  | nil => cases hc
  | cons hhead _ ih =>
      rw [List.map_cons, List.zip_cons_cons] at hc ⊢
      rcases List.mem_cons.mp hc with heq | hc
      · cases heq
        exact ⟨_, List.mem_cons_self, rfl, hhead⟩
      · obtain ⟨x, hx, hvalue, hr⟩ := ih hc
        exact ⟨x, List.mem_cons_of_mem _ hx, hvalue, hr⟩

theorem owns_of_leaves {mapped : List ExistingThread}
    (hdisjoint : candidates.Pairwise List.Disjoint) (hne : ∀ c ∈ candidates, c ≠ [])
    (hpos : 0 < cfg.matchThreshold) (hle : cfg.matchThreshold ≤ 1)
    (hleaves : List.Forall₂ (ThreadMapping.Leaves newIds)
      (mapCommunitiesToThreads candidates (prior.map (·.asExisting)) cfg.matchThreshold) mapped)
    {p : List String × ExistingThread} (hp : p ∈ candidates.zip mapped) :
    Owns (mapped ++ (unclaimed candidates prior cfg.matchThreshold).map (·.asExisting))
      cfg.matchThreshold p.1 p.2 := by
  have hlength : mapped.length = candidates.length :=
    hleaves.length_eq.symm.trans mapCommunities_length
  have hfst : (candidates.zip mapped).map (·.1) = candidates :=
    List.map_fst_zip (by omega)
  have hpairs : (candidates.zip mapped).Pairwise fun p q => List.Disjoint p.1 q.1 := by
    rw [← List.pairwise_map, hfst]
    exact hdisjoint
  -- what the first pass says of the thread of a pair
  have hleft : ∀ q ∈ candidates.zip mapped, q.2.entities = q.1 ∧ ∃ m,
      (q.1, m) ∈ candidates.zip (mapCommunitiesToThreads candidates (prior.map (·.asExisting))
        cfg.matchThreshold) ∧ ∀ w, m.winner = some w → q.2.id = w := by
    intro q hq
    have hentities : (mapCommunitiesToThreads candidates (prior.map (·.asExisting))
        cfg.matchThreshold).map (·.entities) = candidates := mapCommunities_entities
    rw [← hentities] at hq
    obtain ⟨m, hm, hvalue, hspine, newId, _, hid⟩ := exists_of_mem_zip hleaves hq
    rw [hentities] at hm
    refine ⟨hspine.trans hvalue.symm, m, hm, ?_⟩
    intro w hw
    rw [hid, hw]
    rfl
  have hcand : p.1 ∈ candidates := (List.of_mem_zip hp).1
  obtain ⟨hentities, m, hm, hwinner⟩ := hleft p hp
  refine { mem := ?_, overlaps := ?_, others := ?_ }
  · exact List.mem_append_left _ (List.of_mem_zip hp).2
  · rw [Score.ge_iff, hentities, jaccard_self (hne _ hcand)]
    exact hle
  · intro e he hover hother
    rcases List.mem_append.mp he with he | he
    · exfalso
      have hsnd : (candidates.zip mapped).map (·.2) = mapped := List.map_snd_zip (by omega)
      rw [← hsnd] at he
      obtain ⟨q, hq, rfl⟩ := List.mem_map.mp he
      have : Std.Symm fun p q : List String × ExistingThread => List.Disjoint p.1 q.1 :=
        ⟨fun _ _ h => h.symm⟩
      have hdis : List.Disjoint p.1 q.1 := hpairs.forall hp hq fun heq =>
        hother (congrArg _ heq.symm)
      rw [Score.ge_iff, (hleft q hq).1, jaccard_disjoint (hne _ hcand) hdis] at hover
      exact absurd hpos (not_lt.mpr hover)
    · obtain ⟨t, ht, rfl⟩ := List.mem_map.mp he
      obtain ⟨hprior, hfree⟩ := List.mem_filter.mp ht
      obtain ⟨hpinned, w, hw, hlt⟩ := unclaimed_pinned hm (List.mem_map_of_mem hprior)
        List.not_mem_nil (of_decide_eq_true hfree) hover
      rw [hwinner w hw]
      exact ⟨hlt, hpinned⟩

/-- A second mapping of disjoint communities finds each under the thread the pass has left for
it; it starts no thread and absorbs none. -/
theorem second_mapping_stable (candidates : List (List String)) (resolution : Resolution)
    (sources : List StorySource) (prior : List (ThreadRow ℚ)) (care : List (ThreadCare ℚ))
    (since now : DateTime) (cfg : MaintenanceConfig ℚ) (newIds : List Uuid)
    (hdisjoint : candidates.Pairwise List.Disjoint) (hne : ∀ c ∈ candidates, c ≠ [])
    (hids : (prior.map (·.id)).Nodup)
    (hpos : 0 < cfg.matchThreshold) (hle : cfg.matchThreshold ≤ 1)
    (hlen : newIds.length =
      (maintainUpserts candidates resolution sources prior care since now cfg).length)
    (hnodup : newIds.Nodup) (hfresh : ∀ id ∈ newIds, id ∉ prior.map (·.id)) :
    let after := settleThreads
      (maintainUpserts candidates resolution sources prior care since now cfg) newIds
    (after.take candidates.length).map (·.entities) = candidates ∧
      (mapCommunitiesToThreads candidates after cfg.matchThreshold).map
        (fun m => (m.winner, m.absorb)) =
          (after.take candidates.length).map fun t => (some t.id, []) := by
  intro after
  obtain ⟨mapped, hafter, hleaves⟩ := settle_maintainUpserts hlen
  have hlength : mapped.length = candidates.length :=
    hleaves.length_eq.symm.trans mapCommunities_length
  have htake : after.take candidates.length = mapped := by
    show (settleThreads _ _).take _ = _
    rw [hafter, ← hlength, List.take_left]
  have hperm := @maintainUpserts_ids ℚ _ candidates resolution sources prior care since now cfg hids
  have hafterIds : (after.map (·.id)).Nodup := by
    refine (settleThreads_ids (hperm.nodup_iff.mpr hids) hnodup ?_).1
    intro id hid hin
    exact hfresh id hid (hperm.mem_iff.mp hin)
  have hfst : (candidates.zip mapped).map (·.1) = candidates := List.map_fst_zip (by omega)
  have hsnd : (candidates.zip mapped).map (·.2) = mapped := List.map_snd_zip (by omega)
  have howns : ∀ p ∈ candidates.zip mapped, Owns after cfg.matchThreshold p.1 p.2 := by
    intro p hp
    show Owns (settleThreads _ _) _ _ _
    rw [hafter]
    exact owns_of_leaves hdisjoint hne hpos hle hleaves hp
  have hmapped : ((candidates.zip mapped).map (·.2.id)).Nodup := by
    have hids : (candidates.zip mapped).map (·.2.id) = mapped.map (·.id) :=
      calc _ = ((candidates.zip mapped).map (·.2)).map (·.id) := by rw [List.map_map]; rfl
        _ = mapped.map (·.id) := congrArg _ hsnd
    rw [hids, ← htake]
    exact hafterIds.sublist ((List.take_sublist _ _).map _)
  have hsecond : (mapCommunities after cfg.matchThreshold []
      ((candidates.zip mapped).map (·.1))).map (fun m => (m.winner, m.absorb)) =
        (candidates.zip mapped).map fun p => (some p.2.id, []) :=
    mapCommunities_owned hafterIds howns hmapped (by simp)
  rw [htake]
  constructor
  · have hentities : (mapCommunitiesToThreads candidates (prior.map (·.asExisting))
        cfg.matchThreshold).map (·.entities) = candidates := mapCommunities_entities
    exact (leaves_entities hleaves).trans hentities
  · rw [hfst] at hsecond
    refine hsecond.trans ?_
    conv_rhs => rw [← hsnd]
    rw [List.map_map]
    rfl

end Stable

def overlappingThread (id : Uuid) (pinned : Bool) (entities : List String) : ThreadRow ℚ where
  id := id
  origin := .emergent
  pinned := pinned
  affinity := 1
  entities := entities
  firstSeen := none
  lastStoryTime := none

def overlappingThreads : List (ThreadRow ℚ) :=
  [overlappingThread 1 false ["repo:a", "repo:b"],
   overlappingThread 2 true ["repo:a", "repo:b", "repo:c"],
   overlappingThread 3 false ["repo:b"]]

def twoCommunities : List (List String) := [["repo:a", "repo:b"], ["user:x", "user:y"]]

/-- Three threads on one community, one of them pinned, and a community without a thread. -/
theorem second_mapping_stable_pinned :
    let after := settleThreads (maintainUpserts twoCommunities {} [] overlappingThreads [] 0 5
      (MaintenanceConfig.default ℚ)) [10, 11, 12]
    (after.take twoCommunities.length).map (·.entities) = twoCommunities ∧
      (mapCommunitiesToThreads twoCommunities after
        (MaintenanceConfig.default ℚ).matchThreshold).map (fun m => (m.winner, m.absorb)) =
          (after.take twoCommunities.length).map fun t => (some t.id, []) :=
  second_mapping_stable twoCommunities {} [] overlappingThreads [] 0 5
    (MaintenanceConfig.default ℚ) [10, 11, 12] (by simp [twoCommunities]) (by decide) (by decide)
    (by decide +kernel) (by decide +kernel) (by decide +kernel) (by decide) (by decide)

end Bulletin
