import Bulletin.Thread.Stable
import Bulletin.Thread.Store

/-! # Threads across a pass

Each thread of before ends up once in what a pass writes: as the thread of an upsert, or absorbed
by one. What is absorbed is never pinned, and is forwarded to a thread that stays.
-/

namespace Bulletin

/-! ## Absorbed threads -/

section Absorbed

variable {F : Type} [Score F] {existing : List ExistingThread} {matchThreshold : F}
  {claimed : List Uuid} {cands : List (List String)}

theorem mapCommunity_absorb {cand : List String} {ms : List ExistingThread} {id : Uuid}
    (h : id ∈ (mapCommunity cand ms).1.absorb) : ∃ e ∈ ms, e.id = id ∧ e.pinned = false := by
  match ms with
  | [] => cases h
  | [only] => cases h
  | winner :: second :: rest =>
      obtain ⟨e, he, rfl⟩ := List.mem_map.mp h
      obtain ⟨hin, hfree⟩ := List.mem_filter.mp he
      exact ⟨e, List.mem_cons_of_mem _ hin, rfl, by simpa using hfree⟩

theorem mapCommunities_absorb {m : ThreadMapping} {id : Uuid}
    (hm : m ∈ mapCommunities existing matchThreshold claimed cands) (hid : id ∈ m.absorb) :
    ∃ e ∈ existing, e.id = id ∧ e.pinned = false := by
  induction cands generalizing claimed with
  | nil => cases hm
  | cons cand cands ih =>
      rw [mapCommunities] at hm
      rcases List.mem_cons.mp hm with rfl | hm
      · obtain ⟨e, he, hrest⟩ := mapCommunity_absorb hid
        exact ⟨e, (mem_matchingThreads.mp he).1, hrest⟩
      · exact ih hm

end Absorbed

/-! ## Saved rows -/

section Saved

variable {F : Type} {sub : Uuid} {table : ThreadTable F}

theorem updateThread_getElem? {f : StoredThread F → StoredThread F} {id k : Uuid} :
    (updateThread sub f table k)[id]? =
      if k = id then table[id]?.map fun t => if t.subscriberId = sub then f t else t
      else table[id]? := by
  unfold updateThread
  rw [Std.ExtTreeMap.getElem?_modify]
  by_cases hk : k = id
  · subst hk
    simp
  · simp [hk]

/-- The row, forwarded to a winner if it is one of the subscriber's. -/
def StoredThread.forwarded (sub winner : Uuid) (t : StoredThread F) : StoredThread F :=
  if t.subscriberId = sub then { t with mergedInto := some winner } else t

@[simp] theorem forwarded_forwarded {winner : Uuid} {t : StoredThread F} :
    (t.forwarded sub winner).forwarded sub winner = t.forwarded sub winner := by
  unfold StoredThread.forwarded
  by_cases hsub : t.subscriberId = sub <;> simp [hsub]

/-- Forwarding threads to a winner touches their rows only, and of these only where they go. -/
theorem foldl_forward {absorb : List Uuid} {winner id : Uuid} :
    (absorb.foldl (updateThread sub fun t => { t with mergedInto := some winner }) table)[id]? =
      if id ∈ absorb then table[id]?.map (·.forwarded sub winner) else table[id]? := by
  induction absorb generalizing table with
  | nil => simp
  | cons l absorb ih =>
      rw [List.foldl_cons, ih, updateThread_getElem?]
      by_cases hl : l = id
      · subst hl
        -- forwarded once more, the row stays as it is
        have htwice : (table[l]?.map (·.forwarded sub winner)).map (·.forwarded sub winner) =
            table[l]?.map (·.forwarded sub winner) := by
          simp [Function.comp_def]
        rw [if_pos rfl, if_pos List.mem_cons_self]
        split
        · exact htwice
        · rfl
      · have hiff : id ∈ l :: absorb ↔ id ∈ absorb := by
          simp [Ne.symm hl]
        simp only [if_neg hl, hiff]

theorem saveThread_row {u : ThreadUpsert F} {newId id : Uuid} {row : StoredThread F}
    (hrow : table[id]? = some row) (hsub : row.subscriberId = sub) (hnew : id ≠ newId) :
    ∃ row', (saveThread sub table (u, newId))[id]? = some row' ∧ row'.subscriberId = sub ∧
      row'.mergedInto = if id ∈ u.absorb then some (u.id.getD newId) else row.mergedInto := by
  unfold saveThread
  dsimp only
  cases huid : u.id with
  | none =>
      have hinsert : (table.insert newId (u.inserted sub))[id]? = some row := by
        rw [Std.ExtTreeMap.getElem?_insert]
        simp [Ne.symm hnew, hrow]
      dsimp only
      rw [foldl_forward, hinsert]
      by_cases habsorb : id ∈ u.absorb <;> simp [habsorb, hsub, StoredThread.forwarded]
  | some w =>
      have hupdate : ∃ row', (updateThread sub (·.withUpsert u) table w)[id]? = some row' ∧
          row'.subscriberId = sub ∧ row'.mergedInto = row.mergedInto := by
        rw [updateThread_getElem?, hrow]
        split
        · exact ⟨_, rfl, by simp [hsub, StoredThread.withUpsert],
            by simp [hsub, StoredThread.withUpsert]⟩
        · exact ⟨row, rfl, hsub, rfl⟩
      obtain ⟨row', hrow', hsub', hmerged⟩ := hupdate
      dsimp only
      rw [foldl_forward, hrow']
      by_cases habsorb : id ∈ u.absorb <;> simp [habsorb, hsub', hmerged, StoredThread.forwarded]

/-- Where a pass leaves the row of a thread: as it was forwarded, if an upsert absorbs it. -/
theorem foldl_saveThread_row {entries : List (ThreadUpsert F × Uuid)} {id : Uuid}
    {row : StoredThread F} (hrow : table[id]? = some row) (hsub : row.subscriberId = sub)
    (hnew : ∀ e ∈ entries, id ≠ e.2) :
    ∃ row', (entries.foldl (saveThread sub) table)[id]? = some row' ∧
      ((∀ e ∈ entries, id ∉ e.1.absorb) → row'.mergedInto = row.mergedInto) ∧
      ((∃ e ∈ entries, id ∈ e.1.absorb) → ∃ e ∈ entries, id ∈ e.1.absorb ∧
        row'.mergedInto = some (e.1.id.getD e.2)) := by
  induction entries generalizing table row with
  | nil => exact ⟨row, hrow, fun _ => rfl, by simp⟩
  | cons e entries ih =>
      obtain ⟨middle, hmiddle, hmiddleSub, hmerged⟩ :=
        @saveThread_row F sub table e.1 e.2 id row hrow hsub (hnew e List.mem_cons_self)
      obtain ⟨row', hrow', hkeep, hforward⟩ :=
        ih hmiddle hmiddleSub fun q hq => hnew q (List.mem_cons_of_mem _ hq)
      refine ⟨row', hrow', ?_, ?_⟩
      · intro hnone
        rw [hkeep fun q hq => hnone q (List.mem_cons_of_mem _ hq), hmerged,
          if_neg (hnone e List.mem_cons_self)]
      · rintro ⟨q, hq, hin⟩
        by_cases hlater : ∃ e ∈ entries, id ∈ e.1.absorb
        · obtain ⟨p, hp, hrest⟩ := hforward hlater
          exact ⟨p, List.mem_cons_of_mem _ hp, hrest⟩
        · have hnone : ∀ e ∈ entries, id ∉ e.1.absorb := fun p hp hbad => hlater ⟨p, hp, hbad⟩
          have hfirst : id ∈ e.1.absorb := by
            rcases List.mem_cons.mp hq with rfl | hq
            · exact hin
            · exact absurd hin (hnone q hq)
          refine ⟨e, List.mem_cons_self, hfirst, ?_⟩
          rw [hkeep hnone, hmerged, if_pos hfirst]

end Saved

/-! ## The pass -/

def ThreadMapping.isNew : ThreadMapping → Bool
  | fresh _ => true
  | keep _ _ | merge _ _ _ => false

/-- What a pass does with the threads of before, and what saving it leaves of them. -/
structure Conserved {F : Type} (prior : List (ThreadRow F)) (mappings : List ThreadMapping)
    (upserts : List (ThreadUpsert F)) : Prop where
  /-- Each thread once: as the thread of one upsert, or in one absorb list. -/
  once : (upserts.flatMap (·.ids)).Perm (prior.map (·.id))
  winners : ∀ u ∈ upserts, ∀ v ∈ upserts, ∀ w, u.id = some w → w ∉ v.absorb
  pinned : ∀ t ∈ prior, t.pinned = true → ∀ u ∈ upserts, t.id ∉ u.absorb
  fresh : upserts.countP (·.id.isNone) = mappings.countP (·.isNew)
  /-- Saved over live rows, the threads that were not absorbed stay live, and those that were are
  forwarded to one that is. -/
  saved : ∀ (sub : Uuid) (table : ThreadTable F) (newIds : List Uuid),
    newIds.length = upserts.length → (∀ id ∈ newIds, id ∉ table) →
    (∀ t ∈ prior, ∃ row, table[t.id]? = some row ∧ row.subscriberId = sub ∧
      row.mergedInto = none) →
    ∀ t ∈ prior, ∃ row, (saveThreads sub upserts newIds table)[t.id]? = some row ∧
      ((∀ u ∈ upserts, t.id ∉ u.absorb) → row.mergedInto = none) ∧
      ∀ u ∈ upserts, t.id ∈ u.absorb → ∃ w live, u.id = some w ∧ row.mergedInto = some w ∧
        (saveThreads sub upserts newIds table)[w]? = some live ∧ live.mergedInto = none

section Pass

variable {F : Type} [SelectScore F] {candidates : List (List String)} {resolution : Resolution}
  {sources : List StorySource} {prior : List (ThreadRow F)} {care : List (ThreadCare F)}
  {since now : DateTime} {cfg : MaintenanceConfig F}

omit [SelectScore F] in
theorem eq_of_shared_id {upserts : List (ThreadUpsert F)} {u v : ThreadUpsert F} {id : Uuid}
    (hnodup : (upserts.flatMap (·.ids)).Nodup) (hu : u ∈ upserts) (hv : v ∈ upserts)
    (hid : id ∈ u.ids) (hid' : id ∈ v.ids) : u = v := by
  induction upserts with
  | nil => cases hu
  | cons first upserts ih =>
      rw [List.flatMap_cons, List.nodup_append] at hnodup
      obtain ⟨_, hrest, hapart⟩ := hnodup
      rcases List.mem_cons.mp hu with rfl | hu₂ <;> rcases List.mem_cons.mp hv with rfl | hv₂
      · rfl
      · exact absurd rfl (hapart id hid id (List.mem_flatMap.mpr ⟨v, hv₂, hid'⟩))
      · exact absurd rfl (hapart id hid' id (List.mem_flatMap.mpr ⟨u, hu₂, hid⟩))
      · exact ih hrest hu₂ hv₂

theorem maintainUpserts_absorb {u : ThreadUpsert F} {id : Uuid}
    (hu : u ∈ maintainUpserts candidates resolution sources prior care since now cfg)
    (hid : id ∈ u.absorb) : (∃ w, u.id = some w) ∧ ∃ t ∈ prior, t.id = id ∧ t.pinned = false := by
  rcases List.mem_append.mp hu with hin | hin
  · obtain ⟨m, hm, rfl⟩ := List.mem_map.mp hin
    obtain ⟨e, he, heid, hpinned⟩ := mapCommunities_absorb hm hid
    obtain ⟨t, ht, rfl⟩ := List.mem_map.mp he
    refine ⟨?_, t, ht, heid, hpinned⟩
    cases m with
    | merge winner merged entities => exact ⟨winner, rfl⟩
    | fresh entities => cases hid
    | keep id entities => cases hid
  · obtain ⟨t, _, rfl⟩ := List.mem_map.mp hin
    cases hid

theorem maintainUpserts_fresh :
    (maintainUpserts candidates resolution sources prior care since now cfg).countP (·.id.isNone) =
      (mapCommunitiesToThreads candidates (prior.map (·.asExisting))
        cfg.matchThreshold).countP (·.isNew) := by
  have hnew : ∀ m : ThreadMapping, m.winner.isNone = m.isNew := by
    intro m
    cases m <;> rfl
  have hcarried : ∀ ts : List (ThreadRow F), ((ts.map fun t => buildUpsert (some t.id) [] t.entities
      (some t) sources resolution (careFor care (some t.id) []) since now cfg).countP
        (·.id.isNone)) = 0 := by
    intro ts
    rw [List.countP_eq_zero]
    intro u hu
    obtain ⟨t, _, rfl⟩ := List.mem_map.mp hu
    simp [buildUpsert]
  unfold maintainUpserts
  dsimp only
  rw [List.countP_append, hcarried, Nat.add_zero, List.countP_map]
  exact List.countP_congr fun m _ => by simp [buildUpsert, hnew]

/-- No thread is lost in a pass, and none is taken twice. -/
theorem pass_conserves_threads (candidates : List (List String)) (resolution : Resolution)
    (sources : List StorySource) (prior : List (ThreadRow F)) (care : List (ThreadCare F))
    (since now : DateTime) (cfg : MaintenanceConfig F) (hids : (prior.map (·.id)).Nodup) :
    Conserved prior
      (mapCommunitiesToThreads candidates (prior.map (·.asExisting)) cfg.matchThreshold)
      (maintainUpserts candidates resolution sources prior care since now cfg) := by
  have honce := @maintainUpserts_ids F _ candidates resolution sources prior care since now cfg hids
  have hnodup := honce.nodup_iff.mpr hids
  generalize hupserts : maintainUpserts candidates resolution sources prior care since now cfg =
    upserts at honce hnodup
  have habsorb : ∀ u ∈ upserts, ∀ id ∈ u.absorb, (∃ w, u.id = some w) ∧
      ∃ t ∈ prior, t.id = id ∧ t.pinned = false := by
    intro u hu id hid
    rw [← hupserts] at hu
    exact maintainUpserts_absorb hu hid
  have hwinners : ∀ u ∈ upserts, ∀ v ∈ upserts, ∀ w, u.id = some w → w ∉ v.absorb := by
    intro u hu v hv w hw hin
    have hown : w ∈ u.ids := by simp [ThreadUpsert.ids, hw]
    have hother : w ∈ v.ids := List.mem_append_right _ hin
    obtain rfl := eq_of_shared_id hnodup hu hv hown hother
    have hself : u.ids.Nodup := (List.nodup_flatMap.mp hnodup).1 u hu
    unfold ThreadUpsert.ids at hself
    rw [hw] at hself
    exact (List.nodup_cons.mp hself).1 hin
  refine { once := honce, winners := hwinners, pinned := ?_, fresh := ?_, saved := ?_ }
  · intro t ht hpinned u hu hin
    obtain ⟨_, t', ht', hid, hfree⟩ := habsorb u hu _ hin
    obtain rfl := List.inj_on_of_nodup_map hids ht' ht hid
    rw [hpinned] at hfree
    cases hfree
  · rw [← hupserts]
    exact maintainUpserts_fresh
  · intro sub table newIds hlen hfresh hlive t ht
    have hrow : ∀ t ∈ prior, ∃ row, (saveThreads sub upserts newIds table)[t.id]? = some row ∧
        ((∀ u ∈ upserts, t.id ∉ u.absorb) → row.mergedInto = none) ∧
        ∀ u ∈ upserts, t.id ∈ u.absorb → row.mergedInto = u.id := by
      intro t ht
      obtain ⟨before, hbefore, hsub, hnone⟩ := hlive t ht
      have hnew : ∀ e ∈ upserts.zip newIds, t.id ≠ e.2 := by
        intro e he heq
        refine hfresh e.2 (List.of_mem_zip he).2 ?_
        rw [← heq, Std.ExtTreeMap.mem_iff_isSome_getElem?, hbefore]
        rfl
      obtain ⟨row, hrow, hkeep, hforward⟩ := foldl_saveThread_row hbefore hsub hnew
      refine ⟨row, hrow, ?_, ?_⟩
      · intro hfree
        rw [hkeep fun e he => hfree e.1 (List.of_mem_zip he).1]
        exact hnone
      · intro u hu hin
        have hfst : (upserts.zip newIds).map (·.1) = upserts := List.map_fst_zip (by omega)
        have hmem := hu
        rw [← hfst] at hmem
        obtain ⟨e, he, rfl⟩ := List.mem_map.mp hmem
        obtain ⟨q, hq, hqin, hmerged⟩ := hforward ⟨e, he, hin⟩
        have hsame : q.1 = e.1 := eq_of_shared_id hnodup (List.of_mem_zip hq).1 hu
          (List.mem_append_right _ hqin) (List.mem_append_right _ hin)
        obtain ⟨⟨w, hw⟩, _⟩ := habsorb e.1 hu _ hin
        rw [hmerged, hsame, hw]
        rfl
    obtain ⟨row, hsaved, hkeep, hforward⟩ := hrow t ht
    refine ⟨row, hsaved, hkeep, ?_⟩
    intro u hu hin
    obtain ⟨⟨w, hw⟩, _⟩ := habsorb u hu _ hin
    have hprior : w ∈ prior.map (·.id) := by
      refine honce.mem_iff.mp (List.mem_flatMap.mpr ⟨u, hu, ?_⟩)
      simp [ThreadUpsert.ids, hw]
    obtain ⟨winner, hwinner, rfl⟩ := List.mem_map.mp hprior
    obtain ⟨live, hliveRow, hstays, _⟩ := hrow winner hwinner
    refine ⟨winner.id, live, hw, (hforward u hu hin).trans hw, hliveRow, ?_⟩
    exact hstays fun v hv => hwinners u hu v hv _ hw

end Pass

/-- Of three threads on one community the oldest takes it, the pinned one stays and the third is
absorbed. -/
theorem pass_conserves_threads_pinned :
    Conserved overlappingThreads
      (mapCommunitiesToThreads twoCommunities (overlappingThreads.map (·.asExisting))
        (MaintenanceConfig.default ℚ).matchThreshold)
      (maintainUpserts twoCommunities {} [] overlappingThreads [] 0 5
        (MaintenanceConfig.default ℚ)) ∧
    (maintainUpserts twoCommunities {} [] overlappingThreads [] 0 5
      (MaintenanceConfig.default ℚ)).map (fun u => (u.id, u.absorb)) =
        [(some 1, [3]), (none, []), (some 2, [])] :=
  ⟨pass_conserves_threads twoCommunities {} [] overlappingThreads [] 0 5
    (MaintenanceConfig.default ℚ) (by decide), by decide +kernel⟩

end Bulletin
