import Bulletin.Digest.Store

/-! # What a digest remembers

`lastShown` keeps, for each story, its newest snapshot within the horizon. That is one
snapshot because a subscriber has one digest per window and a digest shows a story once.
-/

namespace Bulletin

open Buckets

variable {digest : DigestTable} {sub id s : Uuid} {windowEnd now : DateTime} {row : DigestRow}

/-! ## Well-formed tables -/

/-- The digest is one `lastShown` reads for the subscriber's window. -/
def InHorizon (sub : Uuid) (windowEnd : DateTime) (row : DigestRow) : Prop :=
  row.subscriberId = sub ∧ row.windowEnd < windowEnd ∧
    windowEnd - daysInterval contextHorizonDays ≤ row.windowEnd

/-- The keys of the two tables: a digest per window, a story once in a digest. -/
structure DigestsKeyed (digest : DigestTable) : Prop where
  window : ∀ {id id' : Uuid} {row row' : DigestRow}, digest[id]? = some row →
    digest[id']? = some row' →
    row.subscriberId = row'.subscriberId → row.windowEnd = row'.windowEnd → id = id'
  stories : ∀ {id : Uuid} {row : DigestRow}, digest[id]? = some row →
    (row.items.map (·.storyId)).Nodup

theorem digestsKeyed_empty : DigestsKeyed ∅ := by
  constructor
  · intro id id' row row' hrow
    rw [Std.ExtTreeMap.getElem?_empty] at hrow
    cases hrow
  · intro id row hrow
    rw [Std.ExtTreeMap.getElem?_empty] at hrow
    cases hrow

theorem deliver_getElem? (digest : DigestTable) (id k : Uuid) (now : DateTime) :
    (digest.modify id (DigestRow.deliver now))[k]? =
      if id = k then digest[k]?.map (DigestRow.deliver now) else digest[k]? := by
  rw [Std.ExtTreeMap.getElem?_modify]
  by_cases hid : id = k
  · subst hid
    simp
  · simp [hid]

theorem DigestRow.deliver_ne_none (now : DateTime) (row : DigestRow) :
    (row.deliver now).deliveredAt ≠ none := by
  unfold DigestRow.deliver
  cases row.deliveredAt with
  | none => exact Option.some_ne_none now
  | some t => exact Option.some_ne_none t

theorem deliver_row (h : (digest.modify id (DigestRow.deliver now))[s]? = some row) :
    ∃ old, digest[s]? = some old ∧ row.subscriberId = old.subscriberId ∧
      row.windowEnd = old.windowEnd ∧ row.items = old.items := by
  rw [deliver_getElem?] at h
  by_cases hid : id = s
  · rw [if_pos hid, Option.map_eq_some_iff] at h
    obtain ⟨old, hold, rfl⟩ := h
    exact ⟨old, hold, rfl, rfl, rfl⟩
  · rw [if_neg hid] at h
    exact ⟨row, h, rfl, rfl, rfl⟩

theorem DigestsKeyed.deliver (h : DigestsKeyed digest) (id : Uuid) (now : DateTime) :
    DigestsKeyed (digest.modify id (DigestRow.deliver now)) := by
  constructor
  · intro id₁ id₂ row₁ row₂ h₁ h₂ hsub hend
    obtain ⟨old₁, hold₁, hs₁, he₁, _⟩ := deliver_row h₁
    obtain ⟨old₂, hold₂, hs₂, he₂, _⟩ := deliver_row h₂
    exact h.window hold₁ hold₂ (hs₁.symm.trans (hsub.trans hs₂)) (he₁.symm.trans (hend.trans he₂))
  · intro id' row hrow
    obtain ⟨old, hold, _, _, hitems⟩ := deliver_row hrow
    rw [hitems]
    exact h.stories hold

theorem findDigest_eq_some {entry : Uuid × DigestRow}
    (h : findDigest digest sub windowEnd = some entry) :
    digest[entry.1]? = some entry.2 ∧ entry.2.subscriberId = sub ∧
      entry.2.windowEnd = windowEnd := by
  unfold findDigest at h
  have hmem := List.mem_of_find?_eq_some h
  have hkey := List.find?_some h
  rw [decide_eq_true_eq] at hkey
  exact ⟨Std.ExtTreeMap.mem_toList_iff_getElem?_eq_some.mp hmem, hkey⟩

theorem findDigest_eq_none (h : findDigest digest sub windowEnd = none)
    (hrow : digest[id]? = some row)
    (hsub : row.subscriberId = sub) : row.windowEnd ≠ windowEnd := by
  intro hend
  have hnone := List.find?_eq_none.mp h (id, row) (Std.ExtTreeMap.mem_toList_iff_getElem?_eq_some.mpr hrow)
  simp [hsub, hend] at hnone

def newDigest (sub : Uuid) (windowEnd : DateTime) (items : List FrozenItem) : DigestRow where
  subscriberId := sub
  windowEnd := windowEnd
  deliveredAt := none
  items := items.zipIdx.map fun item => item.1.row item.2

theorem newDigest_stories (items : List FrozenItem) :
    (newDigest sub windowEnd items).items.map (·.storyId) = items.map (·.storyId) := by
  show (items.zipIdx.map fun item => item.1.row item.2).map (·.storyId) = _
  rw [List.map_map, ← List.zipIdx_map_fst 0 items, List.map_map, List.zipIdx_map_fst]
  rfl

theorem createWithItems_getElem? {items : List FrozenItem} :
    (createWithItems digest id sub windowEnd items)[s]? =
      if findDigest digest sub windowEnd = none ∧ id = s then some (newDigest sub windowEnd items)
      else digest[s]? := by
  unfold createWithItems
  cases hfind : findDigest digest sub windowEnd with
  | some entry => simp
  | none =>
      by_cases hid : id = s
      · subst hid
        simp [newDigest]
      · rw [if_neg (by simp [hid])]
        show (digest.insert id _)[s]? = _
        rw [Std.ExtTreeMap.getElem?_insert, if_neg (by simpa using hid)]

theorem createWithItems_row {items : List FrozenItem}
    (h : (createWithItems digest id sub windowEnd items)[s]? = some row) :
    digest[s]? = some row ∨ s = id ∧ findDigest digest sub windowEnd = none ∧
      row = newDigest sub windowEnd items := by
  rw [createWithItems_getElem?] at h
  by_cases hnew : findDigest digest sub windowEnd = none ∧ id = s
  · rw [if_pos hnew] at h
    exact Or.inr ⟨hnew.2.symm, hnew.1, (Option.some.inj h).symm⟩
  · rw [if_neg hnew] at h
    exact Or.inl h

theorem DigestsKeyed.create (h : DigestsKeyed digest) {items : List FrozenItem}
    (hitems : (items.map (·.storyId)).Nodup) :
    DigestsKeyed (createWithItems digest id sub windowEnd items) := by
  constructor
  · intro id₁ id₂ row₁ row₂ h₁ h₂ hsub hend
    rcases createWithItems_row h₁ with hold₁ | ⟨rfl, hfind, rfl⟩
    · rcases createWithItems_row h₂ with hold₂ | ⟨rfl, hfind, rfl⟩
      · exact h.window hold₁ hold₂ hsub hend
      · exact absurd hend (findDigest_eq_none hfind hold₁ hsub)
    · rcases createWithItems_row h₂ with hold₂ | ⟨rfl, _, rfl⟩
      · exact absurd hend.symm (findDigest_eq_none hfind hold₂ hsub.symm)
      · rfl
  · intro id' row hrow
    rcases createWithItems_row hrow with hold | ⟨_, _, rfl⟩
    · exact h.stories hold
    · rw [newDigest_stories]
      exact hitems

/-! ## The newest snapshot -/

/-- `sh` is the snapshot of the story in the newest digest of the horizon that has one. -/
def NewestSnapshot (digest : DigestTable) (sub : Uuid) (windowEnd : DateTime) (s : Uuid)
    (sh : Shown) : Prop :=
  ∃ (id : Uuid) (row : DigestRow), digest[id]? = some row ∧ InHorizon sub windowEnd row ∧
    (∃ item ∈ row.items, item.storyId = s ∧ item.shown = some sh) ∧
    ∀ (id' : Uuid) (row' : DigestRow) item', digest[id']? = some row' →
      InHorizon sub windowEnd row' → item' ∈ row'.items →
      item'.storyId = s → item'.shown ≠ none → row'.windowEnd ≤ row.windowEnd

theorem mem_shownDigests :
    row ∈ shownDigests digest sub windowEnd contextHorizonDays ↔
      InHorizon sub windowEnd row ∧ ∃ id : Uuid, digest[id]? = some row := by
  unfold shownDigests
  rw [List.mem_insertionSort, List.mem_filter, decide_eq_true_eq, List.mem_map, and_comm]
  apply and_congr Iff.rfl
  constructor
  · intro h
    obtain ⟨entry, hentry, rfl⟩ := h
    exact ⟨entry.1, Std.ExtTreeMap.mem_toList_iff_getElem?_eq_some.mp hentry⟩
  · intro h
    obtain ⟨id, hid⟩ := h
    exact ⟨(id, row), Std.ExtTreeMap.mem_toList_iff_getElem?_eq_some.mpr hid, rfl⟩

def DigestRow.snapshotsOf (row : DigestRow) (s : Uuid) : List (Uuid × Shown) :=
  (row.items.filterMap fun item => item.shown.map fun sh => (item.storyId, sh)).filter fun entry =>
    entry.1 = s

theorem mem_snapshotsOf {entry : Uuid × Shown} :
    entry ∈ row.snapshotsOf s ↔
      entry.1 = s ∧ ∃ item ∈ row.items, item.storyId = s ∧ item.shown = some entry.2 := by
  unfold DigestRow.snapshotsOf
  rw [List.mem_filter, decide_eq_true_eq, List.mem_filterMap, and_comm]
  apply and_congr_right
  intro hs
  subst hs
  constructor
  · intro h
    obtain ⟨item, hitem, hsome⟩ := h
    obtain ⟨sh, hsh, rfl⟩ := Option.map_eq_some_iff.mp hsome
    exact ⟨item, hitem, rfl, hsh⟩
  · intro h
    obtain ⟨item, hitem, hid, hsh⟩ := h
    exact ⟨item, hitem, by rw [hsh, hid]; rfl⟩

theorem lastShown_getElem? (digest : DigestTable) (sub : Uuid) (windowEnd : DateTime) (s : Uuid) :
    (lastShown digest sub windowEnd contextHorizonDays)[s]? =
      (((shownDigests digest sub windowEnd contextHorizonDays).flatMap
        (·.snapshotsOf s)).getLast?).map Prod.snd := by
  unfold lastShown
  rw [collect_getElem?, Std.ExtTreeMap.getElem?_empty, gather_overwrite]
  unfold snapshots
  rw [List.filter_flatMap]
  rfl

theorem shownDigests_sorted (digest : DigestTable) (sub : Uuid) (windowEnd : DateTime) :
    (shownDigests digest sub windowEnd contextHorizonDays).Pairwise fun x y =>
      x.windowEnd ≤ y.windowEnd := by
  have htotal : Std.Total fun x y : DigestRow => x.windowEnd ≤ y.windowEnd :=
    ⟨fun _ _ => Int.le_total _ _⟩
  have htrans : IsTrans DigestRow fun x y => x.windowEnd ≤ y.windowEnd :=
    ⟨fun _ _ _ => Int.le_trans⟩
  exact List.pairwise_insertionSort (fun x y : DigestRow => x.windowEnd ≤ y.windowEnd) _

/-- What `lastShown` returns is a newest snapshot: the last digest of the sorted list that shows the
story is the newest one that does. -/
theorem newest_of_lastShown {sh : Shown}
    (h : (lastShown digest sub windowEnd contextHorizonDays)[s]? = some sh) :
    NewestSnapshot digest sub windowEnd s sh := by
  rw [lastShown_getElem?, Option.map_eq_some_iff] at h
  obtain ⟨entry, hentry, rfl⟩ := h
  obtain ⟨pre, row, post, heq, hrow, hpost⟩ := getLast?_flatMap hentry
  obtain ⟨_, hitem⟩ := mem_snapshotsOf.mp (List.mem_of_getLast? hrow)
  have hsorted := shownDigests_sorted digest sub windowEnd
  rw [heq] at hsorted
  obtain ⟨hin, id, hid⟩ := mem_shownDigests.mp (heq ▸ List.mem_append_right _ List.mem_cons_self)
  refine ⟨id, row, hid, hin, hitem, ?_⟩
  intro id' row' item' hid' hin' hitem' hs' hshown
  obtain ⟨sh', hsh'⟩ := Option.ne_none_iff_exists'.mp hshown
  have hmem := heq ▸ mem_shownDigests.mpr ⟨hin', id', hid'⟩
  rcases List.mem_append.mp hmem with hpre | hmem
  · exact (List.pairwise_append.mp hsorted).2.2 row' hpre row List.mem_cons_self
  rcases List.mem_cons.mp hmem with rfl | hmem
  · exact Int.le_refl _
  · have hnil := hpost row' hmem
    have hin' : (s, sh') ∈ row'.snapshotsOf s := mem_snapshotsOf.mpr ⟨rfl, item', hitem', hs', hsh'⟩
    rw [hnil] at hin'
    cases hin'

theorem lastShown_eq_some_iff (hkeyed : DigestsKeyed digest) {sh : Shown} :
    (lastShown digest sub windowEnd contextHorizonDays)[s]? = some sh ↔
      NewestSnapshot digest sub windowEnd s sh := by
  constructor
  · exact newest_of_lastShown
  · intro h
    obtain ⟨id, row, hid, hin, ⟨item, hitem, hs, hsh⟩, hnewest⟩ := h
    have hmem : (s, sh) ∈ (shownDigests digest sub windowEnd contextHorizonDays).flatMap
        (·.snapshotsOf s) :=
      List.mem_flatMap.mpr ⟨row, mem_shownDigests.mpr ⟨hin, id, hid⟩,
        mem_snapshotsOf.mpr ⟨rfl, item, hitem, hs, hsh⟩⟩
    cases hget : (lastShown digest sub windowEnd contextHorizonDays)[s]? with
    | none =>
        rw [lastShown_getElem?, Option.map_eq_none_iff, List.getLast?_eq_none_iff] at hget
        rw [hget] at hmem
        cases hmem
    | some sh' =>
        obtain ⟨id', row', hid', hin', ⟨item', hitem', hs', hsh'⟩, hnewest'⟩ :=
          newest_of_lastShown hget
        -- both are newest, so they are one digest, and it shows the story once
        have hle := hnewest id' row' item' hid' hin' hitem' hs' (by rw [hsh']; simp)
        have hge := hnewest' id row item hid hin hitem hs (by rw [hsh]; simp)
        obtain rfl := hkeyed.window hid hid' (hin.1.trans hin'.1.symm) (Int.le_antisymm hge hle)
        obtain rfl := Option.some.inj (hid.symm.trans hid')
        obtain rfl := List.inj_on_of_nodup_map (hkeyed.stories hid) hitem hitem' (hs.trans hs'.symm)
        rw [← hsh, hsh']

end Bulletin
