import Bulletin.Digest.Contract
import Bulletin.System.Resurface

/-! # A story shown again and again

Each digest freezes the format a story has by richness alone, whatever it rendered it as. So at the
fires after it a story without news is damped every time, and only news or a growth from note to
story undamps it.
-/

namespace Bulletin

/-! ## Digests delivered one after the other -/

/-- A digest that was fired, frozen and delivered. -/
structure Delivery (F : Type) where
  id : Uuid
  fire : Fire F
  recompute : Recompute F
  deliveredAt : DateTime

section Deliveries

variable {F : Type} [SelectScore F]

def Delivery.apply (d : Delivery F) (digest : DigestTable) : DigestTable :=
  (createWithItems digest d.id d.recompute.subscriber d.fire.windowEnd
    (d.fire.items d.recompute digest)).modify d.id (DigestRow.deliver d.deliveredAt)

/-- The next digest of a subscriber: its window was set past the time of the delivery before it. -/
structure NextDelivery (sub : Uuid) (digest : DigestTable) (d : Delivery F)
    (digest' : DigestTable) :
    Prop where
  subscriber : d.recompute.subscriber = sub
  fresh : d.id ∉ digest
  later : ∀ entry ∈ digest.toList, entry.2.windowEnd < d.fire.windowEnd
  stories : (d.recompute.assignment.stories.map (·.id)).Nodup
  applied : digest' = d.apply digest

abbrev DeliveryRuns (sub : Uuid) : List (Run.Transition DigestTable (Delivery F)) → DigestTable →
    Prop := Run.Runs (NextDelivery sub) ∅

/-- The digest shows the story, in whatever format. -/
def ShowsStory (t : Run.Transition DigestTable (Delivery F)) (story : LinkedStory) : Prop :=
  story ∈ t.action.recompute.assignment.stories ∧
    ∃ d ∈ t.action.fire.linkAndSelect t.action.recompute t.before, d.id = story.id ∧
      d.isSelected = true

def ShowsUnder (s : Uuid) (t : Run.Transition DigestTable (Delivery F)) : Prop :=
  ∃ story, ShowsStory t story ∧ story.id = s

/-- The story is ranked as a note with its priority damped once, within the budget for such. -/
def Damped (t : Run.Transition DigestTable (Delivery F)) (story : LinkedStory) : Prop :=
  t.action.fire.TreatsAsShown t.action.recompute t.before story

def RemembersDigest (t u : Run.Transition DigestTable (Delivery F)) : Prop :=
  t.action.fire.windowEnd - daysInterval contextHorizonDays ≤ u.action.fire.windowEnd

/-- Nothing about the story changed that selection looks at. -/
structure SameRollups (old story : LinkedStory) : Prop where
  lastEventTime : story.lastEventTime = old.lastEventTime
  eventCount : story.eventCount = old.eventCount
  sourceDiversity : story.sourceDiversity = old.sourceDiversity
  contentDepth : story.contentDepth = old.contentDepth

/-- Over a run, damping goes with news and growth alone. -/
structure NoOscillation (ts : List (Run.Transition DigestTable (Delivery F))) : Prop where
  /-- A story shown undamped has news or has grown since it was shown last. -/
  fresh : ∀ pre t post, ts = pre ++ t :: post → ∀ story, ShowsStory t story → ¬ Damped t story →
    ∀ u old, Run.LastOf (ShowsUnder story.id) pre u → RemembersDigest t u → ShowsStory u old →
      old.id = story.id → old.lastEventTime < story.lastEventTime ∨
        (Fire.storyRichness old = .note ∧ Fire.storyRichness story = .story)
  /-- A story without changes since it was shown is damped at every fire that ranks it. -/
  damped : ∀ pre u mid t post, ts = pre ++ u :: mid ++ t :: post → ∀ old story, ShowsStory u old →
    RemembersDigest t u → story ∈ t.action.recompute.assignment.stories → story.id = old.id →
      Passes t.action.fire.cfg t.action.fire.displayFloor
        (t.action.fire.candidateOf t.action.recompute t.before story) →
      (∀ v ∈ mid, ∀ between ∈ v.action.recompute.assignment.stories, between.id = old.id →
        SameRollups old between) →
      SameRollups old story → Damped t story

/-! ## The rows of a run -/

/-- The row is that of the digest: its window, and its selection with the formats by richness. -/
structure RowOf (sub : Uuid) (t : Run.Transition DigestTable (Delivery F)) (row : DigestRow) :
    Prop where
  subscriber : row.subscriberId = sub
  windowEnd : row.windowEnd = t.action.fire.windowEnd
  items : row.items = (newDigest sub t.action.fire.windowEnd
    (t.action.fire.items t.action.recompute t.before)).items

variable {sub : Uuid} {ts : List (Run.Transition DigestTable (Delivery F))}
  {digest digest' : DigestTable} {d : Delivery F}

theorem NextDelivery.getElem? (h : NextDelivery sub digest d digest') (id : Uuid) :
    digest'[id]? = if d.id = id then some ((newDigest sub d.fire.windowEnd
      (d.fire.items d.recompute digest)).deliver d.deliveredAt) else digest[id]? := by
  have hnew : findDigest digest sub d.fire.windowEnd = none := by
    unfold findDigest
    rw [List.find?_eq_none]
    intro entry hentry
    simp [(h.later entry hentry).ne]
  rw [h.applied]
  unfold Delivery.apply
  rw [deliver_getElem?, createWithItems_getElem?, h.subscriber, hnew]
  by_cases hid : d.id = id
  · simp [hid]
  · simp [hid]

/-- The rows of the table are those of the digests delivered, with windows one after the other. -/
structure RowsOfRun (sub : Uuid) (ts : List (Run.Transition DigestTable (Delivery F)))
    (digest : DigestTable) : Prop where
  keyed : DigestsKeyed digest
  rows : ∀ {id : Uuid} {row : DigestRow}, digest[id]? = some row → ∃ t ∈ ts, RowOf sub t row
  kept : ∀ t ∈ ts, ∃ (id : Uuid) (row : DigestRow), digest[id]? = some row ∧ RowOf sub t row
  ordered : ts.Pairwise fun t u => t.action.fire.windowEnd < u.action.fire.windowEnd

theorem NextDelivery.items_nodup (h : NextDelivery sub digest d digest') :
    ((d.fire.items d.recompute digest).map (·.storyId)).Nodup := by
  have hids := @select_ids F _ (d.fire.candidates d.recompute digest) d.fire.cfg d.fire.maxItems
    d.fire.now d.fire.displayFloor
  have hnodup : ((d.fire.candidates d.recompute digest).map (·.id)).Nodup := by
    rw [Fire.candidates_eq, List.map_map]
    exact h.stories
  have hdecisions := hids.nodup_iff.mpr hnodup
  unfold Fire.items frozenItems
  rw [List.map_map]
  exact hdecisions.sublist (List.filter_sublist.map _)

theorem NextDelivery.rowsOfRun (h : NextDelivery sub digest d digest')
    (hrows : RowsOfRun sub ts digest) : RowsOfRun sub (ts ++ [⟨digest, d, digest'⟩]) digest' where
  keyed := by
    rw [h.applied]
    exact (hrows.keyed.create h.items_nodup).deliver _ _
  rows := by
    intro id row hrow
    rw [h.getElem?] at hrow
    by_cases hid : d.id = id
    · rw [if_pos hid] at hrow
      obtain rfl := Option.some.inj hrow
      exact ⟨_, List.mem_append_right _ List.mem_cons_self, rfl, rfl, rfl⟩
    · rw [if_neg hid] at hrow
      obtain ⟨t, ht, hof⟩ := hrows.rows hrow
      exact ⟨t, List.mem_append_left _ ht, hof⟩
  kept := by
    intro t ht
    rcases List.mem_append.mp ht with hold | hlast
    · obtain ⟨id, row, hrow, hof⟩ := hrows.kept t hold
      refine ⟨id, row, ?_, hof⟩
      have hne : d.id ≠ id := by
        rintro rfl
        refine h.fresh ?_
        rw [Std.ExtTreeMap.mem_iff_isSome_getElem?, hrow]
        rfl
      rw [h.getElem?, if_neg hne, hrow]
    · obtain rfl := List.mem_singleton.mp hlast
      refine ⟨d.id, (newDigest sub d.fire.windowEnd (d.fire.items d.recompute digest)).deliver
        d.deliveredAt, ?_, rfl, rfl, rfl⟩
      rw [h.getElem?, if_pos rfl]
  ordered := by
    refine List.pairwise_append.mpr ⟨hrows.ordered, List.pairwise_singleton _ _, ?_⟩
    intro t ht u hu
    obtain rfl := List.mem_singleton.mp hu
    obtain ⟨id, row, hrow, hof⟩ := hrows.kept t ht
    rw [← hof.windowEnd]
    exact h.later (id, row) (Std.ExtTreeMap.mem_toList_iff_getElem?_eq_some.mpr hrow)

theorem DeliveryRuns.rowsOfRun (h : DeliveryRuns sub ts digest) : RowsOfRun sub ts digest := by
  refine Run.Runs.invariant h (RowsOfRun sub) ?_ ?_
  · exact ⟨digestsKeyed_empty, by simp, by simp, List.Pairwise.nil⟩
  · intro pre t post _ _ hstep hrows
    exact hstep.rowsOfRun hrows

/-! ## What a digest remembers of a story it showed -/

omit [SelectScore F] in
theorem newDigest_shown {windowEnd : DateTime} {items : List FrozenItem} {s : Uuid} {sh : Shown} :
    (∃ item ∈ (newDigest sub windowEnd items).items, item.storyId = s ∧ item.shown = some sh) ↔
      ∃ frozen ∈ items, frozen.storyId = s ∧
        (⟨frozen.lastEventTime, frozen.format⟩ : Shown) = sh := by
  constructor
  · rintro ⟨item, hitem, hs, hsh⟩
    obtain ⟨entry, hentry, rfl⟩ := List.mem_map.mp hitem
    exact ⟨entry.1, (List.mem_zipIdx' hentry).2 ▸ List.getElem_mem _, hs, Option.some.inj hsh⟩
  · rintro ⟨frozen, hfrozen, hs, rfl⟩
    obtain ⟨k, hk, rfl⟩ := List.getElem_of_mem hfrozen
    refine ⟨items[k].row k, List.mem_map.mpr ⟨(items[k], k), ?_, rfl⟩, hs, rfl⟩
    exact List.mk_mem_zipIdx_iff_getElem?.mpr (List.getElem?_eq_getElem hk)

variable {t u : Run.Transition DigestTable (Delivery F)} {story old : LinkedStory} {row : DigestRow}

/-- A story that is shown passed the gates, and its decision is that of its candidate. -/
theorem decided_of_showsStory (hids : (t.action.recompute.assignment.stories.map (·.id)).Nodup)
    (h : ShowsStory t story) :
    Passes t.action.fire.cfg t.action.fire.displayFloor
        (t.action.fire.candidateOf t.action.recompute t.before story) ∧
      ∃ v, ((gatedOf (t.action.fire.candidateOf t.action.recompute t.before story) t.action.fire.cfg
          t.action.fire.now).intoDecision v : Decision F) ∈
            t.action.fire.linkAndSelect t.action.recompute t.before ∧
        ((gatedOf (t.action.fire.candidateOf t.action.recompute t.before story) t.action.fire.cfg
          t.action.fire.now).intoDecision v : Decision F).isSelected = true := by
  obtain ⟨hstory, d, hd, hid, hselected⟩ := h
  obtain ⟨c, hc, hgate⟩ := mem_select hd
  rw [Fire.candidates_eq] at hc
  obtain ⟨other, hother, rfl⟩ := List.mem_map.mp hc
  rcases hgate with hgate | ⟨hgate, v, rfl⟩
  · obtain ⟨cause, rfl⟩ := gate_eq_inl hgate
    cases hselected
  · obtain rfl := List.inj_on_of_nodup_map hids hother hstory hid
    refine ⟨?_, v, hd, hselected⟩
    by_contra hnot
    obtain ⟨cause, hdropped⟩ := @gate_of_not_passes F _ _ t.action.fire.now _ _ hnot
    rw [hdropped] at hgate
    cases hgate

/-- A digest freezes the time and the richness of each story it shows, and of no other. -/
theorem item_iff (hids : (t.action.recompute.assignment.stories.map (·.id)).Nodup)
    (hrow : RowOf sub t row) {s : Uuid} {sh : Shown} :
    (∃ item ∈ row.items, item.storyId = s ∧ item.shown = some sh) ↔
      ∃ story, ShowsStory t story ∧ story.id = s ∧
        (⟨story.lastEventTime, Fire.storyRichness story⟩ : Shown) = sh := by
  rw [hrow.items, newDigest_shown]
  constructor
  · rintro ⟨frozen, hfrozen, rfl, rfl⟩
    obtain ⟨d, hd, rfl⟩ := List.mem_map.mp hfrozen
    obtain ⟨hin, hselected⟩ := List.mem_filter.mp hd
    obtain ⟨c, hc, hgate⟩ := mem_select hin
    rw [Fire.candidates_eq] at hc
    obtain ⟨story, hstory, rfl⟩ := List.mem_map.mp hc
    rcases hgate with hgate | ⟨_, v, rfl⟩
    · obtain ⟨cause, rfl⟩ := gate_eq_inl hgate
      cases hselected
    · exact ⟨story, ⟨hstory, _, hin, rfl, hselected⟩, rfl, rfl⟩
  · rintro ⟨story, hshows, rfl, rfl⟩
    obtain ⟨_, v, hd, hselected⟩ := decided_of_showsStory hids hshows
    exact ⟨_, List.mem_map_of_mem (List.mem_filter.mpr ⟨hd, hselected⟩), rfl, rfl⟩

/-! ## One fire after others -/

variable {pre : List (Run.Transition DigestTable (Delivery F))}

theorem DeliveryRuns.newest (h : DeliveryRuns sub pre digest) {windowEnd : DateTime}
    (hlast : Run.LastOf (ShowsUnder old.id) pre u) (hold : ShowsStory u old)
    (hbefore : u.action.fire.windowEnd < windowEnd)
    (hin : windowEnd - daysInterval contextHorizonDays ≤ u.action.fire.windowEnd) :
    NewestSnapshot digest sub windowEnd old.id
      ⟨old.lastEventTime, Fire.storyRichness old⟩ := by
  have hrows := h.rowsOfRun
  have hids : ∀ t ∈ pre, (t.action.recompute.assignment.stories.map (·.id)).Nodup :=
    fun t ht => (h.step_of_mem ht).stories
  obtain ⟨id, row, hrow, hof⟩ := hrows.kept u hlast.mem
  refine ⟨id, row, hrow, ⟨hof.subscriber, ?_, ?_⟩, ?_, ?_⟩
  · rw [hof.windowEnd]
    exact hbefore
  · rw [hof.windowEnd]
    exact hin
  · exact (item_iff (hids u hlast.mem) hof).mpr ⟨old, hold, rfl, rfl⟩
  · intro id' row' item' hrow' _ hitem' hs hshown
    obtain ⟨t, ht, hof'⟩ := hrows.rows hrow'
    obtain ⟨sh, hsh⟩ := Option.ne_none_iff_exists'.mp hshown
    obtain ⟨story, hshows, hid, _⟩ := (item_iff (hids t ht) hof').mp ⟨item', hitem', hs, hsh⟩
    rw [hof.windowEnd, hof'.windowEnd]
    obtain ⟨first, later, rfl, _, hlater⟩ := hlast
    obtain ⟨_, _, hordered⟩ := List.pairwise_append.mp hrows.ordered
    rcases List.mem_append.mp ht with hfirst | ht
    · exact (hordered t hfirst u List.mem_cons_self).le
    rcases List.mem_cons.mp ht with rfl | hin'
    · exact le_rfl
    · exact absurd ⟨story, hshows, hid⟩ (hlater t hin')

/-- A fire damps a story exactly when it has no news since it was shown last and did not grow. -/
theorem DeliveryRuns.damped_iff (h : DeliveryRuns sub pre t.before)
    (hstep : NextDelivery sub t.before t.action t.after)
    (hlast : Run.LastOf (ShowsUnder old.id) pre u) (hold : ShowsStory u old)
    (hin : RemembersDigest t u) (hstory : story ∈ t.action.recompute.assignment.stories)
    (hid : story.id = old.id)
    (hpasses : Passes t.action.fire.cfg t.action.fire.displayFloor
      (t.action.fire.candidateOf t.action.recompute t.before story)) :
    Damped t story ↔ story.lastEventTime ≤ old.lastEventTime ∧
      ¬ (Fire.storyRichness old = .note ∧ Fire.storyRichness story = .story) := by
  obtain ⟨id, row, hrow, hof⟩ := h.rowsOfRun.kept u hlast.mem
  have hbefore := hstep.later (id, row) (Std.ExtTreeMap.mem_toList_iff_getElem?_eq_some.mpr hrow)
  rw [hof.windowEnd] at hbefore
  have hnewest := h.newest hlast hold hbefore hin
  have hshown := (lastShown_eq_some_iff h.rowsOfRun.keyed).mpr hnewest
  unfold Damped
  rw [Fire.treatsAsShown_iff hstep.stories hstory hpasses, Candidate.stale_iff]
  simp only [Fire.candidateOf_lastShown, Fire.candidateOf_lastEventTime, Fire.candidateOf_richness,
    hstep.subscriber, hid, hshown, Option.some.injEq, exists_eq_left']

omit [SelectScore F] in
theorem SameRollups.richness (h : SameRollups old story) :
    Fire.storyRichness story = Fire.storyRichness old := by
  unfold Fire.storyRichness
  rw [h.sourceDiversity, h.eventCount, h.contentDepth]

/-! ## A whole run -/

/-- Stories do not oscillate: a story is shown undamped again only with news or once it has grown,
and without either each later fire damps it, whatever the fires between did with it. -/
theorem no_resurface_oscillation (h : DeliveryRuns sub ts digest) : NoOscillation ts where
  fresh := by
    rintro pre t post rfl story hshows hfull u old hlast hin hold hid
    obtain ⟨_, hpre, hstep⟩ := h.upto.last
    obtain ⟨hpasses, _⟩ := decided_of_showsStory hstep.stories hshows
    rw [← hid] at hlast
    by_contra hsame
    obtain ⟨htime, hformat⟩ := not_or.mp hsame
    refine hfull ((DeliveryRuns.damped_iff hpre hstep hlast hold hin hshows.1 hid.symm hpasses).mpr ?_)
    exact ⟨not_lt.mp htime, hformat⟩
  damped := by
    rintro pre u mid t post rfl old story hold hin hstory hid hpasses hbetween hsame
    obtain ⟨_, hpre, hstep⟩ := h.upto.last
    -- the digest that showed the story last is `u` or one after it, and has the same rollups
    obtain ⟨v, hv⟩ := Run.exists_lastOf (P := ShowsUnder old.id) ⟨u, List.mem_cons_self (l := mid),
      old, hold, rfl⟩
    obtain ⟨shown, hshows, hshownId⟩ := hv.holds
    have hrollups : SameRollups old shown := by
      rcases List.mem_cons.mp hv.mem with rfl | hmid
      · have hids := (hpre.step_of_mem (List.mem_append_right _ hv.mem)).stories
        obtain rfl := List.inj_on_of_nodup_map hids hshows.1 hold.1 hshownId
        exact ⟨rfl, rfl, rfl, rfl⟩
      · exact hbetween v hmid shown hshows.1 hshownId
    have hremembered : RemembersDigest t v := by
      rcases List.mem_cons.mp hv.mem with rfl | hmid
      · exact hin
      · obtain ⟨_, hordered, _⟩ := List.pairwise_append.mp (DeliveryRuns.rowsOfRun hpre).ordered
        exact hin.trans (List.rel_of_pairwise_cons hordered hmid).le
    have hlast : Run.LastOf (ShowsUnder shown.id) (pre ++ u :: mid) v := by
      obtain ⟨first, later, heq, hshown, hlater⟩ := hv
      rw [hshownId]
      exact ⟨pre ++ first, later, by rw [heq, List.append_assoc], hshown, hlater⟩
    refine (DeliveryRuns.damped_iff hpre hstep hlast hshows hremembered hstory
      (hid.trans hshownId.symm) hpasses).mpr ⟨?_, ?_⟩
    · rw [hsame.lastEventTime, hrollups.lastEventTime]
    · rw [hsame.richness, hrollups.richness]
      rintro ⟨hnote, hstoryFormat⟩
      cases hnote.symm.trans hstoryFormat

end Deliveries

/-! ## A story shown in two digests -/

def steadyDelivery : Delivery ℚ := ⟨500, Fire.plain ℚ 0, steadyFirst, 0⟩

def steadyDigests : DigestTable := steadyDelivery.apply ∅

def steadyAgain : Delivery ℚ := ⟨600, Fire.plain ℚ 172800000000, steadySecond, 172800000000⟩

theorem no_resurface_oscillation_steady :
    NoOscillation [⟨∅, steadyDelivery, steadyDigests⟩,
      ⟨steadyDigests, steadyAgain, steadyAgain.apply steadyDigests⟩] := by
  have first : NextDelivery 7 ∅ steadyDelivery steadyDigests :=
    ⟨rfl, by simp, by simp, by decide +kernel, rfl⟩
  have again : NextDelivery 7 steadyDigests steadyAgain (steadyAgain.apply steadyDigests) :=
    ⟨rfl, by decide +kernel, by decide +kernel, by decide +kernel, rfl⟩
  exact no_resurface_oscillation (Run.Runs.snoc (Run.Runs.snoc Run.Runs.nil first) again)

end Bulletin
