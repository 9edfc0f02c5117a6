import Bulletin.System.Builds

/-! # Events behind the build watermark

A build moves the watermark of its scope past every event of its range. It has read them
all exactly when none of them commits behind its back.
-/

namespace Bulletin

open Run

variable {s s' : Content} {act : ContentAction}
  {ts pre : List (Run.Transition Content ContentAction)}
  {scope : Scope} {key : GroupKey} {id : Uuid}

/-! ## What builds do in a run -/

def Commits (t : Run.Transition Content ContentAction) (scope : Scope) (b : Build) : Prop :=
  t.action = .commitBuild scope ∧ t.before.build scope = some b

def WritesCluster (t : Run.Transition Content ContentAction) (key : GroupKey)
    (events : List Event) : Prop :=
  ∃ b, Commits t key.scope b ∧ b.rows key = some events

/-- An event of the group with this id was among the events its cluster was last written from, and
the row is their rollup, but for a depth that a fetched article raised. -/
def Folded (ts : List (Run.Transition Content ContentAction)) (s : Content)
    (x : EventStamp) : Prop :=
  ∃ t events r row, LastOf (fun t => ∃ events, WritesCluster t x.key events) ts t ∧
    WritesCluster t x.key events ∧ x.id ∈ events.map (·.id) ∧ rollup events = some r ∧
    s.cluster x.key = some row ∧ row.rollup = { r with contentDepth := row.rollup.contentDepth }

/-- Every build has read the events it moves the watermark past. -/
def SeesWhatItPasses (ts : List (Run.Transition Content ContentAction)) (s : Content) : Prop :=
  ∀ t ∈ ts, ∀ scope b, Commits t scope b → ∀ x ∈ s.stamps, x.key.scope = scope →
    b.lo < x.ingestTime → x.ingestTime ≤ b.hwm → ∃ events, b.rows x.key = some events ∧
      x.id ∈ events.map (·.id)

/-- Every event behind the watermark of its scope is in the cluster of its group. -/
def NothingLost (ts : List (Run.Transition Content ContentAction)) (s : Content) : Prop :=
  ∀ x ∈ s.stamps, x.ingestTime ≤ s.builtThrough x.key.scope → Folded ts s x

/-- A build whose range reaches past every event of its scope leaves all of them in their
clusters. -/
def FurtherBuildFolds (ts : List (Run.Transition Content ContentAction)) (s : Content) : Prop :=
  ∀ t ∈ ts, ∀ scope b, Commits t scope b →
    (∀ x ∈ s.stamps, x.key.scope = scope → x.ingestTime ≤ b.hwm) →
    ∀ x ∈ s.stamps, x.key.scope = scope → Folded ts s x

/-- No ingest transaction commits with a start that the watermark of its scope has passed, nor one
that a build of the scope is about to pass and will not read any more. -/
def CommitsInTime (ts : List (Run.Transition Content ContentAction)) : Prop :=
  ∀ t ∈ ts, ∀ tx, Inserts t.before t.action tx →
    t.before.builtThrough tx.event.key.scope < tx.started ∧
      ∀ b left, t.before.build tx.event.key.scope = some b → b.groups = some left →
        tx.started ≤ b.hwm →
        tx.event.key ∈ left ∨ ∀ u ∈ ts, ∀ b', Commits u tx.event.key.scope b' → b'.number ≠ b.number

theorem Commits.spec {t : Run.Transition Content ContentAction} {b : Build} (h : Commits t scope b)
    (hstep : ContentStep t.before t.action t.after) :
    b.groups = some [] ∧ b.reading = none ∧ t.after.build scope = none ∧
      t.after.builds = t.before.builds ∧
      t.after.builtThrough scope = max (t.before.builtThrough scope) b.hwm := by
  cases hstep.ingested.build scope with
  | committed b' _ hb hgroups hreading hbuild hthrough _ hbuilds =>
      obtain rfl := Option.some.inj (hb.symm.trans h.2)
      exact ⟨hgroups, hreading, hbuild, hbuilds, hthrough⟩
  | same _ _ hnot _ | begun _ _ _ _ _ _ hnot _ | listed _ _ _ _ _ _ hnot _ | read _ _ _ _ _ _ _ _ _ _ hnot _
  | upserted _ _ _ _ _ _ _ _ hnot _ | rolledBack _ _ _ _ _ hnot _ => exact absurd h.1 hnot

/-- A build that commits leaves its scope's watermark at its own high watermark, or later. -/
theorem Commits.behind {t : Run.Transition Content ContentAction} {b : Build}
    (h : Commits t scope b)
    (hstep : ContentStep t.before t.action t.after) : b.hwm ≤ t.after.builtThrough scope := by
  obtain ⟨_, _, _, _, hthrough⟩ := h.spec hstep
  exact hthrough ▸ le_max_right _ _

theorem ContentRuns.passed (h : ContentRuns ts s) (scope : Scope) {x : DateTime} (hx : 0 < x)
    (hle : x ≤ s.builtThrough scope) : ∃ t ∈ ts, ∃ b, Commits t scope b ∧ b.lo < x ∧ x ≤ b.hwm := by
  refine Run.Runs.invariant h (fun pre s => ∀ x, 0 < x → x ≤ s.builtThrough scope →
    ∃ t ∈ pre, ∃ b, Commits t scope b ∧ b.lo < x ∧ x ≤ b.hwm) ?_ ?_ x hx hle
  · intro x hx hle
    exact absurd (lt_of_lt_of_le hx hle) (lt_irrefl _)
  · intro pre t post _ hpre hstep hI x hx hle
    have hkept : x ≤ t.before.builtThrough scope →
        ∃ u ∈ pre ++ [t], ∃ b, Commits u scope b ∧ b.lo < x ∧ x ≤ b.hwm := by
      intro hold
      obtain ⟨u, hu, hpassed⟩ := hI x hx hold
      exact ⟨u, List.mem_append_left _ hu, hpassed⟩
    cases hstep.ingested.build scope with
    | same _ hthrough _ _ | begun _ _ _ _ hthrough _ _ _ | listed _ _ _ _ hthrough _ _ _
    | read _ _ _ _ _ _ _ _ hthrough _ _ _ | upserted _ _ _ _ _ _ hthrough _ _ _
    | rolledBack _ _ _ hthrough _ _ _ => exact hkept (hthrough ▸ hle)
    | committed b hact hb _ _ _ hthrough _ _ =>
        rw [hthrough] at hle
        rcases le_max_iff.mp hle with hold | hnew
        · exact hkept hold
        · by_cases hold : x ≤ t.before.builtThrough scope
          · exact hkept hold
          · refine ⟨t, List.mem_append_right _ (List.mem_singleton_self _), b, ⟨hact, hb⟩, ?_, hnew⟩
            rw [((ContentRuns.placed hpre).build hb).lo]
            exact not_le.mp hold

/-! ## Later builds read no less -/

/-- Some build of the run wrote the cluster of the group from events with this one among them. -/
def Covered (ts : List (Run.Transition Content ContentAction)) (key : GroupKey)
    (id : Uuid) : Prop :=
  ∃ t ∈ ts, ∃ events, WritesCluster t key events ∧ id ∈ events.map (·.id)

theorem covered_snoc {t : Run.Transition Content ContentAction} : Covered (pre ++ [t]) key id ↔
    Covered pre key id ∨ ∃ events, WritesCluster t key events ∧ id ∈ events.map (·.id) := by
  unfold Covered
  constructor
  · intro h
    obtain ⟨u, hu, hwrites⟩ := h
    rcases List.mem_append.mp hu with hin | hlast
    · exact Or.inl ⟨u, hin, hwrites⟩
    · exact Or.inr (List.mem_singleton.mp hlast ▸ hwrites)
  · intro h
    rcases h with ⟨u, hu, hwrites⟩ | hwrites
    · exact ⟨u, List.mem_append_left _ hu, hwrites⟩
    · exact ⟨t, List.mem_append_right _ (List.mem_singleton_self _), hwrites⟩

theorem WritesCluster.held {t : Run.Transition Content ContentAction} {events : List Event}
    (h : WritesCluster t key events) (hstep : ContentStep t.before t.action t.after) :
    ∃ b, Commits t key.scope b ∧ b.holds key = some events := by
  obtain ⟨b, hcommits, hrows⟩ := h
  exact ⟨b, hcommits, (Build.holds_rows (hcommits.spec hstep).2.1).trans hrows⟩

theorem Covered.logged (h : ContentRuns ts s) (hcovered : Covered ts key id) :
    ∃ x ∈ s.stamps, x.id = id ∧ x.key = key := by
  obtain ⟨t, ht, events, hwrites, hid⟩ := hcovered
  obtain ⟨_, _, _, hpre⟩ := h.before_of_mem ht
  obtain ⟨b, hcommits, hheld⟩ := hwrites.held (h.step_of_mem ht)
  obtain ⟨e, he, rfl⟩ := List.mem_map.mp hid
  obtain ⟨_, _, _, hevents⟩ := ((ContentRuns.placed hpre).build hcommits.2).held key events hheld
  obtain ⟨x, hx, hidx, hkeyx⟩ := hevents e he
  have hafter : x ∈ t.after.stamps := (h.step_of_mem ht).ingested.stamp_kept hx
  exact ⟨x, Run.Runs.kept_of_mem h (Q := fun s => x ∈ s.stamps)
    (fun u hu hin => (h.step_of_mem hu).ingested.stamp_kept hin) ht hafter, hidx, hkeyx⟩

theorem ContentRuns.holds_covered (h : ContentRuns ts s) {b : Build}
    (hb : s.build key.scope = some b)
    {events : List Event} (hheld : b.holds key = some events) (hcovered : Covered ts key id) :
    id ∈ events.map (·.id) := by
  refine Run.Runs.invariant h (fun pre s => ∀ b events, s.build key.scope = some b →
    b.holds key = some events →
    Covered pre key id → id ∈ events.map (·.id)) ?_ ?_ b events hb hheld hcovered
  · intro b events hb
    cases hb
  · intro pre t post _ hpre hstep hI b' events hb' hheld hcovered
    have hplaced := ContentRuns.placed hpre
    have hbefore : t.action ≠ .commitBuild key.scope → Covered pre key id := by
      intro hnot
      rcases covered_snoc.mp hcovered with hold | ⟨_, ⟨_, hcommits, _⟩, _⟩
      · exact hold
      · exact absurd hcommits.1 hnot
    cases hstep.ingested.build key.scope with
    | same hbuild _ hnot _ => exact hI b' events (hbuild.symm.trans hb') hheld (hbefore hnot)
    | begun started enrichGrace _ hbuild _ _ _ _ =>
        obtain rfl := Option.some.inj (hbuild.symm.trans hb')
        cases hheld
    | listed b hb _ hbuild _ _ hnot _ =>
        obtain rfl := Option.some.inj (hbuild.symm.trans hb')
        exact hI b events hb hheld (hbefore hnot)
    | read k b left hb _ hreading _ hbuild _ _ hnot _ =>
        obtain rfl := Option.some.inj (hbuild.symm.trans hb')
        rw [Build.holds_read hreading] at hheld
        by_cases hkey : k = key
        · subst hkey
          rw [if_pos rfl] at hheld
          obtain rfl := Option.some.inj hheld
          obtain ⟨x, hx, rfl, hkeyx⟩ := Covered.logged hpre (hbefore hnot)
          obtain ⟨e, he, rfl⟩ := List.mem_map.mp hx
          exact List.mem_map_of_mem (f := fun e : Event =>
            e.id) (mem_listGroupEvents.mpr ⟨he, hkeyx⟩)
        · rw [if_neg hkey] at hheld
          exact hI b events hb hheld (hbefore hnot)
    | upserted k b L hb hreading hbuild _ _ hnot _ =>
        obtain rfl := Option.some.inj (hbuild.symm.trans hb')
        rw [Build.holds_upsert hreading ((hplaced.build hb).reading_ne hreading)] at hheld
        exact hI b events hb hheld (hbefore hnot)
    | committed _ _ _ _ _ hbuild _ _ _ => cases hbuild.symm.trans hb'
    | rolledBack _ _ hbuild _ _ _ _ => cases hbuild.symm.trans hb'

/-! ## The rows -/

def ClusterRollup.depthless (r : ClusterRollup) : ClusterRollup :=
  { r with contentDepth := .message }

theorem ClusterRollup.eq_of_depthless {r r' : ClusterRollup} (h : r.depthless = r'.depthless) :
    r = { r' with contentDepth := r.contentDepth } := by
  cases r
  cases r'
  simp only [ClusterRollup.depthless, ClusterRollup.mk.injEq] at h ⊢
  simp [h]

def Content.depthless (s : Content) (key : GroupKey) : Option (Option ClusterRollup) :=
  (s.cluster key).map fun row => some row.rollup.depthless

theorem touchGroup_depthless {now : DateTime} {k : GroupKey} {raise : Bool}
    {cluster : ClusterCache} :
    ((touchGroup now k raise cluster) key).map (fun row => some row.rollup.depthless) =
      (cluster key).map fun row => some row.rollup.depthless := by
  unfold touchGroup
  by_cases hkey : key = k
  · subst hkey
    rw [Function.update_self, Option.map_map]
    congr 1
    funext row
    cases raise <;> rfl
  · rw [Function.update_of_ne hkey]

theorem ContentStep.depthless (h : ContentStep s act s') (hs : ContentPlaced s) (key : GroupKey) :
    (s'.depthless key = s.depthless key ∧ ∀ events, ¬ WritesCluster ⟨s, act, s'⟩ key events) ∨
      ∃ events, WritesCluster ⟨s, act, s'⟩ key events ∧
        s'.depthless key = some ((rollup events).map ClusterRollup.depthless) := by
  have hnot : (∀ scope, act ≠ .commitBuild scope) →
      ∀ events, ¬ WritesCluster ⟨s, act, s'⟩ key events := by
    intro hne events hwrites
    obtain ⟨_, ⟨hact, _⟩, _⟩ := hwrites
    exact hne _ hact
  cases h.ingested with
  | commitBuild scope b hb hgroups hreading =>
      by_cases hrow : ∃ events, b.rows key = some events
      · obtain ⟨events, hrow⟩ := hrow
        have hheld : b.holds key = some events := (Build.holds_rows hreading).trans hrow
        obtain ⟨rfl, hne, _⟩ := (hs.build hb).held key events hheld
        refine Or.inr ⟨events, ⟨b, ⟨rfl, hb⟩, hrow⟩, ?_⟩
        obtain ⟨r, hr⟩ := Option.ne_none_iff_exists'.mp hne
        unfold Content.depthless Build.commit
        dsimp only
        rw [hrow]
        dsimp only
        rw [hr]
        rfl
      · refine Or.inl ⟨?_, ?_⟩
        · unfold Content.depthless Build.commit
          dsimp only
          rw [Option.eq_none_iff_forall_ne_some.mpr fun events hevents => hrow ⟨events, hevents⟩]
        · intro events hwrites
          obtain ⟨b', ⟨hact, hb'⟩, hrow'⟩ := hwrites
          obtain rfl := ContentAction.commitBuild.inj hact
          obtain rfl := Option.some.inj (hb.symm.trans hb')
          exact hrow ⟨events, hrow'⟩
  | storeFullText target text _ _ => exact Or.inl ⟨touchGroup_depthless, hnot fun _ h => by cases h⟩
  | _ => exact Or.inl ⟨rfl, hnot fun _ h => by cases h⟩

theorem ContentRuns.folded (h : ContentRuns ts s) {x : EventStamp}
    (hcovered : Covered ts x.key x.id) :
    Folded ts s x := by
  rcases h.last_write Content.depthless WritesCluster (fun events =>
    (rollup events).map ClusterRollup.depthless)
      (fun _ => rfl) (fun t ht => (h.step_of_mem ht).depthless (by
        obtain ⟨_, _, _, hpre⟩ := h.before_of_mem ht
        exact ContentRuns.placed hpre)) x.key with
    ⟨_, hnever⟩ | ⟨t, events, hlast, hwrites, hrow⟩
  · obtain ⟨t, ht, events, hwrites, _⟩ := hcovered
    exact absurd hwrites (hnever t ht events)
  · unfold Content.depthless at hrow
    obtain ⟨row, hrow, hdepthless⟩ := Option.map_eq_some_iff.mp hrow
    obtain ⟨r, hr, heq⟩ := Option.map_eq_some_iff.mp hdepthless.symm
    refine ⟨t, events, r, row, hlast, hwrites, ?_, hr, hrow, ClusterRollup.eq_of_depthless heq.symm⟩
    obtain ⟨pre, post, rfl, ⟨events', hwrites'⟩, hafter⟩ := hlast
    obtain ⟨b, hcommits, hheld⟩ :=
      hwrites.held (h.step_of_mem (List.mem_append_right _ List.mem_cons_self))
    obtain ⟨u, hu, events₀, hwrites₀, hid⟩ := hcovered
    rcases List.mem_append.mp hu with hbefore | hlater
    · have hup : ContentRuns (pre ++ [t]) t.after := Run.Runs.upto h
      exact ContentRuns.holds_covered hup.last.2.1 hcommits.2 hheld ⟨u, hbefore,
        events₀, hwrites₀, hid⟩
    · rcases List.mem_cons.mp hlater with rfl | hpost
      · obtain ⟨b', hcommits', hrows'⟩ := hwrites₀
        obtain ⟨b₀, hcommits₀, hrows₀⟩ := hwrites
        obtain rfl := Option.some.inj (hcommits'.2.symm.trans hcommits₀.2)
        obtain rfl := Option.some.inj (hrows'.symm.trans hrows₀)
        exact hid
      · exact absurd ⟨events₀, hwrites₀⟩ (hafter u hpost)

/-! ## Seeing what is passed -/

theorem SeesWhatItPasses.nothingLost (h : ContentRuns ts s) (hsees : SeesWhatItPasses ts s) :
    NothingLost ts s := by
  intro x hx hbehind
  obtain ⟨t, ht, b, hcommits, hlo, hhi⟩ :=
    h.passed x.key.scope ((ContentRuns.placed h).time x hx) hbehind
  obtain ⟨events, hrows, hid⟩ := hsees t ht _ b hcommits x hx rfl hlo hhi
  exact h.folded ⟨t, ht, events, ⟨b, hcommits, hrows⟩, hid⟩

theorem NothingLost.furtherBuild (h : ContentRuns ts s) (hlost : NothingLost ts s) :
    FurtherBuildFolds ts s := by
  intro t ht scope b hcommits hpast x hx hscope
  have hbehind : b.hwm ≤ s.builtThrough scope :=
    Run.Runs.kept_of_mem h (Q := fun s => b.hwm ≤ s.builtThrough scope)
      (fun u hu hle => le_trans hle ((h.step_of_mem hu).ingested.builtThrough_le scope)) ht
      (hcommits.behind (h.step_of_mem ht))
  subst hscope
  exact hlost x hx (le_trans (hpast x hx rfl) hbehind)

theorem CommitsInTime.reads (h : ContentRuns pre s) (hsub : pre ⊆ ts)
    (htime : CommitsInTime ts) {b : Build}
    {left : List GroupKey} (hb : s.build scope = some b) (hgroups : b.groups = some left)
    (hlater : ∃ u ∈ ts, ∃ b', Commits u scope b' ∧ b'.number = b.number) {x : EventStamp}
    (hx : x ∈ s.stamps)
    (hscope : x.key.scope = scope) (hlo : b.lo < x.ingestTime) (hhi : x.ingestTime ≤ b.hwm) :
    x.key ∈ left ∨ ∃ events, b.holds x.key = some events ∧ x.id ∈ events.map (·.id) := by
  refine Run.Runs.state_invariant h (fun s => ∀ b left, s.build scope = some b →
    b.groups = some left →
    (∃ u ∈ ts, ∃ b', Commits u scope b' ∧ b'.number = b.number) →
      ∀ x ∈ s.stamps, x.key.scope = scope →
      b.lo < x.ingestTime → x.ingestTime ≤ b.hwm →
        x.key ∈ left ∨ ∃ events, b.holds x.key = some events ∧
          x.id ∈ events.map (·.id)) ?_ ?_ b left hb hgroups
      hlater x hx hscope hlo hhi
  · intro b left hb
    cases hb
  · intro t ht hstep hI b' left' hb' hgroups' hlater' x hx hscope' hlo' hhi'
    have hlogged : t.after.event = t.before.event → x ∈ t.before.stamps := by
      intro hevent
      unfold Content.stamps at hx
      rwa [hevent] at hx
    cases hstep.ingested.build scope with
    | same hbuild _ _ _ =>
        have hb := hbuild.symm.trans hb'
        rcases hstep.ingested.stamp_from hx with hold | ⟨tx, hinserts, rfl⟩
        · exact hI b' left' hb hgroups' hlater' x hold hscope' hlo' hhi'
        · subst hscope'
          rcases (htime t (hsub ht) tx hinserts).2 b' left' hb hgroups' hhi' with hin | hnever
          · exact Or.inl hin
          · obtain ⟨u, hu, b'', hcommits, hnumber⟩ := hlater'
            exact absurd hnumber (hnever u hu b'' hcommits)
    | begun started enrichGrace _ hbuild _ _ _ _ =>
        obtain rfl := Option.some.inj (hbuild.symm.trans hb')
        cases hgroups'
    | listed b hb hnone hbuild _ hevent _ _ =>
        obtain rfl := Option.some.inj (hbuild.symm.trans hb')
        obtain rfl := Option.some.inj hgroups'
        obtain ⟨e, he, rfl⟩ := List.mem_map.mp (hlogged hevent)
        exact Or.inl (mem_dirtyGroups.mpr ⟨e, he, rfl, hscope', hlo', hhi'⟩)
    | read k b left hb hleft hreading _ hbuild _ hevent _ _ =>
        obtain rfl := Option.some.inj (hbuild.symm.trans hb')
        obtain rfl := Option.some.inj hgroups'
        by_cases hkey : k = x.key
        · refine Or.inr ⟨_, by rw [Build.holds_read hreading, if_pos hkey], ?_⟩
          obtain ⟨e, he, rfl⟩ := List.mem_map.mp (hlogged hevent)
          exact List.mem_map_of_mem (f := fun e : Event =>
            e.id) (mem_listGroupEvents.mpr ⟨he, hkey.symm⟩)
        · rcases hI b left hb hleft hlater' x (hlogged hevent) hscope' hlo' hhi' with hin | hheld
          · exact Or.inl ((List.mem_erase_of_ne (Ne.symm hkey)).mpr hin)
          · rw [Build.holds_read hreading, if_neg hkey]
            exact Or.inr hheld
    | upserted k b L hb hreading hbuild _ hevent _ _ =>
        obtain rfl := Option.some.inj (hbuild.symm.trans hb')
        obtain ⟨_, _, _, hpre⟩ := h.before_of_mem ht
        rw [Build.holds_upsert hreading (((ContentRuns.placed hpre).build hb).reading_ne hreading)]
        exact hI b left' hb hgroups' hlater' x (hlogged hevent) hscope' hlo' hhi'
    | committed _ _ _ _ _ hbuild _ _ _ => cases hbuild.symm.trans hb'
    | rolledBack _ _ hbuild _ _ _ _ => cases hbuild.symm.trans hb'

theorem CommitsInTime.sees (h : ContentRuns ts s) (htime : CommitsInTime ts) :
    SeesWhatItPasses ts s := by
  intro t ht scope b hcommits x hx hscope hlo hhi
  obtain ⟨pre, post, heq, hpre⟩ := h.before_of_mem ht
  have hstep := h.step_of_mem ht
  have hbehind := hcommits.behind hstep
  -- nothing of its range commits after the build
  have hold : x ∈ t.before.stamps := by
    have hlate : b.hwm ≤ s.builtThrough scope ∧ ∀ y ∈ s.stamps, y.key.scope = scope →
        y.ingestTime ≤ b.hwm →
        y ∈ t.before.stamps := by
      refine Run.Runs.kept_of_mem h (Q := fun s => b.hwm ≤ s.builtThrough scope ∧
        ∀ y ∈ s.stamps, y.key.scope = scope → y.ingestTime ≤ b.hwm → y ∈ t.before.stamps) ?_ ht ?_
      · intro u hu hQ
        refine ⟨le_trans hQ.1 ((h.step_of_mem hu).ingested.builtThrough_le scope), ?_⟩
        intro y hy hyscope hyhi
        rcases (h.step_of_mem hu).ingested.stamp_from hy with hold | ⟨tx, hinserts, rfl⟩
        · exact hQ.2 y hold hyscope hyhi
        · subst hyscope
          exact absurd (lt_of_lt_of_le ((htime u hu tx hinserts).1) (le_trans hyhi hQ.1))
            (lt_irrefl _)
      · refine ⟨hbehind, ?_⟩
        intro y hy _ _
        rcases hstep.ingested.stamp_from hy with hold | ⟨tx, hinserts, _⟩
        · exact hold
        · cases hinserts.1.symm.trans hcommits.1
    exact hlate.2 x hx hscope hhi
  obtain ⟨hgroups, hreading, _⟩ := hcommits.spec hstep
  rcases CommitsInTime.reads hpre (heq ▸ List.subset_append_left pre (t :: post)) htime hcommits.2 hgroups
    ⟨t, ht, b, hcommits, rfl⟩ hold hscope hlo hhi with hleft | ⟨events, hheld, hid⟩
  · cases hleft
  · rw [Build.holds_rows hreading] at hheld
    exact ⟨events, hheld, hid⟩

/-! ## Committing in time -/

theorem Inserts.logged {tx : OpenIngest} (h : Inserts s act tx) (hstep : ContentStep s act s') :
    tx.stamp ∈ s'.stamps := by
  rcases hstep.ingested.stamps with ⟨_, hnot⟩ | ⟨tx', hinserts, hnew⟩
  · exact absurd h (hnot tx)
  · obtain rfl := ContentAction.commitIngest.inj (h.1.symm.trans hinserts.1)
    rw [hnew]
    exact List.mem_append_right _ (List.mem_singleton_self _)

/-- The build with this number is not open, and never will be again. -/
def Closed (s : Content) (scope : Scope) (number : Nat) : Prop :=
  number < s.builds ∧ ∀ b, s.build scope = some b → b.number ≠ number

theorem Closed.step (h : ContentStep s act s') {number : Nat} (hs : Closed s scope number) :
    Closed s' scope number := by
  obtain ⟨hlt, hnot⟩ := hs
  cases h.ingested.build scope with
  | same hbuild _ _ hbuilds =>
    exact ⟨lt_of_lt_of_le hlt hbuilds, fun b hb => hnot b (hbuild.symm.trans hb)⟩
  | begun started enrichGrace _ hbuild _ _ _ hbuilds =>
      refine ⟨hbuilds ▸ Nat.lt_succ_of_lt hlt, ?_⟩
      intro b hb
      obtain rfl := Option.some.inj (hbuild.symm.trans hb)
      exact (ne_of_lt hlt).symm
  | listed b hb _ hbuild _ _ _ hbuilds | read _ b _ hb _ _ _ hbuild _ _ _ hbuilds
  | upserted _ b _ hb _ hbuild _ _ _ hbuilds =>
      refine ⟨hbuilds ▸ hlt, ?_⟩
      intro b' hb'
      obtain rfl := Option.some.inj (hbuild.symm.trans hb')
      exact hnot b hb
  | committed _ _ _ _ _ hbuild _ _ hbuilds | rolledBack _ _ hbuild _ _ _ hbuilds =>
      refine ⟨hbuilds ▸ hlt, ?_⟩
      intro b hb
      cases hbuild.symm.trans hb

/-- The build with this number, if it is open, has these bounds, and neither has read the event nor
is going to. -/
def Missed (s : Content) (key : GroupKey) (id : Uuid) (b : Build) : Prop :=
  b.number < s.builds ∧ ∀ b', s.build key.scope = some b' → b'.number = b.number →
    b'.lo = b.lo ∧ b'.hwm = b.hwm ∧ ∃ left, b'.groups = some left ∧ key ∉ left ∧
      ∀ events, b'.holds key = some events → id ∉ events.map (·.id)

theorem Missed.step (h : ContentStep s act s') (hs : ContentPlaced s) {b : Build}
    (hmissed : Missed s key id b) :
    Missed s' key id b := by
  obtain ⟨hlt, hopen⟩ := hmissed
  cases h.ingested.build key.scope with
  | same hbuild _ _ hbuilds =>
      exact ⟨lt_of_lt_of_le hlt hbuilds, fun b' hb' => hopen b' (hbuild.symm.trans hb')⟩
  | begun started enrichGrace _ hbuild _ _ _ hbuilds =>
      refine ⟨hbuilds ▸ Nat.lt_succ_of_lt hlt, ?_⟩
      intro b' hb' hnumber
      obtain rfl := Option.some.inj (hbuild.symm.trans hb')
      exact absurd hnumber (ne_of_lt hlt).symm
  | listed b₀ hb hgroups hbuild _ _ _ hbuilds =>
      refine ⟨hbuilds ▸ hlt, ?_⟩
      intro b' hb' hnumber
      obtain rfl := Option.some.inj (hbuild.symm.trans hb')
      obtain ⟨_, _, left, hleft, _⟩ := hopen b₀ hb hnumber
      cases hgroups.symm.trans hleft
  | read k b₀ left hb hgroups hreading hk hbuild _ _ _ hbuilds =>
      refine ⟨hbuilds ▸ hlt, ?_⟩
      intro b' hb' hnumber
      obtain rfl := Option.some.inj (hbuild.symm.trans hb')
      obtain ⟨hlo, hhi, left', hleft, hnot, hheld⟩ := hopen b₀ hb hnumber
      obtain rfl := Option.some.inj (hgroups.symm.trans hleft)
      refine ⟨hlo, hhi, _, rfl, fun hin => hnot (List.mem_of_mem_erase hin), ?_⟩
      intro events hevents
      rw [Build.holds_read hreading, if_neg fun heq : k = key => hnot (heq ▸ hk)] at hevents
      exact hheld events hevents
  | upserted k b₀ L hb hreading hbuild _ _ _ hbuilds =>
      refine ⟨hbuilds ▸ hlt, ?_⟩
      intro b' hb' hnumber
      obtain rfl := Option.some.inj (hbuild.symm.trans hb')
      obtain ⟨hlo, hhi, left, hleft, hnot, hheld⟩ := hopen b₀ hb hnumber
      refine ⟨hlo, hhi, left, hleft, hnot, ?_⟩
      intro events hevents
      rw [Build.holds_upsert hreading ((hs.build hb).reading_ne hreading)] at hevents
      exact hheld events hevents
  | committed _ _ _ _ _ hbuild _ _ hbuilds | rolledBack _ _ hbuild _ _ _ hbuilds =>
      refine ⟨hbuilds ▸ hlt, ?_⟩
      intro b' hb'
      cases hbuild.symm.trans hb'

theorem SeesWhatItPasses.inTime (h : ContentRuns ts s) (hsees : SeesWhatItPasses ts s) :
    CommitsInTime ts := by
  intro t ht tx hinserts
  obtain ⟨pre, post, heq, hpre⟩ := h.before_of_mem ht
  have hplaced := ContentRuns.placed hpre
  have hlogged : tx.stamp ∈ s.stamps := Run.Runs.kept_of_mem h (Q := fun s => tx.stamp ∈ s.stamps)
    (fun u hu hin => (h.step_of_mem hu).ingested.stamp_kept hin) ht
      (hinserts.logged (h.step_of_mem ht))
  have hnew : t.before.builtThrough tx.event.key.scope < tx.started := by
    by_contra hnot
    obtain ⟨u, hu, b, hcommits, hlo, hhi⟩ :=
      ContentRuns.passed hpre tx.event.key.scope (hplaced.started tx hinserts.2.1) (not_lt.mp hnot)
    obtain ⟨events, hrows, hid⟩ :=
      hsees u (heq ▸ List.mem_append_left _ hu) _ b hcommits tx.stamp hlogged rfl hlo hhi
    obtain ⟨x, hx, hidx, _⟩ := Covered.logged hpre ⟨u, hu, events, ⟨b, hcommits, hrows⟩, hid⟩
    exact hinserts.fresh hplaced hx hidx
  refine ⟨hnew, ?_⟩
  intro b left hb hgroups hhi
  by_contra hnot
  obtain ⟨hleft, hlater⟩ := not_or.mp hnot
  obtain ⟨u, hu, b', hcommits, hnumber⟩ : ∃ u ∈ ts, ∃ b', Commits u tx.event.key.scope b' ∧
      b'.number = b.number := by
    by_contra hnone
    exact hlater fun u hu b' hcommits hnumber => hnone ⟨u, hu, b', hcommits, hnumber⟩
  have hb_placed := hplaced.build hb
  rcases h.order ht hu with rfl | ⟨before, hsub, hrun, hin⟩ | ⟨before, hsub, hrun, hin⟩
  · cases hinserts.1.symm.trans hcommits.1
  · have hstart : Missed t.before tx.event.key tx.id b := by
      refine ⟨hb_placed.number, ?_⟩
      intro b'' hb'' _
      obtain rfl := Option.some.inj (hb.symm.trans hb'')
      refine ⟨rfl, rfl, left, hgroups, hleft, ?_⟩
      intro events hheld hid
      obtain ⟨e, he, hide⟩ := List.mem_map.mp hid
      obtain ⟨x, hx, hidx, _⟩ := (hb_placed.held _ events hheld).2.2.2 e he
      exact hinserts.fresh hplaced hx (hidx.trans hide)
    have hstep : ∀ v ∈ before, Missed v.before tx.event.key tx.id b →
        Missed v.after tx.event.key tx.id b := by
      intro v hv hmissed
      obtain ⟨_, _, _, hbefore⟩ := Run.Runs.before_of_mem hrun hv
      exact hmissed.step (Run.Runs.step_of_mem hrun hv) (ContentRuns.placed hbefore)
    have hmissed : Missed u.before tx.event.key tx.id b :=
      Run.Runs.kept_of_mem hrun (Q := fun s => Missed s tx.event.key tx.id b) hstep hin
        (hstep t hin hstart)
    obtain ⟨hlo', hhi', _, _, _, hheld⟩ := hmissed.2 b' hcommits.2 hnumber
    have hrange : b'.lo < tx.started := by
      rw [hlo', hb_placed.lo]
      exact hnew
    obtain ⟨events, hrows, hid⟩ :=
      hsees u hu _ b' hcommits tx.stamp hlogged rfl hrange (hhi'.symm ▸ hhi)
    obtain ⟨b'', hcommits'', hheld'⟩ := WritesCluster.held ⟨b', hcommits, hrows⟩ (h.step_of_mem hu)
    obtain rfl := Option.some.inj (hcommits.2.symm.trans hcommits''.2)
    exact hheld events hheld' hid
  · have hclosed : Closed u.after tx.event.key.scope b.number := by
      obtain ⟨_, _, _, hbefore⟩ := Run.Runs.before_of_mem hrun hin
      have hlt : b'.number < u.before.builds :=
        ((ContentRuns.placed hbefore).build hcommits.2).number
      obtain ⟨_, _, hbuild, hbuilds, _⟩ := hcommits.spec (h.step_of_mem hu)
      refine ⟨hnumber ▸ hbuilds ▸ hlt, ?_⟩
      intro b'' hb''
      cases hbuild.symm.trans hb''
    have hnow : Closed t.before tx.event.key.scope b.number :=
      Run.Runs.kept_of_mem hrun (Q := fun s => Closed s tx.event.key.scope b.number)
        (fun v hv hclosed => hclosed.step (Run.Runs.step_of_mem hrun hv)) hin hclosed
    exact hnow.2 b hb rfl

/-- In every run the builds have read all they moved their watermarks past, no event behind a
watermark is missing from its cluster, and a build past every event folds them all, exactly when
every ingest transaction commits in time. -/
theorem nothing_lost_iff (h : ContentRuns ts s) :
    (SeesWhatItPasses ts s ∧ NothingLost ts s ∧ FurtherBuildFolds ts s) ↔ CommitsInTime ts := by
  constructor
  · intro hall
    exact hall.1.inTime h
  · intro htime
    have hsees := htime.sees h
    have hlost := hsees.nothingLost h
    exact ⟨hsees, hlost, hlost.furtherBuild h⟩

/-! ## Two ingests beside a build -/

/-- Transactions that commit while no build of their scope is open, after its watermark, are in
time. -/
theorem commitsInTime_of_all (h : ∀ t ∈ ts, (match t.action with
    | .commitIngest tx => decide (t.before.builtThrough tx.event.key.scope < tx.started) &&
        (t.before.build tx.event.key.scope).isNone
    | _ => true) = true) : CommitsInTime ts := by
  intro t ht tx hinserts
  have hone := h t ht
  rw [hinserts.1] at hone
  obtain ⟨hbehind, hnone⟩ := Bool.and_eq_true_iff.mp hone
  refine ⟨of_decide_eq_true hbehind, ?_⟩
  intro b left hb
  rw [Option.isNone_iff_eq_none.mp hnone] at hb
  cases hb

def entryKey : GroupKey := ⟨.ofPublic, .rss, "feed"⟩

def feedEntry (n : UInt8) : NewEvent :=
  { fingerprint := [n], key := entryKey, eventTime := 0, title := "entry" }

def wholeBuild (started : DateTime) (enrichGrace : Nat) : List ContentAction :=
  [.beginBuild .ofPublic started enrichGrace, .listGroups .ofPublic, .readGroup .ofPublic entryKey,
    .upsertGroup .ofPublic, .commitBuild .ofPublic]

/-- The second entry is ingested while the first waits for its grace to end. -/
def promptIngestScript : List ContentAction :=
  [.beginIngest 1 (feedEntry 1), .wait 5, .commitIngest ⟨1, 1, feedEntry 1⟩,
    .beginIngest 2 (feedEntry 2)] ++
    wholeBuild 6 2 ++ [.wait 5, .commitIngest ⟨2, 6, feedEntry 2⟩] ++ wholeBuild 11 2

def promptIngestRun : List (Run.Transition Content ContentAction) :=
  Run.transitions Content.play {} promptIngestScript

theorem nothing_lost_iff_prompt : ∃ s, ContentRuns promptIngestRun s ∧
    (s.cluster entryKey).map (·.rollup.eventCount) = some 2 ∧
      SeesWhatItPasses promptIngestRun s ∧ NothingLost promptIngestRun s ∧
        FurtherBuildFolds promptIngestRun s := by
  obtain ⟨s, hrun, hrow⟩ : ∃ s, ContentRuns promptIngestRun s ∧
      decide ((s.cluster entryKey).map (·.rollup.eventCount) = some 2) = true :=
    Content.play_ends (by decide +kernel)
  exact ⟨s, hrun, of_decide_eq_true hrow,
    (nothing_lost_iff hrun).mpr (commitsInTime_of_all (by decide +kernel))⟩

/-- The ingest begins, a build whose grace is over passes its start, and the ingest commits. -/
def lateIngestScript : List ContentAction :=
  [.beginIngest 1 (feedEntry 1), .wait 5, .beginBuild .ofPublic 6 2, .listGroups .ofPublic,
    .commitBuild .ofPublic,
    .commitIngest ⟨1, 1, feedEntry 1⟩, .wait 1000, .beginBuild .ofPublic 1006 2,
      .listGroups .ofPublic,
    .commitBuild .ofPublic]

def lateIngestRun : List (Run.Transition Content ContentAction) :=
  Run.transitions Content.play {} lateIngestScript

/-- Everything has committed, a build past every grace has run, and the event has no cluster. -/
theorem late_event_lost :
    ∃ s, ContentRuns lateIngestRun s ∧ s.ingest = [] ∧ s.stamps = [⟨1, entryKey, 1⟩] ∧
    s.builtThrough .ofPublic = 1004 ∧ s.cluster entryKey = none ∧ ¬ NothingLost lateIngestRun s ∧
    ¬ FurtherBuildFolds lateIngestRun s := by
  obtain ⟨s, hrun, hend⟩ : ∃ s, ContentRuns lateIngestRun s ∧ decide (s.ingest = [] ∧
      s.stamps = [⟨1, entryKey, 1⟩] ∧ s.builtThrough .ofPublic = 1004 ∧
          s.cluster entryKey = none) = true :=
    Content.play_ends (by decide +kernel)
  obtain ⟨hingest, hstamps, hthrough, hrow⟩ := of_decide_eq_true hend
  have hmem : (⟨1, entryKey, 1⟩ : EventStamp) ∈ s.stamps := by
    rw [hstamps]
    exact List.mem_singleton_self _
  have hnot : ¬ Folded lateIngestRun s ⟨1, entryKey, 1⟩ := by
    intro hfolded
    obtain ⟨_, _, _, row, _, _, _, _, hcluster, _⟩ := hfolded
    cases hrow.symm.trans hcluster
  have hbehind : (1 : DateTime) ≤ s.builtThrough .ofPublic := by
    rw [hthrough]
    decide
  refine ⟨s, hrun, hingest, hstamps, hthrough, hrow, fun hlost => hnot (hlost _ hmem hbehind), ?_⟩
  intro hfolds
  obtain ⟨t, ht, b, hcommits, _, hhi⟩ :=
    ContentRuns.passed hrun .ofPublic (x := 1004) (by decide) hthrough.ge
  refine hnot (hfolds t ht _ b hcommits ?_ _ hmem rfl)
  intro x hx _
  rw [hstamps, List.mem_singleton] at hx
  rw [hx]
  exact le_trans (by decide) hhi

end Bulletin
