import Mathlib.Data.List.Basic
import Mathlib.Data.List.Induction

/-! # Runs of a transition system

A run is the list of its transitions, oldest first, each with the state before
it, the action taken and the state after it. Invariants are proved once per
step and lifted to whole runs here, with the transitions made so far at hand
for statements about a run's history.
-/

namespace Run

variable {σ α : Type*}

structure Transition (σ α : Type*) where
  before : σ
  action : α
  after : σ

/-- `Runs step s ts s'`: the transitions `ts` lead from `s` to `s'`. -/
inductive Runs (step : σ → α → σ → Prop) (s : σ) : List (Transition σ α) → σ → Prop
  | nil : Runs step s [] s
  | snoc {ts : List (Transition σ α)} {m s' : σ} {a : α} :
      Runs step s ts m → step m a s' → Runs step s (ts ++ [⟨m, a, s'⟩]) s'

variable {step : σ → α → σ → Prop} {s s' : σ} {ts : List (Transition σ α)}

theorem Runs.step_of_mem (h : Runs step s ts s') {t : Transition σ α} (ht : t ∈ ts) :
    step t.before t.action t.after := by
  induction h with
  | nil => exact absurd ht List.not_mem_nil
  | snoc _ hstep ih =>
      rcases List.mem_append.mp ht with hmem | hlast
      · exact ih hmem
      · obtain rfl := List.mem_singleton.mp hlast
        exact hstep

theorem Runs.before_of_mem (h : Runs step s ts s') {t : Transition σ α} (ht : t ∈ ts) :
    ∃ pre post, ts = pre ++ t :: post ∧ Runs step s pre t.before := by
  induction h with
  | nil => exact absurd ht List.not_mem_nil
  | snoc hrun hstep ih =>
      rcases List.mem_append.mp ht with hmem | hlast
      · obtain ⟨pre, post, heq, hpre⟩ := ih hmem
        exact ⟨pre, post ++ [_], by rw [heq, List.append_assoc, List.cons_append], hpre⟩
      · obtain rfl := List.mem_singleton.mp hlast
        exact ⟨_, [], rfl, hrun⟩

/-- A property of the history and the state that holds at the start and is kept
by every transition of the run holds at its end. -/
theorem Runs.invariant (h : Runs step s ts s') (I : List (Transition σ α) → σ → Prop)
    (hinit : I [] s)
    (hstep : ∀ pre t post, ts = pre ++ t :: post → Runs step s pre t.before →
      step t.before t.action t.after → I pre t.before → I (pre ++ [t]) t.after) : I ts s' := by
  induction h with
  | nil => exact hinit
  | @snoc ts m s' a hrun hs ih =>
      refine hstep ts ⟨m, a, s'⟩ [] rfl hrun hs (ih ?_)
      intro pre t post hts
      refine hstep pre t (post ++ [⟨m, a, s'⟩]) ?_
      rw [hts, List.append_assoc, List.cons_append]

theorem Runs.state_invariant (h : Runs step s ts s') (I : σ → Prop) (hinit : I s)
    (hstep : ∀ t ∈ ts, step t.before t.action t.after → I t.before → I t.after) : I s' := by
  refine h.invariant (fun _ => I) hinit ?_
  intro pre t post hts _ hs hI
  refine hstep t ?_ hs hI
  rw [hts]
  simp

theorem Runs.reached (h : Runs step s ts s') {Q : σ → Prop} (hinit : Q s)
    (hafter : ∀ t ∈ ts, Q t.after) : Q s' := by
  cases h with
  | nil => exact hinit
  | snoc _ _ => exact hafter _ (List.mem_append_right _ (List.mem_singleton_self _))

/-- A property whose loss at a step is decided before the step holds throughout exactly when no step
loses it. -/
theorem Runs.throughout_iff (h : Runs step s ts s') {Q : σ → Prop} {loses : Transition σ α → Prop}
    (hinit : Q s) (hstep : ∀ t ∈ ts, Q t.before → (Q t.after ↔ ¬ loses t)) :
    (∀ t ∈ ts, Q t.after) ↔ ∀ t ∈ ts, ¬ loses t := by
  constructor
  · intro hall t ht
    obtain ⟨pre, post, heq, hpre⟩ := h.before_of_mem ht
    have hbefore : Q t.before := hpre.reached hinit fun u hu =>
      hall u (heq ▸ List.mem_append_left _ hu)
    exact (hstep t ht hbefore).mp (hall t ht)
  · intro hno t ht
    obtain ⟨pre, post, heq, hpre⟩ := h.before_of_mem ht
    have hbefore : Q t.before := by
      refine hpre.state_invariant Q hinit ?_
      intro u hu _ hQ
      have hmem : u ∈ ts := heq ▸ List.mem_append_left _ hu
      exact (hstep u hmem hQ).mpr (hno u hmem)
    exact (hstep t ht hbefore).mpr (hno t ht)

theorem Runs.append {m : σ} {us : List (Transition σ α)} (h : Runs step s ts m)
    (k : Runs step m us s') : Runs step s (ts ++ us) s' := by
  induction k with
  | nil => rwa [List.append_nil]
  | snoc _ hs ih =>
      rw [← List.append_assoc]
      exact Runs.snoc ih hs

theorem Runs.split {us : List (Transition σ α)} (h : Runs step s (ts ++ us) s') :
    ∃ m, Runs step s ts m ∧ Runs step m us s' := by
  generalize hl : ts ++ us = l at h
  induction h generalizing us with
  | nil =>
      obtain ⟨rfl, rfl⟩ := List.append_eq_nil_iff.mp hl
      exact ⟨s, Runs.nil, Runs.nil⟩
  | @snoc vs m s' a hrun hs ih =>
      rcases List.eq_nil_or_concat us with rfl | ⟨us', t, rfl⟩
      · rw [List.append_nil] at hl
        subst hl
        exact ⟨s', Runs.snoc hrun hs, Runs.nil⟩
      · rw [List.concat_eq_append, ← List.append_assoc] at hl
        obtain ⟨hpre, hlast⟩ := List.append_inj' hl rfl
        obtain ⟨n, hn, hus⟩ := ih hpre
        obtain rfl := List.singleton_injective hlast
        rw [List.concat_eq_append]
        exact ⟨n, hn, Runs.snoc hus hs⟩

theorem Runs.last {t : Transition σ α} (h : Runs step s (ts ++ [t]) s') :
    t.after = s' ∧ Runs step s ts t.before ∧ step t.before t.action t.after := by
  generalize hl : ts ++ [t] = l at h
  cases h with
  | nil => cases (List.append_eq_nil_iff.mp hl).2
  | snoc hrun hs =>
      obtain ⟨rfl, hlast⟩ := List.append_inj' hl rfl
      obtain rfl := List.singleton_injective hlast
      exact ⟨rfl, hrun, hs⟩

theorem Runs.upto {t : Transition σ α} {post : List (Transition σ α)}
    (h : Runs step s (ts ++ t :: post) s') : Runs step s (ts ++ [t]) t.after := by
  rw [List.append_cons] at h
  obtain ⟨m, hpre, _⟩ := h.split
  obtain ⟨rfl, _⟩ := hpre.last
  exact hpre

theorem split_at {ts : List (Transition σ α)} {t : Transition σ α} {k : Nat} (h : ts[k]? = some t) :
    ts = ts.take k ++ t :: ts.drop (k + 1) := by
  obtain ⟨hk, rfl⟩ := List.getElem?_eq_some_iff.mp h
  rw [List.getElem_cons_drop, List.take_append_drop]

/-! ## Steps made once -/

/-- A property that steps keep still holds at the end once a step of the run made it true. -/
theorem Runs.kept_of_mem (h : Runs step s ts s') {Q : σ → Prop}
    (hkeep : ∀ t ∈ ts, Q t.before → Q t.after) {t : Transition σ α} (ht : t ∈ ts) (hQ : Q t.after) :
    Q s' := by
  induction h with
  | nil => exact absurd ht List.not_mem_nil
  | @snoc ts m s' a hrun _ ih =>
      rcases List.mem_append.mp ht with hmem | hlast
      · have hm := ih (fun u hu => hkeep u (List.mem_append_left _ hu)) hmem
        exact hkeep ⟨m, a, s'⟩ (List.mem_append_right _ (List.mem_singleton_self _)) hm
      · obtain rfl := List.mem_singleton.mp hlast
        exact hQ

theorem Runs.once (h : Runs step s ts s') {Q : σ → Prop}
    (hkeep : ∀ t ∈ ts, Q t.before → Q t.after) {t u : Transition σ α} (ht : t ∈ ts) (hu : u ∈ ts)
    (hnt : ¬ Q t.before) (hQt : Q t.after) (hnu : ¬ Q u.before) (hQu : Q u.after) : t = u := by
  induction h with
  | nil => exact absurd ht List.not_mem_nil
  | @snoc ts m s' a hrun _ ih =>
      have hkeep' : ∀ v ∈ ts, Q v.before → Q v.after :=
        fun v hv => hkeep v (List.mem_append_left _ hv)
      rcases List.mem_append.mp ht with hmem | hlast
      · rcases List.mem_append.mp hu with hmem' | hlast'
        · exact ih hkeep' hmem hmem'
        · obtain rfl := List.mem_singleton.mp hlast'
          exact absurd (hrun.kept_of_mem hkeep' hmem hQt) hnu
      · obtain rfl := List.mem_singleton.mp hlast
        rcases List.mem_append.mp hu with hmem' | hlast'
        · exact absurd (hrun.kept_of_mem hkeep' hmem' hQu) hnt
        · exact (List.mem_singleton.mp hlast').symm

theorem Runs.order (h : Runs step s ts s') {t u : Transition σ α} (ht : t ∈ ts) (hu : u ∈ ts) :
    t = u ∨ (∃ pre, pre ⊆ ts ∧ Runs step s pre u.before ∧ t ∈ pre) ∨
      ∃ pre, pre ⊆ ts ∧ Runs step s pre t.before ∧ u ∈ pre := by
  induction h with
  | nil => exact absurd ht List.not_mem_nil
  | @snoc ts m s' a hrun _ ih =>
      have hsub : ts ⊆ ts ++ [⟨m, a, s'⟩] := List.subset_append_left _ _
      rcases List.mem_append.mp ht with hmem | hlast
      · rcases List.mem_append.mp hu with hmem' | hlast'
        · rcases ih hmem hmem' with heq | ⟨pre, hpre, hr, hin⟩ | ⟨pre, hpre, hr, hin⟩
          · exact Or.inl heq
          · exact Or.inr (Or.inl ⟨pre, List.Subset.trans hpre hsub, hr, hin⟩)
          · exact Or.inr (Or.inr ⟨pre, List.Subset.trans hpre hsub, hr, hin⟩)
        · obtain rfl := List.mem_singleton.mp hlast'
          exact Or.inr (Or.inl ⟨ts, hsub, hrun, hmem⟩)
      · obtain rfl := List.mem_singleton.mp hlast
        rcases List.mem_append.mp hu with hmem' | hlast'
        · exact Or.inr (Or.inr ⟨ts, hsub, hrun, hmem'⟩)
        · exact Or.inl (List.mem_singleton.mp hlast').symm

/-! ## The last and the first of some steps -/

/-- The last step of the list with the property. -/
def LastOf (P : Transition σ α → Prop) (ts : List (Transition σ α)) (t : Transition σ α) : Prop :=
  ∃ pre post, ts = pre ++ t :: post ∧ P t ∧ ∀ u ∈ post, ¬ P u

variable {P : Transition σ α → Prop} {t u : Transition σ α}

theorem LastOf.mem (h : LastOf P ts t) : t ∈ ts := by
  obtain ⟨pre, post, rfl, _⟩ := h
  exact List.mem_append_right _ List.mem_cons_self

theorem LastOf.holds (h : LastOf P ts t) : P t := by
  obtain ⟨_, _, _, ht, _⟩ := h
  exact ht

theorem lastOf_snoc_self (h : P t) : LastOf P (ts ++ [t]) t :=
  ⟨ts, [], rfl, h, fun _ hu => absurd hu List.not_mem_nil⟩

theorem LastOf.snoc (h : LastOf P ts t) (hu : ¬ P u) : LastOf P (ts ++ [u]) t := by
  obtain ⟨pre, post, rfl, ht, hpost⟩ := h
  refine ⟨pre, post ++ [u], by simp, ht, ?_⟩
  intro v hv
  rcases List.mem_append.mp hv with hin | hlast
  · exact hpost v hin
  · rw [List.mem_singleton.mp hlast]
    exact hu

theorem LastOf.unique (ht : LastOf P ts t) (hu : LastOf P ts u) : t = u := by
  obtain ⟨pre, post, heq, hPt, hpost⟩ := ht
  obtain ⟨pre', post', heq', hPu, hpost'⟩ := hu
  rw [heq] at heq'
  rcases List.append_eq_append_iff.mp heq' with ⟨mid, rfl, hmid⟩ | ⟨mid, rfl, hmid⟩
  · cases mid with
    | nil => exact (List.cons.inj hmid).1
    | cons v vs =>
        obtain ⟨_, rfl⟩ := List.cons.inj hmid
        exact absurd hPu (hpost u (by simp))
  · cases mid with
    | nil => exact (List.cons.inj hmid).1.symm
    | cons v vs =>
        obtain ⟨_, rfl⟩ := List.cons.inj hmid
        exact absurd hPt (hpost' t (by simp))

theorem exists_lastOf (h : ∃ t ∈ ts, P t) : ∃ t, LastOf P ts t := by
  induction ts using List.reverseRecOn with
  | nil =>
      obtain ⟨t, ht, _⟩ := h
      cases ht
  | append_singleton us u ih =>
      by_cases hu : P u
      · exact ⟨u, lastOf_snoc_self hu⟩
      · obtain ⟨t, ht, hP⟩ := h
        rcases List.mem_append.mp ht with hin | hlast
        · obtain ⟨v, hv⟩ := ih ⟨t, hin, hP⟩
          exact ⟨v, hv.snoc hu⟩
        · exact absurd (List.mem_singleton.mp hlast ▸ hP) hu

/-- The first step of the list with the property. -/
def FirstOf (P : Transition σ α → Prop) (ts : List (Transition σ α)) (t : Transition σ α) : Prop :=
  ∃ pre post, ts = pre ++ t :: post ∧ P t ∧ ∀ u ∈ pre, ¬ P u

theorem FirstOf.mem (h : FirstOf P ts t) : t ∈ ts := by
  obtain ⟨_, _, rfl, _⟩ := h
  exact List.mem_append_right _ List.mem_cons_self

theorem FirstOf.holds (h : FirstOf P ts t) : P t := by
  obtain ⟨_, _, _, ht, _⟩ := h
  exact ht

theorem firstOf_snoc_self (hP : P t) (hpre : ∀ u ∈ ts, ¬ P u) : FirstOf P (ts ++ [t]) t :=
  ⟨ts, [], rfl, hP, hpre⟩

theorem FirstOf.append (h : FirstOf P ts t) (us : List (Transition σ α)) :
    FirstOf P (ts ++ us) t := by
  obtain ⟨pre, post, rfl, ht, hpre⟩ := h
  exact ⟨pre, post ++ us, by simp, ht, hpre⟩

theorem FirstOf.unique (ht : FirstOf P ts t) (hu : FirstOf P ts u) : t = u := by
  obtain ⟨pre, post, heq, hPt, hpre⟩ := ht
  obtain ⟨pre', post', heq', hPu, hpre'⟩ := hu
  rw [heq] at heq'
  rcases List.append_eq_append_iff.mp heq' with ⟨mid, rfl, hmid⟩ | ⟨mid, rfl, hmid⟩
  · cases mid with
    | nil => exact (List.cons.inj hmid).1
    | cons v vs =>
        obtain ⟨rfl, _⟩ := List.cons.inj hmid
        exact absurd hPt (hpre' t (by simp))
  · cases mid with
    | nil => exact (List.cons.inj hmid).1.symm
    | cons v vs =>
        obtain ⟨rfl, _⟩ := List.cons.inj hmid
        exact absurd hPu (hpre u (by simp))

/-- A column that some steps write and the others leave alone holds what the last write wrote. -/
theorem Runs.last_write {κ β γ : Type*} (h : Runs step s ts s') (column : σ → κ → Option β)
    (writes : Transition σ α → κ → γ → Prop) (value : γ → β) (hinit : ∀ k, column s k = none)
    (hstep : ∀ t ∈ ts, ∀ k, (column t.after k = column t.before k ∧ ∀ c, ¬ writes t k c) ∨
      ∃ c, writes t k c ∧ column t.after k = some (value c)) (k : κ) :
    (column s' k = none ∧ ∀ t ∈ ts, ∀ c, ¬ writes t k c) ∨
      ∃ t c, LastOf (fun t => ∃ c, writes t k c) ts t ∧ writes t k c ∧
        column s' k = some (value c) := by
  induction h with
  | nil => exact Or.inl ⟨hinit k, fun t ht => absurd ht List.not_mem_nil⟩
  | @snoc ts m s' a hrun _ ih =>
      have hbefore := ih fun t ht => hstep t (List.mem_append_left _ ht)
      rcases hstep ⟨m, a, s'⟩ (List.mem_append_right _ (List.mem_singleton_self _)) k with
        ⟨hsame, hnot⟩ | ⟨c, hwrite, hcolumn⟩
      · have hnone : ¬ ∃ c, writes ⟨m, a, s'⟩ k c := fun hw => hnot hw.choose hw.choose_spec
        rcases hbefore with ⟨hempty, hnever⟩ | ⟨t, c, hlast, hwrite, hcolumn⟩
        · refine Or.inl ⟨hsame.trans hempty, ?_⟩
          intro t ht
          rcases List.mem_append.mp ht with hin | hlast
          · exact hnever t hin
          · rw [List.mem_singleton.mp hlast]
            exact hnot
        · exact Or.inr ⟨t, c, hlast.snoc hnone, hwrite, hsame.trans hcolumn⟩
      · exact Or.inr ⟨_, c, lastOf_snoc_self ⟨c, hwrite⟩, hwrite, hcolumn⟩

/-- A column that each step sets or leaves alone has a value exactly when the last step to set it
set it to that value. -/
theorem Runs.last_value {κ β : Type*} (h : Runs step s ts s') (column : σ → κ → Option β)
    (sets : Transition σ α → κ → Option β) (hinit : ∀ k, column s k = none)
    (hstep : ∀ t ∈ ts, ∀ k, column t.after k = (sets t k).or (column t.before k)) {k : κ} {b : β} :
    column s' k = some b ↔ ∃ t, LastOf (fun t => ∃ b, sets t k = some b) ts t ∧
      sets t k = some b := by
  have hwrites : ∀ t ∈ ts, ∀ k, (column t.after k = column t.before k ∧ ∀ c, ¬ sets t k = some c) ∨
      ∃ c, sets t k = some c ∧ column t.after k = some c := by
    intro t ht k
    rw [hstep t ht k]
    cases sets t k <;> simp
  rcases h.last_write column (fun t k c => sets t k = some c) id hinit hwrites k with
    ⟨hnone, hnever⟩ | ⟨t, c, hlast, hset, hcolumn⟩
  · refine iff_of_false (by simp [hnone]) ?_
    intro hset
    obtain ⟨t, hlast, hset⟩ := hset
    exact hnever t hlast.mem b hset
  · rw [hcolumn]
    constructor
    · intro heq
      exact ⟨t, hlast, hset.trans heq⟩
    · intro hset'
      obtain ⟨u, hlast', hset'⟩ := hset'
      obtain rfl := LastOf.unique hlast hlast'
      exact hset.symm.trans hset'

/-! ## Executable runs -/

/-- The state an execution ends in. Each entry of the script becomes an action where it stands. -/
def execute {β : Type*} (play : σ → β → Option (α × σ)) : σ → List β → Option σ
  | s, [] => some s
  | s, b :: bs => (play s b).bind fun p => execute play p.2 bs

theorem execute_append {β : Type*} {play : σ → β → Option (α × σ)} {s : σ} (bs cs : List β) :
    execute play s (bs ++ cs) = (execute play s bs).bind fun s' => execute play s' cs := by
  induction bs generalizing s with
  | nil => rfl
  | cons b bs ih =>
      simp only [List.cons_append, execute, ih, Option.bind_assoc]

def transitions {β : Type*} (play : σ → β → Option (α × σ)) : σ → List β → List (Transition σ α)
  | _, [] => []
  | s, b :: bs =>
      match play s b with
      | none => []
      | some (a, s') => ⟨s, a, s'⟩ :: transitions play s' bs

theorem execute_runs {β : Type*} {play : σ → β → Option (α × σ)}
    (hplay : ∀ s b a s', play s b = some (a, s') → step s a s') {s s' : σ} {bs : List β}
    (h : execute play s bs = some s') : Runs step s (transitions play s bs) s' := by
  induction bs generalizing s with
  | nil =>
      simp only [execute, Option.some.injEq] at h
      subst h
      exact Runs.nil
  | cons b bs ih =>
      simp only [execute] at h
      cases hm : play s b with
      | none => simp [hm] at h
      | some p =>
          simp only [hm, Option.bind_some] at h
          have hfirst : Runs step s [⟨s, p.1, p.2⟩] p.2 := Runs.snoc Runs.nil (hplay s b p.1 p.2 hm)
          have hall := hfirst.append (ih h)
          simpa [transitions, hm] using hall

theorem execute_ends {β : Type*} {play : σ → β → Option (α × σ)} {p : σ → Bool} {bs : List β}
    (hplay : ∀ s b a s', play s b = some (a, s') → step s a s')
    (h : (execute play s bs).any p = true) :
    ∃ s', Runs step s (transitions play s bs) s' ∧ p s' = true := by
  obtain ⟨s', hs', hp⟩ := (Option.any_eq_true _ _).mp h
  exact ⟨s', execute_runs hplay hs', hp⟩

theorem actions_transitions {β : Type*} {play : σ → β → Option (α × σ)} {action : β → α}
    (hplay : ∀ s b a s', play s b = some (a, s') → a = action b) {bs : List β}
    (h : (execute play s bs).isSome = true) :
    (transitions play s bs).map (·.action) = bs.map action := by
  induction bs generalizing s with
  | nil => rfl
  | cons b bs ih =>
      cases hm : play s b with
      | none => simp [execute, hm] at h
      | some p =>
          obtain ⟨a, m⟩ := p
          obtain rfl := hplay s b a m hm
          simp only [execute, hm, Option.bind_some] at h
          simp [transitions, hm, ih h]

theorem eq_some_of_paired {o : Option σ} {a b : α} (h : (o.map fun s' => (b, s')) = some (a, s)) :
    b = a ∧ o = some s := by
  obtain ⟨m, hm, heq⟩ := Option.map_eq_some_iff.mp h
  obtain ⟨rfl, rfl⟩ := Prod.mk.inj heq
  exact ⟨rfl, hm⟩

theorem Runs.filter (h : Runs step s ts s') {p : Transition σ α → Bool}
    (hidle : ∀ t ∈ ts, step t.before t.action t.after → p t = false → t.after = t.before) :
    Runs step s (ts.filter p) s' := by
  refine h.invariant (fun ts m => Runs step s (ts.filter p) m) Runs.nil ?_
  intro pre t post heq _ hs ih
  rw [List.filter_append]
  cases hp : p t with
  | false =>
      have ht : t ∈ ts := heq ▸ List.mem_append_right _ List.mem_cons_self
      rw [List.filter_cons_of_neg (by simp [hp]), List.filter_nil, List.append_nil,
        hidle t ht hs hp]
      exact ih
  | true =>
      rw [List.filter_cons_of_pos hp, List.filter_nil]
      exact Runs.snoc ih hs

/-! ## A part of a system -/

section Part

variable {τ β : Type*} {partStep : τ → β → τ → Prop}

/-- The steps of a part: those whose label is an action of it. -/
def partSteps (part : σ → τ) (label : Transition σ α → Option β) (ts : List (Transition σ α)) :
    List (Transition τ β) :=
  ts.filterMap fun t => (label t).map fun b => ⟨part t.before, b, part t.after⟩

theorem mem_partSteps {part : σ → τ} {label : Transition σ α → Option β} {u : Transition τ β} :
    u ∈ partSteps part label ts ↔
      ∃ t ∈ ts, ∃ b, label t = some b ∧ ⟨part t.before, b, part t.after⟩ = u := by
  simp [partSteps, Option.map_eq_some_iff]

/-- If each step makes the step of its label in the part, or leaves the part as it is where it has
none, then a run is a run of the part. -/
theorem Runs.part (h : Runs step s ts s') (part : σ → τ) (label : Transition σ α → Option β)
    (hmove : ∀ t ∈ ts, step t.before t.action t.after → ∀ b, label t = some b →
      partStep (part t.before) b (part t.after))
    (hkept : ∀ t ∈ ts, step t.before t.action t.after → label t = none →
      part t.after = part t.before) :
    Runs partStep (part s) (partSteps part label ts) (part s') := by
  refine h.invariant (fun ts m => Runs partStep (part s) (partSteps part label ts) (part m))
    Runs.nil ?_
  intro pre t post heq _ hs ih
  have ht : t ∈ ts := heq ▸ List.mem_append_right _ List.mem_cons_self
  unfold partSteps at ih ⊢
  rw [List.filterMap_append]
  cases hlabel : label t with
  | none =>
      rw [List.filterMap_cons_none (by rw [hlabel]; rfl), List.filterMap_nil, List.append_nil,
        hkept t ht hs hlabel]
      exact ih
  | some b =>
      rw [List.filterMap_cons_some (by rw [hlabel]; rfl), List.filterMap_nil]
      exact Runs.snoc ih (hmove t ht hs b hlabel)

end Part

end Run
