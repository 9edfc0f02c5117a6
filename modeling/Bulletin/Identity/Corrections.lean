import Bulletin.Cluster.Model
import Bulletin.Identity.Resolve
import Bulletin.Thread.Store

/-! # Corrections of identities

A link correction goes into the log and, in one transaction, into the graph of edges. A row of
the graph is keyed by its two tokens as the correction names them, and the resolver reads it as
a pair without an order. The last correction of a pair holds unless the two orders of its
tokens were last corrected in opposite ways.
-/

namespace Bulletin

namespace Identity

/-! ## Rows of the graph -/

/-- A positive edge, or a veto where the confidence is negative. -/
structure EntityEdge (F : Type) where
  scope : Scope
  a : String
  b : String
  confidence : F
  source : EdgeSource

section Store

variable {F : Type} [Score F]

def EntityEdge.key (row : EntityEdge F) : Scope × String × String := (row.scope, row.a, row.b)

def loadEdges (graph : List (EntityEdge F)) (sub : Uuid) : List (Edge F) :=
  (graph.filter fun row => row.scope.visibleTo sub ∧
    Score.ge row.confidence (Score.lit 0)).map fun row =>
      { a := row.a, b := row.b, confidence := row.confidence, source := row.source }

def loadVetoes (graph : List (EntityEdge F)) (sub : Uuid) : List (String × String) :=
  (graph.filter fun row => row.scope.visibleTo sub ∧
    Score.lt row.confidence (Score.lit 0)).map fun row => (row.a, row.b)

def upsert (row : EntityEdge F) (graph : List (EntityEdge F)) : List (EntityEdge F) :=
  if graph.any (·.key = row.key) then graph.map fun r => if r.key = row.key then row else r
  else graph ++ [row]

def upsertMustLink (scope : Scope) (edge : Edge F) : List (EntityEdge F) → List (EntityEdge F) :=
  upsert { scope := scope, a := edge.a, b := edge.b, confidence := Score.lit 1,
           source := edge.source }

def upsertVeto (scope : Scope) (a b : String) : List (EntityEdge F) → List (EntityEdge F) :=
  upsert { scope := scope, a := a, b := b, confidence := Score.lit (-1), source := .feedback }

omit [Score F] in
theorem mem_upsert {row r : EntityEdge F} {graph : List (EntityEdge F)} :
    r ∈ upsert row graph ↔ r = row ∨ (r ∈ graph ∧ r.key ≠ row.key) := by
  unfold upsert
  split
  · rename_i hany
    obtain ⟨old, hold, hkey⟩ := List.any_eq_true.mp hany
    rw [List.mem_map]
    constructor
    · rintro ⟨q, hq, rfl⟩
      by_cases hqk : q.key = row.key
      · exact Or.inl (if_pos hqk)
      · rw [if_neg hqk]
        exact Or.inr ⟨hq, hqk⟩
    · intro h
      rcases h with rfl | ⟨hr, hrk⟩
      · exact ⟨old, hold, if_pos (of_decide_eq_true hkey)⟩
      · exact ⟨r, hr, if_neg hrk⟩
  · rename_i hany
    have hfresh : ∀ q ∈ graph, q.key ≠ row.key := by
      intro q hq hqk
      exact hany (List.any_eq_true.mpr ⟨q, hq, decide_eq_true hqk⟩)
    rw [List.mem_append, List.mem_singleton]
    constructor
    · intro h
      rcases h with h | h
      · exact Or.inr ⟨h, hfresh r h⟩
      · exact Or.inl h
    · intro h
      rcases h with h | h
      · exact Or.inr h
      · exact Or.inl h.1

end Store

/-! ## Submissions -/

/-- A correction as it is submitted, and as the log keeps it. -/
structure Submission where
  subscriberId : Uuid
  targetType : TargetType
  targetId : String
  signal : Signal
  other : Option String
deriving DecidableEq, Repr

/-- The two tokens a link correction names, in its order. -/
def Submission.tokens (c : Submission) : Option (String × String) :=
  let a := canonicalize c.targetId
  let b := (c.other.map canonicalize).filter (· ≠ "")
  if c.targetType = .entity ∧ a ≠ "" then b.map fun b => (a, b) else none

/-- The log of corrections and the graph of identities. -/
structure Corrections (F : Type) where
  feedback : List Submission
  graph : List (EntityEdge F)

section Submit

variable {F : Type} [SelectScore F]

def Submission.materialize (c : Submission) (graph : List (EntityEdge F)) :
    List (EntityEdge F) :=
  match c.signal, c.tokens with
  | .mustLink, some (a, b) =>
      upsertMustLink (.ofPrivate c.subscriberId) (Edge.ofSource a b .feedback) graph
  | .cannotLink, some (a, b) => upsertVeto (.ofPrivate c.subscriberId) a b graph
  | _, _ => graph

def submit (s : Corrections F) (c : Submission) : Corrections F where
  feedback := s.feedback ++ [c]
  graph := c.materialize s.graph

/-- The state after the corrections, in their order. -/
def submitAll (F : Type) [SelectScore F] (history : List Submission) : Corrections F :=
  history.foldl submit { feedback := [], graph := [] }

/-! ## The pass that resolves identities -/

structure IdentityConfig (F : Type) where
  /-- An edge below it joins nothing. -/
  theta : F
  /-- A similarity below it proposes no edge. -/
  lexicalThreshold : F

def IdentityConfig.default (F : Type) [Score F] : IdentityConfig F where
  theta := Score.lit (8 / 10)
  lexicalThreshold := Score.lit (8 / 10)

def passVetoes (graph : List (EntityEdge F)) (sub : Uuid) : List (String × String) :=
  (loadVetoes graph sub).map fun p => pair p.1 p.2

/-- The stored edges, and those proposed among the tokens of the pass. -/
def passEdges (cfg : IdentityConfig F) (graph : List (EntityEdge F)) (sub : Uuid)
    (nodes : List String) : List (Edge F) :=
  loadEdges graph sub ++ lexicalEdges (passVetoes graph sub) cfg.lexicalThreshold nodes

/-- The identities a pass over the tokens of a subscriber's stories works with. -/
def passResolution (cfg : IdentityConfig F) (graph : List (EntityEdge F)) (sub : Uuid)
    (nodes : List String) : Resolution :=
  resolve nodes (passEdges cfg graph sub nodes) (passVetoes graph sub) cfg.theta []

end Submit

/-! ## The last correction of a pair -/

/-- The link signal of a correction by the subscriber that names `a` first and `b` second. -/
def Submission.linkFrom (c : Submission) (sub : Uuid) (a b : String) : Option Signal :=
  if c.subscriberId = sub ∧ c.tokens = some (a, b) ∧ c.signal ∈ [Signal.mustLink, .cannotLink]
  then some c.signal else none

/-- The link signal of a correction about the two tokens, in either order. -/
def Submission.linkOf (c : Submission) (sub : Uuid) (x y : String) : Option Signal :=
  (c.linkFrom sub x y).or (c.linkFrom sub y x)

/-- How the tokens were last corrected in this order. -/
def lastLinkFrom (history : List Submission) (sub : Uuid) (a b : String) : Option Signal :=
  (history.filterMap (·.linkFrom sub a b)).getLast?

/-- How the tokens were last corrected. -/
def lastLink (history : List Submission) (sub : Uuid) (x y : String) : Option Signal :=
  (history.filterMap (·.linkOf sub x y)).getLast?

section LastLink

variable {sub : Uuid} {x y : String} {history : List Submission}

theorem lastLinkFrom_snoc {c : Submission} : lastLinkFrom (history ++ [c]) sub x y =
    (c.linkFrom sub x y).or (lastLinkFrom history sub x y) := by
  unfold lastLinkFrom
  rw [List.filterMap_append, List.getLast?_append]
  cases h : c.linkFrom sub x y with
  | none => simp [h]
  | some signal => simp [h]

theorem lastLink_snoc {c : Submission} : lastLink (history ++ [c]) sub x y =
    (c.linkOf sub x y).or (lastLink history sub x y) := by
  unfold lastLink
  rw [List.filterMap_append, List.getLast?_append]
  cases h : c.linkOf sub x y with
  | none => simp [h]
  | some signal => simp [h]

theorem lastLinkFrom_link {signal : Signal} (h : lastLinkFrom history sub x y = some signal) :
    signal = .mustLink ∨ signal = .cannotLink := by
  have hmem := List.mem_of_getLast? h
  obtain ⟨c, _, hc⟩ := List.mem_filterMap.mp hmem
  unfold Submission.linkFrom at hc
  split at hc
  · rename_i hlink
    cases hc
    simpa using hlink.2.2
  · cases hc

/-- The last correction of a pair is the last one in one of its two orders, and a pair that was
corrected in some order has a last correction. -/
theorem lastLink_cases :
    (lastLink history sub x y = lastLinkFrom history sub x y ∧
      (lastLinkFrom history sub x y = none → lastLinkFrom history sub y x = none)) ∨
    (lastLink history sub x y = lastLinkFrom history sub y x ∧
      (lastLinkFrom history sub y x = none → lastLinkFrom history sub x y = none)) := by
  induction history using List.reverseRecOn with
  | nil => exact Or.inl ⟨rfl, fun _ => rfl⟩
  | append_singleton history c ih =>
      rw [lastLink_snoc, lastLinkFrom_snoc, lastLinkFrom_snoc]
      unfold Submission.linkOf
      cases hfirst : c.linkFrom sub x y with
      | some signal => exact Or.inl ⟨rfl, fun h => by cases h⟩
      | none =>
          cases hsecond : c.linkFrom sub y x with
          | some signal => exact Or.inr ⟨rfl, fun h => by cases h⟩
          | none => exact ih

end LastLink

/-! ## The graph holds the last correction in each order -/

section Graph

variable {F : Type} [SelectScore F]

def linkRow (F : Type) [Score F] (sub : Uuid) (a b : String) (signal : Signal) : EntityEdge F where
  scope := .ofPrivate sub
  a := a
  b := b
  confidence := Score.lit (if signal = .mustLink then 1 else -1)
  source := .feedback

theorem Submission.materialize_cases (c : Submission) (graph : List (EntityEdge F)) :
    (∃ a b signal, c.materialize graph = upsert (linkRow F c.subscriberId a b signal) graph ∧
      ∀ sub x y, c.linkFrom sub x y =
        if c.subscriberId = sub ∧ (a, b) = (x, y) then some signal else none) ∨
    (c.materialize graph = graph ∧ ∀ sub x y, c.linkFrom sub x y = none) := by
  unfold Submission.materialize Submission.linkFrom
  cases htokens : c.tokens with
  | none => exact Or.inr ⟨by split <;> simp_all, by simp⟩
  | some p =>
      cases hsignal : c.signal with
      | mustLink => exact Or.inl ⟨p.1, p.2, .mustLink, rfl, by simp⟩
      | cannotLink => exact Or.inl ⟨p.1, p.2, .cannotLink, rfl, by simp⟩
      | careMore => exact Or.inr ⟨rfl, by simp⟩
      | careLess => exact Or.inr ⟨rfl, by simp⟩
      | done => exact Or.inr ⟨rfl, by simp⟩

theorem submitAll_snoc {history : List Submission} {c : Submission} :
    submitAll F (history ++ [c]) = submit (submitAll F history) c := by
  simp [submitAll]

theorem submitAll_feedback (history : List Submission) :
    (submitAll F history).feedback = history := by
  induction history using List.reverseRecOn with
  | nil => rfl
  | append_singleton history c ih =>
      rw [submitAll_snoc]
      exact congrArg (· ++ [c]) ih

/-- The rows of the graph are those of the last corrections, one for each order of tokens. -/
theorem mem_graph {history : List Submission} {row : EntityEdge F} :
    row ∈ (submitAll F history).graph ↔ ∃ sub a b signal,
      lastLinkFrom history sub a b = some signal ∧ row = linkRow F sub a b signal := by
  induction history using List.reverseRecOn with
  | nil => simp [submitAll, lastLinkFrom]
  | append_singleton history c ih =>
      rw [submitAll_snoc]
      simp only [lastLinkFrom_snoc]
      rcases c.materialize_cases (submitAll F history).graph with
        ⟨a, b, signal, hgraph, hlink⟩ | ⟨hgraph, hlink⟩
      · have hkey : ∀ sub x y s, (linkRow F sub x y s).key =
            (linkRow F c.subscriberId a b signal).key ↔ c.subscriberId = sub ∧ (a, b) = (x, y) := by
          intro sub x y s
          simp [EntityEdge.key, linkRow, eq_comm]
        unfold submit
        dsimp only
        rw [hgraph, mem_upsert, ih]
        constructor
        · intro h
          rcases h with h | ⟨⟨sub, x, y, s, hlast, rfl⟩, hother⟩
          · exact ⟨c.subscriberId, a, b, signal, by rw [hlink]; simp, h⟩
          · refine ⟨sub, x, y, s, ?_, rfl⟩
            rw [hlink, if_neg (fun h => hother ((hkey sub x y s).mpr h))]
            exact hlast
        · rintro ⟨sub, x, y, s, hlast, rfl⟩
          rw [hlink] at hlast
          by_cases hsame : c.subscriberId = sub ∧ (a, b) = (x, y)
          · rw [if_pos hsame] at hlast
            obtain ⟨rfl, hpair⟩ := hsame
            cases hpair
            cases hlast
            exact Or.inl rfl
          · rw [if_neg hsame] at hlast
            exact Or.inr ⟨⟨sub, x, y, s, hlast, rfl⟩, fun h => hsame ((hkey sub x y s).mp h)⟩
      · unfold submit
        dsimp only
        rw [hgraph, ih]
        simp only [hlink, Option.none_or]

end Graph

/-! ## The latest correction wins -/

section LatestWins

variable {history : List Submission} {sub : Uuid} {x y : String}

theorem linkRow_vetoes {owner : Uuid} {a b : String} {signal : Signal} :
    (linkRow ℚ owner a b signal).scope.visibleTo sub ∧
      Score.lt (linkRow ℚ owner a b signal).confidence (Score.lit 0) ↔
        owner = sub ∧ signal ≠ .mustLink := by
  by_cases hmust : signal = .mustLink <;>
    simp [linkRow, hmust, Scope.visibleTo, Score.lt, Score.partialCmp, Score.lit,
      compare_lt_iff_lt]

theorem linkRow_joins {owner : Uuid} {a b : String} {signal : Signal} :
    (linkRow ℚ owner a b signal).scope.visibleTo sub ∧
      Score.ge (linkRow ℚ owner a b signal).confidence (Score.lit 0) ↔
        owner = sub ∧ signal = .mustLink := by
  by_cases hmust : signal = .mustLink <;>
    simp [linkRow, hmust, Scope.visibleTo, Score.ge, Score.partialCmp, Score.lit,
      compare_gt_iff_gt]

/-- The stored vetoes are the pairs whose last correction in that order is a veto. -/
theorem mem_loadVetoes {a b : String} : (a, b) ∈ loadVetoes (submitAll ℚ history).graph sub ↔
    lastLinkFrom history sub a b = some .cannotLink := by
  unfold loadVetoes
  simp only [List.mem_map, List.mem_filter, decide_eq_true_eq, mem_graph]
  constructor
  · rintro ⟨row, ⟨⟨owner, x, y, signal, hlast, rfl⟩, hveto⟩, hpair⟩
    obtain ⟨rfl, hsignal⟩ := linkRow_vetoes.mp hveto
    cases hpair
    rcases lastLinkFrom_link hlast with rfl | rfl
    · exact absurd rfl hsignal
    · exact hlast
  · intro hlast
    exact ⟨linkRow ℚ sub a b .cannotLink, ⟨⟨sub, a, b, .cannotLink, hlast, rfl⟩,
      linkRow_vetoes.mpr ⟨rfl, by simp⟩⟩, rfl⟩

/-- The stored edges are those of the pairs whose last correction in that order is a link. -/
theorem mem_loadEdges {e : Edge ℚ} : e ∈ loadEdges (submitAll ℚ history).graph sub ↔
    lastLinkFrom history sub e.a e.b = some .mustLink ∧ e = Edge.ofSource e.a e.b .feedback := by
  unfold loadEdges
  simp only [List.mem_map, List.mem_filter, decide_eq_true_eq, mem_graph]
  constructor
  · rintro ⟨row, ⟨⟨owner, x, y, signal, hlast, rfl⟩, hjoin⟩, rfl⟩
    obtain ⟨rfl, rfl⟩ := linkRow_joins.mp hjoin
    exact ⟨hlast, rfl⟩
  · rintro ⟨hlast, he⟩
    exact ⟨linkRow ℚ sub e.a e.b .mustLink, ⟨⟨sub, e.a, e.b, .mustLink, hlast, rfl⟩,
      linkRow_joins.mpr ⟨rfl, rfl⟩⟩, he.symm⟩

theorem vetoed_iff : (∃ p ∈ loadVetoes (submitAll ℚ history).graph sub, pair p.1 p.2 = pair x y) ↔
    lastLinkFrom history sub x y = some .cannotLink ∨
      lastLinkFrom history sub y x = some .cannotLink := by
  rw [← mem_loadVetoes, ← mem_loadVetoes]
  constructor
  · rintro ⟨p, hp, hpair⟩
    rcases pair_eq_iff.mp hpair with ⟨ha, hb⟩ | ⟨ha, hb⟩
    · exact Or.inl (ha ▸ hb ▸ hp)
    · exact Or.inr (ha ▸ hb ▸ hp)
  · intro h
    rcases h with h | h
    · exact ⟨(x, y), h, rfl⟩
    · exact ⟨(y, x), h, pair_comm y x⟩

theorem linked_iff : (∃ e ∈ loadEdges (submitAll ℚ history).graph sub,
      e.source = .feedback ∧ e.Joins x y) ↔
    lastLinkFrom history sub x y = some .mustLink ∨
      lastLinkFrom history sub y x = some .mustLink := by
  constructor
  · rintro ⟨e, he, _, hjoins⟩
    have hlast := (mem_loadEdges.mp he).1
    rcases pair_eq_iff.mp hjoins with ⟨ha, hb⟩ | ⟨ha, hb⟩
    · exact Or.inl (ha ▸ hb ▸ hlast)
    · exact Or.inr (ha ▸ hb ▸ hlast)
  · intro h
    rcases h with h | h
    · exact ⟨Edge.ofSource x y .feedback, mem_loadEdges.mpr ⟨h, rfl⟩, rfl, rfl⟩
    · exact ⟨Edge.ofSource y x .feedback, mem_loadEdges.mpr ⟨h, rfl⟩, rfl, pair_comm y x⟩

theorem mem_passVetoes {graph : List (EntityEdge ℚ)} : pair x y ∈ passVetoes graph sub ↔
    ∃ p ∈ loadVetoes graph sub, pair p.1 p.2 = pair x y := by
  simp [passVetoes]

/-- The last correction of a pair decides what is stored and what the next pass does with it. -/
structure LatestWins (s : Corrections ℚ) (sub : Uuid) (x y : String) : Prop where
  vetoed : (∃ p ∈ loadVetoes s.graph sub, pair p.1 p.2 = pair x y) ↔
    lastLink s.feedback sub x y = some .cannotLink
  linked : (∃ e ∈ loadEdges s.graph sub, e.source = .feedback ∧ e.Joins x y) ↔
    lastLink s.feedback sub x y = some .mustLink
  /-- A link is stronger than any threshold of at most one. -/
  joined : lastLink s.feedback sub x y = some .mustLink →
    ∀ (cfg : IdentityConfig ℚ) (nodes : List String), cfg.theta ≤ 1 →
      (passResolution cfg s.graph sub nodes).representative x =
        (passResolution cfg s.graph sub nodes).representative y
  /-- No edge that the resolver walks is one between the two. -/
  parted : lastLink s.feedback sub x y = some .cannotLink →
    ∀ (cfg : IdentityConfig ℚ) (nodes : List String), ∀ e ∈ eligibleEdges
      (passEdges cfg s.graph sub nodes) (passVetoes s.graph sub) cfg.theta, ¬ e.Joins x y

/-- The two orders of the tokens were not last corrected in opposite ways. -/
def SidesAgree (history : List Submission) (sub : Uuid) (x y : String) : Prop :=
  ∀ first second, lastLinkFrom history sub x y = some first →
    lastLinkFrom history sub y x = some second → first = second

theorem SidesAgree.lastLink_iff (h : SidesAgree history sub x y) {signal : Signal} :
    lastLinkFrom history sub x y = some signal ∨ lastLinkFrom history sub y x = some signal ↔
      lastLink history sub x y = some signal := by
  have hcases := @lastLink_cases sub x y history
  constructor
  · intro hside
    cases hfirst : lastLinkFrom history sub x y with
    | none => grind
    | some first =>
        cases hsecond : lastLinkFrom history sub y x with
        | none => grind
        | some second =>
            have heq := h first second hfirst hsecond
            grind
  · intro hlast
    rcases hcases with ⟨hlink, _⟩ | ⟨hlink, _⟩
    · exact Or.inl (hlink ▸ hlast)
    · exact Or.inr (hlink ▸ hlast)

/-- After any history, the last correction of a pair holds exactly if the two orders in which
its tokens were named were not last corrected in opposite ways. -/
theorem latest_correction_wins_iff (history : List Submission) (sub : Uuid) (x y : String) :
    LatestWins (submitAll ℚ history) sub x y ↔ SidesAgree history sub x y := by
  constructor
  · intro h first second hfirst hsecond
    have hveto := h.vetoed
    have hlink := h.linked
    rw [submitAll_feedback] at hveto hlink
    rw [vetoed_iff] at hveto
    rw [linked_iff] at hlink
    rcases lastLinkFrom_link hfirst with rfl | rfl <;>
      rcases lastLinkFrom_link hsecond with rfl | rfl
    · rfl
    · have hlast := hlink.mp (Or.inl hfirst)
      rw [hveto.mp (Or.inr hsecond)] at hlast
      cases hlast
    · have hlast := hlink.mp (Or.inr hsecond)
      rw [hveto.mp (Or.inl hfirst)] at hlast
      cases hlast
    · rfl
  · intro h
    have hveto : (∃ p ∈ loadVetoes (submitAll ℚ history).graph sub, pair p.1 p.2 = pair x y) ↔
        lastLink history sub x y = some .cannotLink := vetoed_iff.trans h.lastLink_iff
    have hlink : (∃ e ∈ loadEdges (submitAll ℚ history).graph sub,
        e.source = .feedback ∧ e.Joins x y) ↔ lastLink history sub x y = some .mustLink :=
      linked_iff.trans h.lastLink_iff
    refine { vetoed := ?_, linked := ?_, joined := ?_, parted := ?_ } <;>
      rw [submitAll_feedback]
    · exact hveto
    · exact hlink
    · intro hlast cfg nodes htheta
      obtain ⟨e, he, _, hjoins⟩ := hlink.mpr hlast
      have hconfidence : e.confidence = 1 := by
        rw [(mem_loadEdges.mp he).2]
        exact Rat.cast_one
      have hstrong : Score.ge e.confidence cfg.theta = true := by
        rw [hconfidence]
        simpa [Score.ge, Score.partialCmp, compare_gt_iff_gt] using
          (lt_or_eq_of_le htheta).imp_right Eq.symm
      have hfree : pair e.a e.b ∉ passVetoes (submitAll ℚ history).graph sub := by
        intro hin
        rw [hjoins, mem_passVetoes, hveto, hlast] at hin
        cases hin
      have hin : e ∈ passEdges cfg (submitAll ℚ history).graph sub nodes :=
        List.mem_append_left _ he
      have hrep : (passResolution cfg (submitAll ℚ history).graph sub nodes).representative e.a =
          (passResolution cfg (submitAll ℚ history).graph sub nodes).representative e.b :=
        resolve_joins hin hstrong hfree
      rcases pair_eq_iff.mp hjoins with ⟨ha, hb⟩ | ⟨ha, hb⟩
      · rw [← ha, ← hb]
        exact hrep
      · rw [← ha, ← hb]
        exact hrep.symm
    · intro hlast cfg nodes e he hjoins
      refine (mem_eligibleEdges.mp he).2.2 ?_
      rw [hjoins, mem_passVetoes, hveto]
      exact hlast

def crossedCorrections : List Submission :=
  [{ subscriberId := 7, targetType := .entity, targetId := "user:dlewis",
     signal := .cannotLink, other := some "user:dana" },
   { subscriberId := 7, targetType := .entity, targetId := "user:dana",
     signal := .mustLink, other := some " User:dlewis" }]

/-- The veto stands although it was taken back last, and the next pass keeps the two apart. -/
theorem crossed_veto_stands :
    lastLink (submitAll ℚ crossedCorrections).feedback 7 "user:dlewis" "user:dana" =
      some .mustLink ∧
    (passResolution (IdentityConfig.default ℚ) (submitAll ℚ crossedCorrections).graph 7
      ["user:dana", "user:dlewis"]).representative "user:dlewis" = "user:dlewis" ∧
    (passResolution (IdentityConfig.default ℚ) (submitAll ℚ crossedCorrections).graph 7
      ["user:dana", "user:dlewis"]).representative "user:dana" = "user:dana" ∧
    ¬ LatestWins (submitAll ℚ crossedCorrections) 7 "user:dlewis" "user:dana" := by
  have hlast : lastLink (submitAll ℚ crossedCorrections).feedback 7 "user:dlewis" "user:dana" =
      some .mustLink := by decide +kernel
  have hleft : (passResolution (IdentityConfig.default ℚ) (submitAll ℚ crossedCorrections).graph 7
      ["user:dana", "user:dlewis"]).representative "user:dlewis" = "user:dlewis" := by
    decide +kernel
  have hright : (passResolution (IdentityConfig.default ℚ) (submitAll ℚ crossedCorrections).graph 7
      ["user:dana", "user:dlewis"]).representative "user:dana" = "user:dana" := by
    decide +kernel
  refine ⟨hlast, hleft, hright, fun h => ?_⟩
  have hjoined := h.joined hlast (IdentityConfig.default ℚ) ["user:dana", "user:dlewis"]
    (by decide +kernel)
  rw [hleft, hright] at hjoined
  exact absurd hjoined (by decide)

end LatestWins

end Identity

end Bulletin
