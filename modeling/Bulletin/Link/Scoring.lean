import Mathlib.Data.Fin.VecNotation
import Bulletin.Core.Buckets
import Bulletin.Common.Entity
import Bulletin.Link.Model

/-! # Edge scoring

An inverted index over the linkable entities yields the pairs that share a key;
each shared entity adds its graded weight to the pair. A pair with a strong key
becomes a strong edge, any other pair must clear the weak thresholds.
-/

namespace Bulletin

variable {n : Nat} {F : Type} [Score F]

/-! ## Tunables -/

def wJaccard : F := Score.lit (7 / 10)

def wTemporal : F := Score.lit (3 / 10)

def weakEdgeThreshold : F := Score.lit (35 / 100)

def weakMinJaccard : F := Score.lit (2 / 10)

def saturatedWj : F := Score.lit (999 / 1000)

def minSaturatedSharedWeight : F := Score.lit (12 / 10)

def temporalWindowDays : F := Score.lit 14

/-! ## Entity weights -/

def namespacePrior (entity : String) : F :=
  match (splitNamespace entity).map Prod.fst with
  | some "cve" | some "url" => Score.lit 1
  | some "person" => Score.lit 1
  | some "repo" | some "user" => Score.lit (9 / 10)
  | some "org" => Score.lit (8 / 10)
  | some "place" => Score.lit (7 / 10)
  | _ => Score.lit 0

/-- Smoothed inverse document frequency over a candidate set of `n` clusters. -/
def idf (df n : Nat) : F :=
  Score.ln ((Score.lit n + Score.lit 1) / (Score.lit df + Score.lit 1)) + Score.lit 1

/-- Namespace prior times inverse document frequency times the feedback multiplier. -/
def entityWeight (entity : String) (df n : Nat) (overrides : EntityWeights F) : F :=
  namespacePrior entity * idf df n * (overrides[entity]?).getD (Score.lit 1)

/-! ## Blocking -/

/-- Every linkable entity of every cluster, with the cluster's index. -/
def postings (clusters : Fin n → LinkCluster) : List (String × Fin n) :=
  (List.finRange n).flatMap fun i =>
    ((clusters i).entities.filter fun e => (linkStrength e).isSome).map fun e => (e, i)

/-- The inverted index from a linkable entity to the clusters that carry it. -/
def entityIndex (clusters : Fin n → LinkCluster) : Std.ExtTreeMap String (List (Fin n)) compare :=
  Buckets.collect Prod.fst (fun entry posting => entry.getD [] ++ [posting.2]) (postings clusters) ∅

/-- What one candidate pair accumulates over the entities its clusters share. -/
structure PairAcc (F : Type) where
  sharedWeight : F
  strongKey : Option String
  bestWeak : Option (F × String)

def PairAcc.empty : PairAcc F := ⟨Score.lit 0, none, none⟩

/-- One more shared entity: a strong key keeps the first, a weak one the heaviest. -/
def PairAcc.add (p : PairAcc F) (entity : String) (w : F) : PairAcc F where
  sharedWeight := p.sharedWeight + w
  strongKey := if linkStrength entity = some .strong then p.strongKey.or (some entity)
    else p.strongKey
  bestWeak := if linkStrength entity = some .strong then p.bestWeak
    else match p.bestWeak with
      | none => some (w, entity)
      | some (bw, best) => if Score.gt w bw then some (w, entity) else some (bw, best)

def pairKey (i j : Fin n) : Fin n ×ₗ Fin n := toLex (min i j, max i j)

def pairsOf : List (Fin n) → List (Fin n × Fin n)
  | [] => []
  | i :: rest => rest.map (fun j => (i, j)) ++ pairsOf rest

structure Meeting (n : Nat) (F : Type) where
  pair : Fin n × Fin n
  entity : String
  weight : F

section Scoring

variable (clusters : Fin n → LinkCluster) (entityWeights : EntityWeights F)

def gradedIndex : List (String × List (Fin n) × F) :=
  (entityIndex clusters).toList.map fun entry =>
    (entry.1, entry.2, entityWeight entry.1 entry.2.length n entityWeights)

def clusterWeights : Fin n → F :=
  (gradedIndex clusters entityWeights).foldl
    (fun cw entry => entry.2.1.foldl (fun cw i => Function.update cw i (cw i + entry.2.2)) cw)
    fun _ => Score.lit 0

def meetings : List (Meeting n F) :=
  (gradedIndex clusters entityWeights).flatMap fun entry =>
    (pairsOf entry.2.1).map fun pair => ⟨pair, entry.1, entry.2.2⟩

instance transOrdPair {n : Nat} : Std.TransOrd (Fin n ×ₗ Fin n) := inferInstance

def pairAccs : Std.ExtTreeMap (Fin n ×ₗ Fin n) (PairAcc F) compare :=
  Buckets.collect (fun m : Meeting n F => pairKey m.pair.1 m.pair.2)
    (fun entry m => (entry.getD .empty).add m.entity m.weight) (meetings clusters entityWeights) ∅

end Scoring

/-! ## Edges -/

/-- One for clusters of the same instant, falling to zero across the window. -/
def temporalCloseness (a b : LinkCluster) : F :=
  let deltaDays : F :=
    Score.lit |numSeconds (a.lastEventTime - b.lastEventTime)| / Score.lit 86400
  Score.max (Score.lit 1 - deltaDays / temporalWindowDays) (Score.lit 0)

/-- Turn a candidate pair into an edge, or `none` when it does not clear the bar. -/
def buildEdge (a b : Fin n) (p : PairAcc F) (clusters : Fin n → LinkCluster)
    (clusterWeight : Fin n → F) : Option (Edge n F) :=
  match p.strongKey with
  | some key => some ⟨a, b, true, Score.lit 1, "shared " ++ key⟩
  | none =>
      let union := clusterWeight a + clusterWeight b - p.sharedWeight
      let wj := if Score.gt union (Score.lit 0) then p.sharedWeight / union else Score.lit 0
      let score := wJaccard * wj + wTemporal * temporalCloseness (clusters a) (clusters b)
      if Score.lt score weakEdgeThreshold || Score.lt wj weakMinJaccard then none
      -- A saturated ratio says nothing about how common the shared token is.
      else if Score.ge wj saturatedWj && Score.lt p.sharedWeight minSaturatedSharedWeight then none
      else p.bestWeak.map fun best => ⟨a, b, false, score, "shared " ++ best.2⟩

/-- The edges that clear the bar, in the order of their endpoints. -/
def scoreEdges (clusters : Fin n → LinkCluster) (entityWeights : EntityWeights F) :
    List (Edge n F) :=
  (pairAccs clusters entityWeights).toList.filterMap fun entry =>
    buildEdge (ofLex entry.1).1 (ofLex entry.1).2 entry.2 clusters
      (clusterWeights clusters entityWeights)

/-! ## Feedback constraints -/

def indexOf (clusters : Fin n → LinkCluster) (id : Uuid) : Option (Fin n) :=
  (List.finRange n).find? fun i => (clusters i).id = id

def pairId (clusters : Fin n → LinkCluster) (e : Edge n F) : Uuid ×ₗ Uuid :=
  LinkConstraints.key (clusters e.a).id (clusters e.b).id

def forceEdge (a b : Fin n) : List (Edge n F) → List (Edge n F)
  | [] => [⟨a, b, true, Score.lit 1, "must-link (feedback)"⟩]
  | e :: es =>
      if e.a = a ∧ e.b = b then
        { e with strong := true, score := Score.lit 1, reason := "must-link (feedback)" } :: es
      else e :: forceEdge a b es

/-- One must-link pair; a pair that names a cluster outside the slice is inert. -/
def applyMust (clusters : Fin n → LinkCluster) (edges : List (Edge n F)) (pair : Uuid ×ₗ Uuid) :
    List (Edge n F) :=
  match indexOf clusters (ofLex pair).1, indexOf clusters (ofLex pair).2 with
  | some i, some j => if i = j then edges else forceEdge (min i j) (max i j) edges
  | _, _ => edges

/-- Drop the edges a cannot-link forbids, then force the must-link ones. -/
def applyConstraints (edges : List (Edge n F)) (clusters : Fin n → LinkCluster)
    (c : LinkConstraints) : List (Edge n F) :=
  c.mustLink.toList.foldl (applyMust clusters)
    (edges.filter fun e => ¬ c.cannotLink.contains (pairId clusters e))

end Bulletin
