import Bulletin.Core.Framing
import Bulletin.Summarize.ClusterSweep

/-! # What the signatures see

A sweep compares the signature on a row with that of what it would summarize now. Here the bytes
under both signatures are read back: a story's gives its members' hashes, as a multiset; a
cluster's gives its contents only up to where its lists are cut.
-/

namespace Bulletin

open Framing

/-! ## The signature of a story -/

/-- The bytes under a story's signature. -/
def storySigBytes (hashes : List (Option (List UInt8))) : List UInt8 :=
  (hashes.insertionSort fun x y => hashLe x y).flatMap fun h => h.getD [1] ++ [0]

theorem storySummarySig_eq (sha256 : List UInt8 → List UInt8)
    (hashes : List (Option (List UInt8))) :
    storySummarySig sha256 hashes = sha256 (storySigBytes hashes) := rfl

instance hashLe_total : Std.Total fun x y : Option (List UInt8) => hashLe x y = true where
  total x y := by
    cases x with
    | none => exact Or.inl rfl
    | some x =>
        cases y with
        | none => exact Or.inr rfl
        | some y => exact (List.le_total x y).imp decide_eq_true decide_eq_true

instance hashLe_trans : IsTrans (Option (List UInt8)) fun x y => hashLe x y = true where
  trans x y z hxy hyz := by
    cases x with
    | none => rfl
    | some x =>
        cases y with
        | none => cases hxy
        | some y =>
            cases z with
            | none => cases hyz
            | some z =>
                exact decide_eq_true
                  (List.le_trans (of_decide_eq_true hxy) (of_decide_eq_true hyz))

theorem hashLe_antisymm {x y : Option (List UInt8)} (hxy : hashLe x y = true)
    (hyx : hashLe y x = true) : x = y := by
  cases x with
  | none =>
      cases y with
      | none => rfl
      | some y => cases hyx
  | some x =>
      cases y with
      | none => cases hxy
      | some y =>
          exact congrArg some (List.le_antisymm (of_decide_eq_true hxy) (of_decide_eq_true hyx))

theorem storySummarySig_perm {sha256 : List UInt8 → List UInt8}
    {hashes hashes' : List (Option (List UInt8))} (h : hashes.Perm hashes') :
    storySummarySig sha256 hashes = storySummarySig sha256 hashes' := by
  have hsorted : (hashes.insertionSort fun x y => hashLe x y) =
      hashes'.insertionSort fun x y => hashLe x y :=
    List.Perm.eq_of_pairwise (fun x y _ _ hxy hyx => hashLe_antisymm hxy hyx)
      (List.pairwise_insertionSort (fun x y => hashLe x y = true) hashes)
      (List.pairwise_insertionSort (fun x y => hashLe x y = true) hashes')
      ((List.perm_insertionSort _ hashes).trans (h.trans (List.perm_insertionSort _ hashes').symm))
  unfold storySummarySig
  rw [hsorted]

abbrev Digest := { bytes : List UInt8 // bytes.length = 32 }

/-- The hashes of members as they are read. -/
def memberHashes (members : List (Option Digest)) : List (Option (List UInt8)) :=
  members.map (Option.map Subtype.val)

theorem map_val_injective : Function.Injective (Option.map (Subtype.val : Digest → List UInt8)) :=
  Option.map_injective Subtype.val_injective

def digestLe (x y : Option Digest) : Bool := hashLe (x.map Subtype.val) (y.map Subtype.val)

instance digestLe_total : Std.Total fun x y : Option Digest => digestLe x y = true where
  total x y := hashLe_total.total (x.map Subtype.val) (y.map Subtype.val)

instance digestLe_trans : IsTrans (Option Digest) fun x y => digestLe x y = true where
  trans x y z := hashLe_trans.trans (x.map Subtype.val) (y.map Subtype.val) (z.map Subtype.val)

def sortedMembers (members : List (Option Digest)) : List (Option Digest) :=
  members.insertionSort fun x y => digestLe x y

theorem sortedMembers_perm (members : List (Option Digest)) :
    (sortedMembers members).Perm members :=
  List.perm_insertionSort _ members

theorem sortedMembers_eq_iff {ms ns : List (Option Digest)} :
    sortedMembers ms = sortedMembers ns ↔ ms.Perm ns := by
  constructor
  · intro h
    exact (sortedMembers_perm ms).symm.trans (h ▸ sortedMembers_perm ns)
  · intro h
    have hanti : ∀ x y, x ∈ sortedMembers ms → y ∈ sortedMembers ns → digestLe x y = true →
        digestLe y x = true → x = y :=
      fun x y _ _ hxy hyx => map_val_injective (hashLe_antisymm hxy hyx)
    exact List.Perm.eq_of_pairwise hanti
      (List.pairwise_insertionSort (fun x y => digestLe x y = true) ms)
      (List.pairwise_insertionSort (fun x y => digestLe x y = true) ns)
      ((sortedMembers_perm ms).trans (h.trans (sortedMembers_perm ns).symm))

/-- What a member contributes: its hash, or a one, and a zero behind it. -/
def memberBlock (h : Option Digest) : List UInt8 := (h.map Subtype.val).getD [1] ++ [0]

theorem storySigBytes_members (members : List (Option Digest)) :
    storySigBytes (memberHashes members) = (sortedMembers members).flatMap memberBlock := by
  have hsort : (memberHashes members).insertionSort (fun x y => hashLe x y) =
      memberHashes (sortedMembers members) := by
    exact (List.map_insertionSort (r := fun x y => digestLe x y = true)
      (s := fun x y => hashLe x y = true) (Option.map Subtype.val) members
      fun x _ y _ => Iff.rfl).symm
  unfold storySigBytes
  rw [hsort, memberHashes, List.flatMap_map]
  rfl

theorem sortedMembers_eq_append (members : List (Option Digest)) :
    ∃ (missing : Nat) (known : List Digest),
      sortedMembers members = List.replicate missing none ++ known.map some := by
  have hsorted := List.pairwise_insertionSort (fun x y : Option Digest =>
    digestLe x y = true) members
  change (sortedMembers members).Pairwise _ at hsorted
  generalize sortedMembers members = sorted at hsorted ⊢
  induction sorted with
  | nil => exact ⟨0, [], rfl⟩
  | cons h sorted ih =>
      obtain ⟨hhead, hrest⟩ := List.pairwise_cons.mp hsorted
      obtain ⟨missing, known, heq⟩ := ih hrest
      cases h with
      | none => exact ⟨missing + 1, known, by rw [heq, List.replicate_succ, List.cons_append]⟩
      | some h =>
          -- behind a hash there is no missing one
          cases missing with
          | zero => exact ⟨0, h :: known, by rw [heq]; rfl⟩
          | succ missing => cases hhead none (by simp [heq, List.replicate_succ])

/-! ### Reading the blocks back -/

def missingBlocks (missing : Nat) : List UInt8 := (List.replicate missing [1, 0]).flatten

theorem length_missingBlocks (missing : Nat) : (missingBlocks missing).length = 2 * missing := by
  simp [missingBlocks, Nat.mul_comm]

theorem missingBlocks_add (m n : Nat) :
    missingBlocks (m + n) = missingBlocks m ++ missingBlocks n := by
  unfold missingBlocks
  rw [← List.replicate_append_replicate, List.flatten_append]

def knownBlocks (known : List Digest) : List UInt8 := known.flatMap fun h => h.val ++ [0]

theorem length_knownBlock (h : Digest) : (h.val ++ [0]).length = 33 := by simp [h.property]

theorem length_knownBlocks (known : List Digest) :
    (knownBlocks known).length = 33 * known.length := by
  induction known with
  | nil => rfl
  | cons h known ih =>
      unfold knownBlocks at ih ⊢
      rw [List.flatMap_cons, List.length_append, ih, length_knownBlock, List.length_cons]
      omega

theorem knownBlocks_injective : Function.Injective knownBlocks := by
  intro x y h
  have hmap := (flatMap_eq_iff_of_length (by decide) length_knownBlock).mp h
  refine List.map_injective_iff.mpr ?_ hmap
  intro a b hab
  exact Subtype.ext (List.append_cancel_right hab)

theorem flatMap_memberBlock (missing : Nat) (known : List Digest) :
    (List.replicate missing none ++ known.map some).flatMap memberBlock =
      missingBlocks missing ++ knownBlocks known := by
  rw [List.flatMap_append, List.flatMap_map, List.flatMap_replicate]
  rfl

/-- The first block with a hash ends in a zero where marks of missing members have a one. -/
theorem knownBlocks_ne {missing : Nat} {x y : List Digest} (hpos : 0 < missing) :
    knownBlocks x ≠ missingBlocks missing ++ knownBlocks y := by
  intro h
  have hlength := congrArg List.length h
  rw [List.length_append, length_knownBlocks, length_knownBlocks, length_missingBlocks] at hlength
  -- the marks fill whole blocks, so there are at least 33 of them
  obtain ⟨more, rfl⟩ : ∃ more, missing = 33 + more := ⟨missing - 33, by omega⟩
  cases x with
  | nil => simp at hlength; omega
  | cons d x =>
      have hbyte := congrArg (·[32]?) h
      have hleft : (knownBlocks (d :: x))[32]? = some 0 := by
        unfold knownBlocks
        rw [List.flatMap_cons, List.append_assoc, List.getElem?_append_right (by rw [d.property]),
          d.property]
        rfl
      have hright : (missingBlocks (33 + more) ++ knownBlocks y)[32]? = some 1 := by
        rw [missingBlocks_add, List.append_assoc, List.getElem?_append_left (by decide)]
        rfl
      rw [hleft, hright] at hbyte
      cases hbyte

theorem blocks_ne_of_lt {m n : Nat} {x y : List Digest} (hlt : m < n) :
    missingBlocks m ++ knownBlocks x ≠ missingBlocks n ++ knownBlocks y := by
  obtain ⟨more, rfl⟩ := Nat.exists_eq_add_of_lt hlt
  rw [Nat.add_assoc, missingBlocks_add, List.append_assoc]
  exact fun h => knownBlocks_ne (Nat.succ_pos more) (List.append_cancel_left h)

theorem blocks_inj {m n : Nat} {x y : List Digest}
    (h : missingBlocks m ++ knownBlocks x = missingBlocks n ++ knownBlocks y) : m = n ∧ x = y := by
  rcases Nat.lt_trichotomy m n with hlt | heq | hlt
  · exact absurd h (blocks_ne_of_lt hlt)
  · subst heq
    exact ⟨rfl, knownBlocks_injective (List.append_cancel_left h)⟩
  · exact absurd h.symm (blocks_ne_of_lt hlt)

/-- The bytes under a story's signature are those of its members in any order, and of no others. -/
theorem storySigBytes_eq_iff {ms ns : List (Option Digest)} :
    storySigBytes (memberHashes ms) = storySigBytes (memberHashes ns) ↔ ms.Perm ns := by
  rw [← sortedMembers_eq_iff, storySigBytes_members, storySigBytes_members]
  refine ⟨fun h => ?_, fun h => h ▸ rfl⟩
  obtain ⟨m, x, hms⟩ := sortedMembers_eq_append ms
  obtain ⟨n, y, hns⟩ := sortedMembers_eq_append ns
  rw [hms, hns, flatMap_memberBlock, flatMap_memberBlock] at h
  obtain ⟨rfl, rfl⟩ := blocks_inj h
  rw [hms, hns]

/-- A story's signature moves with every change of its members' hashes, and with nothing else. -/
theorem storySummarySig_moves {sha256 : List UInt8 → List UInt8}
    (hsha : Function.Injective sha256) (ms ns : List (Option Digest)) :
    (storySigBytes (memberHashes ms) = storySigBytes (memberHashes ns) ↔ ms.Perm ns) ∧
      (storySummarySig sha256 (memberHashes ms) = storySummarySig sha256 (memberHashes ns) ↔
        ms.Perm ns) ∧
      (∀ m, storySummarySig sha256 (memberHashes (m :: ms)) ≠
        storySummarySig sha256 (memberHashes ms)) ∧
      ∀ m m', m ≠ m' → storySummarySig sha256 (memberHashes (m :: ms)) ≠
        storySummarySig sha256 (memberHashes (m' :: ms)) := by
  have hsig : ∀ xs ys : List (Option Digest), storySummarySig sha256 (memberHashes xs) =
      storySummarySig sha256 (memberHashes ys) ↔ xs.Perm ys := by
    intro xs ys
    rw [storySummarySig_eq, storySummarySig_eq, hsha.eq_iff, storySigBytes_eq_iff]
  refine ⟨storySigBytes_eq_iff, hsig ms ns, ?_, ?_⟩
  · intro m h
    have hlength := ((hsig _ _).mp h).length_eq
    simp at hlength
  · intro m m' hne h
    have hperm : ([m] ++ ms).Perm ([m'] ++ ms) := (hsig _ _).mp h
    exact hne (List.singleton_perm_singleton.mp ((List.perm_append_right_iff ms).mp hperm))

def imitatingHash : Digest := ⟨(List.replicate 16 [1, 0]).flatten, by decide⟩

/-- Two such hashes take as many bytes as thirty-three members without a summary. -/
theorem storySummarySig_moves_imitated :
    (storySigBytes (memberHashes (List.replicate 33 none))).length =
        (storySigBytes (memberHashes [some imitatingHash, some imitatingHash])).length ∧
      storySummarySig plainDigest (memberHashes (List.replicate 33 none)) ≠
        storySummarySig plainDigest (memberHashes [some imitatingHash, some imitatingHash]) := by
  refine ⟨by decide, fun h => ?_⟩
  have hperm := (@storySummarySig_moves plainDigest (fun _ _ h => h) _ _).2.1.mp h
  exact absurd hperm.length_eq (by decide)

/-! ## The signature of a cluster -/

structure EventContent where
  title : String
  text : String
  links : List String
  entities : List String
deriving DecidableEq, Repr

def Event.content (e : Event) : EventContent where
  title := e.title
  text := e.bestText.getD ""
  links := e.links
  entities := e.entities

/-- The contents of a cluster, in the order of its events. -/
def contents (events : List Event) : List EventContent :=
  (events.insertionSort fun x y => eventLe x y).map Event.content

/-- The bytes under a cluster's signature. -/
def summaryBytes (events : List Event) : List UInt8 :=
  (events.insertionSort fun x y => eventLe x y).flatMap eventBytes

theorem summaryHash_eq (sha256 : List UInt8 → List UInt8) (events : List Event) :
    summaryHash sha256 events = sha256 (summaryBytes events) := rfl

theorem insertionSort_eventLe_congr {A B : List Event} (hids : (A.map Event.id).Nodup)
    (hperm : B.Perm A) : (B.insertionSort fun x y => eventLe x y) =
      A.insertionSort fun x y => eventLe x y := by
  have hanti : ∀ x y, x ∈ B.insertionSort (fun x y => eventLe x y) →
      y ∈ A.insertionSort (fun x y => eventLe x y) → eventLe x y = true → eventLe y x = true →
      x = y := by
    intro x y hx hy hxy hyx
    rw [List.mem_insertionSort] at hx hy
    exact List.inj_on_of_nodup_map hids (hperm.mem_iff.mp hx) hy (eventLe_antisymm hxy hyx)
  exact List.Perm.eq_of_pairwise hanti
    (List.pairwise_insertionSort (fun x y => eventLe x y = true) B)
    (List.pairwise_insertionSort (fun x y => eventLe x y = true) A)
    ((List.perm_insertionSort _ B).trans (hperm.trans (List.perm_insertionSort _ A).symm))

namespace EventContent

variable {x y : EventContent}

def strings (x : EventContent) : List String := x.title :: x.text :: (x.links ++ x.entities)

def NulFree (x : EventContent) : Prop := ∀ s ∈ x.strings, 0x00 ∉ utf8 s

/-- The fields of a content as they are written, without the byte behind each. -/
def fields (x : EventContent) : List (List UInt8) :=
  [utf8 x.title, utf8 x.text, terminated 0x1f (x.links.map utf8),
    terminated 0x1f (x.entities.map utf8)]

/-- The same title and text, and lists with the same pieces between the list separators. -/
structure SamePieces (x y : EventContent) : Prop where
  title : x.title = y.title
  text : x.text = y.text
  links : pieces 0x1f (x.links.map utf8) = pieces 0x1f (y.links.map utf8)
  entities : pieces 0x1f (x.entities.map utf8) = pieces 0x1f (y.entities.map utf8)

theorem fields_eq_iff : x.fields = y.fields ↔ SamePieces x y := by
  unfold fields
  rw [List.cons.injEq, List.cons.injEq, List.cons.injEq, List.cons.injEq, utf8_injective.eq_iff,
    utf8_injective.eq_iff, terminated_eq_iff, terminated_eq_iff]
  constructor
  · rintro ⟨htitle, htext, hlinks, hentities, -⟩
    exact ⟨htitle, htext, hlinks, hentities⟩
  · rintro ⟨htitle, htext, hlinks, hentities⟩
    exact ⟨htitle, htext, hlinks, hentities, rfl⟩

theorem NulFree.terminated {l : List String} (hl : ∀ s ∈ l, 0x00 ∉ utf8 s) :
    0x00 ∉ Framing.terminated 0x1f (l.map utf8) := by
  intro h
  rcases mem_terminated h with hsep | ⟨w, hw, hmem⟩
  · exact absurd hsep (by decide)
  · obtain ⟨s, hs, rfl⟩ := List.mem_map.mp hw
    exact hl s hs hmem

theorem NulFree.fields (hx : x.NulFree) : ∀ w ∈ x.fields, 0x00 ∉ w := by
  have hlists : ∀ s ∈ x.links ++ x.entities, 0x00 ∉ utf8 s :=
    fun s hs => hx s (List.mem_cons_of_mem _ (List.mem_cons_of_mem _ hs))
  intro w hw
  simp only [EventContent.fields, List.mem_cons, List.not_mem_nil, or_false] at hw
  rcases hw with rfl | rfl | rfl | rfl
  · exact hx _ List.mem_cons_self
  · exact hx _ (List.mem_cons_of_mem _ List.mem_cons_self)
  · exact NulFree.terminated fun s hs => hlists s (List.mem_append_left _ hs)
  · exact NulFree.terminated fun s hs => hlists s (List.mem_append_right _ hs)

def SeparatorFree (x : EventContent) : Prop := ∀ s ∈ x.links ++ x.entities, 0x1f ∉ utf8 s

theorem pieces_map_utf8 {l : List String} (hl : ∀ s ∈ l, 0x1f ∉ utf8 s) :
    pieces 0x1f (l.map utf8) = l.map utf8 := by
  refine pieces_eq_self fun w hw => ?_
  obtain ⟨s, hs, rfl⟩ := List.mem_map.mp hw
  exact hl s hs

theorem SamePieces.eq (h : SamePieces x y) (hx : x.SeparatorFree) (hy : y.SeparatorFree) :
    x = y := by
  obtain ⟨htitle, htext, hlinks, hentities⟩ := h
  rw [pieces_map_utf8 fun s hs => hx s (List.mem_append_left _ hs),
    pieces_map_utf8 fun s hs => hy s (List.mem_append_left _ hs)] at hlinks
  rw [pieces_map_utf8 fun s hs => hx s (List.mem_append_right _ hs),
    pieces_map_utf8 fun s hs => hy s (List.mem_append_right _ hs)] at hentities
  have hinj := List.map_injective_iff.mpr utf8_injective
  cases x
  cases y
  exact EventContent.mk.injEq .. ▸ ⟨htitle, htext, hinj hlinks, hinj hentities⟩

end EventContent

theorem eventBytes_eq (e : Event) : eventBytes e = terminated 0x00 e.content.fields := by
  have htext : e.bestText.elim [] utf8 = utf8 (e.bestText.getD "") := by
    cases e.bestText <;> rfl
  unfold eventBytes EventContent.fields
  simp [htext, terminated, Event.content, List.flatMap_map]

theorem summaryBytes_eq (events : List Event) :
    summaryBytes events = terminated 0x00 ((contents events).flatMap EventContent.fields) := by
  unfold summaryBytes contents terminated
  rw [List.flatMap_map, List.flatMap_assoc]
  exact List.flatMap_congr fun e _ => eventBytes_eq e

/-- No string a summary is made from holds a NUL. -/
def NulFreeEvents (events : List Event) : Prop := ∀ e ∈ events, e.content.NulFree

theorem NulFreeEvents.fields {events : List Event} (h : NulFreeEvents events) :
    ∀ w ∈ (contents events).flatMap EventContent.fields, 0x00 ∉ w := by
  intro w hw
  obtain ⟨x, hx, hmem⟩ := List.mem_flatMap.mp hw
  obtain ⟨e, he, rfl⟩ := List.mem_map.mp hx
  exact (h e ((List.mem_insertionSort _).mp he)).fields w hmem

theorem summaryBytes_eq_iff {A B : List Event} (hA : NulFreeEvents A) (hB : NulFreeEvents B) :
    summaryBytes A = summaryBytes B ↔
      List.Forall₂ EventContent.SamePieces (contents A) (contents B) := by
  have hfour : ∀ x : EventContent, x.fields.length = 4 := fun _ => rfl
  rw [summaryBytes_eq, summaryBytes_eq, terminated_inj hA.fields hB.fields,
    flatMap_eq_iff_of_length (by decide : 0 < 4) hfour, ← List.forall₂_eq_eq_eq,
      List.forall₂_map_left_iff, List.forall₂_map_right_iff]
  exact ⟨List.Forall₂.imp fun _ _ => EventContent.fields_eq_iff.mp,
    List.Forall₂.imp fun _ _ => EventContent.fields_eq_iff.mpr⟩

/-- Other contents with the same pieces: a link or an entity of one is cut into several of the
other. -/
def Regrouped (A B : List Event) : Prop :=
  contents A ≠ contents B ∧ List.Forall₂ EventContent.SamePieces (contents A) (contents B)

theorem not_regrouped {A B : List Event} (hA : ∀ e ∈ A, e.content.SeparatorFree)
    (hB : ∀ e ∈ B, e.content.SeparatorFree) : ¬ Regrouped A B := by
  have hfree : ∀ {events : List Event}, (∀ e ∈ events, e.content.SeparatorFree) →
      ∀ x ∈ contents events, x.SeparatorFree := by
    intro events h x hx
    obtain ⟨e, he, rfl⟩ := List.mem_map.mp hx
    exact h e ((List.mem_insertionSort _).mp he)
  rintro ⟨hne, hpieces⟩
  refine hne (List.forall₂_eq_eq_eq ▸ ?_)
  exact (List.forall₂_iff_get.mpr ⟨hpieces.length_eq, fun i hx hy =>
    (hpieces.get hx hy).eq (hfree hA _ (List.get_mem _ _)) (hfree hB _ (List.get_mem _ _))⟩)

/-- A change of the contents is seen by the bytes, and so by a sweep, unless it only regroups
pieces of links or of entities. -/
theorem summaryHash_sees_iff {A B : List Event} (hids : (A.map Event.id).Nodup)
    (hA : NulFreeEvents A) (hB : NulFreeEvents B) {sha256 : List UInt8 → List UInt8}
    (hsha : Function.Injective sha256) :
    (∀ A', A'.Perm A → summaryBytes A' = summaryBytes A) ∧
      ((summaryBytes A = summaryBytes B → contents A = contents B) ↔ ¬ Regrouped A B) ∧
      ∀ (c : DueCluster) (outcome : SummaryOutcome), c.summaryHash = some (summaryHash sha256 A) →
        ((attemptCluster sha256 B outcome c = .touch → contents A = contents B) ↔
          ¬ Regrouped A B) := by
  have hiff := summaryBytes_eq_iff hA hB
  have hbytes : (summaryBytes A = summaryBytes B → contents A = contents B) ↔ ¬ Regrouped A B := by
    rw [Regrouped, hiff, not_and', not_not]
  refine ⟨?_, hbytes, ?_⟩
  · intro A' hperm
    rw [summaryBytes, insertionSort_eventLe_congr hids hperm, summaryBytes]
  · intro c outcome hstored
    rw [← hbytes, attemptCluster_touch_iff, hstored, Option.some_inj, summaryHash_eq,
      summaryHash_eq, hsha.eq_iff]
    constructor
    · intro h heq
      by_cases hempty : B = []
      · -- without events there are no bytes
        have hnil := hiff.mp heq
        rw [hempty] at hnil ⊢
        exact List.forall₂_nil_right_iff.mp hnil
      · exact h ⟨hempty, heq⟩
    · rintro h ⟨-, heq⟩
      exact h heq

/-- An item with these links, and these entities. -/
def linkedEvent (links entities : List String) : Event where
  fingerprint := [1]
  key := ⟨.ofPublic, .rss, "notes"⟩
  eventTime := 5
  title := "Release notes"
  body := some "Two fixes."
  links := links
  entities := entities
  id := 1
  ingestTime := 6

theorem nulFreeEvents_singleton {e : Event} (h : e.content.NulFree) : NulFreeEvents [e] :=
  fun _ he => List.mem_singleton.mp he ▸ h

theorem linkedEvent_nulFree {links entities : List String}
    (h : ∀ s ∈ links ++ entities, 0x00 ∉ utf8 s) : NulFreeEvents [linkedEvent links entities] := by
  refine nulFreeEvents_singleton fun s hs => ?_
  rcases List.mem_cons.mp hs with rfl | hs
  · exact (by decide : 0x00 ∉ utf8 "Release notes")
  rcases List.mem_cons.mp hs with rfl | hs
  · exact (by decide : 0x00 ∉ utf8 "Two fixes.")
  · exact h s hs

def notesCluster : DueCluster where
  key := ⟨.ofPublic, .rss, "notes"⟩
  summaryHash := some (summaryHash plainDigest [linkedEvent [] []])
  summaryAttempts := 0
  retryReset := false

/-- With an entity more, no sweep keeps the stored summary. -/
theorem summaryHash_sees_iff_added :
    ¬ Regrouped [linkedEvent [] []] [linkedEvent [] ["cve:CVE-2024-1"]] ∧
      attemptCluster plainDigest [linkedEvent [] ["cve:CVE-2024-1"]] (.faithful {})
        notesCluster ≠ .touch := by
  have hfree : ¬ Regrouped [linkedEvent [] []] [linkedEvent [] ["cve:CVE-2024-1"]] := by
    refine not_regrouped (fun e he => ?_) (fun e he => ?_) <;>
      obtain rfl := List.mem_singleton.mp he
    · exact fun s hs => nomatch hs
    · intro s hs
      obtain rfl := List.mem_singleton.mp hs
      decide
  refine ⟨hfree, fun htouch => ?_⟩
  have hold : NulFreeEvents [linkedEvent [] []] := linkedEvent_nulFree (by decide)
  have hnew : NulFreeEvents [linkedEvent [] ["cve:CVE-2024-1"]] := linkedEvent_nulFree (by decide)
  have hseen := (@summaryHash_sees_iff _ _ (by decide) hold hnew plainDigest fun _ _ h => h).2.2
    notesCluster (.faithful {}) rfl
  exact absurd (hseen.mpr hfree htouch) (by decide)

/-- One link with the separator in it, or two links. -/
theorem summaryBytes_regrouped :
    NulFreeEvents [linkedEvent ["https://a\x1fhttps://b"] []] ∧
      NulFreeEvents [linkedEvent ["https://a", "https://b"] []] ∧
      summaryBytes [linkedEvent ["https://a\x1fhttps://b"] []] =
        summaryBytes [linkedEvent ["https://a", "https://b"] []] ∧
      contents [linkedEvent ["https://a\x1fhttps://b"] []] ≠
        contents [linkedEvent ["https://a", "https://b"] []] :=
  ⟨linkedEvent_nulFree (by decide), linkedEvent_nulFree (by decide), by decide, by decide⟩

end Bulletin
