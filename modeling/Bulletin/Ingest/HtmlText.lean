import Bulletin.Core.AsciiSearch
import Bulletin.Core.Json
import Bulletin.Ingest.Event

/-! # Articles in a page

The text of an article is looked for in the linked data of a page, and in its first `article`
element. Both are found by offsets into the bytes; a slice that is out of range, or not at a
boundary of characters, is a panic. The JSON parser is handed in.
-/

namespace Bulletin

open Json Text

/-! ## Linked data -/

def ownArticleBody (v : Value) : Option String :=
  match v.get "articleBody" with
  | some (.str body) =>
      let trimmed := trim body
      if trimmed ≠ "" then some trimmed else none
  | _ => none

mutual

/-- The first body in a value, depth first: that of an object, then those of its fields in the
order of their keys. -/
def findArticleBody : Value → Option String
  | .obj fields =>
      (ownArticleBody (.obj fields)).or
        ((sortDedup (fields.map (·.1))).findSome? fun key =>
          ((fieldBodies fields).reverse.find? (·.1 = key)).bind (·.2))
  | .arr items => (itemBodies items).findSome? id
  | _ => none

def fieldBodies : List (String × Value) → List (String × Option String)
  | [] => []
  | (key, v) :: fields => (key, findArticleBody v) :: fieldBodies fields

def itemBodies : List Value → List (Option String)
  | [] => []
  | v :: items => findArticleBody v :: itemBodies items

end

/-- A body somewhere in a value that is not blank. -/
inductive HasArticleBody : Value → String → Prop where
  | own {fields : List (String × Value)} {body : String} :
      (Value.obj fields).get "articleBody" = some (.str body) → trim body ≠ "" →
        HasArticleBody (.obj fields) (trim body)
  | field {fields : List (String × Value)} {key : String} {v : Value} {body : String} :
      (Value.obj fields).get key = some v → HasArticleBody v body →
        HasArticleBody (.obj fields) body
  | item {items : List Value} {v : Value} {body : String} :
      v ∈ items → HasArticleBody v body → HasArticleBody (.arr items) body

theorem fieldBodies_eq (fields : List (String × Value)) :
    fieldBodies fields = fields.map fun f => (f.1, findArticleBody f.2) := by
  induction fields with
  | nil => rfl
  | cons f fields ih => rw [fieldBodies, ih, List.map_cons]

theorem itemBodies_eq (items : List Value) : itemBodies items = items.map findArticleBody := by
  induction items with
  | nil => rfl
  | cons v items ih => rw [itemBodies, ih, List.map_cons]

theorem findArticleBody_obj (fields : List (String × Value)) : findArticleBody (.obj fields) =
    (ownArticleBody (.obj fields)).or
      ((sortDedup (fields.map (·.1))).findSome? fun key =>
        ((Value.obj fields).get key).bind findArticleBody) := by
  have hfield : ∀ key : String, ((fieldBodies fields).reverse.find? (·.1 = key)).bind (·.2) =
      ((Value.obj fields).get key).bind findArticleBody := by
    intro key
    rw [fieldBodies_eq, ← List.map_reverse, List.find?_map, Value.get, Option.bind_map,
      Option.bind_map]
    rfl
  rw [findArticleBody]
  simp only [hfield]

theorem ownArticleBody_eq_some {v : Value} {body : String} : ownArticleBody v = some body ↔
    ∃ own, v.get "articleBody" = some (.str own) ∧ trim own ≠ "" ∧ trim own = body := by
  unfold ownArticleBody
  cases hget : v.get "articleBody" with
  | none => simp
  | some w => cases w <;> simp

theorem mem_of_get {fields : List (String × Value)} {key : String} {v : Value}
    (h : (Value.obj fields).get key = some v) : (key, v) ∈ fields := by
  obtain ⟨f, hf, rfl⟩ := Option.map_eq_some_iff.mp h
  have hkey : f.1 = key := by simpa using List.find?_some hf
  exact hkey ▸ List.mem_reverse.mp (List.mem_of_find?_eq_some hf)

theorem findArticleBody_sound (v : Value) {body : String} (h : findArticleBody v = some body) :
    HasArticleBody v body := by
  match v with
  | .obj fields =>
      rw [findArticleBody_obj] at h
      rcases Option.or_eq_some_iff.mp h with hown | ⟨-, hrest⟩
      · obtain ⟨own, hget, hne, rfl⟩ := ownArticleBody_eq_some.mp hown
        exact .own hget hne
      · obtain ⟨key, -, hfound⟩ := List.exists_of_findSome?_eq_some hrest
        obtain ⟨w, hget, hbody⟩ := Option.bind_eq_some_iff.mp hfound
        have hmem := mem_of_get hget
        exact .field hget (findArticleBody_sound w hbody)
  | .arr items =>
      rw [findArticleBody, itemBodies_eq] at h
      obtain ⟨found, hin, hfound⟩ := List.exists_of_findSome?_eq_some h
      obtain ⟨w, hw, rfl⟩ := List.mem_map.mp hin
      exact .item hw (findArticleBody_sound w hfound)
  | .null | .bool _ | .int _ | .float _ | .str _ => cases h
termination_by sizeOf v
decreasing_by
  · have hlt := List.sizeOf_lt_of_mem hmem
    simp only [Prod.mk.sizeOf_spec, Value.obj.sizeOf_spec] at hlt ⊢
    omega
  · have hlt := List.sizeOf_lt_of_mem hw
    simp only [Value.arr.sizeOf_spec]
    omega

theorem findArticleBody_complete {v : Value} {body : String} (h : HasArticleBody v body) :
    (findArticleBody v).isSome = true := by
  induction h with
  | own hget hne =>
      rw [findArticleBody_obj, ownArticleBody_eq_some.mpr ⟨_, hget, hne, rfl⟩]
      rfl
  | @field fields key v body hget _ ih =>
      have hkey : key ∈ sortDedup (fields.map (·.1)) :=
        mem_sortDedup.mpr (List.mem_map_of_mem (f := Prod.fst) (mem_of_get hget))
      rw [findArticleBody_obj, Option.isSome_or, Bool.or_eq_true]
      refine Or.inr (List.findSome?_isSome_iff.mpr ⟨key, hkey, ?_⟩)
      rwa [hget, Option.bind_some]
  | @item items v body hin _ ih =>
      rw [findArticleBody, itemBodies_eq]
      exact List.findSome?_isSome_iff.mpr ⟨_, List.mem_map_of_mem hin, ih⟩

def parseArticleBody (fromStr : String → Option Value) (json : List Char) : Option String :=
  (fromStr (trim (String.ofList json))).bind findArticleBody

/-! ## The scan -/

inductive ScanStep where
  | stop
  | found (body : String)
  | next (pos : Nat)
deriving DecidableEq, Repr

def blockBody (fromStr : String → Option Value) (html openTag : List Char) (contentStart : Nat) :
    Option (Option String) := do
  match ← findAsciiCi (encode openTag) (encode "application/ld+json".toList) with
  | none => return none
  | some _ =>
      let fromContent ← byteSlice html contentStart (byteLen html)
      match ← findAsciiCi (encode fromContent) (encode "</script>".toList) with
      | none => return none
      | some closeRel =>
          let json ← byteSlice html contentStart (contentStart + closeRel)
          return parseArticleBody fromStr json

def jsonldStep (fromStr : String → Option Value) (html : List Char) (pos : Nat) :
    Option ScanStep := do
  let fromPos ← byteSlice html pos (byteLen html)
  match ← findAsciiCi (encode fromPos) (encode "<script".toList) with
  | none => return .stop
  | some rel =>
      let tagOpen := pos + rel
      let fromTag ← byteSlice html tagOpen (byteLen html)
      match find ['>'] fromTag with
      | none => return .stop
      | some gtRel =>
          let contentStart := tagOpen + gtRel + 1
          let openTag ← byteSlice html tagOpen contentStart
          let body ← blockBody fromStr html openTag contentStart
          return body.elim (.next contentStart) .found

theorem jsonldStep_next {fromStr : String → Option Value} {html : List Char} {pos next : Nat}
    (h : jsonldStep fromStr html pos = some (.next next)) : pos < next ∧ next ≤ byteLen html := by
  unfold jsonldStep at h
  obtain ⟨fromPos, _, h⟩ := Option.bind_eq_some_iff.mp h
  obtain ⟨open?, _, h⟩ := Option.bind_eq_some_iff.mp h
  cases open? with
  | none => cases h
  | some rel =>
      obtain ⟨fromTag, _, h⟩ := Option.bind_eq_some_iff.mp h
      cases hgt : find ['>'] fromTag with
      | none =>
          rw [hgt] at h
          cases h
      | some gtRel =>
          rw [hgt] at h
          obtain ⟨openTag, htag, h⟩ := Option.bind_eq_some_iff.mp h
          obtain ⟨body, _, h⟩ := Option.bind_eq_some_iff.mp h
          cases body with
          | some body => cases h
          | none =>
              obtain rfl := ScanStep.next.inj (Option.some.inj h)
              obtain ⟨a, c, rfl, -, hstop⟩ := byteSlice_spec htag
              refine ⟨by omega, ?_⟩
              rw [byteLen_append, hstop]
              exact Nat.le_add_right _ _

def jsonldScan (fromStr : String → Option Value) (html : List Char) (pos : Nat) :
    Option (Option String) :=
  match _hstep : jsonldStep fromStr html pos with
  | none => none
  | some .stop => some none
  | some (.found body) => some (some body)
  | some (.next next) => jsonldScan fromStr html next
termination_by byteLen html - pos
decreasing_by
  have hnext := jsonldStep_next _hstep
  omega

def jsonldArticleBody (fromStr : String → Option Value) (html : List Char) :
    Option (Option String) := jsonldScan fromStr html 0

/-- The first `article` element, up to its closing tag. -/
def firstArticleSubtree (html : List Char) : Option (Option (List Char)) := do
  match ← findAsciiCi (encode html) (encode "<article".toList) with
  | none => return none
  | some openAt =>
      let fromOpen ← byteSlice html openAt (byteLen html)
      match ← findAsciiCi (encode fromOpen) (encode "</article>".toList) with
      | none => return none
      | some closeRel =>
          let subtree ← byteSlice html openAt (openAt + closeRel + byteLen "</article>".toList)
          return some subtree

/-! ## Blocks -/

def ContainsCi (needle s : List Char) : Prop := ∃ a t, s = a ++ t ∧ StartsCi needle t

/-- A block of linked data: a `script` tag of that type, up to its first `>`, and the content from
there to the next closing tag. -/
def IsLdBlock (html content : List Char) (start : Nat) : Prop :=
  ∃ before tag after rest, html = before ++ (tag ++ '>' :: after) ∧
    StartsCi "<script".toList (tag ++ '>' :: after) ∧ '>' ∉ tag ∧
    ContainsCi "application/ld+json".toList (tag ++ ['>']) ∧
    byteLen (before ++ (tag ++ ['>'])) = start ∧ FirstAt "</script>".toList after content rest

section Blocks

variable {fromStr : String → Option Value} {html pre rest : List Char}

theorem findCi_needle {needle s : List Char} (h : needle.all fun c => c.toNat < 128)
    (hne : needle ≠ []) : findAsciiCi (encode s) (encode needle) = some (findCi needle s) :=
  findAsciiCi_encode (fun c hc => by simpa using List.all_eq_true.mp h c hc) hne

theorem findCi_isSome {needle s : List Char} : (findCi needle s).isSome = true ↔
    ContainsCi needle s := by
  rw [← Option.ne_none_iff_isSome, Ne, findCi_eq_none]
  simp only [ContainsCi, not_forall, not_not]
  exact ⟨fun ⟨a, t, hs, h⟩ => ⟨a, t, hs, h⟩, fun ⟨a, t, hs, h⟩ => ⟨a, t, hs, h⟩⟩

theorem IsLdBlock.unique {content content' : List Char} {start : Nat}
    (h : IsLdBlock html content start) (h' : IsLdBlock html content' start) :
    content = content' := by
  obtain ⟨before, tag, after, _, hhtml, _, _, _, hstart, hclose⟩ := h
  obtain ⟨before', tag', after', _, hhtml', _, _, _, hstart', hclose'⟩ := h'
  have hsame : (before ++ (tag ++ ['>'])) ++ after = (before' ++ (tag' ++ ['>'])) ++ after' := by
    simpa using hhtml.symm.trans hhtml'
  obtain ⟨-, rfl⟩ := append_inj_byteLen hsame (hstart.trans hstart'.symm)
  exact (hclose.unique hclose').1

theorem blockBody_eq (front after openTag : List Char) :
    ∃ r, blockBody fromStr (front ++ after) openTag (byteLen front) = some r ∧
      ∀ body, r = some body ↔ ContainsCi "application/ld+json".toList openTag ∧
        ∃ content rest, FirstAt "</script>".toList after content rest ∧
          parseArticleBody fromStr content = some body := by
  unfold blockBody
  rw [findCi_needle (by decide) (by decide), byteSlice_suffix]
  cases hld : findCi "application/ld+json".toList openTag with
  | none =>
      have hnot : ¬ ContainsCi "application/ld+json".toList openTag := by
        rw [← findCi_isSome, hld]
        exact Bool.false_ne_true
      exact ⟨none, rfl, fun body => iff_of_false (fun h => nomatch h) fun h => hnot h.1⟩
  | some _ =>
      have hcontains : ContainsCi "application/ld+json".toList openTag := by
        rw [← findCi_isSome, hld]
        rfl
      simp only [Option.bind_eq_bind, Option.bind_some]
      rw [findCi_needle (by decide) (by decide)]
      cases hclose : findCi "</script>".toList after with
      | none =>
          refine ⟨none, rfl, fun body => iff_of_false (fun h => nomatch h) ?_⟩
          rintro ⟨-, content, rest, hfirst, -⟩
          exact findCi_eq_none.mp hclose content rest hfirst.split hfirst.starts
      | some closeRel =>
          obtain ⟨content, rest, hfirst, rfl⟩ := findCi_eq_some.mp hclose
          have hslice : byteSlice (front ++ after) (byteLen front)
              (byteLen front + byteLen content) = some content := by
            rw [hfirst.split, ← List.append_assoc]
            exact byteSlice_mid
          simp only [Option.bind_some, hslice]
          refine ⟨_, rfl, fun body => ⟨fun h => ⟨hcontains, content, rest, hfirst, h⟩, ?_⟩⟩
          rintro ⟨-, content', rest', hfirst', hbody⟩
          rwa [(hfirst.unique hfirst').1]

/-! ## The loop -/

/-- The position is behind a `>`, or at the start, and no block up to it has a body. -/
structure ScanPassed (fromStr : String → Option Value) (html pre rest : List Char) : Prop where
  split : html = pre ++ rest
  boundary : pre = [] ∨ pre.getLast? = some '>'
  blocks : ∀ content start, IsLdBlock html content start → start ≤ byteLen pre →
    parseArticleBody fromStr content = none

theorem tag_behind {before tag after : List Char} (hboundary : pre = [] ∨ pre.getLast? = some '>')
    (hsplit : pre ++ rest = before ++ (tag ++ '>' :: after)) (htag : '>' ∉ tag)
    (hlate : byteLen pre < byteLen (before ++ (tag ++ ['>']))) :
    ∃ u, before = pre ++ u ∧ rest = u ++ (tag ++ '>' :: after) := by
  rcases List.append_eq_append_iff.mp hsplit with ⟨u, hu, hrest⟩ | ⟨u, hu, hrest⟩
  · exact ⟨u, hu, hrest⟩
  · by_cases hnil : u = []
    · subst hnil
      rw [List.append_nil] at hu
      exact ⟨[], by rw [hu, List.append_nil], hrest.symm⟩
    · -- the position is inside the tag, but the character before it is a `>`
      exfalso
      have hlast : u.getLast? = some '>' := by
        rcases hboundary with hempty | hlast
        · exact absurd (List.append_eq_nil_iff.mp (hu.symm.trans hempty)).2 hnil
        · rwa [hu, List.getLast?_append_of_ne_nil _ hnil] at hlast
      rcases List.append_eq_append_iff.mp hrest with ⟨v, hv, hafter⟩ | ⟨v, hv, -⟩
      · cases v with
        | nil =>
            rw [List.append_nil] at hv
            exact htag (hv ▸ List.mem_of_getLast? hlast)
        | cons c v =>
            obtain ⟨rfl, -⟩ := List.cons.inj hafter
            rw [hu, hv] at hlate
            simp only [byteLen_append] at hlate
            have hcons : byteLen ('>' :: v) = byteLen ['>'] + byteLen v := by
              rw [← byteLen_append]
              rfl
            omega
      · exact htag (hv ▸ List.mem_append_left v (List.mem_of_getLast? hlast))

/-- Of the blocks behind a position, none starts before the first `>` behind the first open tag. -/
theorem block_behind {a x y s before tag after : List Char}
    (hfirst : FirstAt "<script".toList rest a s) (hs : s = x ++ '>' :: y) (hx : '>' ∉ x)
    {u : List Char} (hrest : rest = u ++ (tag ++ '>' :: after))
    (hstarts : StartsCi "<script".toList (tag ++ '>' :: after)) (hbefore : before = pre ++ u) :
    byteLen (pre ++ (a ++ (x ++ ['>']))) < byteLen (before ++ (tag ++ ['>'])) ∨
      after = y ∧ ∃ v, before = pre ++ (a ++ v) ∧ x = v ++ tag := by
  -- the open tag of the block is not before the first one
  obtain ⟨v, rfl, hv⟩ := hfirst.le hrest hstarts
  have hgt : (v ++ tag) ++ '>' :: after = x ++ '>' :: y := by
    rw [List.append_assoc, ← hv, hs]
  have hsame : ∀ w, v ++ tag = x ++ w → '>' :: y = w ++ '>' :: after → w = [] →
      after = y ∧ ∃ v, before = pre ++ (a ++ v) ∧ x = v ++ tag := by
    rintro w hw hy rfl
    rw [List.append_nil] at hw
    exact ⟨(List.cons.inj hy).2.symm, v, hbefore, hw.symm⟩
  rcases List.append_eq_append_iff.mp hgt with ⟨w, hw, hy⟩ | ⟨w, hw, hy⟩
  · cases w with
    | nil => exact Or.inr (hsame [] (by rw [hw, List.append_nil, List.append_nil]) hy.symm rfl)
    | cons c w =>
        obtain ⟨rfl, -⟩ := List.cons.inj hy
        exact absurd (hw ▸ List.mem_append_right _ List.mem_cons_self) hx
  · by_cases hnil : w = []
    · exact Or.inr (hsame w hw hy hnil)
    · refine Or.inl ?_
      have hpos := byteLen_pos hnil
      have hlength := congrArg byteLen hw
      rw [hbefore]
      simp only [byteLen_append] at hlength ⊢
      omega

/-- A body is that of the first block that has one. -/
def FirstBody (fromStr : String → Option Value) (html : List Char) (body : String) : Prop :=
  ∃ content start, IsLdBlock html content start ∧ parseArticleBody fromStr content = some body ∧
    ∀ content' start', IsLdBlock html content' start' → start' < start →
      parseArticleBody fromStr content' = none

def NoBody (fromStr : String → Option Value) (html : List Char) : Prop :=
  ∀ content start, IsLdBlock html content start → parseArticleBody fromStr content = none

theorem ScanPassed.noBody (h : ScanPassed fromStr html pre rest)
    (hnone : ∀ u tag after, rest = u ++ (tag ++ '>' :: after) →
      ¬ StartsCi "<script".toList (tag ++ '>' :: after)) : NoBody fromStr html := by
  intro content start hblock
  by_cases hle : start ≤ byteLen pre
  · exact h.blocks content start hblock hle
  · obtain ⟨before, tag, after, _, hhtml, hstarts, htag, _, rfl, _⟩ := hblock
    obtain ⟨u, -, hrest⟩ := tag_behind h.boundary (h.split.symm.trans hhtml) htag (not_le.mp hle)
    exact absurd hstarts (hnone u tag after hrest)

section Turn

variable {a x y s : List Char}

theorem jsonldStep_no_tag (hsplit : html = pre ++ rest)
    (hnone : findCi "<script".toList rest = none) :
    jsonldStep fromStr html (byteLen pre) = some .stop := by
  have hpos : byteSlice html (byteLen pre) (byteLen html) = some rest := hsplit ▸ byteSlice_suffix
  unfold jsonldStep
  rw [hpos]
  simp only [Option.bind_eq_bind, Option.bind_some]
  rw [findCi_needle (by decide) (by decide), hnone]
  rfl

theorem jsonldStep_tag (hsplit : html = pre ++ rest)
    (hfirst : FirstAt "<script".toList rest a s) :
    jsonldStep fromStr html (byteLen pre) = match find ['>'] s with
      | none => some .stop
      | some gtRel => do
          let contentStart := byteLen (pre ++ a) + gtRel + 1
          let openTag ← byteSlice html (byteLen (pre ++ a)) contentStart
          let body ← blockBody fromStr html openTag contentStart
          return body.elim (.next contentStart) .found := by
  have hpos : byteSlice html (byteLen pre) (byteLen html) = some rest := hsplit ▸ byteSlice_suffix
  have htag : byteSlice html (byteLen (pre ++ a)) (byteLen html) = some s := by
    rw [hsplit, hfirst.split, ← List.append_assoc]
    exact byteSlice_suffix
  have hopen : findCi "<script".toList rest = some (byteLen a) :=
    findCi_eq_some.mpr ⟨a, s, hfirst, rfl⟩
  unfold jsonldStep
  rw [hpos]
  simp only [Option.bind_eq_bind, Option.bind_some]
  rw [findCi_needle (by decide) (by decide), hopen]
  simp only [Option.bind_some, ← byteLen_append, htag]
  rfl

def behindTag (pre a x : List Char) : List Char := pre ++ (a ++ (x ++ ['>']))

theorem page_eq (hsplit : html = pre ++ rest) (hfirst : FirstAt "<script".toList rest a s)
    (hs : s = x ++ '>' :: y) : html = behindTag pre a x ++ y := by
  rw [hsplit, hfirst.split, hs]
  simp [behindTag]

/-- A block behind the position is behind the first open tag, or is the block of that tag. -/
theorem ScanPassed.block_behind (h : ScanPassed fromStr html pre rest)
    (hfirst : FirstAt "<script".toList rest a s) (hs : s = x ++ '>' :: y) (hx : '>' ∉ x)
    {content : List Char} {start : Nat} (hblock : IsLdBlock html content start)
    (hlate : byteLen pre < start) : byteLen (behindTag pre a x) < start ∨
      start = byteLen (behindTag pre a x) ∧
        ContainsCi "application/ld+json".toList (x ++ ['>']) ∧
        ∃ rest, FirstAt "</script>".toList y content rest := by
  obtain ⟨before, tag, after, tail, hhtml, hstarts, htag, ⟨b, t, hld, hin⟩, rfl, hclose⟩ := hblock
  obtain ⟨u, hu, hrest⟩ := tag_behind h.boundary (h.split.symm.trans hhtml) htag hlate
  rcases Bulletin.block_behind hfirst hs hx hrest hstarts hu with hlt | ⟨rfl, v, hv, rfl⟩
  · exact Or.inl hlt
  · refine Or.inr ⟨by rw [hv, behindTag]; simp, ⟨v ++ b, t, ?_, hin⟩, tail, hclose⟩
    rw [List.append_assoc, hld, List.append_assoc]

theorem ScanPassed.firstBody (h : ScanPassed fromStr html pre rest)
    (hfirst : FirstAt "<script".toList rest a s) (hs : s = x ++ '>' :: y) (hx : '>' ∉ x)
    {content tail : List Char} {body : String}
    (hld : ContainsCi "application/ld+json".toList (x ++ ['>']))
    (hclose : FirstAt "</script>".toList y content tail)
    (hparse : parseArticleBody fromStr content = some body) : FirstBody fromStr html body := by
  refine ⟨content, byteLen (behindTag pre a x), ?_, hparse, ?_⟩
  · refine ⟨pre ++ a, x, y, tail, ?_, hs ▸ hfirst.starts, hx, hld, ?_, hclose⟩
    · rw [page_eq h.split hfirst hs, behindTag]
      simp
    · rw [behindTag, List.append_assoc]
  · intro content' start' hblock hlt
    by_cases hle : start' ≤ byteLen pre
    · exact h.blocks content' start' hblock hle
    · rcases h.block_behind hfirst hs hx hblock (not_le.mp hle) with hgt | ⟨heq, -⟩
      · omega
      · omega

theorem ScanPassed.next (h : ScanPassed fromStr html pre rest)
    (hfirst : FirstAt "<script".toList rest a s) (hs : s = x ++ '>' :: y) (hx : '>' ∉ x)
    (hnone : ∀ content tail, ContainsCi "application/ld+json".toList (x ++ ['>']) →
      FirstAt "</script>".toList y content tail → parseArticleBody fromStr content = none) :
    ScanPassed fromStr html (behindTag pre a x) y where
  split := page_eq h.split hfirst hs
  boundary := Or.inr (by simp [behindTag])
  blocks := by
    intro content start hblock hle
    by_cases hpre : start ≤ byteLen pre
    · exact h.blocks content start hblock hpre
    · rcases h.block_behind hfirst hs hx hblock (not_le.mp hpre) with hgt | ⟨-, hld, tail, hclose⟩
      · omega
      · exact hnone content tail hld hclose

/-- One turn stops without a block left, finds the first body, or passes an open tag. -/
theorem jsonldStep_spec (h : ScanPassed fromStr html pre rest) :
    (jsonldStep fromStr html (byteLen pre) = some .stop ∧ NoBody fromStr html) ∨
      (∃ body, jsonldStep fromStr html (byteLen pre) = some (.found body) ∧
        FirstBody fromStr html body) ∨
      ∃ pre' rest', jsonldStep fromStr html (byteLen pre) = some (.next (byteLen pre')) ∧
        ScanPassed fromStr html pre' rest' ∧ rest'.length < rest.length := by
  cases hopen : findCi "<script".toList rest with
  | none =>
      refine Or.inl ⟨jsonldStep_no_tag h.split hopen, h.noBody fun u tag after hrest => ?_⟩
      exact findCi_eq_none.mp hopen u _ hrest
  | some rel =>
      obtain ⟨a, s, hfirst, -⟩ := findCi_eq_some.mp hopen
      rw [jsonldStep_tag h.split hfirst]
      cases hend : find ['>'] s with
      | none =>
          refine Or.inl ⟨rfl, h.noBody fun u tag after hrest hstarts => ?_⟩
          obtain ⟨v, -, rfl⟩ := hfirst.le hrest hstarts
          exact find_singleton_eq_none hend (by simp)
      | some gtRel =>
          obtain ⟨x, y, hs, hx, rfl⟩ := find_singleton_eq_some hend
          have hpage := page_eq h.split hfirst hs
          have hstart : byteLen (pre ++ a) + byteLen x + 1 = byteLen (behindTag pre a x) := by
            have hone : byteLen ['>'] = 1 := rfl
            simp only [behindTag, byteLen_append, hone]
            omega
          have hopenTag : byteSlice html (byteLen (pre ++ a)) (byteLen (behindTag pre a x)) =
              some (x ++ ['>']) := by
            rw [hpage, behindTag, ← List.append_assoc pre, byteLen_append (a := pre ++ a)]
            exact byteSlice_mid
          obtain ⟨r, hr, hbody⟩ := @blockBody_eq fromStr (behindTag pre a x) y (x ++ ['>'])
          rw [← hpage] at hr
          simp only [hstart, hopenTag, hr, Option.bind_eq_bind, Option.bind_some]
          cases r with
          | some body =>
              obtain ⟨hld, content, tail, hclose, hparse⟩ := (hbody body).mp rfl
              exact Or.inr (Or.inl ⟨body, rfl, h.firstBody hfirst hs hx hld hclose hparse⟩)
          | none =>
              refine Or.inr (Or.inr ⟨_, y, rfl, h.next hfirst hs hx ?_, ?_⟩)
              · intro content tail hld hclose
                by_contra hne
                obtain ⟨body, hparse⟩ := Option.ne_none_iff_exists'.mp hne
                exact nomatch (hbody body).mpr ⟨hld, content, tail, hclose, hparse⟩
              · rw [hfirst.split, hs]
                simp only [List.length_append, List.length_cons]
                omega

theorem jsonldScan_spec (h : ScanPassed fromStr html pre rest) :
    ∃ r, jsonldScan fromStr html (byteLen pre) = some r ∧
      (r = none → NoBody fromStr html) ∧ ∀ body, r = some body → FirstBody fromStr html body := by
  induction hlength : rest.length using Nat.strongRecOn generalizing pre rest with
  | ind n ih =>
      unfold jsonldScan
      rcases jsonldStep_spec h with ⟨hstep, hnone⟩ | ⟨body, hstep, hfirst⟩ |
        ⟨pre', rest', hstep, hpassed, hshort⟩
      · rw [hstep]
        exact ⟨none, rfl, fun _ => hnone, fun _ h => nomatch h⟩
      · rw [hstep]
        exact ⟨some body, rfl, fun h => (nomatch h), fun _ h => Option.some.inj h ▸ hfirst⟩
      · rw [hstep]
        exact ih rest'.length (hlength ▸ hshort) hpassed rfl

end Turn

theorem FirstBody.unique {body body' : String} (h : FirstBody fromStr html body)
    (h' : FirstBody fromStr html body') : body = body' := by
  obtain ⟨content, start, hblock, hparse, hleast⟩ := h
  obtain ⟨content', start', hblock', hparse', hleast'⟩ := h'
  rcases Nat.lt_trichotomy start start' with hlt | rfl | hlt
  · rw [hleast' content start hblock hlt] at hparse
    cases hparse
  · obtain rfl := hblock.unique hblock'
    exact Option.some.inj (hparse.symm.trans hparse')
  · rw [hleast content' start' hblock' hlt] at hparse'
    cases hparse'

theorem scanPassed_start : ScanPassed fromStr html [] html where
  split := rfl
  boundary := Or.inl rfl
  blocks := by
    rintro content start ⟨before, tag, after, _, _, _, _, _, rfl, _⟩ hle
    have hpos : 0 < byteLen (before ++ (tag ++ ['>'])) := byteLen_pos (by simp)
    rw [byteLen_nil] at hle
    omega

end Blocks

/-! ## The first article element -/

/-- The text from the first `<article` to the end of the next closing tag. -/
def IsArticle (html subtree : List Char) : Prop :=
  ∃ before fromOpen inner close after, FirstAt "<article".toList html before fromOpen ∧
    FirstAt "</article>".toList fromOpen inner (close ++ after) ∧
    close.map Char.toLower = "</article>".toList ∧ subtree = inner ++ close

theorem firstArticleSubtree_spec (html : List Char) : ∃ r, firstArticleSubtree html = some r ∧
    ∀ subtree, r = some subtree ↔ IsArticle html subtree := by
  unfold firstArticleSubtree
  rw [findCi_needle (by decide) (by decide)]
  cases hopen : findCi "<article".toList html with
  | none =>
      refine ⟨none, rfl, fun subtree => iff_of_false (fun h => nomatch h) ?_⟩
      rintro ⟨before, fromOpen, _, _, _, hfirst, -⟩
      exact findCi_eq_none.mp hopen before fromOpen hfirst.split hfirst.starts
  | some openAt =>
      obtain ⟨before, fromOpen, hfirst, rfl⟩ := findCi_eq_some.mp hopen
      have hfrom : byteSlice html (byteLen before) (byteLen html) = some fromOpen :=
        hfirst.split ▸ byteSlice_suffix
      simp only [Option.bind_eq_bind, Option.bind_some, hfrom]
      rw [findCi_needle (by decide) (by decide)]
      cases hclose : findCi "</article>".toList fromOpen with
      | none =>
          refine ⟨none, rfl, fun subtree => iff_of_false (fun h => nomatch h) ?_⟩
          rintro ⟨before', fromOpen', inner, close, after, hfirst', hend, -⟩
          obtain ⟨-, rfl⟩ := hfirst.unique hfirst'
          exact findCi_eq_none.mp hclose inner _ hend.split hend.starts
      | some closeRel =>
          obtain ⟨inner, tail, hend, rfl⟩ := findCi_eq_some.mp hclose
          obtain ⟨close, after, rfl, hcase⟩ := hend.starts.exists_append
          have hneedle : "</article>".toList.map Char.toLower = "</article>".toList := by
            decide +kernel
          have hlength : byteLen close = byteLen "</article>".toList := by
            rw [← byteLen_toLower, hcase, hneedle]
          have hslice : byteSlice html (byteLen before)
              (byteLen before + byteLen inner + byteLen "</article>".toList) =
                some (inner ++ close) := by
            rw [← hlength, Nat.add_assoc, ← byteLen_append, hfirst.split, hend.split,
              ← List.append_assoc inner, ← List.append_assoc before]
            exact byteSlice_mid
          simp only [Option.bind_some, hslice]
          refine ⟨_, rfl, fun subtree => ⟨fun h => ?_, ?_⟩⟩
          · exact ⟨before, fromOpen, inner, close, after, hfirst, hend, hcase.trans hneedle,
              (Option.some.inj h).symm⟩
          · rintro ⟨before', fromOpen', inner', close', after', hfirst', hend', hcase', rfl⟩
            obtain ⟨rfl, rfl⟩ := hfirst.unique hfirst'
            obtain ⟨rfl, htail⟩ := hend.unique hend'
            have hsame : byteLen close = byteLen close' := by
              rw [hlength, ← byteLen_toLower (s := close'), hcase']
            rw [(append_inj_byteLen htail hsame).1]

/-- On every page the scans return, without a slice out of range or inside a character. The first
gives the body of the first block that parses and has one, the second the first article element. -/
theorem article_scan_safe (fromStr : String → Option Value) (html : List Char) :
    (∃ r, jsonldArticleBody fromStr html = some r ∧
      (∀ body, r = some body ↔ FirstBody fromStr html body) ∧
      (r = none ↔ NoBody fromStr html)) ∧
    (∀ content body, parseArticleBody fromStr content = some body →
      ∃ v, fromStr (trim (String.ofList content)) = some v ∧ HasArticleBody v body) ∧
    (∀ content, parseArticleBody fromStr content = none ↔
      ∀ v body, fromStr (trim (String.ofList content)) = some v → ¬ HasArticleBody v body) ∧
    ∃ r, firstArticleSubtree html = some r ∧
      ∀ subtree, r = some subtree ↔ IsArticle html subtree := by
  refine ⟨?_, ?_, ?_, firstArticleSubtree_spec html⟩
  · obtain ⟨r, hscan, hnone, hsome⟩ := @jsonldScan_spec fromStr html [] html scanPassed_start
    have hempty : ∀ body, FirstBody fromStr html body → ¬ NoBody fromStr html := by
      rintro body ⟨content, start, hblock, hparse, -⟩ hno
      rw [hno content start hblock] at hparse
      cases hparse
    refine ⟨r, hscan, fun body => ⟨hsome body, fun hfirst => ?_⟩, hnone, fun hno => ?_⟩
    · cases r with
      | none => exact absurd (hnone rfl) (hempty body hfirst)
      | some found => rw [(hsome found rfl).unique hfirst]
    · cases r with
      | none => rfl
      | some found => exact absurd hno (hempty found (hsome found rfl))
  · intro content body h
    obtain ⟨v, hv, hbody⟩ := Option.bind_eq_some_iff.mp h
    exact ⟨v, hv, findArticleBody_sound v hbody⟩
  · intro content
    rw [parseArticleBody, Option.bind_eq_none_iff]
    refine forall_congr' fun v => ⟨fun h body hv hbody => ?_, fun h hv => ?_⟩
    · have hsome := findArticleBody_complete hbody
      rw [h hv] at hsome
      cases hsome
    · cases hfound : findArticleBody v with
      | none => rfl
      | some body => exact absurd (findArticleBody_sound v hfound) (h body hv)

end Bulletin
