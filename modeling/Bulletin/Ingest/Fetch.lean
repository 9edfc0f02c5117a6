import Bulletin.Common.Text

/-! # Fetching an article

Links come from feeds, so whoever writes a feed chooses what is requested. Each hop of a redirect
chain is checked before its request, and the resolver of the client drops the addresses that a
name must not lead to. Servers and name servers answer what they like, and differently each time.
-/

namespace Bulletin

/-! ## Addresses -/

structure Ipv4Addr where
  o0 : UInt8
  o1 : UInt8
  o2 : UInt8
  o3 : UInt8
deriving DecidableEq

structure Ipv6Addr where
  s0 : UInt16
  s1 : UInt16
  s2 : UInt16
  s3 : UInt16
  s4 : UInt16
  s5 : UInt16
  s6 : UInt16
  s7 : UInt16
deriving DecidableEq

inductive IpAddr where
  | v4 (ip : Ipv4Addr)
  | v6 (ip : Ipv6Addr)
deriving DecidableEq

namespace Ipv4Addr

def isPrivate (ip : Ipv4Addr) : Bool :=
  ip.o0 == 10 || (ip.o0 == 172 && 16 ≤ ip.o1 && ip.o1 ≤ 31) || (ip.o0 == 192 && ip.o1 == 168)

def isDocumentation (ip : Ipv4Addr) : Bool :=
  (ip.o0 == 192 && ip.o1 == 0 && ip.o2 == 2) || (ip.o0 == 198 && ip.o1 == 51 && ip.o2 == 100) ||
    (ip.o0 == 203 && ip.o1 == 0 && ip.o2 == 113)

def isBroadcast (ip : Ipv4Addr) : Bool :=
  ip.o0 == 255 && ip.o1 == 255 && ip.o2 == 255 && ip.o3 == 255

def isUnspecified (ip : Ipv4Addr) : Bool :=
  ip.o0 == 0 && ip.o1 == 0 && ip.o2 == 0 && ip.o3 == 0

/-- An address in the low half of two segments. -/
def ofSegments (hi lo : UInt16) : Ipv4Addr where
  o0 := (hi >>> 8).toUInt8
  o1 := (hi &&& 0xff).toUInt8
  o2 := (lo >>> 8).toUInt8
  o3 := (lo &&& 0xff).toUInt8

end Ipv4Addr

namespace Ipv6Addr

def zeroPrefix (ip : Ipv6Addr) : Bool :=
  ip.s0 == 0 && ip.s1 == 0 && ip.s2 == 0 && ip.s3 == 0 && ip.s4 == 0 && ip.s5 == 0

def isUnspecified (ip : Ipv6Addr) : Bool := ip.zeroPrefix && ip.s6 == 0 && ip.s7 == 0

def isLoopback (ip : Ipv6Addr) : Bool := ip.zeroPrefix && ip.s6 == 0 && ip.s7 == 1

/-- The address a mapped or a compatible one stands for. -/
def toIpv4 (ip : Ipv6Addr) : Option Ipv4Addr :=
  if ip.s0 = 0 ∧ ip.s1 = 0 ∧ ip.s2 = 0 ∧ ip.s3 = 0 ∧ ip.s4 = 0 ∧ (ip.s5 = 0 ∨ ip.s5 = 0xffff)
  then some (.ofSegments ip.s6 ip.s7) else none

end Ipv6Addr

def isDisallowedV4 (ip : Ipv4Addr) : Bool :=
  ip.isUnspecified || ip.o0 == 0 ||
    ip.o0 == 127 ||                           -- loopback
    ip.isPrivate ||
    (ip.o0 == 169 && ip.o1 == 254) ||         -- link local
    (ip.o0 == 100 && (ip.o1 &&& 0xC0) == 64) ||
    ip.isBroadcast || ip.isDocumentation ||
    (ip.o0 == 192 && ip.o1 == 0 && ip.o2 == 0) ||
    (ip.o0 == 198 && (ip.o1 &&& 0xFE) == 18) ||
    (224 ≤ ip.o0 && ip.o0 ≤ 239) ||           -- multicast
    240 ≤ ip.o0

def isDisallowedV6 (ip : Ipv6Addr) : Bool :=
  ip.isUnspecified || ip.isLoopback ||
    (ip.s0 &&& 0xfe00) == 0xfc00 || (ip.s0 &&& 0xffc0) == 0xfe80 ||
    (ip.s0 &&& 0xff00) == 0xff00 ||           -- multicast
    (ip.s0 == 0x2001 && ip.s1 == 0x0db8)

/-- The address that a translated or tunnelled one carries. -/
def embeddedV4 (ip : Ipv6Addr) : Option Ipv4Addr :=
  if ip.s0 = 0x0064 ∧ ip.s1 = 0xff9b then some (.ofSegments ip.s6 ip.s7)
  else if ip.s0 = 0x2002 then some (.ofSegments ip.s1 ip.s2)
  else none

def isDisallowedIp : IpAddr → Bool
  | .v4 ip => isDisallowedV4 ip
  | .v6 ip => ip.toIpv4.any isDisallowedV4 || (embeddedV4 ip).any isDisallowedV4 ||
      isDisallowedV6 ip

theorem isDisallowedIp_of_carries {ip : Ipv6Addr} {inner : Ipv4Addr}
    (h : ip.toIpv4 = some inner ∨ embeddedV4 ip = some inner)
    (hinner : isDisallowedV4 inner = true) : isDisallowedIp (.v6 ip) = true := by
  unfold isDisallowedIp
  rcases h with h | h
  · simp [h, hinner]
  · simp [h, hinner]

/-! ## URLs and the client -/

inductive Host where
  | ipv4 (ip : Ipv4Addr)
  | ipv6 (ip : Ipv6Addr)
  | domain (name : String)
deriving DecidableEq

/-- What a URL library reads of a URL. -/
structure UrlLibrary where
  Url : Type
  parse : String → Option Url
  /-- A relative or absolute reference, resolved against a URL. -/
  join : Url → String → Option Url
  scheme : Url → String
  portOrKnownDefault : Url → Option UInt16
  host : Url → Option Host

inductive FetchError where
  | badScheme
  | dnsFailure
  | blockedAddress
  | tooManyRedirects
  | badStatus (code : Nat)
  | disallowedContentType (contentType : String)
  | tooLarge
  | empty
  | transport (message : String)
deriving DecidableEq, Repr

structure FetchConfig where
  maxBytes : Nat := 2 * 1024 * 1024
  maxRedirects : Nat := 5
  fullTextMaxChars : Nat := 8000
  maxHtmlChars : Nat := 200000

/-- An answer of a server; a chunk of the body may fail to arrive. -/
structure Response where
  status : Nat
  location : Option String
  contentType : Option String
  contentLength : Option Nat
  chunks : List (Except String (List UInt8))

/-- What the network does in one hop. A name may have other addresses when the client connects
than it had when it was checked. -/
structure Hop where
  /-- The addresses of the name at the check, if it has any answer. -/
  lookup : Option (List IpAddr)
  /-- The addresses of the name at the connect. -/
  resolve : Option (List IpAddr)
  answer : Except String Response

/-- The HTTP client: the addresses it connects to for a host in a hop, given those its resolver
returns. -/
structure HttpClient where
  dials : Nat → Host → Option (List IpAddr) → List IpAddr

/-- The client follows nothing itself: it dials a literal address, or one its resolver returned. -/
structure HttpClient.DialsOnly (client : HttpClient) : Prop where
  ipv4 : ∀ k ip resolved, ∀ a ∈ client.dials k (.ipv4 ip) resolved, a = .v4 ip
  ipv6 : ∀ k ip resolved, ∀ a ∈ client.dials k (.ipv6 ip) resolved, a = .v6 ip
  domain : ∀ k name resolved, ∀ a ∈ client.dials k (.domain name) resolved,
    ∃ addrs, resolved = some addrs ∧ a ∈ addrs

def safeResolve (answer : Option (List IpAddr)) : Option (List IpAddr) :=
  match answer with
  | none => none
  | some addrs =>
      let safe := addrs.filter fun a => !isDisallowedIp a
      if safe = [] then none else some safe

/-! ## One fetch -/

section Fetch

variable (lib : UrlLibrary) (client : HttpClient)
  (article : FetchConfig → List UInt8 → Option String) (cfg : FetchConfig)

def hostAddrs (lookup : Option (List IpAddr)) : Host → Except FetchError (List IpAddr)
  | .ipv4 ip => .ok [.v4 ip]
  | .ipv6 ip => .ok [.v6 ip]
  | .domain _ =>
      match lookup with
      | none => .error .dnsFailure
      | some addrs => .ok addrs

def validateUrl (url : lib.Url) (lookup : Option (List IpAddr)) : Except FetchError Unit := do
  if lib.scheme url ≠ "http" ∧ lib.scheme url ≠ "https" then throw .badScheme
  let some _ := lib.portOrKnownDefault url | throw .badScheme
  let some host := lib.host url | throw .badScheme
  let ips ← hostAddrs lookup host
  if ips = [] then throw .dnsFailure
  if ips.any isDisallowedIp then throw .blockedAddress
  return ()

def isAllowedContentType (ct : String) : Bool :=
  let essence := String.ofList (asciiLower (trim (String.ofList (ct.toList.takeWhile
    (· ≠ ';')))).toList)
  essence == "text/html" || essence == "application/xhtml+xml"

def readCapped (maxBytes : Nat) : List UInt8 → List (Except String (List UInt8)) →
    Except FetchError (List UInt8)
  | buf, [] => .ok buf
  | _, .error e :: _ => .error (.transport e)
  | buf, .ok chunk :: chunks =>
      if buf.length + chunk.length > maxBytes then .error .tooLarge
      else readCapped maxBytes (buf ++ chunk) chunks

/-- A request that was sent, in which hop, and the addresses it went to. -/
structure Request (Url : Type) where
  hop : Nat
  url : Url
  dialed : List IpAddr

def readArticle (resp : Response) : Except FetchError String :=
  if ¬ (200 ≤ resp.status ∧ resp.status < 300) then .error (.badStatus resp.status)
  else
    let ct := resp.contentType.getD ""
    if !isAllowedContentType ct then .error (.disallowedContentType ct)
    else if resp.contentLength.any fun len => len > cfg.maxBytes then .error .tooLarge
    else
      match readCapped cfg.maxBytes [] resp.chunks with
      | .error e => .error e
      | .ok html =>
          match article cfg html with
          | none => .error .empty
          | some text => .ok text

/-- The hops that are left, from a URL on; the requests, and what is returned. -/
def fetchHops (net : Nat → Hop) : Nat → Nat → lib.Url →
    List (Request lib.Url) × Except FetchError String
  | 0, _, _ => ([], .error .tooManyRedirects)
  | left + 1, k, url =>
      match validateUrl lib url (net k).lookup with
      | .error e => ([], .error e)
      | .ok _ =>
          let dialed := (lib.host url).elim [] fun host =>
            client.dials k host (safeResolve (net k).resolve)
          let request : Request lib.Url := ⟨k, url, dialed⟩
          match (net k).answer with
          | .error e => ([request], .error (.transport e))
          | .ok resp =>
              if 300 ≤ resp.status ∧ resp.status < 400 then
                match resp.location with
                | none => ([request], .error (.transport "redirect without location"))
                | some location =>
                    match lib.join url location with
                    | none => ([request], .error (.transport "bad redirect location"))
                    | some next =>
                        let rest := fetchHops net left (k + 1) next
                        (request :: rest.1, rest.2)
              else ([request], readArticle article cfg resp)

def fetchArticle (net : Nat → Hop) (rawUrl : String) :
    List (Request lib.Url) × Except FetchError String :=
  match lib.parse rawUrl with
  | none => ([], .error .badScheme)
  | some url => fetchHops lib client article cfg net (cfg.maxRedirects + 1) 0 url

end Fetch

/-! ## What the check lets through -/

section Guard

variable {lib : UrlLibrary} {client : HttpClient}
  {article : FetchConfig → List UInt8 → Option String} {cfg : FetchConfig} {net : Nat → Hop}

/-- A URL that passes the check is one of the web, and none of the addresses of its host, literal
or looked up, is disallowed. -/
theorem validateUrl_ok {url : lib.Url} {lookup : Option (List IpAddr)}
    (h : validateUrl lib url lookup = .ok ()) :
    (lib.scheme url = "http" ∨ lib.scheme url = "https") ∧
      ∃ host ips, lib.host url = some host ∧ hostAddrs lookup host = .ok ips ∧
        ∀ a ∈ ips, isDisallowedIp a = false := by
  unfold validateUrl at h
  by_cases hscheme : lib.scheme url ≠ "http" ∧ lib.scheme url ≠ "https"
  · rw [if_pos hscheme] at h
    cases h
  rw [if_neg hscheme] at h
  cases hport : lib.portOrKnownDefault url with
  | none =>
      rw [hport] at h
      cases h
  | some port =>
      cases hhost : lib.host url with
      | none =>
          rw [hport, hhost] at h
          cases h
      | some host =>
          cases hips : hostAddrs lookup host with
          | error e =>
              rw [hport, hhost] at h
              simp [hips, bind, Except.bind] at h
          | ok ips =>
              refine ⟨by grind, host, ips, rfl, hips, ?_⟩
              intro a ha
              rw [hport, hhost] at h
              by_cases hany : ips.any isDisallowedIp = true
              · by_cases hempty : ips = []
                · simp [hempty] at hany
                · simp [hips, hany, hempty, bind, Except.bind, throw, throwThe,
                    MonadExceptOf.throw] at h
              · simpa using fun hbad => hany (List.any_eq_true.mpr ⟨a, ha, hbad⟩)

theorem mem_safeResolve {answer : Option (List IpAddr)} {addrs : List IpAddr} {a : IpAddr}
    (h : safeResolve answer = some addrs) (ha : a ∈ addrs) : isDisallowedIp a = false := by
  unfold safeResolve at h
  cases answer with
  | none => cases h
  | some answer =>
      dsimp only at h
      split at h
      · cases h
      · cases h
        simpa using (List.mem_filter.mp ha).2

/-- Whatever a name resolves to by then, a client connects to no disallowed address of a URL that
has passed the check. -/
theorem dials_allowed (hclient : client.DialsOnly) {k : Nat} {url : lib.Url}
    {lookup resolve : Option (List IpAddr)} (h : validateUrl lib url lookup = .ok ()) {a : IpAddr}
    (ha : a ∈ (lib.host url).elim [] fun host => client.dials k host (safeResolve resolve)) :
    isDisallowedIp a = false := by
  obtain ⟨_, host, ips, hhost, hips, hallowed⟩ := validateUrl_ok h
  rw [hhost] at ha
  cases host with
  | ipv4 ip =>
      obtain rfl := hclient.ipv4 _ _ _ a ha
      cases hips
      exact hallowed _ (List.mem_singleton_self _)
  | ipv6 ip =>
      obtain rfl := hclient.ipv6 _ _ _ a ha
      cases hips
      exact hallowed _ (List.mem_singleton_self _)
  | domain name =>
      obtain ⟨addrs, hresolved, hin⟩ := hclient.domain _ _ _ a ha
      exact mem_safeResolve hresolved hin

/-! ## The cap on a body -/

def Response.body (resp : Response) : Except String (List UInt8) :=
  resp.chunks.foldlM (fun buf chunk => chunk.map (buf ++ ·)) []

theorem readCapped_ok {maxBytes : Nat} {chunks : List (Except String (List UInt8))}
    {buf bytes : List UInt8} (hbuf : buf.length ≤ maxBytes)
    (h : readCapped maxBytes buf chunks = .ok bytes) :
    bytes.length ≤ maxBytes ∧
      chunks.foldlM (fun buf chunk => chunk.map (buf ++ ·)) buf = .ok bytes := by
  induction chunks generalizing buf with
  | nil =>
      cases h
      exact ⟨hbuf, rfl⟩
  | cons chunk chunks ih =>
      cases chunk with
      | error e => cases h
      | ok chunk =>
          unfold readCapped at h
          split at h
          · cases h
          · rename_i hle
            have hnext : (buf ++ chunk).length ≤ maxBytes := by
              rw [List.length_append]
              omega
            exact ih hnext h

theorem readArticle_ok {resp : Response} {text : String}
    (h : readArticle article cfg resp = .ok text) :
    ∃ bytes, resp.body = .ok bytes ∧ bytes.length ≤ cfg.maxBytes ∧
      article cfg bytes = some text := by
  unfold readArticle at h
  dsimp only at h
  split at h
  · cases h
  split at h
  · cases h
  split at h
  · cases h
  split at h
  · cases h
  · rename_i html hread
    obtain ⟨hlength, hbody⟩ := readCapped_ok (Nat.zero_le _) hread
    split at h
    · cases h
    · rename_i harticle
      cases h
      exact ⟨html, hbody, hlength, harticle⟩

/-! ## Whole chains -/

/-- A request went to a URL that passed the check of its own hop, over allowed addresses. -/
structure Guarded (lib : UrlLibrary) (net : Nat → Hop) (r : Request lib.Url) : Prop where
  web : lib.scheme r.url = "http" ∨ lib.scheme r.url = "https"
  checked : validateUrl lib r.url (net r.hop).lookup = .ok ()
  allowed : ∀ a ∈ r.dialed, isDisallowedIp a = false

/-- The requests of a chain that starts in hop `k`, at most `left` of them, and what it returns:
the article of the last answer, if its whole body is within the cap. -/
structure ChainGuarded (lib : UrlLibrary) (article : FetchConfig → List UInt8 → Option String)
    (cfg : FetchConfig) (net : Nat → Hop) (left k : Nat)
    (run : List (Request lib.Url) × Except FetchError String) : Prop where
  guarded : ∀ r ∈ run.1, Guarded lib net r
  length_le : run.1.length ≤ left
  /-- One request in each hop. -/
  hops : run.1.map (·.hop) = List.range' k run.1.length
  capped : ∀ text, run.2 = .ok text → ∃ r resp bytes, run.1.getLast? = some r ∧
    (net r.hop).answer = .ok resp ∧ resp.body = .ok bytes ∧ bytes.length ≤ cfg.maxBytes ∧
      article cfg bytes = some text

theorem chainGuarded_error {left k : Nat} {e : FetchError} :
    ChainGuarded lib article cfg net left k ([], .error e) where
  guarded := by simp
  length_le := Nat.zero_le _
  hops := rfl
  capped := by simp

theorem chainGuarded_end {left k : Nat} {r : Request lib.Url} {result : Except FetchError String}
    (hr : Guarded lib net r) (hhop : r.hop = k)
    (hcapped : ∀ text, result = .ok text → ∃ resp bytes, (net k).answer = .ok resp ∧
      resp.body = .ok bytes ∧ bytes.length ≤ cfg.maxBytes ∧ article cfg bytes = some text) :
    ChainGuarded lib article cfg net (left + 1) k ([r], result) where
  guarded := by simpa using hr
  length_le := by simp
  hops := by simp [hhop]
  capped := by
    intro text htext
    obtain ⟨resp, bytes, hanswer, hrest⟩ := hcapped text htext
    exact ⟨r, resp, bytes, rfl, hhop ▸ hanswer, hrest⟩

theorem ChainGuarded.cons {left k : Nat} {r : Request lib.Url}
    {run : List (Request lib.Url) × Except FetchError String} (hr : Guarded lib net r)
    (hhop : r.hop = k) (h : ChainGuarded lib article cfg net left (k + 1) run) :
    ChainGuarded lib article cfg net (left + 1) k (r :: run.1, run.2) where
  guarded := by
    intro q hq
    rcases List.mem_cons.mp hq with rfl | hq
    · exact hr
    · exact h.guarded q hq
  length_le := by
    have hle := h.length_le
    simpa using hle
  hops := by
    rw [List.map_cons, h.hops, hhop, List.length_cons, List.range'_succ]
  capped := by
    intro text htext
    obtain ⟨q, resp, bytes, hlast, hrest⟩ := h.capped text htext
    refine ⟨q, resp, bytes, ?_, hrest⟩
    rw [List.getLast?_cons, hlast]
    rfl

/-- By induction on the hops that are left: each sends one request at most, under its own check. -/
theorem fetchHops_guarded (hclient : client.DialsOnly) (left k : Nat) (url : lib.Url) :
    ChainGuarded lib article cfg net left k
      (fetchHops lib client article cfg net left k url) := by
  induction left generalizing k url with
  | zero => exact chainGuarded_error
  | succ left ih =>
      unfold fetchHops
      cases hvalid : validateUrl lib url (net k).lookup with
      | error e => exact chainGuarded_error
      | ok checked =>
          have hguarded : Guarded lib net ⟨k, url, (lib.host url).elim [] fun host =>
              client.dials k host (safeResolve (net k).resolve)⟩ :=
            { web := (validateUrl_ok hvalid).1
              checked := hvalid
              allowed := fun a ha => dials_allowed hclient hvalid ha }
          dsimp only
          cases hanswer : (net k).answer with
          | error e => exact chainGuarded_end hguarded rfl (by simp)
          | ok resp =>
              dsimp only
              split
              · cases hlocation : resp.location with
                | none => exact chainGuarded_end hguarded rfl (by simp)
                | some location =>
                    dsimp only
                    cases hnext : lib.join url location with
                    | none => exact chainGuarded_end hguarded rfl (by simp)
                    | some next => exact (ih (k + 1) next).cons hguarded rfl
              · refine chainGuarded_end hguarded rfl ?_
                intro text htext
                obtain ⟨bytes, hbody, hlength, harticle⟩ := readArticle_ok htext
                exact ⟨resp, bytes, hanswer, hbody, hlength, harticle⟩

/-- Whatever servers and name servers answer, each request of a fetch goes to a URL of the web
that passed the check in that hop and only over allowed addresses, there are no more requests than
redirects allowed and one, and no body beyond the cap is returned. -/
theorem fetchArticle_guarded (lib : UrlLibrary) (client : HttpClient)
    (article : FetchConfig → List UInt8 → Option String) (cfg : FetchConfig) (net : Nat → Hop)
    (rawUrl : String) (hclient : client.DialsOnly) :
    ChainGuarded lib article cfg net (cfg.maxRedirects + 1) 0
      (fetchArticle lib client article cfg net rawUrl) := by
  unfold fetchArticle
  cases lib.parse rawUrl with
  | none => exact chainGuarded_error
  | some url => exact fetchHops_guarded hclient _ 0 url

end Guard

/-! ## A name that leads inside by the time it is dialed -/

def loopback : Ipv4Addr := ⟨127, 0, 0, 1⟩

def outside : Ipv4Addr := ⟨93, 184, 216, 34⟩

def reboundLibrary : UrlLibrary where
  Url := String
  parse := fun s => if s ∈ ["http://feed.example/", "http://127.0.0.1/"] then some s else none
  join := fun _ s => if s ∈ ["http://feed.example/", "http://127.0.0.1/"] then some s else none
  scheme := fun _ => "http"
  portOrKnownDefault := fun _ => some 80
  host := fun url => some (if url = "http://127.0.0.1/" then .ipv4 loopback
    else .domain "feed.example")

def dialAll : HttpClient where
  dials := fun _ host resolved =>
    match host with
    | .ipv4 ip => [.v4 ip]
    | .ipv6 ip => [.v6 ip]
    | .domain _ => resolved.getD []

theorem dialAll_only : dialAll.DialsOnly where
  ipv4 := fun _ _ _ _ ha => List.mem_singleton.mp ha
  ipv6 := fun _ _ _ _ ha => List.mem_singleton.mp ha
  domain := by
    intro _ _ resolved a ha
    cases resolved with
    | none => cases ha
    | some addrs => exact ⟨addrs, rfl, ha⟩

/-- The name is outside at the check and also inside at the connect; its server redirects to the
loopback address. -/
def reboundNet : Nat → Hop := fun _ =>
  { lookup := some [.v4 outside]
    resolve := some [.v4 loopback, .v4 outside]
    answer := .ok { status := 302, location := some "http://127.0.0.1/", contentType := none,
                    contentLength := none, chunks := [] } }

theorem fetchArticle_guarded_rebound :
    let run := fetchArticle reboundLibrary dialAll (fun _ _ => none) {} reboundNet
      "http://feed.example/"
    ChainGuarded reboundLibrary (fun _ _ => none) {} reboundNet 6 0 run ∧
      run.1.map (·.dialed) = [[.v4 outside]] ∧ run.2 = .error .blockedAddress :=
  ⟨fetchArticle_guarded reboundLibrary dialAll (fun _ _ => none) {} reboundNet
    "http://feed.example/" dialAll_only, by decide, rfl⟩

end Bulletin
