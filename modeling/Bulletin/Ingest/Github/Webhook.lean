import Bulletin.Core.Octets
import Bulletin.Core.JobQueue
import Bulletin.Ingest.Builder
import Bulletin.Core.Json

/-! # The webhook catcher

A delivery is a request with a signature of its bytes. One that verifies is queued as text, under
the id it came with, and read later; the account it is for is all that routes it.
-/

namespace Bulletin

open Json

structure WebhookHeaders where
  signature : Option String := none
  eventType : Option String := none
  deliveryId : Option String := none
deriving DecidableEq, Repr

inductive Verified where
  | authentic
  | challenge (echo : List UInt8)
  | invalid
deriving DecidableEq, Repr

structure GithubWebhook where
  secret : Option (List UInt8)

structure ProcessWebhookJob where
  eventType : String
  deliveryId : String
  body : String
deriving DecidableEq, Repr

/-- A delivery in the queue, under a key if it has one, and the intake a worker has begun for it. -/
structure WebhookTask where
  payload : ProcessWebhookJob
  key : Option String
  job : JobQueue.Job := { attempts := 0, state := .ready }
  intake : Option Nat := none
deriving DecidableEq, Repr

inductive WebhookAnswer where
  | tooLarge
  | challenged (echo : List UInt8)
  | unauthorized
  | pong
  | queued
  | duplicate
  | enqueueFailed
deriving DecidableEq, Repr

def maxWebhookBody : Nat := 25 * 1024 * 1024

def webhookMaxAttempts : Nat := 5

def webhookText (body : List UInt8) : String := String.ofList (Octets.decodeLossy body)

def webhookKey (deliveryId : String) : Option String :=
  if deliveryId = "" then none else some ("gh-webhook:" ++ deliveryId)

section Edge

variable (hmac : List UInt8 → List UInt8 → List UInt8)

def GithubWebhook.verify (webhook : GithubWebhook) (headers : WebhookHeaders)
    (body : List UInt8) : Verified :=
  match webhook.secret, headers.signature with
  | some secret, some signature =>
      match signature.toList.dropPrefix? "sha256=".toList with
      | none => .invalid
      | some hexSignature =>
          match Octets.hexDecode hexSignature with
          | none => .invalid
          | some expected => if hmac secret body = expected then .authentic else .invalid
  | _, _ => .invalid

/-- The task of a request, or its answer if there is none. -/
def githubWebhook (webhook : GithubWebhook) (headers : WebhookHeaders) (body : List UInt8) :
    Except WebhookAnswer WebhookTask :=
  if maxWebhookBody < body.length then .error .tooLarge
  else
    match webhook.verify hmac headers body with
    | .challenge echo => .error (.challenged echo)
    | .invalid => .error .unauthorized
    | .authentic =>
        let eventType := headers.eventType.getD ""
        if eventType = "ping" then .error .pong
        else
          let deliveryId := headers.deliveryId.getD ""
          .ok {
            payload := { eventType, deliveryId, body := webhookText body }
            key := webhookKey deliveryId }

end Edge

def route (parse : String → Except String Value) (body : String) : Except SourceError String :=
  match parse body with
  | .error e => .error (.parse ("webhook body is not JSON: " ++ e))
  | .ok value =>
      match (value.dig ["installation", "id"]).bind Value.asInt64 with
      | some id => .ok (toString id)
      | none => .error (.parse "webhook missing installation.id")

theorem utf8_eq_encode (s : String) : utf8 s = Text.encode s.toList := by
  have hlist : s = String.ofList s.toList := String.ofList_toList.symm
  unfold utf8 Text.encode
  conv_lhs => rw [hlist]
  simp [String.ofList, List.utf8Encode]

theorem webhookText_utf8 (s : String) : webhookText (utf8 s) = s := by
  unfold webhookText
  rw [utf8_eq_encode, Octets.decodeLossy_encode, String.ofList_toList]

theorem webhookKey_inj {a b : String} (hb : b ≠ "") (h : webhookKey a = webhookKey b) : a = b := by
  unfold webhookKey at h
  rw [if_neg hb] at h
  split at h
  · cases h
  · have hlist := congrArg String.toList (Option.some.inj h)
    rw [String.toList_append, String.toList_append] at hlist
    exact String.toList_injective (List.append_cancel_left hlist)

section Edge

variable {hmac : List UInt8 → List UInt8 → List UInt8} {webhook : GithubWebhook}
  {headers : WebhookHeaders} {body : List UInt8} {task : WebhookTask}

/-- A request verifies if and only if it has the code of its bytes in hexadecimal digits. -/
theorem GithubWebhook.verify_authentic : webhook.verify hmac headers body = .authentic ↔
    ∃ secret digits, webhook.secret = some secret ∧
      headers.signature = some (String.ofList ("sha256=".toList ++ digits)) ∧
      Octets.hexDecode digits = some (hmac secret body) := by
  unfold verify
  constructor
  · intro h
    split at h
    · rename_i secret signature hsecret hsignature
      split at h
      · cases h
      · rename_i digits hprefix
        obtain ⟨p, hlist, hp⟩ := List.dropPrefix?_eq_some_iff.mp hprefix
        obtain rfl := eq_of_beq hp
        split at h
        · cases h
        · rename_i expected hdecode
          split at h
          · rename_i hcode
            refine ⟨secret, digits, hsecret, ?_, ?_⟩
            · rw [hsignature, ← hlist, String.ofList_toList]
            · rw [hdecode, hcode]
          · cases h
    · cases h
  · rintro ⟨secret, digits, hsecret, hsignature, hdecode⟩
    have hprefix : ("sha256=".toList ++ digits).dropPrefix? "sha256=".toList = some digits :=
      List.dropPrefix?_append_of_beq _ BEq.rfl
    rw [hsecret, hsignature]
    dsimp only
    rw [String.toList_ofList, hprefix]
    dsimp only
    rw [hdecode]
    exact if_pos rfl

/-- What is queued has verified, as the text of its bytes and under the id of its headers. -/
theorem githubWebhook_ok (h : githubWebhook hmac webhook headers body = .ok task) :
    webhook.verify hmac headers body = .authentic ∧ body.length ≤ maxWebhookBody ∧
      headers.eventType ≠ some "ping" ∧
      task = {
        payload := {
          eventType := headers.eventType.getD ""
          deliveryId := headers.deliveryId.getD ""
          body := webhookText body }
        key := webhookKey (headers.deliveryId.getD "") } := by
  unfold githubWebhook at h
  split at h
  · cases h
  · rename_i hsize
    split at h
    · cases h
    · cases h
    · rename_i hverified
      dsimp only at h
      split at h
      · cases h
      · rename_i hping
        refine ⟨hverified, Nat.not_lt.mp hsize, ?_, (Except.ok.inj h).symm⟩
        intro heq
        exact hping (by rw [heq]; rfl)

theorem githubWebhook_of_authentic (hverified : webhook.verify hmac headers body = .authentic)
    (hsize : body.length ≤ maxWebhookBody) (hping : headers.eventType ≠ some "ping") :
    ∃ task, githubWebhook hmac webhook headers body = .ok task := by
  have hevent : headers.eventType.getD "" ≠ "ping" := by
    cases htype : headers.eventType with
    | none => decide
    | some eventType =>
        intro heq
        exact hping (htype.trans (congrArg some heq))
  unfold githubWebhook
  rw [if_neg (Nat.not_lt.mpr hsize), hverified]
  dsimp only
  rw [if_neg hevent]
  exact ⟨_, rfl⟩

end Edge

theorem route_ok {parse : String → Except String Value} {body account : String}
    (h : route parse body = .ok account) : ∃ value id, parse body = .ok value ∧
      (value.dig ["installation", "id"]).bind Value.asInt64 = some id ∧ account = toString id := by
  unfold route at h
  split at h
  · cases h
  · rename_i value hparse
    split at h
    · rename_i id hid
      exact ⟨value, id, hparse, hid, (Except.ok.inj h).symm⟩
    · cases h

end Bulletin
