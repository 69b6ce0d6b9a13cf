import Dmtap.Cbor.Fields
import Dmtap.Identity.Keys
import Dmtap.Lib.OnceOnly

/-! Push wakes: the signed registration of a device, and the sealed wake signals it receives. A wake
carries a nonce and nothing else, and a nonce wakes the device once. -/
namespace Dmtap.Push
open Dmtap.Lib Dmtap.Cbor

def pushSubscriptionDs : Bytes := utf8 "DMTAP-v0/push-subscription" ++ [0]

inductive PushError
  | pushSubscriptionSigInvalid
  | wakePingContentPresent
  | wakePingAuthFailed
  | wakePingRateLimited
  | wakePingReplay
  | unsupportedSuite
  | badEncoding (e : CborError)
  deriving DecidableEq, Repr

def PushError.code : PushError → UInt16
  | .pushSubscriptionSigInvalid => 0x0312
  | .wakePingContentPresent => 0x0313
  | .wakePingAuthFailed => 0x0314
  | .wakePingRateLimited => 0x0315
  | .wakePingReplay => 0x0316
  | .unsupportedSuite => 0x0101
  | .badEncoding _ => 0x020D

instance : ErrorFrom CborError PushError := ⟨.badEncoding⟩

instance : ErrorFrom PushError PushError := ⟨id⟩

/-- A device's registration with a push provider. -/
structure PushSubscription where
  provider : UInt8
  endpoint : String
  pushKey : Bytes
  authSecret : Bytes
  deviceKey : Bytes
  ts : UInt64
  sig : Bytes

namespace PushSubscription

def fields (includeSig : Bool) (s : PushSubscription) : Fields :=
  [(1, .u64 s.provider.toUInt64), (2, .text s.endpoint), (3, .bytes s.pushKey),
    (4, .bytes s.authSecret), (5, .bytes s.deviceKey), (6, .u64 s.ts)] ++
    if includeSig then [(7, .bytes s.sig)] else []

def detCbor (s : PushSubscription) : Bytes := encode (.map (fields true s))

def signingBody (s : PushSubscription) : Bytes := encode (.map (fields false s))

def reader : FieldReader CborError PushSubscription := do
  let provider ← Fields.req 1 asU8
  let endpoint ← Fields.req 2 asText
  let pushKey ← Fields.req 3 asBytes
  let authSecret ← Fields.req 4 asBytes
  let deviceKey ← Fields.req 5 asBytes
  let ts ← Fields.req 6 asU64
  let sig ← Fields.req 7 asBytes
  Fields.denyUnknown
  return { provider, endpoint, pushKey, authSecret, deviceKey, ts, sig }

def fromDetCbor : Bytes → Except PushError PushSubscription :=
  Cbor.fromDetCbor (Fields.read reader)

def sign (E : Ed25519) (device : IdentityKey) (s : PushSubscription) : PushSubscription :=
  { s with sig := E.signDomain device pushSubscriptionDs s.signingBody }

def create (E : Ed25519) (device : IdentityKey) (provider : UInt8) (endpoint : String)
    (pushKey authSecret : Bytes) (ts : UInt64) : PushSubscription :=
  sign E device { provider, endpoint, pushKey, authSecret, deviceKey := E.publicKey device, ts,
                  sig := [] }

def verify (E : Ed25519) (s : PushSubscription) : Except PushError Unit :=
  (E.verifyDomain s.deviceKey pushSubscriptionDs s.signingBody s.sig).mapError fun _ =>
    .pushSubscriptionSigInvalid

theorem readsFields : ReadsFields reader (fields true) := by
  apply yields_req lossless_u8
  intro provider
  apply yields_req lossless_text
  intro endpoint
  apply yields_req lossless_bytes
  intro pushKey
  apply yields_req lossless_bytes
  intro authSecret
  apply yields_req lossless_bytes
  intro deviceKey
  apply yields_req lossless_u64
  intro ts
  apply yields_req lossless_bytes
  intro sig
  exact Record.yields_deny_pure (by simp [fields])

theorem canonical : Canonical fromDetCbor detCbor := readsFields.lossless.canonical

theorem signsReceived : SignsReceived fromDetCbor signingBody (· ≠ 7) :=
  readsFields.signsReceived fun _ => rfl

end PushSubscription

/-- A wake signal: a sealed token, and no other field. -/
structure WakePing where
  token : Bytes

namespace WakePing

def fields (w : WakePing) : Fields := [(1, .bytes w.token)]

def detCbor (w : WakePing) : Bytes := encode (.map w.fields)

/-- A missing token and any further field are both content. -/
def reader : FieldReader PushError WakePing := do
  let token ← Record.field (fun _ => PushError.wakePingContentPresent) ErrorFrom.conv 1 asBytes
  if (← get) ≠ [] then throw .wakePingContentPresent
  else return { token }

def fromDetCbor : Bytes → Except PushError WakePing := Cbor.fromDetCbor (Fields.read reader)

/-- What a sealed plaintext must not be: a map or an array, which could say something. -/
def structured (plaintext : Bytes) : Bool :=
  match decode plaintext with
  | .ok (.map _) => true
  | .ok (.textMap _) => true
  | .ok (.array _) => true
  | _ => false

def checkOpenedPlaintext (plaintext : Bytes) : Except PushError Unit :=
  if structured plaintext then .error .wakePingContentPresent else .ok ()

/-- Open the token. `opener` is the transport's decryption; it gives nothing for a forged token. -/
def openWith (w : WakePing) (opener : Bytes → Option Bytes) : Except PushError Bytes :=
  match opener w.token with
  | none => .error .wakePingAuthFailed
  | some pt => do
    checkOpenedPlaintext pt
    return pt

theorem openWith_eq_ok {w : WakePing} {opener : Bytes → Option Bytes} {n : Bytes} :
    w.openWith opener = .ok n ↔ opener w.token = some n ∧ structured n = false := by
  unfold openWith checkOpenedPlaintext
  cases opener w.token with
  | none => simp
  | some pt =>
    cases hpt : structured pt with
    | true =>
      simp only [hpt, if_true, Option.some.injEq]
      constructor
      · intro h
        cases h
      · rintro ⟨rfl, hn⟩
        exact absurd (hpt.symm.trans hn) (by decide)
    | false =>
      simp only [hpt, Option.some.injEq]
      constructor
      · intro h
        obtain rfl : pt = n := Except.ok.inj h
        exact ⟨rfl, hpt⟩
      · rintro ⟨rfl, -⟩
        rfl

end WakePing

def wakeIsReplay (seen : Finset Bytes) (nonce : Bytes) : Bool := decide (nonce ∈ seen)

/-- The nonces that have woken the device. -/
structure WakeReplayCache where
  seen : Finset Bytes

namespace WakeReplayCache

def new : WakeReplayCache := ⟨∅⟩

def checkAndReserve (c : WakeReplayCache) (nonce : Bytes) :
    Except PushError Unit × WakeReplayCache :=
  if nonce ∈ c.seen then (.error .wakePingReplay, c)
  else (.ok (), ⟨insert nonce c.seen⟩)

end WakeReplayCache

/-- Open a wake, and refuse a nonce that has been opened before. -/
def WakePing.openDedup (w : WakePing) (opener : Bytes → Option Bytes) (replay : WakeReplayCache) :
    Except PushError Bytes × WakeReplayCache :=
  match w.openWith opener with
  | .error e => (.error e, replay)
  | .ok nonce =>
    match replay.checkAndReserve nonce with
    | (.error e, replay) => (.error e, replay)
    | (.ok (), replay) => (.ok nonce, replay)

def wakeWithinBudget (wakesInWindow maxPerWindow : UInt32) : Except PushError Unit :=
  if wakesInWindow < maxPerWindow then .ok () else .error .wakePingRateLimited

section Runs

/-- A wake as it reaches the device, with the decryption that the device has at that time. -/
structure Wake where
  ping : WakePing
  opener : Bytes → Option Bytes

namespace Wake

def nonce (w : Wake) : Option Bytes := (w.ping.openWith w.opener).toOption

theorem nonce_eq_some {w : Wake} {n : Bytes} :
    w.nonce = some n ↔ w.opener w.ping.token = some n ∧ WakePing.structured n = false := by
  rw [← WakePing.openWith_eq_ok, nonce]
  cases w.ping.openWith w.opener <;> simp [Except.toOption]

end Wake

/-- The device's cache as a gate: a wake presents the nonce that it opens to. -/
def wakes : Gate WakeReplayCache Wake PushError Bytes Bytes where
  seen := WakeReplayCache.seen
  key := Wake.nonce
  call := fun cache w => w.ping.openDedup w.opener cache

theorem openDedup_eq (w : Wake) (cache : WakeReplayCache) :
    w.ping.openDedup w.opener cache = match w.ping.openWith w.opener with
      | .error e => (.error e, cache)
      | .ok n => if n ∈ cache.seen then (.error .wakePingReplay, cache)
          else (.ok n, ⟨insert n cache.seen⟩) := by
  unfold WakePing.openDedup WakeReplayCache.checkAndReserve
  cases w.ping.openWith w.opener with
  | error e => rfl
  | ok n =>
    by_cases hn : n ∈ cache.seen
    · simp [hn]
    · simp [hn]

theorem wakes_admitsOnce : wakes.AdmitsOnce where
  isOk_iff := by
    intro cache w
    change (w.ping.openDedup w.opener cache).1.isOk = true ↔ ∃ k, w.nonce = some k ∧ k ∉ cache.seen
    rw [openDedup_eq, Wake.nonce]
    cases w.ping.openWith w.opener with
    | error e => simp [Except.isOk, Except.toBool, Except.toOption]
    | ok n =>
      by_cases hn : n ∈ cache.seen
      · simp [hn, Except.isOk, Except.toBool, Except.toOption]
      · simp [hn, Except.isOk, Except.toBool, Except.toOption]
  mem_seen := by
    intro cache w k
    change k ∈ (w.ping.openDedup w.opener cache).2.seen ↔ k ∈ cache.seen ∨ w.nonce = some k
    rw [openDedup_eq, Wake.nonce]
    cases w.ping.openWith w.opener with
    | error e => simp [Except.toOption]
    | ok n =>
      by_cases hn : n ∈ cache.seen
      · simp only [hn, if_true, Except.toOption, Option.some.injEq]
        constructor
        · exact Or.inl
        · rintro (hk | rfl)
          · exact hk
          · exact hn
      · simp only [hn, if_false, Except.toOption, Option.some.injEq, Finset.mem_insert]
        rw [or_comm, eq_comm]

/-- What a device does with a wake after any run: a forged one and one with content are refused for
what they are, and one that opens to a nonce wakes the device unless an earlier wake opened to the
same nonce. No nonce wakes it twice. -/
theorem wakes_once (pre : List Wake) (w : Wake) :
    ((w.ping.openDedup w.opener (wakes.run .new pre)).1 =
      match w.opener w.ping.token with
      | none => .error .wakePingAuthFailed
      | some n =>
        if WakePing.structured n then .error .wakePingContentPresent
        else if ∃ v ∈ pre, v.opener v.ping.token = some n then .error .wakePingReplay
        else .ok n) ∧
    (wakes.admitted .new pre).Nodup ∧
    ∀ n, n ∈ wakes.admitted .new pre ↔
      WakePing.structured n = false ∧ ∃ v ∈ pre, v.opener v.ping.token = some n := by
  have hpresented (n : Bytes) : n ∈ wakes.presented pre ↔
      WakePing.structured n = false ∧ ∃ v ∈ pre, v.opener v.ping.token = some n := by
    have hkey (v : Wake) : wakes.key v = some n ↔
        v.opener v.ping.token = some n ∧ WakePing.structured n = false := Wake.nonce_eq_some
    rw [Gate.presented, List.mem_filterMap]
    simp only [hkey]
    constructor
    · rintro ⟨v, hv, hopen, hplain⟩
      exact ⟨hplain, v, hv, hopen⟩
    · rintro ⟨hplain, v, hv, hopen⟩
      exact ⟨v, hv, hopen, hplain⟩
  refine ⟨?_, wakes_admitsOnce.nodup_admitted _ _, fun n => ?_⟩
  · rw [openDedup_eq]
    cases hopen : w.opener w.ping.token with
    | none =>
      have hforged : w.ping.openWith w.opener = .error .wakePingAuthFailed := by
        rw [WakePing.openWith, hopen]
      rw [hforged]
    | some n =>
      dsimp only
      cases hplain : WakePing.structured n with
      | true =>
        have hcontent : w.ping.openWith w.opener = .error .wakePingContentPresent := by
          rw [WakePing.openWith, hopen]
          simp only [WakePing.checkOpenedPlaintext, hplain, if_true]
          rfl
        rw [hcontent]
        rfl
      | false =>
        have hok : w.ping.openWith w.opener = .ok n := WakePing.openWith_eq_ok.mpr ⟨hopen, hplain⟩
        have hseen : n ∈ (wakes.run .new pre).seen ↔
            ∃ v ∈ pre, v.opener v.ping.token = some n := by
          have hrun := wakes_admitsOnce.mem_seen_run .new pre n
          rw [hpresented] at hrun
          refine hrun.trans ?_
          simp [wakes, WakeReplayCache.new, hplain]
        rw [hok]
        simp only [hseen, Bool.false_eq_true, if_false]
        split_ifs with hreplay
        · rfl
        · rfl
  · have hadmitted := wakes_admitsOnce.mem_admitted .new pre n
    rw [hpresented] at hadmitted
    refine hadmitted.trans ?_
    simp [wakes, WakeReplayCache.new]

end Runs
end Dmtap.Push
