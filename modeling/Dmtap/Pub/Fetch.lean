import Dmtap.Identity.Verify
import Dmtap.Pub.Merkle
import Dmtap.Pub.Transport

/-! Fetching public objects from holders that nobody has to trust. The id of an announcement fixes
every byte that is accepted under it, and what a publisher puts out is accepted. -/
namespace Dmtap
open Dmtap.Lib Dmtap.Cbor

section Addresses
variable {D : Type} {H : Hasher D}

/-- The content address of `bytes` under any hash function. -/
def Hasher.address (H : Hasher D) (bytes : Bytes) : ContentId := ⟨mhBlake3 :: H.write (H.hash bytes)⟩

theorem Hasher.address_ofBlake3 (blake3 : Bytes → Digest) (bytes : Bytes) :
    (ofBlake3 blake3).address bytes = ContentId.of blake3 bytes := rfl

theorem Hasher.Ideal.address_injective (hH : H.Ideal) : Function.Injective H.address := by
  intro b b' h
  rw [address, address, ContentId.mk.injEq, List.cons.injEq] at h
  exact hH.hash_injective (hH.write_injective h.2)

/-- A public root is the root of one chunk list. -/
theorem Hasher.Ideal.pubManifestRoot_injective (hH : H.Ideal) {a b : List ContentId} (ha : a ≠ [])
    (hb : b ≠ []) (h : Pub.pubManifestRoot H a = Pub.pubManifestRoot H b) : a = b := by
  rw [pubManifestRoot_eq, pubManifestRoot_eq] at h
  exact hH.manifestRoot_injective (hH.leaf_injective Pub.pubManifestDs)
    (hH.node_injective Pub.pubManifestDs) (hH.leaf_ne_node Pub.pubManifestDs) ha hb h

end Addresses

namespace Pub

/-- The domain separator of announcements, `DMTAP-PUB-v0/announce` and a zero byte. -/
def pubAnnounceDs : Bytes := utf8 "DMTAP-PUB-v0/announce" ++ [0]

section Checks
variable {D : Type} (E : Ed25519) (H : Hasher D)

def chunkHash (plaintext : Bytes) : ContentId := H.address plaintext

def verifyChunk (plaintext : Bytes) (listedH : ContentId) : Except PubError Unit :=
  if chunkHash H plaintext = listedH then .ok () else .error .chunkHashMismatch

namespace PubManifest

/-- The manifest of a list of chunks; the code panics on no chunks. -/
def new (size : UInt64) (chunkSz : UInt32) (chunks : List ContentId) (suite : Suite) :
    Option PubManifest := do
  let id ← pubManifestRoot H chunks
  some { id, size, chunkSz, chunks, suite }

def merkleRoot (m : PubManifest) : Option ContentId := pubManifestRoot H m.chunks

def verify (m : PubManifest) : Except PubError Unit :=
  if m.chunks = [] then .error (.cbor .manifestEmptyChunks)
  else if some m.id ≠ m.merkleRoot H then .error .manifestHashMismatch
  else .ok ()

end PubManifest

namespace PubAnnounce

def sign (a : PubAnnounce) (signerKey : IdentityKey) : PubAnnounce :=
  { a with sig := E.signDomain signerKey pubAnnounceDs a.signingPreimage }

/-- The checks before the one that ties the signer to the publisher. -/
def verifySigned (a : PubAnnounce) (fetchedBy : ContentId) : Except PubError Unit :=
  if a.v ≠ pubV0 ∨ a.suite.isSupported = false then .error .unsupportedVersion
  else if H.address a.detCbor ≠ fetchedBy then .error .announceIdMismatch
  else (E.verifyDomain a.signer pubAnnounceDs a.signingPreimage a.sig).mapError fun _ =>
    .announceSigInvalid

def verify (a : PubAnnounce) (fetchedBy : ContentId) : Except PubError Unit := do
  a.verifySigned E H fetchedBy
  if a.signer ≠ a.publisher then .error .announceSigInvalid else .ok ()

/-- Like `verify`, for a signer that the publisher has certified. -/
def verifyWithCert (a : PubAnnounce) (fetchedBy : ContentId) (cert : DeviceCert) :
    Except PubError Unit := do
  a.verifySigned E H fetchedBy
  if a.signer = a.publisher then .ok ()
  else do
    (cert.verify E).mapError fun _ => PubError.announceSigInvalid
    if cert.ik ≠ a.publisher ∨ cert.deviceKey ≠ a.signer then .error .announceSigInvalid
    else .ok ()

end PubAnnounce

def checkSupersede (predecessorPub successorPub : Bytes) : Except PubError Unit :=
  if predecessorPub = successorPub then .ok () else .error .supersedeInvalid

end Checks

section Accepted
variable {D : Type} (E : Ed25519) (H : Hasher D)

/-- A file as holders delivered it: a manifest and a plaintext for each chunk. -/
structure FetchedFile where
  manifest : Bytes
  chunks : List Bytes

/-- A publication as holders delivered it, with the certificate of the signer if there is one. -/
structure Fetched where
  announce : Bytes
  cert : Option DeviceCert
  files : List FetchedFile

/-- The manifest of the file is that of the root, and every chunk is the one listed there. -/
def FetchedFile.Accepted (root : ContentId) (f : FetchedFile) : Prop :=
  ∃ m, PubManifest.fromDetCbor f.manifest = .ok m ∧ m.verify H = .ok () ∧ m.id = root ∧
    List.Forall₂ (fun h p => verifyChunk H p h = .ok ()) m.chunks f.chunks

def PubAnnounce.verifyAs (a : PubAnnounce) (fetchedBy : ContentId) :
    Option DeviceCert → Except PubError Unit
  | none => a.verify E H fetchedBy
  | some cert => a.verifyWithCert E H fetchedBy cert

/-- Every check of a fetch under an announcement id has passed. -/
def Fetched.Accepted (id : ContentId) (f : Fetched) : Prop :=
  ∃ a, PubAnnounce.fromDetCbor f.announce = .ok a ∧ a.verifyAs E H id f.cert = .ok () ∧
    List.Forall₂ (FetchedFile.Accepted H) a.roots f.files

/-- The plaintext chunks of each file. -/
def Fetched.contents (f : Fetched) : List (List Bytes) := f.files.map FetchedFile.chunks

end Accepted

section Binding
variable {D : Type} {E : Ed25519} {H : Hasher D}

theorem verifyChunk_eq_ok {plaintext : Bytes} {listedH : ContentId} :
    verifyChunk H plaintext listedH = .ok () ↔ H.address plaintext = listedH := by
  unfold verifyChunk chunkHash
  split_ifs with h <;> simp [h]

theorem PubManifest.verify_eq_ok {m : PubManifest} :
    m.verify H = .ok () ↔ m.chunks ≠ [] ∧ pubManifestRoot H m.chunks = some m.id := by
  unfold PubManifest.verify PubManifest.merkleRoot
  rw [except_guard_eq_ok, except_guard_eq_ok, not_not]
  simp [eq_comm]

namespace PubAnnounce
variable {a : PubAnnounce} {id : ContentId}

theorem verifySigned_eq_ok : a.verifySigned E H id = .ok () ↔
    (a.v = pubV0 ∧ a.suite.isSupported = true) ∧ H.address a.detCbor = id ∧
      E.verifyDomain a.signer pubAnnounceDs a.signingPreimage a.sig = .ok () := by
  unfold verifySigned
  rw [except_guard_eq_ok, except_guard_eq_ok, except_mapError_eq_ok, not_not]
  simp

theorem verify_eq_ok : a.verify E H id = .ok () ↔
    a.verifySigned E H id = .ok () ∧ a.signer = a.publisher := by
  unfold verify
  rw [except_check_bind_eq_ok, except_guard_eq_ok]
  simp

theorem verifyWithCert_eq_ok {cert : DeviceCert} : a.verifyWithCert E H id cert = .ok () ↔
    a.verifySigned E H id = .ok () ∧ (a.signer = a.publisher ∨
      cert.verify E = .ok () ∧ cert.ik = a.publisher ∧ cert.deviceKey = a.signer) := by
  unfold verifyWithCert
  rw [except_check_bind_eq_ok]
  refine and_congr_right fun _ => ?_
  by_cases hself : a.signer = a.publisher
  · simp [hself]
  · rw [if_neg hself, except_check_bind_eq_ok, except_mapError_eq_ok, except_guard_eq_ok]
    simp [hself]

/-- Whichever way the signer was tied to the publisher, the id is that of the announcement. -/
theorem address_of_verifyAs {cert : Option DeviceCert} (h : a.verifyAs E H id cert = .ok ()) :
    H.address a.detCbor = id := by
  cases cert with
  | none => exact (verifySigned_eq_ok.mp (verify_eq_ok.mp h).1).2.1
  | some cert => exact (verifySigned_eq_ok.mp (verifyWithCert_eq_ok.mp h).1).2.1

end PubAnnounce

/-- What each member of a list determines is determined along the list. -/
theorem map_eq_of_forall₂ {α β γ : Type} {R : α → β → Prop} {f : β → γ}
    (h : ∀ a b b', R a b → R a b' → f b = f b') {l : List α} {m m' : List β}
    (hm : List.Forall₂ R l m) (hm' : List.Forall₂ R l m') : m.map f = m'.map f := by
  induction hm generalizing m' with
  | nil =>
    cases hm'
    rfl
  | cons hb _ ih =>
    cases hm' with
    | cons hb' hm' => rw [List.map_cons, List.map_cons, h _ _ _ hb hb', ih hm']

theorem FetchedFile.Accepted.chunks_eq (hH : H.Ideal) {root : ContentId} {f f' : FetchedFile}
    (h : f.Accepted H root) (h' : f'.Accepted H root) : f.chunks = f'.chunks := by
  obtain ⟨m, -, hm, hroot, hchunks⟩ := h
  obtain ⟨m', -, hm', hroot', hchunks'⟩ := h'
  obtain ⟨hne, hid⟩ := PubManifest.verify_eq_ok.mp hm
  obtain ⟨hne', hid'⟩ := PubManifest.verify_eq_ok.mp hm'
  have hlisted : m.chunks = m'.chunks := by
    apply hH.pubManifestRoot_injective hne hne'
    rw [hid, hid', hroot, hroot']
  rw [← hlisted] at hchunks'
  have hbytes := map_eq_of_forall₂ (f := id) (fun c p p' hp hp' => ?_) hchunks hchunks'
  · simpa using hbytes
  · exact hH.address_injective ((verifyChunk_eq_ok.mp hp).trans (verifyChunk_eq_ok.mp hp').symm)

/-- Two fetches under one id agree byte for byte. -/
theorem Fetched.Accepted.unique (hH : H.Ideal) {id : ContentId} {f f' : Fetched}
    (h : f.Accepted E H id) (h' : f'.Accepted E H id) :
    f.announce = f'.announce ∧ f.contents = f'.contents := by
  obtain ⟨a, ha, hverified, hfiles⟩ := h
  obtain ⟨a', ha', hverified', hfiles'⟩ := h'
  have hbytes : f.announce = f'.announce := by
    apply hH.address_injective
    rw [← PubAnnounce.canonical ha, ← PubAnnounce.canonical ha',
      PubAnnounce.address_of_verifyAs hverified, PubAnnounce.address_of_verifyAs hverified']
  rw [hbytes, ha'] at ha
  obtain rfl : a' = a := Except.ok.inj ha
  exact ⟨hbytes, map_eq_of_forall₂ (fun root g g' hg hg' => hg.chunks_eq hH hg') hfiles hfiles'⟩

end Binding

section Publishing
variable {D : Type} (E : Ed25519) (H : Hasher D)

/-- A manifest made for the chunks of a file, and the chunks. -/
structure PublishedFile where
  manifest : PubManifest
  chunks : List Bytes

/-- The manifest was made for the chunks, and can be written down. -/
structure PublishedFile.Made (root : ContentId) (f : PublishedFile) : Prop where
  made : PubManifest.new H f.manifest.size f.manifest.chunkSz (f.chunks.map (chunkHash H))
    f.manifest.suite = some f.manifest
  nonempty : f.chunks ≠ []
  suite : f.manifest.suite.isSupported = true
  fits : (Cv.map f.manifest.fields).LengthsFit
  root : f.manifest.id = root

/-- Who signs an announcement: the publisher, or a device that the publisher has certified. -/
inductive SignedBy (a : PubAnnounce) : Option DeviceCert → Prop
  | publisher (hself : a.signer = a.publisher) : SignedBy a none
  | device (cert : DeviceCert) (hcert : cert.verify E = .ok ()) (hik : cert.ik = a.publisher)
      (hkey : cert.deviceKey = a.signer) : SignedBy a (some cert)

/-- What an honest holder hands out for an announcement and its files. -/
def serve (a : PubAnnounce) (cert : Option DeviceCert) (files : List PublishedFile) : Fetched :=
  ⟨a.detCbor, cert, files.map fun f => ⟨f.manifest.detCbor, f.chunks⟩⟩

variable {E H}

theorem PubManifest.new_eq_some {m : PubManifest} {size : UInt64} {chunkSz : UInt32}
    {chunks : List ContentId} {suite : Suite} (h : new H size chunkSz chunks suite = some m) :
    pubManifestRoot H chunks = some m.id ∧ m.chunks = chunks := by
  obtain ⟨id, hid, hm⟩ := Option.bind_eq_some_iff.mp h
  obtain rfl := Option.some.inj hm
  exact ⟨hid, rfl⟩

theorem PublishedFile.Made.accepted {root : ContentId} {f : PublishedFile} (h : f.Made H root) :
    FetchedFile.Accepted H root ⟨f.manifest.detCbor, f.chunks⟩ := by
  obtain ⟨hroot, hchunks⟩ := PubManifest.new_eq_some h.made
  have hne : f.manifest.chunks ≠ [] := by
    rw [hchunks]
    simpa using h.nonempty
  have hdecode : PubManifest.fromDetCbor f.manifest.detCbor = .ok f.manifest :=
    (PubManifest.restores h.suite hne).fromDetCbor (by decide) h.fits
  have hverify : f.manifest.verify H = .ok () := by
    rw [PubManifest.verify_eq_ok, hchunks]
    exact ⟨hchunks ▸ hne, hroot⟩
  refine ⟨f.manifest, hdecode, hverify, h.root, ?_⟩
  rw [hchunks, List.forall₂_map_left_iff, List.forall₂_same]
  intro p _
  exact verifyChunk_eq_ok.mpr rfl

theorem PubAnnounce.Decodable.verifySigned (hE : E.Lawful) {a : PubAnnounce} {key : IdentityKey}
    (hkey : a.signer = E.publicKey key) (h : (a.sign E key).Decodable) :
    (a.sign E key).received.verifySigned E H (H.address (a.sign E key).detCbor) = .ok () := by
  rw [verifySigned_eq_ok, h.detCbor_received, h.signingPreimage_received]
  refine ⟨⟨h.version, h.suite⟩, rfl, ?_⟩
  change E.verifyDomain a.signer pubAnnounceDs a.signingPreimage
    (E.signDomain key pubAnnounceDs a.signingPreimage) = .ok ()
  rw [hkey]
  exact hE.verifyDomain_signDomain key pubAnnounceDs a.signingPreimage

/-- What a publisher puts out is accepted from an honest holder. -/
theorem serve_accepted (hE : E.Lawful) {a : PubAnnounce} {key : IdentityKey}
    {cert : Option DeviceCert} {files : List PublishedFile} (hkey : a.signer = E.publicKey key)
    (hsigned : SignedBy E a cert) (h : (a.sign E key).Decodable)
    (hfiles : List.Forall₂ (PublishedFile.Made H) a.roots files) :
    (serve (a.sign E key) cert files).Accepted E H (H.address (a.sign E key).detCbor) := by
  have hverified := h.verifySigned (H := H) hE hkey
  refine ⟨(a.sign E key).received, h.fromDetCbor, ?_, ?_⟩
  · cases hsigned with
    | publisher hself => exact PubAnnounce.verify_eq_ok.mpr ⟨hverified, hself⟩
    | device cert hcert hik hcertKey =>
      exact PubAnnounce.verifyWithCert_eq_ok.mpr ⟨hverified, Or.inr ⟨hcert, hik, hcertKey⟩⟩
  · change List.Forall₂ _ a.roots (files.map _)
    rw [List.forall₂_map_right_iff]
    exact hfiles.imp fun root f hf => hf.accepted

/-- The id of an announcement fixes every byte that is accepted under it, from whichever holders and
for whichever signer; and what a publisher puts out is accepted. -/
theorem fetch_is_publication (E : Ed25519) (H : Hasher D) (hE : E.Lawful) (hH : H.Ideal) :
    (∀ id f f', Fetched.Accepted E H id f → Fetched.Accepted E H id f' →
        f.announce = f'.announce ∧ f.contents = f'.contents) ∧
      ∀ a key cert files, a.signer = E.publicKey key → SignedBy E a cert →
        (a.sign E key).Decodable → List.Forall₂ (PublishedFile.Made H) a.roots files →
        (serve (a.sign E key) cert files).Accepted E H (H.address (a.sign E key).detCbor) := by
  refine ⟨?_, ?_⟩
  · intro id f f' h h'
    exact h.unique hH h'
  · intro a key cert files hkey hsigned h hfiles
    exact serve_accepted hE hkey hsigned h hfiles

end Publishing

section OneChunk

theorem trusting_lawful : trusting.Lawful :=
  ⟨fun ik => ik.property, fun _ => rfl, fun _ _ => rfl, fun _ _ => rfl⟩

theorem pubManifestRoot_singleton {D : Type} (H : Hasher D) (c : ContentId) :
    pubManifestRoot H [c] = some ⟨mhBlake3 :: H.write (pubLeaf H c.bytes)⟩ := by
  unfold pubManifestRoot
  dsimp only
  rw [List.map_singleton, mth_eq, dif_pos (by simp), Kt.mth_singleton]
  rfl

def helloFile : PublishedFile where
  manifest :=
    { id := ⟨mhBlake3 :: framed (pubLeaf framedHasher (chunkHash framedHasher [104, 105]).bytes)⟩,
      size := 2, chunkSz := 2, chunks := [chunkHash framedHasher [104, 105]], suite := .classical }
  chunks := [[104, 105]]

private def aliceKey : IdentityKey := ⟨List.replicate 32 7, rfl⟩

def helloAnnounce : PubAnnounce where
  v := pubV0
  suite := .classical
  publisher := trusting.publicKey aliceKey
  roots := [helloFile.manifest.id]
  metadata := [("title", .text "hello")]
  supersedes := none
  ts := 1
  signer := trusting.publicKey aliceKey
  sig := []

private theorem helloFile_made : helloFile.Made framedHasher helloFile.manifest.id where
  made := by
    unfold PubManifest.new
    rw [helloFile, List.map_singleton, pubManifestRoot_singleton]
    rfl
  nonempty := by decide
  suite := rfl
  fits := by decide +kernel
  root := rfl

private theorem helloAnnounce_decodable : (helloAnnounce.sign trusting aliceKey).Decodable where
  version := rfl
  suite := rfl
  roots := by decide
  metadata := by simp [Cv.keysDistinct_textMap, PubAnnounce.sign, helloAnnounce]
  depth := by decide +kernel
  fits := by decide +kernel

theorem fetch_is_publication_hello : ∃ id,
    (serve (helloAnnounce.sign trusting aliceKey) none [helloFile]).Accepted trusting framedHasher
      id ∧ ∀ f, Fetched.Accepted trusting framedHasher id f → f.contents = [[[104, 105]]] := by
  obtain ⟨hunique, haccepted⟩ :=
    fetch_is_publication trusting framedHasher trusting_lawful framedHasher_ideal
  have hserved := haccepted helloAnnounce aliceKey none [helloFile] rfl (.publisher rfl)
    helloAnnounce_decodable (.cons helloFile_made .nil)
  exact ⟨_, hserved, fun f hf => (hunique _ _ _ hf hserved).2⟩

end OneChunk
end Pub
end Dmtap
