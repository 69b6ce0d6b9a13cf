import Dmtap.Kt.Tree
import Dmtap.Mote.Envelope
import Dmtap.Pub.Objects

/-! The Merkle roots that address manifests. Sealed and public manifests hash the same tree shape;
what goes into a leaf and into an interior node tells them apart. -/
namespace Dmtap
open Dmtap.Lib Dmtap.Kt

/-- A hash function with digests in `D`, and how a digest is written into bytes. -/
structure Hasher (D : Type) where
  hash : Bytes → D
  write : D → Bytes

/-- An idealised hash function: it has no collisions, and two digests written one after the other
can be read back. -/
structure Hasher.Ideal {D : Type} (H : Hasher D) : Prop where
  hash_injective : Function.Injective H.hash
  write_pair : ∀ {l r l' r'}, H.write l ++ H.write r = H.write l' ++ H.write r' → l = l' ∧ r = r'

/-- The hash function of the code, with digests of 32 bytes. -/
def Hasher.ofBlake3 (blake3 : Bytes → Digest) : Hasher Digest := ⟨blake3, Subtype.val⟩

section Roots
variable {D : Type} (H : Hasher D)

namespace Mote

/-- The tree head over leaf digests; the code panics on no leaves. -/
def merkleTreeHead (leaves : List D) : Option D :=
  if h0 : leaves.length = 0 then none
  else if h1 : leaves.length = 1 then leaves.head?
  else
    have hpos := splitPoint_pos (n := leaves.length) (by omega)
    have hlt := splitPoint_lt (n := leaves.length) (by omega)
    let k := splitPoint leaves.length
    do
      let left ← merkleTreeHead (leaves.take k)
      let right ← merkleTreeHead (leaves.drop k)
      some (H.hash (0x01 :: (H.write left ++ H.write right)))
termination_by leaves.length
decreasing_by
  · rw [List.length_take]; omega
  · rw [List.length_drop]; omega

/-- The content address of a sealed manifest's chunk list. -/
def Manifest.merkleRoot (m : Manifest) : Option ContentId := do
  let leaves := m.chunks.map fun c => H.hash (0x00 :: c.bytes)
  let root ← merkleTreeHead H leaves
  some ⟨mhBlake3 :: H.write root⟩

end Mote

namespace Pub

/-- The domain separator of public manifests, `DMTAP-PUB-v0/manifest` and a zero byte. -/
def pubManifestDs : Bytes := utf8 "DMTAP-PUB-v0/manifest" ++ [0]

def pubLeaf (h : Bytes) : D := H.hash (pubManifestDs ++ 0x00 :: h)

def pubNode (l r : D) : D := H.hash (pubManifestDs ++ 0x01 :: (H.write l ++ H.write r))

/-- The tree head over leaf digests, for any interior node function. -/
def mth (leaves : List D) (f : D → D → D) : Option D :=
  if h0 : leaves.length = 0 then none
  else if h1 : leaves.length = 1 then leaves.head?
  else
    have hpos := splitPoint_pos (n := leaves.length) (by omega)
    have hlt := splitPoint_lt (n := leaves.length) (by omega)
    let k := splitPoint leaves.length
    do
      let left ← mth (leaves.take k) f
      let right ← mth (leaves.drop k) f
      some (f left right)
termination_by leaves.length
decreasing_by
  · rw [List.length_take]; omega
  · rw [List.length_drop]; omega

/-- The content address of a public manifest's chunk list. -/
def pubManifestRoot (chunks : List ContentId) : Option ContentId := do
  let leaves := chunks.map fun c => pubLeaf H c.bytes
  let root ← mth leaves (pubNode H)
  some ⟨mhBlake3 :: H.write root⟩

/-- The root of a chunk list without the domain separator. -/
def sealedStyleRoot (chunks : List ContentId) : Option ContentId := do
  let leaf := fun h => H.hash (0x00 :: h)
  let node := fun l r => H.hash (0x01 :: (H.write l ++ H.write r))
  let leaves := chunks.map fun c => leaf c.bytes
  let root ← mth leaves node
  some ⟨mhBlake3 :: H.write root⟩

end Pub

/-- The leaf of a sealed manifest. -/
def sealedLeaf (c : ContentId) : D := H.hash (0x00 :: c.bytes)

/-- The interior node of a sealed manifest. -/
def sealedNode (l r : D) : D := H.hash (0x01 :: (H.write l ++ H.write r))

variable {H}

theorem Pub.mth_eq (f : D → D → D) (leaves : List D) :
    Pub.mth leaves f = if h : 0 < leaves.length then some (Kt.mth f leaves h) else none := by
  rw [Pub.mth]
  by_cases h0 : leaves.length = 0
  · rw [dif_pos h0, dif_neg (by omega)]
  · rw [dif_neg h0, dif_pos (Nat.pos_of_ne_zero h0)]
    by_cases h1 : leaves.length = 1
    · obtain ⟨d, rfl⟩ := List.length_eq_one_iff.mp h1
      rw [dif_pos h1, Kt.mth_singleton]
      rfl
    · have hpos := splitPoint_pos (n := leaves.length) (by omega)
      have hlt := splitPoint_lt (n := leaves.length) (by omega)
      have hl : 0 < (leaves.take (splitPoint leaves.length)).length := by
        rw [List.length_take]
        omega
      have hr : 0 < (leaves.drop (splitPoint leaves.length)).length := by
        rw [List.length_drop]
        omega
      rw [dif_neg h1]
      dsimp only
      rw [Pub.mth_eq f (leaves.take _), Pub.mth_eq f (leaves.drop _), dif_pos hl, dif_pos hr, Kt.mth_split f rfl hl hr (by omega)]
      rfl
termination_by leaves.length

/-- The two implementations of the tree head agree. -/
theorem merkleTreeHead_eq_mth (leaves : List D) :
    Mote.merkleTreeHead H leaves = Pub.mth leaves (sealedNode H) := by
  rw [Mote.merkleTreeHead, Pub.mth]
  by_cases h0 : leaves.length = 0
  · rw [dif_pos h0, dif_pos h0]
  · rw [dif_neg h0, dif_neg h0]
    by_cases h1 : leaves.length = 1
    · rw [dif_pos h1, dif_pos h1]
    · have hpos := splitPoint_pos (n := leaves.length) (by omega)
      have hlt := splitPoint_lt (n := leaves.length) (by omega)
      rw [dif_neg h1, dif_neg h1]
      dsimp only
      rw [merkleTreeHead_eq_mth (leaves.take _),
        merkleTreeHead_eq_mth (leaves.drop _)]
      rfl
termination_by leaves.length
decreasing_by
  · rw [List.length_take]; omega
  · rw [List.length_drop]; omega

/-- Both addresses of a sealed chunk list are the same. -/
theorem merkleRoot_eq_sealedStyleRoot (m : Mote.Manifest) :
    m.merkleRoot H = Pub.sealedStyleRoot H m.chunks := by
  unfold Mote.Manifest.merkleRoot Pub.sealedStyleRoot
  dsimp only
  rw [merkleTreeHead_eq_mth]
  rfl

/-- The address of a chunk list under any leaf and node function. -/
def manifestRoot (H : Hasher D) (leaf : ContentId → D) (node : D → D → D)
    (chunks : List ContentId) : Option ContentId := do
  let root ← Pub.mth (chunks.map leaf) node
  some ⟨mhBlake3 :: H.write root⟩

theorem pubManifestRoot_eq (chunks : List ContentId) : Pub.pubManifestRoot H chunks =
    manifestRoot H (fun c => Pub.pubLeaf H c.bytes) (Pub.pubNode H) chunks := rfl

theorem sealedStyleRoot_eq (chunks : List ContentId) :
    Pub.sealedStyleRoot H chunks = manifestRoot H (sealedLeaf H) (sealedNode H) chunks := rfl

theorem manifestRoot_of_ne_nil (H : Hasher D) (leaf : ContentId → D) (node : D → D → D)
    {chunks : List ContentId} (h : chunks ≠ []) : ∃ hpos : 0 < (chunks.map leaf).length,
      manifestRoot H leaf node chunks =
        some ⟨mhBlake3 :: H.write (Kt.mth node (chunks.map leaf) hpos)⟩ := by
  have hpos : 0 < (chunks.map leaf).length := by
    rw [List.length_map]
    exact List.length_pos_iff.mpr h
  refine ⟨hpos, ?_⟩
  unfold manifestRoot
  rw [Pub.mth_eq, dif_pos hpos]
  rfl

section Ideal
variable (hH : H.Ideal)
include hH

theorem Hasher.Ideal.write_injective : Function.Injective H.write := by
  intro d d' h
  exact (hH.write_pair (congrArg (· ++ H.write d) h |>.trans (congrArg (H.write d' ++ ·) h))).1

theorem Hasher.Ideal.node_injective (front : Bytes) :
    Function.Injective2 fun l r => H.hash (front ++ 0x01 :: (H.write l ++ H.write r)) := by
  intro l l' r r' h
  have hbytes := List.append_cancel_left (hH.hash_injective h)
  exact hH.write_pair (List.cons.inj hbytes).2

theorem Hasher.Ideal.leaf_injective (front : Bytes) :
    Function.Injective fun c : ContentId => H.hash (front ++ 0x00 :: c.bytes) := by
  intro c c' h
  have hbytes := List.append_cancel_left (hH.hash_injective h)
  cases c
  cases c'
  cases (List.cons.inj hbytes).2
  rfl

theorem Hasher.Ideal.leaf_ne_node (front : Bytes) (c : ContentId) (l r : D) :
    H.hash (front ++ 0x00 :: c.bytes) ≠ H.hash (front ++ 0x01 :: (H.write l ++ H.write r)) := by
  intro h
  have hbytes := List.append_cancel_left (hH.hash_injective h)
  exact absurd (List.cons.inj hbytes).1 (by decide)

/-- Equal addresses under one leaf and node function are addresses of the same chunk list. -/
theorem Hasher.Ideal.manifestRoot_injective {leaf : ContentId → D} {node : D → D → D}
    (hleaf : Function.Injective leaf) (hnode : Function.Injective2 node)
    (hsep : ∀ c l r, leaf c ≠ node l r) {a b : List ContentId} (ha : a ≠ []) (hb : b ≠ [])
    (h : manifestRoot H leaf node a = manifestRoot H leaf node b) : a = b := by
  obtain ⟨hposa, hrootA⟩ := manifestRoot_of_ne_nil H leaf node ha
  obtain ⟨hposb, hrootB⟩ := manifestRoot_of_ne_nil H leaf node hb
  rw [hrootA, hrootB, Option.some.injEq, ContentId.mk.injEq, List.cons.injEq] at h
  exact mth_map_injective hleaf hnode hsep hposa hposb (hH.write_injective h.2)

/-- The domain separator keeps public roots apart from sealed ones. -/
theorem Hasher.Ideal.pub_ne_sealed {a b : List ContentId} (ha : a ≠ []) (hb : b ≠ []) :
    Pub.pubManifestRoot H a ≠ Pub.sealedStyleRoot H b := by
  have hfront : ∀ {s t : Bytes} {x : UInt8}, x = 0x00 ∨ x = 0x01 →
      H.hash (Pub.pubManifestDs ++ s) ≠ H.hash (x :: t) := by
    intro s t x hx h
    have hbytes := hH.hash_injective h
    have hhead : some 0x44 = some x := congrArg List.head? hbytes
    rcases hx with rfl | rfl
    · exact absurd hhead (by decide)
    · exact absurd hhead (by decide)
  intro h
  rw [pubManifestRoot_eq, sealedStyleRoot_eq] at h
  obtain ⟨hposa, hrootA⟩ :=
    manifestRoot_of_ne_nil H (fun c => Pub.pubLeaf H c.bytes) (Pub.pubNode H) ha
  obtain ⟨hposb, hrootB⟩ := manifestRoot_of_ne_nil H (sealedLeaf H) (sealedNode H) hb
  rw [hrootA, hrootB, Option.some.injEq, ContentId.mk.injEq, List.cons.injEq] at h
  have hroots := hH.write_injective h.2
  rcases mth_map_cases a hposa with ⟨c, -, hpub⟩ | ⟨k, hl, hr, -, -, hpub⟩
  · rcases mth_map_cases b hposb with ⟨c', -, hsealed⟩ | ⟨k', hl', hr', -, -, hsealed⟩
    · exact hfront (Or.inl rfl) (hpub.symm.trans (hroots.trans hsealed))
    · exact hfront (Or.inr rfl) (hpub.symm.trans (hroots.trans hsealed))
  · rcases mth_map_cases b hposb with ⟨c', -, hsealed⟩ | ⟨k', hl', hr', -, -, hsealed⟩
    · exact hfront (Or.inl rfl) (hpub.symm.trans (hroots.trans hsealed))
    · exact hfront (Or.inr rfl) (hpub.symm.trans (hroots.trans hsealed))

end Ideal

/-- Written digests of the code can be split, since each is 32 bytes long. -/
theorem Hasher.ofBlake3_write_pair (blake3 : Bytes → Digest) {l r l' r' : Digest}
    (h : (ofBlake3 blake3).write l ++ (ofBlake3 blake3).write r =
      (ofBlake3 blake3).write l' ++ (ofBlake3 blake3).write r') : l = l' ∧ r = r' := by
  have hlen : l.val.length = l'.val.length := by rw [l.property, l'.property]
  obtain ⟨hl, hr⟩ := List.append_inj h hlen
  exact ⟨Subtype.ext hl, Subtype.ext hr⟩

/-- Under an ideal hash function a manifest address binds the exact chunk list, public and sealed
addresses are never the same, and both ways to compute a sealed address agree. -/
theorem manifest_roots_bind (H : Hasher D) (hH : H.Ideal) :
    (∀ m m' : Mote.Manifest, m.chunks ≠ [] → m'.chunks ≠ [] →
        m.merkleRoot H = m'.merkleRoot H → m.chunks = m'.chunks) ∧
      (∀ a b, a ≠ [] → b ≠ [] → Pub.pubManifestRoot H a = Pub.pubManifestRoot H b → a = b) ∧
      (∀ a b, a ≠ [] → b ≠ [] → Pub.pubManifestRoot H a ≠ Pub.sealedStyleRoot H b) ∧
      ∀ m : Mote.Manifest, m.merkleRoot H = Pub.sealedStyleRoot H m.chunks := by
  refine ⟨?_, ?_, ?_, merkleRoot_eq_sealedStyleRoot⟩
  · intro m m' hm hm' h
    rw [merkleRoot_eq_sealedStyleRoot, merkleRoot_eq_sealedStyleRoot, sealedStyleRoot_eq,
      sealedStyleRoot_eq] at h
    exact hH.manifestRoot_injective (hH.leaf_injective []) (hH.node_injective [])
      (hH.leaf_ne_node []) hm hm' h
  · intro a b ha hb h
    rw [pubManifestRoot_eq, pubManifestRoot_eq] at h
    exact hH.manifestRoot_injective (hH.leaf_injective Pub.pubManifestDs)
      (hH.node_injective Pub.pubManifestDs) (hH.leaf_ne_node Pub.pubManifestDs) ha hb h
  · intro a b ha hb
    exact hH.pub_ne_sealed ha hb

end Roots

section Framed

/-- A byte string in a form that ends visibly. -/
def framed (d : Bytes) : Bytes := d.flatMap (fun b => [1, b]) ++ [0]

/-- A hash function without collisions: nothing is compressed. -/
def framedHasher : Hasher Bytes := ⟨id, framed⟩

private theorem framed_append_inj {l l' r r' : Bytes} (h : framed l ++ r = framed l' ++ r') :
    l = l' ∧ r = r' := by
  unfold framed at h
  induction l generalizing l' with
  | nil =>
    cases l' with
    | nil => exact ⟨rfl, (List.cons.inj h).2⟩
    | cons b l' => exact absurd (List.cons.inj h).1 (by decide)
  | cons a l ih =>
    cases l' with
    | nil => exact absurd (List.cons.inj h).1 (by decide)
    | cons b l' =>
      have htail := List.cons.inj (List.cons.inj h).2
      obtain ⟨hl, hr⟩ := ih htail.2
      exact ⟨by rw [htail.1, hl], hr⟩

theorem framedHasher_ideal : framedHasher.Ideal := by
  constructor
  · exact Function.injective_id
  · intro l r l' r' h
    obtain ⟨hl, h⟩ := framed_append_inj h
    have hr := framed_append_inj (congrArg (· ++ []) h)
    exact ⟨hl, hr.1⟩

theorem manifest_roots_bind_framed :
    Pub.pubManifestRoot framedHasher [⟨[7]⟩] ≠ Pub.pubManifestRoot framedHasher [⟨[7]⟩, ⟨[7]⟩] := by
  have hmain := (manifest_roots_bind framedHasher framedHasher_ideal).2.1
  intro h
  exact absurd (hmain _ _ (by decide) (by decide) h) (by decide)

end Framed
end Dmtap
