import Dmtap.Cbor.Restores
import Dmtap.Rtc.Capacity

/-! Published capacities on the wire. What is written is read back; what is read is what was
published as long as the numbers for narrow fields are narrow. -/
namespace Dmtap.Rtc
open Dmtap.Lib Dmtap.Cbor

namespace RtcCapacity

theorem keysFrom_toFields (cap : RtcCapacity) : KeysFrom [1, 2, 3, 4, 5, 6] cap.toFields :=
  ((keysFrom_self _).append (keysFrom_opt cap.advisoryMaxParticipants)).append (keysFrom_self _)

theorem reader_run (cap : RtcCapacity) : reader.run (normMap cap.toFields) = .ok (cap, []) := by
  have hopt : Fields.opt 5 (fun p : UInt32 => Cv.u64 p.toUInt64) cap.advisoryMaxParticipants =
      Fields.opt 5 Cv.u64 (cap.advisoryMaxParticipants.map UInt32.toUInt64) := by
    cases cap.advisoryMaxParticipants with
    | none => rfl
    | some p => rfl
  unfold toFields
  rw [hopt]
  simp only [List.cons_append, List.nil_append]
  refine run_req rfl ?_
  refine run_req rfl ?_
  refine run_req rfl ?_
  refine run_req rfl ?_
  refine run_take (fun _ _ => rfl) (by simp) ?_
  refine run_req rfl ?_
  have hnarrow : (cap.advisoryMaxParticipants.map UInt32.toUInt64).map UInt64.toUInt32 =
      cap.advisoryMaxParticipants := by
    rw [Option.map_map]
    cases cap.advisoryMaxParticipants with
    | none => rfl
    | some p => exact congrArg some (UInt32.toUInt32_toUInt64 p)
  change Except.ok (RtcCapacity.mk _ _ _ _ _ _, _) = _
  rw [hnarrow, UInt32.toUInt32_toUInt64, UInt32.toUInt32_toUInt64]
  rfl

/-- What is written is read back. -/
theorem decode_detCbor (cap : RtcCapacity) : decode cap.detCbor = .ok cap := by
  have hkeys : cap.toCv.KeysDistinct := by
    apply keysDistinct_of_keysFrom (by decide) cap.keysFrom_toFields
    simp [toFields]
  have hdepth : cap.toCv.depth ≤ 1 := by
    rw [toCv, depth_map_le_succ]
    simp [toFields, Cv.depth]
  have hfit : cap.toCv.LengthsFit := by
    have hlength : cap.toFields.length ≤ 6 := by
      simpa using (keysFrom_toFields cap).length_le
    refine Cv.lengthsFit_map.mpr ⟨by omega, ?_⟩
    change AllValues Cv.LengthsFit cap.toFields
    simp [toFields, Cv.LengthsFit, Cv.items, Cv.OwnLengthsFit]
  unfold decode fromDetCbor detCbor
  rw [decode_enc hfit hkeys (hdepth.trans (by decide))]
  have hread := read_norm (by decide) cap.keysFrom_toFields cap.reader_run
  dsimp only
  rw [toCv, hread]
  rfl

end RtcCapacity

/-- The value that a byte string carries under a key. -/
def valueAt (b : Bytes) (k : UInt64) : Option Cv :=
  match Cbor.decode b with
  | .ok (.map m) => m.lookup k
  | _ => none

/-- Each field is the number or the truth value under its key, with nothing taken off. -/
structure RtcCapacity.ReadAsPublished (b : Bytes) (cap : RtcCapacity) : Prop where
  maxTracks : ∃ n, valueAt b 1 = some (.u64 n) ∧ cap.maxTracks.toNat = n.toNat
  maxAggregateBps : ∃ n, valueAt b 2 = some (.u64 n) ∧ cap.maxAggregateBps.toNat = n.toNat
  maxTracksPerParticipant :
    ∃ n, valueAt b 3 = some (.u64 n) ∧ cap.maxTracksPerParticipant.toNat = n.toNat
  maxBpsPerTrack : ∃ n, valueAt b 4 = some (.u64 n) ∧ cap.maxBpsPerTrack.toNat = n.toNat
  advisoryMaxParticipants : (valueAt b 5 = none ∧ cap.advisoryMaxParticipants = none) ∨
    ∃ n p, valueAt b 5 = some (.u64 n) ∧ cap.advisoryMaxParticipants = some p ∧ p.toNat = n.toNat
  sframeRequired : valueAt b 6 = some (.bool cap.sframeRequired)

section Reading
variable {b : Bytes} {cap : RtcCapacity}

/-- What the fields of a capacity were read from. -/
theorem RtcCapacity.decode_eq_ok (h : decode b = .ok cap) :
    (∃ n, valueAt b 1 = some (.u64 n) ∧ cap.maxTracks = n.toUInt32) ∧
    valueAt b 2 = some (.u64 cap.maxAggregateBps) ∧
    (∃ n, valueAt b 3 = some (.u64 n) ∧ cap.maxTracksPerParticipant = n.toUInt32) ∧
    valueAt b 4 = some (.u64 cap.maxBpsPerTrack) ∧
    ((valueAt b 5 = none ∧ cap.advisoryMaxParticipants = none) ∨
      ∃ n, valueAt b 5 = some (.u64 n) ∧ cap.advisoryMaxParticipants = some n.toUInt32) ∧
    valueAt b 6 = some (.bool cap.sframeRequired) := by
  obtain ⟨m, hcv, hread⟩ := fromDetCbor_read_eq_ok h
  obtain ⟨m', t, hm, hrun⟩ := Fields.read_eq_ok.mp hread
  obtain rfl := Cv.map.inj hm
  have hvalue (k : UInt64) : valueAt b k = m.lookup k := by
    unfold valueAt
    rw [hcv]
  unfold reader at hrun
  obtain ⟨n₁, m₁, h₁, hrun⟩ := Reader.run_bind_eq_ok.mp hrun
  obtain ⟨n₂, m₂, h₂, hrun⟩ := Reader.run_bind_eq_ok.mp hrun
  obtain ⟨n₃, m₃, h₃, hrun⟩ := Reader.run_bind_eq_ok.mp hrun
  obtain ⟨n₄, m₄, h₄, hrun⟩ := Reader.run_bind_eq_ok.mp hrun
  obtain ⟨o₅, m₅, h₅, hrun⟩ := Reader.run_bind_eq_ok.mp hrun
  obtain ⟨t₆, m₆, h₆, hrun⟩ := Reader.run_bind_eq_ok.mp hrun
  obtain ⟨rfl, rfl⟩ := Prod.mk.inj (Except.ok.inj hrun)
  obtain ⟨⟨v₁, hv₁, hd₁⟩, hr₁⟩ := Record.field_lookup h₁
  obtain ⟨⟨v₂, hv₂, hd₂⟩, hr₂⟩ := Record.field_lookup h₂
  obtain ⟨⟨v₃, hv₃, hd₃⟩, hr₃⟩ := Record.field_lookup h₃
  obtain ⟨⟨v₄, hv₄, hd₄⟩, hr₄⟩ := Record.field_lookup h₄
  obtain ⟨ho₅, hr₅⟩ := Record.optField_lookup h₅
  obtain ⟨⟨v₆, hv₆, hd₆⟩, -⟩ := Record.field_lookup h₆
  rw [asU64_eq_ok.mp hd₁] at hv₁
  rw [asU64_eq_ok.mp hd₂, hr₁ 2 (by decide)] at hv₂
  rw [asU64_eq_ok.mp hd₃, hr₂ 3 (by decide), hr₁ 3 (by decide)] at hv₃
  rw [asU64_eq_ok.mp hd₄, hr₃ 4 (by decide), hr₂ 4 (by decide), hr₁ 4 (by decide)] at hv₄
  rw [hr₄ 5 (by decide), hr₃ 5 (by decide), hr₂ 5 (by decide), hr₁ 5 (by decide)] at ho₅
  rw [asBool_eq_ok.mp hd₆, hr₅ 6 (by decide), hr₄ 6 (by decide), hr₃ 6 (by decide),
    hr₂ 6 (by decide), hr₁ 6 (by decide)] at hv₆
  simp only [hvalue]
  refine ⟨⟨n₁, hv₁, rfl⟩, hv₂, ⟨n₃, hv₃, rfl⟩, hv₄, ?_, hv₆⟩
  rcases ho₅ with ⟨hnone, rfl⟩ | ⟨v₅, n₅, hsome, hd₅, rfl⟩
  · exact Or.inl ⟨hnone, rfl⟩
  · rw [asU64_eq_ok.mp hd₅] at hsome
    exact Or.inr ⟨n₅, hsome, rfl⟩

theorem toNat_toUInt32_eq_iff (n : UInt64) : n.toUInt32.toNat = n.toNat ↔ n.toNat < 2 ^ 32 := by
  rw [UInt64.toNat_toUInt32]
  constructor
  · intro h
    rw [← h]
    exact Nat.mod_lt _ (by decide)
  · intro h
    exact Nat.mod_eq_of_lt h

/-- A capacity is read as published exactly when every number for a narrow field is narrow. -/
theorem RtcCapacity.readAsPublished_iff (h : decode b = .ok cap) :
    (cap.ReadAsPublished b ∧ decode cap.detCbor = .ok cap) ↔
      ∀ k ∈ ([1, 3, 5] : List UInt64), ∀ n, valueAt b k = some (.u64 n) → n.toNat < 2 ^ 32 := by
  obtain ⟨⟨n₁, hv₁, hc₁⟩, hv₂, ⟨n₃, hv₃, hc₃⟩, hv₄, ho₅, hv₆⟩ := decode_eq_ok h
  have hnumber {k n n' : UInt64} (hn : valueAt b k = some (.u64 n))
      (hn' : valueAt b k = some (.u64 n')) : n = n' :=
    Cv.u64.inj (Option.some.inj (hn.symm.trans hn'))
  constructor
  · rintro ⟨hread, -⟩ k hk n hn
    simp only [List.mem_cons, List.not_mem_nil, or_false] at hk
    rcases hk with rfl | rfl | rfl
    · obtain ⟨n', hn', heq⟩ := hread.maxTracks
      rw [hc₁, hnumber hn' hn, hnumber hv₁ hn] at heq
      exact (toNat_toUInt32_eq_iff n).mp heq
    · obtain ⟨n', hn', heq⟩ := hread.maxTracksPerParticipant
      rw [hc₃, hnumber hn' hn, hnumber hv₃ hn] at heq
      exact (toNat_toUInt32_eq_iff n).mp heq
    · rcases hread.advisoryMaxParticipants with ⟨hnone, -⟩ | ⟨n', p, hn', hp, heq⟩
      · rw [hnone] at hn
        cases hn
      · rcases ho₅ with ⟨hnone, -⟩ | ⟨n₅, hv₅, hc₅⟩
        · rw [hnone] at hn
          cases hn
        · rw [hc₅, hnumber hv₅ hn] at hp
          rw [← Option.some.inj hp, hnumber hn' hn] at heq
          exact (toNat_toUInt32_eq_iff n).mp heq
  · intro hnarrow
    refine ⟨?_, decode_detCbor cap⟩
    constructor
    · exact ⟨n₁, hv₁, by rw [hc₁]; exact (toNat_toUInt32_eq_iff n₁).mpr (hnarrow 1 (by simp) n₁ hv₁)⟩
    · exact ⟨_, hv₂, rfl⟩
    · exact ⟨n₃, hv₃, by rw [hc₃]; exact (toNat_toUInt32_eq_iff n₃).mpr (hnarrow 3 (by simp) n₃ hv₃)⟩
    · exact ⟨_, hv₄, rfl⟩
    · rcases ho₅ with hnone | ⟨n₅, hv₅, hc₅⟩
      · exact Or.inl hnone
      · exact Or.inr ⟨n₅, _, hv₅, hc₅,
          (toNat_toUInt32_eq_iff n₅).mpr (hnarrow 5 (by simp) n₅ hv₅)⟩
    · exact hv₆

/-- A published capacity for eight tracks. -/
def eightTracks : RtcCapacity := ⟨8, 8000000, 4, 2000000, none, true⟩

theorem RtcCapacity.readAsPublished_eightTracks :
    eightTracks.ReadAsPublished eightTracks.detCbor := by
  have hvalues : valueAt eightTracks.detCbor 1 = some (.u64 8) ∧
      valueAt eightTracks.detCbor 3 = some (.u64 4) ∧ valueAt eightTracks.detCbor 5 = none := by
    decide
  refine ((readAsPublished_iff (decode_detCbor eightTracks)).mpr fun k hk n hn => ?_).1
  simp only [List.mem_cons, List.not_mem_nil, or_false] at hk
  rcases hk with rfl | rfl | rfl
  · rw [hvalues.1] at hn
    rw [← Cv.u64.inj (Option.some.inj hn)]
    decide
  · rw [hvalues.2.1] at hn
    rw [← Cv.u64.inj (Option.some.inj hn)]
    decide
  · rw [hvalues.2.2] at hn
    cases hn

/-- The wire form of a capacity for `2 ^ 32 + 8` tracks. -/
def wideTracks : Bytes :=
  encode (.map [(1, .u64 0x100000008), (2, .u64 8000000), (3, .u64 4), (4, .u64 2000000),
    (6, .bool true)])

/-- It is read as a capacity for eight tracks. -/
theorem RtcCapacity.wideTracks_folded :
    ¬ ∀ cap, decode wideTracks = .ok cap →
      cap.ReadAsPublished wideTracks ∧ decode cap.detCbor = .ok cap := by
  intro hall
  have hread := (hall eightTracks (by decide)).1
  obtain ⟨n, hn, heq⟩ := hread.maxTracks
  have hwide : valueAt wideTracks 1 = some (.u64 0x100000008) := by decide
  rw [hwide] at hn
  rw [← Cv.u64.inj (Option.some.inj hn)] at heq
  exact absurd heq (by decide)

end Reading
end Dmtap.Rtc
