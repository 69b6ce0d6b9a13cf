import Dmtap.Cbor.Decode

/-! The decoder accepts only canonical bytes: whatever it reads, the encoder writes back. -/
namespace Dmtap.Cbor
open Dmtap.Lib

namespace MapState

/-- The entries read so far, encoded. Only one of the two lists is ever in use. -/
def entries (st : MapState) : List (Bytes × Bytes) := encMap st.intOut ++ encTextMap st.textOut

def values (st : MapState) : List Cv := st.intOut.map Prod.snd ++ st.textOut.map Prod.snd

/-- The list that the kind of the map does not name is empty. -/
def KindOk (st : MapState) : Prop :=
  match st.kind with
  | none => st.intOut = [] ∧ st.textOut = []
  | some .int => st.textOut = []
  | some .text => st.intOut = []

/-- The invariant of the map loop. -/
structure Valid (st : MapState) : Prop where
  kind : st.KindOk
  prev : st.prevKey = st.entries.getLast?.map Prod.fst
  ascending : st.entries.Pairwise (fun p q => p.1 < q.1)
  distinct : ∀ v ∈ st.values, v.KeysDistinct

theorem valid_init : Valid ⟨none, none, [], []⟩ := by
  constructor <;> simp [KindOk, values, entries, encMap, encTextMap]

end MapState

namespace Decoder

/-- The reader accepts only what the encoder writes, and no repeated map key. -/
def Strict (item : Decoder Cv) : Prop :=
  ∀ ⦃s v t⦄, item.run s = .ok (v, t) → s = enc v ++ t ∧ v.KeysDistinct

theorem arrayItems_strict {item : Decoder Cv} (hi : Strict item) {n : ℕ} {s t : Bytes}
    {a : List Cv} (h : (arrayItems item n).run s = .ok (a, t)) :
    a.length = n ∧ s = encArray a ++ t ∧ ∀ v ∈ a, v.KeysDistinct := by
  induction n generalizing s a with
  | zero =>
    obtain ⟨rfl, rfl⟩ := Prod.mk.inj (Except.ok.inj h)
    simp [encArray]
  | succ n ih =>
    obtain ⟨v, u, hv, h⟩ := Reader.run_bind_eq_ok.mp h
    obtain ⟨b, w, hb, h⟩ := Reader.run_bind_eq_ok.mp h
    obtain ⟨rfl, rfl⟩ := Prod.mk.inj (Except.ok.inj h)
    obtain ⟨rfl, hvd⟩ := hi hv
    obtain ⟨hl, rfl, hbd⟩ := ih hb
    refine ⟨by simp [hl], by simp [encArray], ?_⟩
    simpa using ⟨hvd, hbd⟩

theorem checkKeyOrder_run {prevKey : Option Bytes} {key : Cv} {kb s t : Bytes}
    (h : (checkKeyOrder prevKey key kb).run s = .ok ((), t)) :
    t = s ∧ ∀ prev, prevKey = some prev → prev < kb := by
  unfold checkKeyOrder at h
  split at h
  · obtain ⟨-, rfl⟩ := Prod.mk.inj (Except.ok.inj h)
    exact ⟨rfl, by simp⟩
  · rename_i prev
    split_ifs at h with hlt heq
    · cases h
    · split at h <;> cases h
    · obtain ⟨-, rfl⟩ := Prod.mk.inj (Except.ok.inj h)
      refine ⟨rfl, ?_⟩
      rintro _ ⟨⟩
      exact Std.lt_of_le_of_ne (Std.not_lt.mp hlt) (Ne.symm heq)

/-- A pushed entry goes to the end of the entries, and the kind stays in step. -/
theorem pushEntry_run {st st' : MapState} {key val : Cv} {s t : Bytes} (hst : st.KindOk)
    (h : (pushEntry st key val).run s = .ok (st', t)) :
    t = s ∧ st'.prevKey = st.prevKey ∧ st'.KindOk ∧
      st'.entries = st.entries ++ [(enc key, enc val)] ∧
      (∀ w ∈ st'.values, w ∈ st.values ∨ w = val) := by
  unfold pushEntry at h
  split at h
  case h_5 => cases h
  all_goals
    obtain ⟨rfl, rfl⟩ := Prod.mk.inj (Except.ok.inj h)
    refine ⟨rfl, rfl, ?_⟩
    simp_all [MapState.KindOk, MapState.entries, MapState.values, encMap_eq, encTextMap_eq, enc,
      intKey, textKey]

private theorem pairwise_concat {l : List (Bytes × Bytes)} {p : Bytes × Bytes}
    (hl : l.Pairwise (fun p q => p.1 < q.1))
    (hp : ∀ q, l.getLast?.map Prod.fst = some q → q < p.1) :
    (l ++ [p]).Pairwise (fun p q => p.1 < q.1) := by
  rcases List.eq_nil_or_concat' l with rfl | ⟨init, last, rfl⟩
  · simp
  · have hlast : last.1 < p.1 := hp last.1 (by simp)
    refine List.pairwise_append.mpr ⟨hl, by simp, ?_⟩
    intro a ha b hb
    rw [List.mem_singleton] at hb
    subst hb
    rcases List.mem_append.mp ha with ha | ha
    · have halast := (List.pairwise_append.mp hl).2.2 a ha last (by simp)
      exact List.lt_trans halast hlast
    · rw [List.mem_singleton] at ha
      exact ha ▸ hlast

/-- One round of the map loop keeps the invariant and reads exactly one encoded entry. -/
theorem mapEntry_strict {item : Decoder Cv} (hi : Strict item) {st st' : MapState} {s t : Bytes}
    (hst : st.Valid) (h : (mapEntry item st).run s = .ok (st', t)) :
    st'.Valid ∧ ∃ p, st'.entries = st.entries ++ [p] ∧ s = p.1 ++ p.2 ++ t := by
  obtain ⟨_, _, hstart, h⟩ := Reader.run_bind_eq_ok.mp h
  obtain ⟨rfl, rfl⟩ := Prod.mk.inj (Except.ok.inj hstart)
  obtain ⟨key, u, hkey, h⟩ := Reader.run_bind_eq_ok.mp h
  obtain ⟨_, _, hstop, h⟩ := Reader.run_bind_eq_ok.mp h
  obtain ⟨rfl, rfl⟩ := Prod.mk.inj (Except.ok.inj hstop)
  obtain ⟨hs, -⟩ := hi hkey
  have hkb : s.take (s.length - u.length) = enc key := by simp [hs]
  rw [hkb] at h
  obtain ⟨_, w, horder, h⟩ := Reader.run_bind_eq_ok.mp h
  obtain ⟨hw, hlt⟩ := checkKeyOrder_run horder
  obtain ⟨val, x, hval, h⟩ := Reader.run_bind_eq_ok.mp h
  obtain ⟨hx, hvd⟩ := hi hval
  have hk : ({ st with prevKey := some (enc key) } : MapState).KindOk := hst.kind
  obtain ⟨ht, hprev, hkind, hent, hvals⟩ := pushEntry_run hk h
  have hent' : st'.entries = st.entries ++ [(enc key, enc val)] := hent
  refine ⟨⟨hkind, ?_, ?_, ?_⟩, (enc key, enc val), hent', by simp [hs, ← hw, hx, ht]⟩
  · rw [hprev, hent']
    simp
  · rw [hent']
    exact pairwise_concat hst.ascending (fun q hq => hlt q (hst.prev.trans hq))
  · intro v hv
    rcases hvals v hv with hv | rfl
    · exact hst.distinct v hv
    · exact hvd

theorem mapEntries_strict {item : Decoder Cv} (hi : Strict item) {n : ℕ} {st st' : MapState}
    {s t : Bytes} (hst : st.Valid) (h : (mapEntries item n st).run s = .ok (st', t)) :
    st'.Valid ∧ ∃ l, l.length = n ∧ st'.entries = st.entries ++ l ∧
      s = l.flatMap (fun p => p.1 ++ p.2) ++ t := by
  induction n generalizing st s with
  | zero =>
    obtain ⟨rfl, rfl⟩ := Prod.mk.inj (Except.ok.inj h)
    exact ⟨hst, [], by simp⟩
  | succ n ih =>
    obtain ⟨st₁, u, h₁, h₂⟩ := Reader.run_bind_eq_ok.mp h
    obtain ⟨hst₁, p, hp, hs⟩ := mapEntry_strict hi hst h₁
    obtain ⟨hst', l, hl, hent, hu⟩ := ih hst₁ h₂
    refine ⟨hst', p :: l, by simp [hl], ?_, by simp [hs, hu]⟩
    rw [hent, hp, List.append_assoc]
    rfl

theorem encEntries_of_ascending {l : List (Bytes × Bytes)}
    (h : l.Pairwise (fun p q => p.1 < q.1)) :
    encEntries l = writeHead 5 (UInt64.ofNat l.length) ++ l.flatMap (fun p => p.1 ++ p.2) := by
  rw [encEntries, sortByKey_eq_self h]

private theorem nodup_of_ascending {κ : Type} {key : κ → Bytes} {m : List (κ × Cv)}
    (h : (m.map (fun p => (key p.1, enc p.2))).Pairwise (fun p q => p.1 < q.1)) :
    (m.map Prod.fst).Nodup := by
  rw [List.pairwise_map] at h
  refine List.pairwise_map.mpr (h.imp ?_)
  rintro p q hlt heq
  rw [heq] at hlt
  exact List.lt_irrefl _ hlt

theorem map_strict {item : Decoder Cv} (hi : Strict item) {ib : UInt8} {s t : Bytes} {v : Cv}
    (hib : (ib >>> 5).toNat = 5) (h : (map item (ib &&& 0x1f)).run s = .ok (v, t)) :
    ib :: s = enc v ++ t ∧ v.KeysDistinct := by
  obtain ⟨n, u, harg, h⟩ := Reader.run_bind_eq_ok.mp h
  have hhead := writeHead_of_argument 5 hib harg
  split_ifs at h with hz
  · obtain ⟨rfl, rfl⟩ := Prod.mk.inj (Except.ok.inj h)
    have hn : n = 0 := UInt64.toNat_inj.mp hz
    rw [hhead, hn]
    exact ⟨rfl, by simp [Cv.keysDistinct_map]⟩
  · obtain ⟨st, w, hloop, h⟩ := Reader.run_bind_eq_ok.mp h
    obtain ⟨hst, l, hl, hent, hu⟩ := mapEntries_strict hi MapState.valid_init hloop
    have hent' : st.entries = l := hent
    have hn : UInt64.ofNat l.length = n := by rw [hl]; simp
    have henc := encEntries_of_ascending (hent' ▸ hst.ascending)
    rw [hn] at henc
    have hsplit : ib :: s = encEntries st.entries ++ w := by
      rw [hhead, hu, hent', henc, List.append_assoc]
    have hasc := hst.ascending
    have hvals := hst.distinct
    have hkind := hst.kind
    split at h
    · rename_i hk
      obtain ⟨rfl, rfl⟩ := Prod.mk.inj (Except.ok.inj h)
      simp only [MapState.KindOk, hk] at hkind
      simp only [MapState.entries, MapState.values, hkind, encMap, List.nil_append, List.map_nil,
        encTextMap_eq] at hsplit hasc hvals
      refine ⟨by rw [hsplit, enc, encTextMap_eq], Cv.keysDistinct_textMap.mpr ⟨?_, ?_⟩⟩
      · exact nodup_of_ascending hasc
      · intro p hp
        exact hvals p.2 (List.mem_map_of_mem hp)
    · rename_i hk
      obtain ⟨rfl, rfl⟩ := Prod.mk.inj (Except.ok.inj h)
      have htext : st.textOut = [] := by
        cases hkd : st.kind with
        | none =>
          simp only [MapState.KindOk, hkd] at hkind
          exact hkind.2
        | some kind =>
          cases kind with
          | int => simpa only [MapState.KindOk, hkd] using hkind
          | text => exact absurd hkd hk
      simp only [MapState.entries, MapState.values, htext, encTextMap, List.append_nil,
        List.map_nil, encMap_eq] at hsplit hasc hvals
      refine ⟨by rw [hsplit, enc, encMap_eq], Cv.keysDistinct_map.mpr ⟨?_, ?_⟩⟩
      · exact nodup_of_ascending hasc
      · intro p hp
        exact hvals p.2 (List.mem_map_of_mem hp)

private theorem bool_byte : ∀ ib : UInt8, ¬ (ib >>> 5).toNat < 7 →
    ((ib &&& 0x1f = 20 → ib = 0xf4) ∧ (ib &&& 0x1f = 21 → ib = 0xf5)) := by
  decide +kernel

theorem simple_strict {ib : UInt8} {s t : Bytes} {v : Cv} (hib : ¬ (ib >>> 5).toNat < 7)
    (h : (simple (ib &&& 0x1f)).run s = .ok (v, t)) : ib :: s = enc v ++ t ∧ v.KeysDistinct := by
  unfold simple at h
  by_cases h20 : ib &&& 0x1f = 20
  · rw [if_pos h20] at h
    obtain ⟨rfl, rfl⟩ := Prod.mk.inj (Except.ok.inj h)
    rw [(bool_byte ib hib).1 h20]
    exact ⟨rfl, by simp⟩
  rw [if_neg h20] at h
  by_cases h21 : ib &&& 0x1f = 21
  · rw [if_pos h21] at h
    obtain ⟨rfl, rfl⟩ := Prod.mk.inj (Except.ok.inj h)
    rw [(bool_byte ib hib).2 h21]
    exact ⟨rfl, by simp⟩
  rw [if_neg h21] at h
  have hthrow : ∀ e : CborError, (throw e : Decoder Cv).run s ≠ .ok (v, t) := fun e => nofun
  have h22 := Reader.run_of_ite (hthrow .nullPresent) h
  have h23 := Reader.run_of_ite (hthrow .tagOrUndefined) h22
  have h24 := Reader.run_of_ite Reader.run_bind_throw_ne_ok h23
  have hfloat := Reader.run_of_ite Reader.run_bind_throw_ne_ok h24
  have hreserved := Reader.run_of_ite (hthrow .malformed) hfloat
  exact absurd hreserved (hthrow .indefiniteLength)

/-- Induction on the nesting levels left: containers hand their items the next level. -/
theorem value_strict (left : ℕ) : Strict (value left) := by
  induction left with
  | zero =>
    intro s v t h
    cases h
  | succ left ih =>
    intro s v t h
    obtain ⟨ib, u, hb, hbody⟩ := Reader.run_bind_eq_ok.mp h
    rw [byte_run_eq_ok] at hb
    rw [hb]
    dsimp only at hbody
    split at hbody
    case h_1 hm =>
      obtain ⟨n, w, harg, hr⟩ := Reader.run_bind_eq_ok.mp hbody
      obtain ⟨rfl, rfl⟩ := Prod.mk.inj (Except.ok.inj hr)
      exact ⟨writeHead_of_argument 0 hm harg, by simp⟩
    case h_2 => exact absurd hbody Reader.run_bind_throw_ne_ok
    case h_3 hm =>
      obtain ⟨n, w, harg, hr⟩ := Reader.run_bind_eq_ok.mp hbody
      obtain ⟨b, x, hb, hr⟩ := Reader.run_bind_eq_ok.mp hr
      obtain ⟨rfl, rfl⟩ := Prod.mk.inj (Except.ok.inj hr)
      obtain ⟨hl, hw⟩ := take_run_eq_ok.mp hb
      rw [writeHead_of_argument 2 hm harg, hw, enc, hl]
      exact ⟨by simp, by simp⟩
    case h_4 hm =>
      obtain ⟨n, w, harg, hr⟩ := Reader.run_bind_eq_ok.mp hbody
      obtain ⟨b, x, hb, hr⟩ := Reader.run_bind_eq_ok.mp hr
      obtain ⟨hl, hw⟩ := take_run_eq_ok.mp hb
      cases hstr : fromUtf8 b with
      | none =>
        rw [hstr] at hr
        cases hr
      | some str =>
        rw [hstr] at hr
        obtain ⟨rfl, rfl⟩ := Prod.mk.inj (Except.ok.inj hr)
        rw [writeHead_of_argument 3 hm harg, hw, enc, utf8_of_fromUtf8 hstr, hl]
        exact ⟨by simp, by simp⟩
    case h_5 hm =>
      obtain ⟨n, w, harg, hr⟩ := Reader.run_bind_eq_ok.mp hbody
      obtain ⟨a, x, ha, hr⟩ := Reader.run_bind_eq_ok.mp hr
      obtain ⟨rfl, rfl⟩ := Prod.mk.inj (Except.ok.inj hr)
      obtain ⟨hl, hw, had⟩ := arrayItems_strict ih ha
      rw [writeHead_of_argument 4 hm harg, hw, enc, hl]
      exact ⟨by simp, Cv.keysDistinct_array.mpr had⟩
    case h_6 hm => exact map_strict ih hm hbody
    case h_7 => exact absurd hbody Reader.run_bind_throw_ne_ok
    case h_8 h0 h1 h2 h3 h4 h5 h6 =>
      simp only [imp_false] at h0 h1 h2 h3 h4 h5 h6
      exact simple_strict (by omega) hbody

end Decoder

theorem decode_eq_ok {b : Bytes} {v : Cv} :
    decode b = .ok v ↔ (Decoder.value (maxNestingDepth + 1)).run b = .ok (v, []) := by
  unfold decode
  cases h : (Decoder.value (maxNestingDepth + 1)).run b with
  | error e => simp [bind, Except.bind]
  | ok r =>
    obtain ⟨w, rest⟩ := r
    by_cases hr : rest = []
    · subst hr
      simp [bind, Except.bind, pure, Except.pure]
    · simp [bind, Except.bind, throw, throwThe, MonadExceptOf.throw, hr]

theorem keysDistinct_of_decode {b : Bytes} {v : Cv} (h : decode b = .ok v) : v.KeysDistinct :=
  (Decoder.value_strict _ (decode_eq_ok.mp h)).2

theorem encode_of_decode {b : Bytes} {v : Cv} (h : decode b = .ok v) : encode v = b := by
  have hs := (Decoder.value_strict _ (decode_eq_ok.mp h)).1
  rw [List.append_nil] at hs
  exact hs.symm

/-- No malleability: accepted bytes are the encoding of the value they decode to, so no
other byte string decodes to it. -/
theorem decode_canonical (b : Bytes) (v : Cv) (h : decode b = .ok v) :
    encode v = b ∧ ∀ c, decode c = .ok v → c = b := by
  have hb := encode_of_decode h
  refine ⟨hb, fun c hc => ?_⟩
  rw [← hb, encode_of_decode hc]

theorem decode_canonical_two_entries :
    decode [0xa2, 0x01, 0x61, 0x7a, 0x02, 0x81, 0x18, 0x18] =
        .ok (.map [(1, .text "z"), (2, .array [.u64 24])]) ∧
      encode (.map [(1, .text "z"), (2, .array [.u64 24])]) =
        [0xa2, 0x01, 0x61, 0x7a, 0x02, 0x81, 0x18, 0x18] :=
  ⟨rfl, (decode_canonical _ _ rfl).1⟩

end Dmtap.Cbor
