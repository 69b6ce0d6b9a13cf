import Dmtap.Cbor.Canonical

/-! Decoding undoes encoding, up to the order of map entries, exactly on the values whose
maps have distinct keys and whose nesting is within the bound. -/
namespace Dmtap.Cbor
open Dmtap.Lib

namespace Decoder

section Heads
variable (left : ℕ) (n : UInt64) (s : Bytes)

theorem value_run_u64 : (value (left + 1)).run (writeHead 0 n ++ s) = .ok (.u64 n, s) := by
  obtain ⟨ib, tail, hw, hm, ha⟩ := writeHead_reads 0 (by decide) n
  rw [hw, List.cons_append]
  refine (Reader.run_bind_ok (byte_run_cons _ _)).trans ?_
  dsimp only
  rw [hm]
  exact Reader.run_bind_ok (ha s)

theorem value_run_bytes : (value (left + 1)).run (writeHead 2 n ++ s) =
    (do let b ← take n.toNat; return .bytes b : Decoder Cv).run s := by
  obtain ⟨ib, tail, hw, hm, ha⟩ := writeHead_reads 2 (by decide) n
  rw [hw, List.cons_append]
  refine (Reader.run_bind_ok (byte_run_cons _ _)).trans ?_
  dsimp only
  rw [hm]
  exact Reader.run_bind_ok (ha s)

theorem value_run_text : (value (left + 1)).run (writeHead 3 n ++ s) =
    (do
      let b ← take n.toNat
      match fromUtf8 b with
      | some s => return .text s
      | none => throw .malformed : Decoder Cv).run s := by
  obtain ⟨ib, tail, hw, hm, ha⟩ := writeHead_reads 3 (by decide) n
  rw [hw, List.cons_append]
  refine (Reader.run_bind_ok (byte_run_cons _ _)).trans ?_
  dsimp only
  rw [hm]
  exact Reader.run_bind_ok (ha s)

theorem value_run_array : (value (left + 1)).run (writeHead 4 n ++ s) =
    (do let a ← arrayItems (value left) n.toNat; return .array a : Decoder Cv).run s := by
  obtain ⟨ib, tail, hw, hm, ha⟩ := writeHead_reads 4 (by decide) n
  rw [hw, List.cons_append]
  refine (Reader.run_bind_ok (byte_run_cons _ _)).trans ?_
  dsimp only
  rw [hm]
  exact Reader.run_bind_ok (ha s)

/-- What the map reader does after the head, on a map that is not empty. -/
def mapBody (item : Decoder Cv) (n : ℕ) : Decoder Cv := do
  let st ← mapEntries item n ⟨none, none, [], []⟩
  match st.kind with
  | some .text => return .textMap st.textOut
  | _ => return .map st.intOut

theorem value_run_map : (value (left + 1)).run (writeHead 5 n ++ s) =
    if n.toNat = 0 then .ok (.map [], s) else (mapBody (value left) n.toNat).run s := by
  obtain ⟨ib, tail, hw, hm, ha⟩ := writeHead_reads 5 (by decide) n
  rw [hw, List.cons_append]
  refine (Reader.run_bind_ok (byte_run_cons _ _)).trans ?_
  dsimp only
  rw [hm]
  change (map (value left) (ib &&& 31)).run (tail ++ s) = _
  rw [map, Reader.run_bind_ok (ha s)]
  split_ifs <;> rfl

end Heads

/-- The item reader decides every value `v` by `good v`, reading its normal form. -/
def Reads (item : Decoder Cv) (good : Cv → Prop) (v : Cv) : Prop :=
  ∀ t, Reader.Decides item (enc v ++ t) (good v) (norm v) t

theorem arrayItems_decides {item : Decoder Cv} {good : Cv → Prop} {a : List Cv}
    (hi : ∀ v ∈ a, Reads item good v) (t : Bytes) :
    Reader.Decides (arrayItems item a.length) (encArray a ++ t) (∀ v ∈ a, good v)
      (normArray a) t := by
  induction a with
  | nil =>
    refine (Reader.decides_true ?_).congr (by simp)
    rfl
  | cons v a ih =>
    have hv : Reader.Decides item (enc v ++ (encArray a ++ t)) (good v) (norm v) (encArray a ++ t) :=
      hi v (by simp) _
    have ha := ih (fun w hw => hi w (by simp [hw]))
    rw [encArray, List.append_assoc]
    exact (hv.bind (fun _ => ha.bind_ok rfl)).congr List.forall_mem_cons.symm

theorem checkKeyOrder_decides (prevKey : Option Bytes) (key : Cv) (kb s : Bytes) :
    Reader.Decides (checkKeyOrder prevKey key kb) s (∀ prev ∈ prevKey, prev < kb) () s := by
  cases prevKey with
  | none => exact (Reader.decides_true rfl).congr (by simp)
  | some prev =>
    unfold checkKeyOrder
    dsimp only
    split_ifs with hlt heq
    · refine ⟨fun h => ?_, fun _ => ⟨_, rfl⟩⟩
      exact absurd (List.lt_trans hlt (h prev rfl)) (List.lt_irrefl _)
    · refine ⟨fun h => ?_, fun _ => ?_⟩
      · exact absurd (h prev rfl) (heq ▸ List.lt_irrefl _)
      · split <;> exact ⟨_, rfl⟩
    · refine (Reader.decides_true rfl).congr ?_
      have hgt : prev < kb := Std.lt_of_le_of_ne (Std.not_lt.mp hlt) (Ne.symm heq)
      simpa using hgt

/-- One kind of map keys, with the state of the map loop after a list of entries. -/
structure KeyShape (κ : Type) where
  cv : κ → Cv
  state : List (κ × Cv) → MapState
  wrap : List (κ × Cv) → Cv
  norm_cv : ∀ k, norm (cv k) = cv k
  state_nil : state [] = ⟨none, none, [], []⟩
  prevKey_state : ∀ l, (state l).prevKey = l.getLast?.map (fun p => enc (cv p.1))
  pushEntry_state : ∀ l k v, pushEntry { state l with prevKey := some (enc (cv k)) } (cv k) v =
    pure (state (l ++ [(k, v)]))
  wrap_state : ∀ p l, (match (state (p :: l)).kind with
    | some .text => pure (.textMap (state (p :: l)).textOut)
    | _ => pure (.map (state (p :: l)).intOut) : Decoder Cv) = pure (wrap (p :: l))

def intShape : KeyShape UInt64 where
  cv := .u64
  wrap := .map
  state l := ⟨l.getLast?.map (fun p => enc (.u64 p.1)), l.head?.map (fun _ => .int), l, []⟩
  norm_cv _ := rfl
  state_nil := rfl
  prevKey_state l := by rfl
  pushEntry_state l k v := by
    cases l with
    | nil => rfl
    | cons p l =>
      have hlast : (p :: (l ++ [(k, v)])).getLast? = some (k, v) :=
        List.getLast?_concat (l := p :: l)
      simp [pushEntry, hlast]
  wrap_state _ _ := rfl

def textShape : KeyShape String where
  cv := .text
  wrap := .textMap
  state l := ⟨l.getLast?.map (fun p => enc (.text p.1)), l.head?.map (fun _ => .text), [], l⟩
  norm_cv _ := rfl
  state_nil := rfl
  prevKey_state l := by rfl
  pushEntry_state l k v := by
    cases l with
    | nil => rfl
    | cons p l =>
      have hlast : (p :: (l ++ [(k, v)])).getLast? = some (k, v) :=
        List.getLast?_concat (l := p :: l)
      simp [pushEntry, hlast]
  wrap_state _ _ := rfl

section Maps
variable {κ : Type} (K : KeyShape κ) {item : Decoder Cv} {good : Cv → Prop}

theorem mapEntry_decides {k : κ} {v : Cv} (hk : Reads item good (K.cv k))
    (hv : Reads item good v) (l : List (κ × Cv)) (t : Bytes) :
    Reader.Decides (mapEntry item (K.state l)) (enc (K.cv k) ++ (enc v ++ t))
      (good (K.cv k) ∧ (∀ prev ∈ (K.state l).prevKey, prev < enc (K.cv k)) ∧ good v)
      (K.state (l ++ [(k, norm v)])) t := by
  have hkb : (enc (K.cv k) ++ (enc v ++ t)).take
      ((enc (K.cv k) ++ (enc v ++ t)).length - (enc v ++ t).length) = enc (K.cv k) := by simp
  have hread := hk (enc v ++ t)
  rw [K.norm_cv] at hread
  unfold mapEntry
  refine Reader.Decides.ok_bind rfl (hread.bind (fun _ => Reader.Decides.ok_bind rfl ?_))
  dsimp only
  rw [hkb]
  refine (checkKeyOrder_decides _ _ _ _).bind (fun _ => (hv t).bind_ok ?_)
  rw [K.pushEntry_state]
  rfl

/-- The loop succeeds exactly when the encoded keys ascend strictly, from the last key
already read on, and every key and value can be read. -/
theorem mapEntries_decides {m : List (κ × Cv)} (hk : ∀ p ∈ m, Reads item good (K.cv p.1))
    (hv : ∀ p ∈ m, Reads item good p.2) (l : List (κ × Cv)) (t : Bytes) :
    Reader.Decides (mapEntries item m.length (K.state l))
      (m.flatMap (fun p => enc (K.cv p.1) ++ enc p.2) ++ t)
      (((K.state l).prevKey.toList ++ m.map (fun p => enc (K.cv p.1))).IsChain (· < ·) ∧
        ∀ p ∈ m, good (K.cv p.1) ∧ good p.2)
      (K.state (l ++ m.map (fun p => (p.1, norm p.2)))) t := by
  induction m generalizing l with
  | nil =>
    refine (Reader.decides_true ?_).congr ?_
    · simp [mapEntries]
      rfl
    · cases (K.state l).prevKey <;> simp
  | cons p m ih =>
    have hhead := mapEntry_decides K (hk p (by simp)) (hv p (by simp)) l
      (m.flatMap (fun p => enc (K.cv p.1) ++ enc p.2) ++ t)
    have htail := ih (fun q hq => hk q (by simp [hq])) (fun q hq => hv q (by simp [hq]))
      (l ++ [(p.1, norm p.2)])
    have hs : (p :: m).flatMap (fun p => enc (K.cv p.1) ++ enc p.2) ++ t =
        enc (K.cv p.1) ++ (enc p.2 ++ (m.flatMap (fun p => enc (K.cv p.1) ++ enc p.2) ++ t)) := by
      simp
    rw [hs, show l ++ (p :: m).map (fun p => (p.1, norm p.2)) =
      l ++ [(p.1, norm p.2)] ++ m.map (fun p => (p.1, norm p.2)) by simp]
    refine (hhead.bind (fun _ => htail)).congr ?_
    rw [K.prevKey_state (l ++ _)]
    cases (K.state l).prevKey <;> simp
    · tauto
    · tauto

theorem mapBody_decides {m : List (κ × Cv)} (hm : m ≠ [])
    (hk : ∀ p ∈ m, Reads item good (K.cv p.1)) (hv : ∀ p ∈ m, Reads item good p.2) (t : Bytes) :
    Reader.Decides (mapBody item m.length) (m.flatMap (fun p => enc (K.cv p.1) ++ enc p.2) ++ t)
      ((m.map (fun p => enc (K.cv p.1))).IsChain (· < ·) ∧ ∀ p ∈ m, good (K.cv p.1) ∧ good p.2)
      (K.wrap (m.map (fun p => (p.1, norm p.2)))) t := by
  have hloop := mapEntries_decides K hk hv [] t
  rw [K.state_nil, Option.toList_none, List.nil_append, List.nil_append] at hloop
  obtain ⟨p, l, rfl⟩ := List.exists_cons_of_ne_nil hm
  unfold mapBody
  refine hloop.bind_ok ?_
  rw [List.map_cons, K.wrap_state]
  rfl

/-- Sorting the encoded entries of a map is sorting the map by its encoded keys. -/
theorem encEntries_map (m : List (κ × Cv)) :
    encEntries (m.map (fun p => (enc (K.cv p.1), enc p.2))) =
      writeHead 5 (UInt64.ofNat m.length) ++ (sortByKey (fun p => enc (K.cv p.1)) m).flatMap
        (fun p => enc (K.cv p.1) ++ enc p.2) := by
  have hsort := map_sortByKey (fun p : κ × Cv => enc (K.cv p.1))
    (fun p => (enc (K.cv p.1), enc p.2)) Prod.fst (fun _ => rfl) m
  rw [encEntries, ← hsort, List.flatMap_map, List.length_map]

theorem value_decides_map {left : ℕ} {m : List (κ × Cv)} (hm : m ≠ [])
    (hl : m.length < 2 ^ 64) (hk : ∀ p ∈ m, Reads (value left) good (K.cv p.1))
    (hv : ∀ p ∈ m, Reads (value left) good p.2) (t : Bytes) :
    Reader.Decides (value (left + 1))
      (encEntries (m.map (fun p => (enc (K.cv p.1), enc p.2))) ++ t)
      ((m.map (fun p => enc (K.cv p.1))).Nodup ∧ ∀ p ∈ m, good (K.cv p.1) ∧ good p.2)
      (K.wrap (sortByKey (fun p => enc (K.cv p.1)) (m.map (fun p => (p.1, norm p.2))))) t := by
  have hlen : (UInt64.ofNat m.length).toNat = m.length := by
    rw [UInt64.toNat_ofNat', Nat.mod_eq_of_lt hl]
  have hne : sortByKey (fun p => enc (K.cv p.1)) m ≠ [] := by
    rw [← List.length_pos_iff, length_sortByKey]
    exact List.length_pos_of_ne_nil hm
  have hbody := mapBody_decides K hne (fun p hp => hk p (mem_sortByKey.mp hp))
    (fun p hp => hv p (mem_sortByKey.mp hp)) t
  have hnorm := map_sortByKey (fun p : κ × Cv => enc (K.cv p.1)) (fun p => (p.1, norm p.2))
    (fun p => enc (K.cv p.1)) (fun _ => rfl) m
  rw [sortByKey_isChain, hnorm, length_sortByKey] at hbody
  have hrun := value_run_map left (UInt64.ofNat m.length)
    ((sortByKey (fun p => enc (K.cv p.1)) m).flatMap (fun p => enc (K.cv p.1) ++ enc p.2) ++ t)
  rw [hlen, if_neg (by simpa using hm), ← List.append_assoc, ← encEntries_map] at hrun
  unfold Reader.Decides at hbody ⊢
  rw [hrun]
  simpa using hbody

end Maps

/-- What the decoder asks of a value for which `left` nesting levels are to spare. -/
def Fits (left : ℕ) (v : Cv) : Prop := v.KeysDistinct ∧ v.depth < left

theorem reads_zero (v : Cv) : Reads (value 0) (Fits 0) v := by
  intro t
  refine ⟨fun h => absurd h.2 (Nat.not_lt_zero _), fun _ => ⟨.malformed, rfl⟩⟩

private theorem toNat_ofNat_length {n : ℕ} (h : n < 2 ^ 64) : (UInt64.ofNat n).toNat = n := by
  rw [UInt64.toNat_ofNat', Nat.mod_eq_of_lt h]

theorem reads_u64 (left : ℕ) (n : UInt64) : Reads (value left) (Fits left) (.u64 n) := by
  cases left with
  | zero => exact reads_zero _
  | succ left =>
    intro t
    refine (Reader.decides_true (value_run_u64 left n t)).congr ?_
    simp [Fits, Cv.depth]

theorem reads_bytes (left : ℕ) {b : Bytes} (h : b.length < 2 ^ 64) :
    Reads (value left) (Fits left) (.bytes b) := by
  cases left with
  | zero => exact reads_zero _
  | succ left =>
    intro t
    refine (Reader.decides_true ?_).congr (d := Fits (left + 1) (.bytes b)) ?_
    · rw [enc, List.append_assoc, value_run_bytes, toNat_ofNat_length h,
        Reader.run_bind_ok (take_run_append rfl t)]
      rfl
    · simp [Fits, Cv.depth]

theorem reads_text (left : ℕ) {s : String} (h : (utf8 s).length < 2 ^ 64) :
    Reads (value left) (Fits left) (.text s) := by
  cases left with
  | zero => exact reads_zero _
  | succ left =>
    intro t
    refine (Reader.decides_true ?_).congr (d := Fits (left + 1) (.text s)) ?_
    · rw [enc, List.append_assoc, value_run_text, toNat_ofNat_length h,
        Reader.run_bind_ok (take_run_append rfl t), fromUtf8_utf8]
      rfl
    · simp [Fits, Cv.depth]

theorem reads_bool (left : ℕ) (b : Bool) : Reads (value left) (Fits left) (.bool b) := by
  cases left with
  | zero => exact reads_zero _
  | succ left =>
    intro t
    refine (Reader.decides_true ?_).congr (d := Fits (left + 1) (.bool b)) ?_
    · cases b <;> rfl
    · simp [Fits, Cv.depth]

theorem reads_array (left : ℕ) {a : List Cv} (h : a.length < 2 ^ 64)
    (ha : ∀ v ∈ a, Reads (value left) (Fits left) v) :
    Reads (value (left + 1)) (Fits (left + 1)) (.array a) := by
  intro t
  have hrun := value_run_array left (UInt64.ofNat a.length) (encArray a ++ t)
  rw [toNat_ofNat_length h, ← List.append_assoc] at hrun
  have hitems : Reader.Decides (do
      let a ← arrayItems (value left) a.length
      return .array a : Decoder Cv) (encArray a ++ t) (∀ v ∈ a, Fits left v)
        (.array (normArray a)) t := (arrayItems_decides ha t).bind_ok rfl
  have hfit : (∀ v ∈ a, Fits left v) ↔ Fits (left + 1) (.array a) := by
    unfold Fits
    rw [Cv.keysDistinct_array, Nat.lt_succ_iff, Cv.depth_array_le]
    exact forall₂_and
  unfold Reader.Decides at hitems
  rw [← hrun, hfit] at hitems
  exact hitems

/-- An injective key encoding and items at least one level deeper than their map turn the
conditions of the map loop into those on the map. -/
private theorem fits_entries_iff {κ : Type} {cv : κ → Cv} {left : ℕ} {m : List (κ × Cv)}
    (hinj : ∀ p ∈ m, ∀ q ∈ m, enc (cv p.1) = enc (cv q.1) → p.1 = q.1)
    (hkey : ∀ k, Fits left (cv k) ↔ 0 < left) :
    ((m.map (fun p => enc (cv p.1))).Nodup ∧ ∀ p ∈ m, Fits left (cv p.1) ∧ Fits left p.2) ↔
      ((m.map Prod.fst).Nodup ∧ ∀ p ∈ m, p.2.KeysDistinct) ∧ ∀ p ∈ m, p.2.depth + 1 ≤ left := by
  have hnodup : (m.map (fun p => enc (cv p.1))).Nodup ↔ (m.map Prod.fst).Nodup := by
    unfold List.Nodup
    rw [List.pairwise_map, List.pairwise_map]
    refine List.Pairwise.iff_of_mem (fun {p q} hp hq => not_congr ?_)
    exact ⟨hinj p hp q hq, fun h => by rw [h]⟩
  rw [hnodup, and_assoc, ← forall₂_and]
  refine and_congr_right (fun _ => forall₂_congr (fun p _ => ?_))
  rw [hkey]
  unfold Fits
  constructor
  · exact fun h => h.2
  · exact fun h => ⟨by omega, h⟩

private theorem reads_empty_map (left : ℕ) (t : Bytes) :
    Reader.Decides (value (left + 1)) (encEntries [] ++ t) True (.map []) t :=
  Reader.decides_true (value_run_map left 0 t)

/-- Two values that the reader takes and that share an encoding share a normal form. -/
private theorem norm_eq_of_enc_eq {v w : Cv} (hv : Reads (value 1) (Fits 1) v) (hvf : Fits 1 v)
    (hw : Reads (value 1) (Fits 1) w) (hwf : Fits 1 w) (h : enc v = enc w) : norm v = norm w := by
  have hrun := (hv []).1 hvf
  rw [h, (hw []).1 hwf] at hrun
  exact (Prod.mk.inj (Except.ok.inj hrun)).1.symm

theorem fits_u64 (left : ℕ) (n : UInt64) : Fits left (.u64 n) ↔ 0 < left := by
  simp [Fits, Cv.depth]

theorem fits_text (left : ℕ) (s : String) : Fits left (.text s) ↔ 0 < left := by
  simp [Fits, Cv.depth]

theorem reads_map (left : ℕ) {m : List (UInt64 × Cv)} (h : m.length < 2 ^ 64)
    (hm : ∀ p ∈ m, Reads (value left) (Fits left) p.2) :
    Reads (value (left + 1)) (Fits (left + 1)) (.map m) := by
  intro t
  by_cases hnil : m = []
  · subst hnil
    refine (reads_empty_map left t).congr ?_
    simp [Fits, Cv.keysDistinct_map, Cv.depth, Cv.depthMap]
  · have hinj : ∀ p ∈ m, ∀ q ∈ m, enc (.u64 p.1) = enc (.u64 q.1) → p.1 = q.1 := by
      intro p _ q _ heq
      have hnorm := norm_eq_of_enc_eq (reads_u64 1 p.1) ((fits_u64 1 _).mpr one_pos)
        (reads_u64 1 q.1) ((fits_u64 1 _).mpr one_pos) heq
      exact Cv.u64.inj hnorm
    have hfit := fits_entries_iff hinj (fits_u64 left)
    rw [← Cv.keysDistinct_map, ← Cv.depth_map_le, ← Nat.lt_succ_iff] at hfit
    have hd := value_decides_map intShape hnil h (fun p _ => reads_u64 left p.1) hm t
    rw [enc, encMap_eq, norm, normMap_eq]
    exact hd.congr hfit

theorem reads_textMap (left : ℕ) {m : List (String × Cv)} (h : m.length < 2 ^ 64)
    (hk : ∀ p ∈ m, (utf8 p.1).length < 2 ^ 64)
    (hm : ∀ p ∈ m, Reads (value left) (Fits left) p.2) :
    Reads (value (left + 1)) (Fits (left + 1)) (.textMap m) := by
  intro t
  by_cases hnil : m = []
  · subst hnil
    refine (reads_empty_map left t).congr ?_
    simp [Fits, Cv.keysDistinct_textMap, Cv.depth, Cv.depthTextMap]
  · have hinj : ∀ p ∈ m, ∀ q ∈ m, enc (.text p.1) = enc (.text q.1) → p.1 = q.1 := by
      intro p hp q hq heq
      have hnorm := norm_eq_of_enc_eq (reads_text 1 (hk p hp)) ((fits_text 1 _).mpr one_pos)
        (reads_text 1 (hk q hq)) ((fits_text 1 _).mpr one_pos) heq
      exact Cv.text.inj hnorm
    have hfit := fits_entries_iff hinj (fits_text left)
    rw [← Cv.keysDistinct_textMap, ← Cv.depth_textMap_le, ← Nat.lt_succ_iff] at hfit
    have hd := value_decides_map textShape hnil h (fun p hp => reads_text left (hk p hp)) hm t
    obtain ⟨p, l, rfl⟩ := List.exists_cons_of_ne_nil hnil
    rw [enc, encTextMap_eq, norm, normTextMap_eq]
    exact hd.congr hfit

theorem value_reads {v : Cv} (hv : v.LengthsFit) (left : ℕ) : Reads (value left) (Fits left) v := by
  induction v using Cv.induct generalizing left with
  | u64 n => exact reads_u64 left n
  | bytes b => exact reads_bytes left (hv _ (Cv.self_mem_items _))
  | text s => exact reads_text left (hv _ (Cv.self_mem_items _))
  | bool b => exact reads_bool left b
  | array a ih =>
    obtain ⟨hl, ha⟩ := Cv.lengthsFit_array.mp hv
    cases left with
    | zero => exact reads_zero _
    | succ left => exact reads_array left hl (fun v hv => ih v hv (ha v hv) left)
  | map m ih =>
    obtain ⟨hl, hm⟩ := Cv.lengthsFit_map.mp hv
    cases left with
    | zero => exact reads_zero _
    | succ left => exact reads_map left hl (fun p hp => ih p hp (hm p hp) left)
  | textMap m ih =>
    obtain ⟨⟨hl, hk⟩, hm⟩ := Cv.lengthsFit_textMap.mp hv
    cases left with
    | zero => exact reads_zero _
    | succ left => exact reads_textMap left hl hk (fun p hp => ih p hp (hm p hp) left)

end Decoder

/-- The values that can exist in memory: every length inside them is a `usize`. -/
abbrev SizedCv := { v : Cv // v.LengthsFit }

theorem decode_encode (v : SizedCv) :
    (decode (encode v.val) = .ok (norm v.val) ↔ v.val.KeysDistinct ∧ v.val.depth ≤ maxNestingDepth) ∧
      (¬ (v.val.KeysDistinct ∧ v.val.depth ≤ maxNestingDepth) →
        ∃ e, decode (encode v.val) = .error e) := by
  obtain ⟨v, hv⟩ := v
  have hd := Decoder.value_reads hv (maxNestingDepth + 1) []
  rw [List.append_nil] at hd
  unfold Decoder.Fits at hd
  rw [Nat.lt_succ_iff] at hd
  have herr : ¬ (v.KeysDistinct ∧ v.depth ≤ maxNestingDepth) → ∃ e, decode (encode v) = .error e := by
    intro h
    obtain ⟨e, he⟩ := hd.2 h
    refine ⟨e, ?_⟩
    unfold decode encode
    rw [he]
    rfl
  refine ⟨⟨fun h => ?_, fun h => decode_eq_ok.mpr (hd.1 h)⟩, herr⟩
  by_contra hc
  obtain ⟨e, he⟩ := herr hc
  rw [h] at he
  cases he

end Dmtap.Cbor
