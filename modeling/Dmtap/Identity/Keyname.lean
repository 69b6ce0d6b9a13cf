import Dmtap.Id
import Dmtap.Lib.Register

/-! The name every identity key has without a registry: eight words and a checksum word. The words
hold ten bits each, and the name is checked by putting their bits together again. -/
namespace Dmtap.Identity.Keyname
open Lib

def dataWords : ℕ := 8
def bitsPerWord : ℕ := 10
def wordlistSize : ℕ := 1024

def consonants : List Char := "bdfgklmnprstvz".toList

def vowels : List Char := "aeiou".toList

/-- The `k`-th of the 4900 pairs of syllables. -/
def combo (k : ℕ) : String :=
  String.ofList [consonants.getD (k / 350) 'b', vowels.getD (k / 70 % 5) 'a',
    consonants.getD (k / 5 % 14) 'b', vowels.getD (k % 5) 'a']

/-- The embedded list, which spreads its words evenly over the pairs of syllables. -/
def wordlist : List String := (List.range wordlistSize).map fun i => combo (i * 4900 / wordlistSize)

example : wordlist.take 5 = ["baba", "babu", "badu", "bafu", "bagu"] := by decide +kernel

/-- Whole words off the register `acc`, which holds `bits` bits not yet taken. -/
def takeWords (acc : ℕ) : ℕ → ℕ → List ℕ → ℕ × List ℕ
  | 0, bits, out => (bits, out)
  | fuel + 1, bits, out =>
    if bitsPerWord ≤ bits && out.length < dataWords then
      takeWords acc fuel (bits - bitsPerWord)
        (out ++ [acc / 2 ^ (bits - bitsPerWord) % wordlistSize])
    else (bits, out)

def indicesLoop (acc bits : ℕ) (out : List ℕ) : Bytes → List ℕ
  | [] => out
  | byte :: hash =>
    let acc := (acc * 256 + byte.toNat) % 2 ^ 32
    let taken := takeWords acc (bits + 8) (bits + 8) out
    indicesLoop acc taken.1 taken.2 hash

/-- The words' indices: ten bits each off the first ten bytes. -/
def indicesFromHash (hash : Bytes) : List ℕ := indicesLoop 0 0 [] (hash.take 10)

section Encode
variable (blake3 : Bytes → Digest)

def checksumIndex (hash : Bytes) : ℕ :=
  let b := (blake3 (utf8 "dmtap-keyname-checksum" ++ hash.take 10)).val
  ((b.getD 0 0).toNat * 4 + (b.getD 1 0).toNat / 64) % wordlistSize

def encode (pubkey : Bytes) : String :=
  let hash := (blake3 pubkey).val
  let words := (indicesFromHash hash).map fun i => wordlist.getD i ""
  "-".intercalate (words ++ [wordlist.getD (checksumIndex blake3 hash) ""])

end Encode

section Verify

/-- Index of a word in the list. -/
def wordIndex (w : String) : Option ℕ := wordlist.findIdx? (· == w)

/-- Whole bytes off the register `acc`, which holds `bits` bits not yet taken. -/
def takeOctets (acc : ℕ) : ℕ → ℕ → Bytes → ℕ × Bytes
  | 0, bits, out => (bits, out)
  | fuel + 1, bits, out =>
    if 8 ≤ bits then takeOctets acc fuel (bits - 8) (out ++ [UInt8.ofNat (acc / 2 ^ (bits - 8) % 256)])
    else (bits, out)

def octetsLoop (acc bits : ℕ) (out : Bytes) : List ℕ → Bytes
  | [] => out
  | i :: idx =>
    let acc := (acc * 2 ^ bitsPerWord + i) % 2 ^ 32
    let taken := takeOctets acc (bits + bitsPerWord) (bits + bitsPerWord) out
    octetsLoop acc taken.1 taken.2 idx

/-- A scratch hash that starts with the bits of the words. -/
def packedHash (idx : List ℕ) : Bytes :=
  let bytes := octetsLoop 0 0 [] idx
  bytes ++ List.replicate (32 - bytes.length) 0

variable (blake3 : Bytes → Digest)

/-- Whether the last word is the checksum of the others. -/
def verify (name : String) : Bool :=
  let words := (name.toList.splitOn '-').map String.ofList
  if words.length ≠ dataWords + 1 then false
  else
    match (words.take dataWords).mapM wordIndex, words[dataWords]?.bind wordIndex with
    | some idx, some claimed => checksumIndex blake3 (packedHash idx) == claimed
    | _, _ => false

end Verify

section Packing

/-- The bound on the number of words does not bind before the bits run out. -/
theorem takeWords_regroups {acc fuel bits : ℕ} {out ins : List ℕ}
    (h : Regroups 10 8 acc bits out ins) (hfuel : bits ≤ fuel) (hins : ins.length ≤ 10) :
    (takeWords acc fuel bits out).1 < 10 ∧
      Regroups 10 8 acc (takeWords acc fuel bits out).1 (takeWords acc fuel bits out).2 ins := by
  induction fuel generalizing bits out with
  | zero =>
    have hbits : bits < 10 := by omega
    exact ⟨hbits, h⟩
  | succ fuel ih =>
    rw [takeWords]
    by_cases hbits : 10 ≤ bits
    · have hlength := h.length
      have hroom : out.length < 8 := by omega
      have hword : (decide (bitsPerWord ≤ bits) && decide (out.length < dataWords)) = true := by
        simp [bitsPerWord, dataWords, hbits, hroom]
      rw [if_pos hword]
      exact ih (h.write hbits) (by rw [bitsPerWord]; omega)
    · have hword : ¬(decide (bitsPerWord ≤ bits) && decide (out.length < dataWords)) = true := by
        simp [bitsPerWord, hbits]
      rw [if_neg hword]
      exact ⟨by omega, h⟩

theorem indicesLoop_regroups (hash : Bytes) {acc bits : ℕ} {out ins : List ℕ}
    (h : Regroups 10 8 acc bits out ins) (hbits : bits < 10)
    (hins : ins.length + hash.length ≤ 10) :
    ∃ acc' bits', bits' < 10 ∧
      Regroups 10 8 acc' bits' (indicesLoop acc bits out hash) (ins ++ hash.map UInt8.toNat) := by
  induction hash generalizing acc bits out ins with
  | nil => exact ⟨acc, bits, hbits, by simpa [indicesLoop] using h⟩
  | cons byte hash ih =>
    have hread := h.read byte.toNat_lt (show bits + 8 ≤ 32 by omega)
    have htaken := takeWords_regroups hread le_rfl (by simp at hins ⊢; omega)
    obtain ⟨acc', bits', hbits', hrest⟩ := ih htaken.2 htaken.1 (by simp at hins ⊢; omega)
    exact ⟨acc', bits', hbits', by simpa [indicesLoop] using hrest⟩

theorem indicesFromHash_regroups {hash : Bytes} (hlength : 10 ≤ hash.length) :
    ∃ acc, Regroups 10 8 acc 0 (indicesFromHash hash) ((hash.take 10).map UInt8.toNat) := by
  have htake : (hash.take 10).length = 10 := by rw [List.length_take, Nat.min_eq_left hlength]
  obtain ⟨acc, bits, hbits, h⟩ := indicesLoop_regroups (hash.take 10)
    (Regroups.start 10 8 0) (by decide) (by rw [htake]; decide)
  have htotal := h.length
  simp only [List.nil_append, List.length_map, htake] at htotal
  have hbits : bits = 0 := by omega
  rw [hbits] at h
  exact ⟨acc, h⟩

theorem takeOctets_regroups {acc fuel bits : ℕ} {out : Bytes} {ins : List ℕ}
    (h : Regroups 8 10 acc bits (out.map UInt8.toNat) ins) (hfuel : bits ≤ fuel) :
    (takeOctets acc fuel bits out).1 < 8 ∧
      Regroups 8 10 acc (takeOctets acc fuel bits out).1
        ((takeOctets acc fuel bits out).2.map UInt8.toNat) ins := by
  induction fuel generalizing bits out with
  | zero =>
    have hbits : bits < 8 := by omega
    exact ⟨hbits, h⟩
  | succ fuel ih =>
    rw [takeOctets]
    by_cases hbits : 8 ≤ bits
    · have hwrite := h.write hbits
      rw [if_pos hbits]
      exact ih (by simpa using hwrite) (by omega)
    · rw [if_neg hbits]
      exact ⟨by omega, h⟩

theorem octetsLoop_regroups {acc bits : ℕ} {out : Bytes} {ins idx : List ℕ}
    (h : Regroups 8 10 acc bits (out.map UInt8.toNat) ins) (hbits : bits < 8)
    (hidx : ∀ i ∈ idx, i < 1024) :
    ∃ acc' bits', bits' < 8 ∧
      Regroups 8 10 acc' bits' ((octetsLoop acc bits out idx).map UInt8.toNat) (ins ++ idx) := by
  induction idx generalizing acc bits out ins with
  | nil => exact ⟨acc, bits, hbits, by simpa [octetsLoop] using h⟩
  | cons i idx ih =>
    have hi : i < 2 ^ 10 := hidx i List.mem_cons_self
    have hread := h.read hi (show bits + 10 ≤ 32 by omega)
    have htaken := takeOctets_regroups hread le_rfl
    obtain ⟨acc', bits', hbits', hrest⟩ :=
      ih htaken.2 htaken.1 fun j hj => hidx j (List.mem_cons_of_mem _ hj)
    exact ⟨acc', bits', hbits', by simpa [octetsLoop, bitsPerWord] using hrest⟩

/-- The first ten bytes are the words' bits. -/
theorem packedHash_regroups {idx : List ℕ} (hlength : idx.length = 8) (hidx : ∀ i ∈ idx, i < 1024) :
    ∃ acc, Regroups 8 10 acc 0 (((packedHash idx).take 10).map UInt8.toNat) idx := by
  have hstart : Regroups 8 10 0 0 (([] : Bytes).map UInt8.toNat) [] := Regroups.start 8 10 0
  obtain ⟨acc, bits, hbits, h⟩ := octetsLoop_regroups hstart (by decide) hidx
  have htotal := h.length
  simp only [List.nil_append, List.length_map, hlength] at htotal
  have hbits : bits = 0 := by omega
  have hoctets : (octetsLoop 0 0 [] idx).length = 10 := by omega
  have htake : (packedHash idx).take 10 = octetsLoop 0 0 [] idx := List.take_left' hoctets
  rw [hbits, List.nil_append] at h
  rw [htake]
  exact ⟨acc, h⟩

theorem packedHash_length {idx : List ℕ} (hlength : idx.length = 8) (hidx : ∀ i ∈ idx, i < 1024) :
    10 ≤ (packedHash idx).length := by
  obtain ⟨acc, h⟩ := packedHash_regroups hlength hidx
  have htotal := h.length
  simp only [List.length_map, List.length_take, hlength] at htotal
  omega

theorem indicesFromHash_length {hash : Bytes} (hlength : 10 ≤ hash.length) :
    (indicesFromHash hash).length = 8 := by
  obtain ⟨acc, h⟩ := indicesFromHash_regroups hlength
  have htotal := h.length
  simp only [List.length_map, List.length_take, Nat.min_eq_left hlength] at htotal
  omega

theorem indicesFromHash_lt {hash : Bytes} (hlength : 10 ≤ hash.length) :
    ∀ i ∈ indicesFromHash hash, i < 1024 := by
  obtain ⟨acc, h⟩ := indicesFromHash_regroups hlength
  exact h.digits

theorem packedHash_indicesFromHash {hash : Bytes} (hlength : 10 ≤ hash.length) :
    (packedHash (indicesFromHash hash)).take 10 = hash.take 10 := by
  obtain ⟨acc, h⟩ := indicesFromHash_regroups hlength
  obtain ⟨acc', h'⟩ :=
    packedHash_regroups (indicesFromHash_length hlength) (indicesFromHash_lt hlength)
  have hoctets : ∀ x ∈ (hash.take 10).map UInt8.toNat, x < 2 ^ 8 := by
    intro x hx
    obtain ⟨byte, -, rfl⟩ := List.mem_map.mp hx
    exact byte.toNat_lt
  have hmap := h.inverse h' (by omega) hoctets
  exact List.map_injective_iff.mpr (fun _ _ => UInt8.toNat_inj.mp) hmap

theorem indicesFromHash_packedHash {idx : List ℕ} (hlength : idx.length = 8)
    (hidx : ∀ i ∈ idx, i < 1024) : indicesFromHash (packedHash idx) = idx := by
  obtain ⟨acc, h⟩ := packedHash_regroups hlength hidx
  obtain ⟨acc', h'⟩ := indicesFromHash_regroups (packedHash_length hlength hidx)
  exact h.inverse h' (by omega) hidx

/-- The words are a function of the first ten bytes. -/
theorem indicesFromHash_congr {hash₁ hash₂ : Bytes} (h : hash₁.take 10 = hash₂.take 10) :
    indicesFromHash hash₁ = indicesFromHash hash₂ := by
  rw [indicesFromHash, h, indicesFromHash]

end Packing

section Words

theorem combo_inj {k₁ k₂ : ℕ} (hk₁ : k₁ < 4900) (hk₂ : k₂ < 4900) (h : combo k₁ = combo k₂) :
    k₁ = k₂ := by
  have hconsonant : ∀ n < 14, ∀ m < 14, consonants.getD n 'b' = consonants.getD m 'b' → n = m := by
    decide
  have hvowel : ∀ n < 5, ∀ m < 5, vowels.getD n 'a' = vowels.getD m 'a' → n = m := by
    decide
  have hchars := String.ofList_injective h
  simp only [List.cons.injEq, and_true] at hchars
  obtain ⟨h₁, h₂, h₃, h₄⟩ := hchars
  have hfirst := hconsonant _ (by omega) _ (by omega) h₁
  have hsecond := hvowel _ (by omega) _ (by omega) h₂
  have hthird := hconsonant _ (by omega) _ (by omega) h₃
  have hfourth := hvowel _ (by omega) _ (by omega) h₄
  omega

theorem combo_hyphen (k : ℕ) : '-' ∉ (combo k).toList := by
  have hconsonant : ∀ n, consonants.getD n 'b' ≠ '-' := getD_ne (by decide) (by decide)
  have hvowel : ∀ n, vowels.getD n 'a' ≠ '-' := getD_ne (by decide) (by decide)
  simp only [combo, String.toList_ofList, List.mem_cons, List.not_mem_nil, or_false, not_or]
  exact ⟨(hconsonant _).symm, (hvowel _).symm, (hconsonant _).symm, (hvowel _).symm⟩

theorem wordlist_length : wordlist.length = 1024 := by
  simp [wordlist, wordlistSize]

theorem wordlist_getD {i : ℕ} (hi : i < wordlist.length) : wordlist.getD i "" = wordlist[i] := by
  rw [List.getD_eq_getElem?_getD, List.getElem?_eq_getElem hi, Option.getD_some]

theorem wordlist_nodup : wordlist.Nodup := by
  refine List.Nodup.map_on (fun i hi j hj h => ?_) List.nodup_range
  rw [List.mem_range, wordlistSize] at hi hj
  have hindex := combo_inj (by rw [wordlistSize]; omega) (by rw [wordlistSize]; omega) h
  rw [wordlistSize] at hindex
  omega

theorem wordlist_hyphen : ∀ w ∈ wordlist, '-' ∉ w.toList := by
  intro w hw
  obtain ⟨i, -, rfl⟩ := List.mem_map.mp hw
  exact combo_hyphen _

theorem findIdx?_getElem {l : List String} (hl : l.Nodup) {i : ℕ} (hi : i < l.length) :
    l.findIdx? (· == l[i]) = some i := by
  rw [List.findIdx?_eq_some_iff_getElem]
  refine ⟨hi, beq_self_eq_true _, fun j hj => ?_⟩
  have hne : l[j] ≠ l[i] := by
    intro h
    have hindex := hl.getElem_inj_iff.mp h
    omega
  simp [hne]

theorem wordIndex_getD {i : ℕ} (hi : i < 1024) : wordIndex (wordlist.getD i "") = some i := by
  have hlength : i < wordlist.length := by rw [wordlist_length]; exact hi
  rw [wordlist_getD hlength]
  exact findIdx?_getElem wordlist_nodup hlength

/-- The words of some indices. -/
def names (idx : List ℕ) : List String := idx.map fun i => wordlist.getD i ""

theorem mapM_wordIndex_names {idx : List ℕ} (hidx : ∀ i ∈ idx, i < 1024) :
    (names idx).mapM wordIndex = some idx := by
  induction idx with
  | nil => rfl
  | cons i idx ih =>
    have hi := wordIndex_getD (hidx i List.mem_cons_self)
    have hrest := ih fun j hj => hidx j (List.mem_cons_of_mem _ hj)
    rw [names, List.map_cons, List.mapM_cons, hi]
    change (names idx).mapM wordIndex >>= _ = _
    rw [hrest]
    rfl

theorem names_hyphen (idx : List ℕ) : ∀ w ∈ names idx, '-' ∉ w.toList := by
  intro w hw
  obtain ⟨i, -, rfl⟩ := List.mem_map.mp hw
  exact forall_getD (P := fun w : String => '-' ∉ w.toList) wordlist_hyphen (by decide) i

theorem splitOn_names {idx : List ℕ} (hidx : idx ≠ []) :
    (("-".intercalate (names idx)).toList.splitOn '-').map String.ofList = names idx := by
  have hne : (names idx).map String.toList ≠ [] := by simpa [names] using hidx
  have hhyphen : ∀ l ∈ (names idx).map String.toList, '-' ∉ l := by
    intro l hl
    obtain ⟨w, hw, rfl⟩ := List.mem_map.mp hl
    exact names_hyphen idx w hw
  rw [String.toList_intercalate, show "-".toList = ['-'] from rfl,
    List.splitOn_intercalate '-' hhyphen hne, List.map_map]
  simp [Function.comp_def]

end Words

section Names
variable (blake3 : Bytes → Digest)

theorem checksumIndex_congr {hash₁ hash₂ : Bytes} (h : hash₁.take 10 = hash₂.take 10) :
    checksumIndex blake3 hash₁ = checksumIndex blake3 hash₂ := by
  rw [checksumIndex, h, checksumIndex]

theorem checksumIndex_lt (hash : Bytes) : checksumIndex blake3 hash < 1024 :=
  Nat.mod_lt _ (by decide)

/-- The indices of all nine words. -/
def nameIndices (hash : Bytes) : List ℕ := indicesFromHash hash ++ [checksumIndex blake3 hash]

theorem encode_eq (pubkey : Bytes) :
    encode blake3 pubkey = "-".intercalate (names (nameIndices blake3 (blake3 pubkey).val)) := by
  rw [nameIndices, names, List.map_append]
  rfl

theorem digest_length (d : Digest) : 10 ≤ d.val.length := by
  rw [d.property]
  decide

theorem splitOn_encode (pubkey : Bytes) :
    ((encode blake3 pubkey).toList.splitOn '-').map String.ofList =
      names (nameIndices blake3 (blake3 pubkey).val) := by
  rw [encode_eq]
  exact splitOn_names (List.append_ne_nil_of_right_ne_nil _ (List.cons_ne_nil _ _))

theorem verify_encode (pubkey : Bytes) : verify blake3 (encode blake3 pubkey) = true := by
  have hhash := digest_length (blake3 pubkey)
  have hlength := indicesFromHash_length hhash
  have hdata : (names (nameIndices blake3 (blake3 pubkey).val)).take dataWords =
      names (indicesFromHash (blake3 pubkey).val) := by
    rw [nameIndices, names, List.map_append]
    exact List.take_left' (by rw [List.length_map, hlength, dataWords])
  have hclaimed : (names (nameIndices blake3 (blake3 pubkey).val))[dataWords]? =
      some (wordlist.getD (checksumIndex blake3 (blake3 pubkey).val) "") := by
    simp [nameIndices, names, hlength, dataWords]
  have hwords : (names (nameIndices blake3 (blake3 pubkey).val)).length = dataWords + 1 := by
    simp [nameIndices, names, hlength, dataWords]
  have hpacked := checksumIndex_congr blake3 (packedHash_indicesFromHash hhash)
  rw [verify, splitOn_encode]
  rw [if_neg (not_not_intro hwords), hdata, mapM_wordIndex_names (indicesFromHash_lt hhash),
    hclaimed, Option.bind_some, wordIndex_getD (checksumIndex_lt blake3 _)]
  dsimp only
  rw [hpacked, beq_self_eq_true]

theorem encode_inj {pk₁ pk₂ : Bytes} (h : encode blake3 pk₁ = encode blake3 pk₂) :
    (blake3 pk₁).val.take 10 = (blake3 pk₂).val.take 10 := by
  have hhash₁ := digest_length (blake3 pk₁)
  have hhash₂ := digest_length (blake3 pk₂)
  have hlt : ∀ pk, ∀ i ∈ nameIndices blake3 (blake3 pk).val, i < 1024 := by
    intro pk i hi
    rcases List.mem_append.mp hi with hi | hi
    · exact indicesFromHash_lt (digest_length (blake3 pk)) i hi
    · rw [List.mem_singleton.mp hi]
      exact checksumIndex_lt blake3 _
  have hnames : names (nameIndices blake3 (blake3 pk₁).val) =
      names (nameIndices blake3 (blake3 pk₂).val) := by
    rw [← splitOn_encode, h, splitOn_encode]
  have hall : nameIndices blake3 (blake3 pk₁).val = nameIndices blake3 (blake3 pk₂).val := by
    have hindices := congrArg (·.mapM wordIndex) hnames
    simpa only [mapM_wordIndex_names (hlt _), Option.some.injEq] using hindices
  have hdata : indicesFromHash (blake3 pk₁).val = indicesFromHash (blake3 pk₂).val :=
    List.append_inj_left' hall rfl
  rw [← packedHash_indicesFromHash hhash₁, hdata, packedHash_indicesFromHash hhash₂]

/-- Every name passes its check and names the first eighty bits of the key's hash: the loop that
takes the words from them and the one that puts them together again undo each other. -/
theorem keyname_packing :
    (∀ pubkey, verify blake3 (encode blake3 pubkey) = true) ∧
    (∀ pk₁ pk₂, encode blake3 pk₁ = encode blake3 pk₂ ↔
      (blake3 pk₁).val.take 10 = (blake3 pk₂).val.take 10) ∧
    (∀ hash : Digest, (packedHash (indicesFromHash hash.val)).take 10 = hash.val.take 10) ∧
    ∀ idx : List ℕ, idx.length = dataWords → (∀ i ∈ idx, i < wordlistSize) →
      indicesFromHash (packedHash idx) = idx := by
  refine ⟨verify_encode blake3, fun pk₁ pk₂ => ⟨encode_inj blake3, fun h => ?_⟩,
    fun hash => packedHash_indicesFromHash (digest_length hash),
    fun idx hlength hidx => indicesFromHash_packedHash hlength hidx⟩
  have hall : nameIndices blake3 (blake3 pk₁).val = nameIndices blake3 (blake3 pk₂).val := by
    rw [nameIndices, indicesFromHash_congr h, checksumIndex_congr blake3 h, nameIndices]
  rw [encode_eq, hall, encode_eq]

theorem keyname_packing_ramp :
    indicesFromHash (packedHash [1023, 0, 512, 3, 77, 1, 1022, 340]) =
      [1023, 0, 512, 3, 77, 1, 1022, 340] :=
  (keyname_packing fun pubkey => ⟨(pubkey ++ List.replicate 32 0).take 32, by simp⟩).2.2.2 _ rfl
    (by decide)

end Names

end Dmtap.Identity.Keyname
