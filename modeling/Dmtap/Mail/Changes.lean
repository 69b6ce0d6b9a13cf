import Dmtap.Mail.Ascii
import Dmtap.Mail.Base64
import Dmtap.Mail.Store

/-! JMAP state tokens and the changes since one. -/
namespace Dmtap.Mail
open Lib

inductive JmapObj where
  | email
  | mailbox
  | thread
  deriving DecidableEq

structure JmapChanges where
  oldState : String
  newState : String
  created : List String
  updated : List String
  destroyed : List String
  hasMore : Bool
  deriving DecidableEq

abbrev StateMap := SortedMap String ℕ

def encodeEntry (p : String × ℕ) : Bytes :=
  toBe 4 (utf8 p.1).length ++ utf8 p.1 ++ toBe 8 p.2

def encodeStateMap (map : StateMap) : String := base64Encode (map.entries.flatMap encodeEntry)

/-- The next `n` bytes and what is behind them. -/
def takeBytes (n : ℕ) (b : Bytes) : Option (Bytes × Bytes) :=
  if n ≤ b.length then some (b.take n, b.drop n) else none

def decodeEntry (b : Bytes) : Option ((String × ℕ) × Bytes) := do
  let (len, b) ← takeBytes 4 b
  let (name, b) ← takeBytes (ofBe len) b
  let name ← fromUtf8 name
  let (ms, b) ← takeBytes 8 b
  some ((name, ofBe ms), b)

def decodeEntries : ℕ → Bytes → StateMap → Option StateMap
  | _, [], map => some map
  | 0, _, _ => none
  | fuel + 1, b, map => do
    let ((name, ms), b) ← decodeEntry b
    decodeEntries fuel b (map.insert name ms)

def decodeStateMap (token : String) : Option StateMap :=
  if token = "" || token = "0" then some SortedMap.empty
  else do
    let bytes ← base64Decode token
    decodeEntries bytes.length bytes SortedMap.empty

section Token

theorem takeBytes_append {n : ℕ} {a b : Bytes} (h : a.length = n) :
    takeBytes n (a ++ b) = some (a, b) := by
  unfold takeBytes
  rw [if_pos (by rw [List.length_append]; omega), List.take_left' h, List.drop_left' h]

/-- What fits a token: the length of the name in 32 bits, the modification sequence in 64. -/
def FitsToken (p : String × ℕ) : Prop := (utf8 p.1).length < 2 ^ 32 ∧ p.2 < 2 ^ 64

theorem decodeEntry_encodeEntry {p : String × ℕ} (hp : FitsToken p) (b : Bytes) :
    decodeEntry (encodeEntry p ++ b) = some (p, b) := by
  unfold decodeEntry encodeEntry
  rw [List.append_assoc, List.append_assoc, takeBytes_append (length_toBe 4 _)]
  dsimp only [bind, Option.bind]
  rw [ofBe_toBe 4 _ (lt_of_lt_of_eq hp.1 (by norm_num)), takeBytes_append rfl]
  dsimp only
  rw [fromUtf8_utf8]
  dsimp only
  rw [takeBytes_append (length_toBe 8 _)]
  dsimp only
  rw [ofBe_toBe 8 _ (lt_of_lt_of_eq hp.2 (by norm_num))]

theorem encodeEntry_ne_nil (p : String × ℕ) : encodeEntry p ≠ [] := by
  intro h
  have hlength := congrArg List.length h
  simp [encodeEntry] at hlength

theorem length_le_flatMap_encodeEntry (l : List (String × ℕ)) :
    l.length ≤ (l.flatMap encodeEntry).length := by
  induction l with
  | nil => exact Nat.le_refl 0
  | cons p l ih =>
    have hp := List.length_pos_of_ne_nil (encodeEntry_ne_nil p)
    rw [List.flatMap_cons, List.length_append, List.length_cons]
    omega

theorem decodeEntries_flatMap {l : List (String × ℕ)} (hl : ∀ p ∈ l, FitsToken p) {fuel : ℕ}
    (hfuel : l.length ≤ fuel) (map : StateMap) :
    decodeEntries fuel (l.flatMap encodeEntry) map = some (map.insertAll Prod.fst Prod.snd l) := by
  induction l generalizing fuel map with
  | nil =>
    cases fuel with
    | zero => rfl
    | succ fuel => rfl
  | cons p l ih =>
    obtain ⟨hp, hrest⟩ := List.forall_mem_cons.mp hl
    obtain ⟨fuel, rfl⟩ : ∃ n, fuel = n + 1 :=
      ⟨fuel - 1, by rw [List.length_cons] at hfuel; omega⟩
    have hdecode := decodeEntry_encodeEntry hp (l.flatMap encodeEntry)
    rw [List.flatMap_cons]
    cases hbytes : encodeEntry p ++ l.flatMap encodeEntry with
    | nil => exact absurd (List.append_eq_nil_iff.mp hbytes).1 (encodeEntry_ne_nil p)
    | cons x xs =>
      rw [hbytes] at hdecode
      unfold decodeEntries
      rw [hdecode]
      exact ih hrest (Nat.le_of_succ_le_succ hfuel) (map.insert p.1 p.2)

/-- Inserting the entries of a map one by one rebuilds it. -/
theorem insertAll_entries (map : StateMap) :
    SortedMap.empty.insertAll Prod.fst Prod.snd map.entries = map := by
  apply SortedMap.ext_get?
  intro k
  cases hget : map.get? k with
  | some v =>
    have hmem := SortedMap.get?_eq_some_iff.mp hget
    apply SortedMap.get?_insertAll_of_mem SortedMap.empty ?_ hmem
    rintro ⟨k₁, v₁⟩ h₁ ⟨k₂, v₂⟩ h₂ hkey
    have hkey' : k₁ = k₂ := hkey
    have hv₁ := SortedMap.get?_eq_some_iff.mpr h₁
    have hv₂ := SortedMap.get?_eq_some_iff.mpr h₂
    rw [hkey', hv₂] at hv₁
    exact (Option.some.inj hv₁).symm
  | none =>
    refine (SortedMap.get?_insertAll_of_forall_ne _ ?_).trans (SortedMap.get?_empty k)
    rintro ⟨k₁, v₁⟩ h₁ rfl
    have hv₁ := SortedMap.get?_eq_some_iff.mpr h₁
    rw [hget] at hv₁
    cases hv₁

/-- Only the empty map has one of the tokens that stand for no state. -/
theorem entries_eq_nil_of_token {map : StateMap}
    (h : encodeStateMap map = "" ∨ encodeStateMap map = "0") : map.entries = [] := by
  have hdecode := base64Decode_base64Encode (map.entries.flatMap encodeEntry)
  have hempty : base64Decode "" = some [] ∧ base64Decode "0" = some [] := by decide
  have hnil : map.entries.flatMap encodeEntry = [] := by
    rcases h with heq | heq
    · rw [← encodeStateMap, heq, hempty.1] at hdecode
      exact (Option.some.inj hdecode).symm
    · rw [← encodeStateMap, heq, hempty.2] at hdecode
      exact (Option.some.inj hdecode).symm
  cases hl : map.entries with
  | nil => rfl
  | cons p l =>
    rw [hl, List.flatMap_cons] at hnil
    exact absurd (List.append_eq_nil_iff.mp hnil).1 (encodeEntry_ne_nil p)

/-- A token decodes to the map it was made from. -/
theorem decodeStateMap_encodeStateMap {map : StateMap} (h : ∀ p ∈ map.entries, FitsToken p) :
    decodeStateMap (encodeStateMap map) = some map := by
  have hdecode := base64Decode_base64Encode (map.entries.flatMap encodeEntry)
  unfold decodeStateMap
  by_cases htrivial : encodeStateMap map = "" ∨ encodeStateMap map = "0"
  · have hmap := insertAll_entries map
    rw [entries_eq_nil_of_token htrivial] at hmap
    rw [if_pos (by simpa using htrivial)]
    exact congrArg some hmap
  · rw [if_neg (by simpa using htrivial)]
    dsimp only [bind, Option.bind]
    rw [encodeStateMap, hdecode]
    dsimp only
    rw [decodeEntries_flatMap h (length_le_flatMap_encodeEntry _), insertAll_entries]

/-- Tokens stand for the maps they were made from, and none of them for no state unless its map is
empty. -/
theorem stateToken_roundTrip :
    (∀ map : StateMap, (∀ p ∈ map.entries, FitsToken p) →
      decodeStateMap (encodeStateMap map) = some map) ∧
    (∀ b, base64Decode (base64Encode b) = some b) ∧
    ∀ map : StateMap, map.entries ≠ [] → encodeStateMap map ≠ "0" ∧ encodeStateMap map ≠ "" :=
  ⟨fun _ h => decodeStateMap_encodeStateMap h, base64Decode_base64Encode, fun _ hne =>
    ⟨fun h => hne (entries_eq_nil_of_token (.inr h)), fun h => hne (entries_eq_nil_of_token (.inl h))⟩⟩

theorem stateToken_roundTrip_inbox :
    let map : StateMap := SortedMap.empty.insert "INBOX" 5
    (∀ p ∈ map.entries, FitsToken p) ∧ map.entries ≠ [] ∧
      decodeStateMap (encodeStateMap map) = some map ∧ encodeStateMap map ≠ "0" ∧
      encodeStateMap map ≠ "" := by
  intro map
  have hentries : map.entries = [("INBOX", 5)] := rfl
  have hfits : ∀ p ∈ map.entries, FitsToken p := by
    rw [hentries, List.forall_mem_singleton]
    exact ⟨by decide, by decide⟩
  have hne : map.entries ≠ [] := List.cons_ne_nil _ _
  exact ⟨hfits, hne, stateToken_roundTrip.1 map hfits, stateToken_roundTrip.2.2 map hne⟩

end Token

def emailId (mailbox : String) (uid : ℕ) : String := mailbox ++ "|" ++ toString uid

/-- The last bar of an email id separates the mailbox from the UID. -/
theorem rsplitOnce_emailId (mailbox : String) (uid : ℕ) :
    rsplitOnce '|' (emailId mailbox uid) = some (mailbox, toString uid) := by
  have hbar := notMem_toDigits (c := '|') (by decide) uid
  have hid : emailId mailbox uid = String.ofList (mailbox.toList ++ '|' :: Nat.toDigits 10 uid) := by
    rw [← String.toList_inj]
    simp [emailId]
  rw [hid, rsplitOnce_append hbar, String.ofList_toList, Nat.toString_eq_ofList_toDigits]

theorem emailId_inj {mailbox mailbox' : String} {uid uid' : ℕ}
    (h : emailId mailbox uid = emailId mailbox' uid') : mailbox = mailbox' ∧ uid = uid' := by
  have hparts := rsplitOnce_emailId mailbox uid
  rw [h, rsplitOnce_emailId] at hparts
  obtain ⟨hmailbox, huid⟩ := Prod.mk.inj (Option.some.inj hparts)
  refine ⟨hmailbox.symm, (toDigits_injective ?_).symm⟩
  rw [← toList_toString, huid, toList_toString]

section Store
variable {σ : Type} [MailStore σ]

/-- The modification sequence of every mailbox. -/
def modseqs (s : σ) : StateMap :=
  (MailStore.mailboxNames s).foldl (fun map n =>
    match MailStore.mailbox s n with
    | some mb => map.insert n mb.highestModseq
    | none => map) SortedMap.empty

def jmapState (s : σ) : String := encodeStateMap (modseqs s)

/-- The live messages of a mailbox that changed since `old`, new ones or old ones. -/
def changedIds (name : String) (mb : Mailbox) (old : ℕ) (created : Bool) : List String :=
  (mb.messages.filter fun m => old < m.modseq && (decide (old < m.createdModseq) == created)).map
    fun m => emailId name m.uid

def destroyedIds (name : String) (mb : Mailbox) (old : ℕ) : List String :=
  (mb.expunged.filter fun p => old < p.2).map fun p => emailId name p.1

/-- The mailboxes of a store with their names, in order. -/
def namedMailboxes (s : σ) : List (String × Mailbox) :=
  (MailStore.mailboxNames s).filterMap fun n => (MailStore.mailbox s n).map fun mb => (n, mb)

def jmapChanges (s : σ) (obj : JmapObj) (since : String) : Option JmapChanges :=
  match decodeStateMap since with
  | none => none
  | some old =>
    let oldOf (name : String) : ℕ := (old.get? name).getD 0
    let (created, updated, destroyed) :=
      match obj with
      | .mailbox =>
        let current := (modseqs s).entries
        ((current.filter fun p => (old.get? p.1).isNone).map Prod.fst,
          (current.filter fun p => (old.get? p.1).any fun ms => p.2 ≠ ms).map Prod.fst,
          (old.entries.filter fun p => ((modseqs s).get? p.1).isNone).map Prod.fst)
      | _ =>
        ((namedMailboxes s).flatMap fun p => changedIds p.1 p.2 (oldOf p.1) true,
          (namedMailboxes s).flatMap fun p => changedIds p.1 p.2 (oldOf p.1) false,
          (namedMailboxes s).flatMap fun p => destroyedIds p.1 p.2 (oldOf p.1))
    some ⟨since, jmapState s, created, updated, destroyed, false⟩

end Store
end Dmtap.Mail
